import Labios.Adapter.Posix

/-!
# The adapter against a plain file

`PosixFile` says what the calls mean for one file: descriptors with their offsets
and the content, changed by every write at once. `Coherent` relates an adapter to
it: the store and the regions in the caches together are the content.

`CallSafe` is the condition under which a call keeps the two in step
(`call_coherent`). What it excludes is what the cache cannot keep apart: a write
that meets staged bytes which will be flushed after it, a read over bytes that
another descriptor has staged, overlapping regions that fill a read by their
lengths alone, and a close that forgets a cache.
-/

namespace Labios

/-! ## One file -/

structure PosixFile where
  fds : FdTable := {}
  content : List UInt8

namespace PosixFile

def moveTo (m : PosixFile) (updateOffset : Bool) (fd : Int) (offset : UInt64) : PosixFile :=
  if updateOffset then { m with fds := m.fds.setOffset fd offset } else m

def put (m : PosixFile) (fd : Int) (data : List UInt8) (offset : UInt64) (updateOffset : Bool) :
    CallReply × PosixFile :=
  if data = [] then ({}, m)
  else
    ({ value := data.length },
      moveTo { m with content := writeAt m.content offset.toNat data } updateOffset fd
        (offset + UInt64.ofNat data.length))

def take (m : PosixFile) (fd : Int) (count offset : UInt64) (updateOffset : Bool) :
    CallReply × PosixFile :=
  if count = 0 then ({}, m)
  else
    let data := readAt m.content offset.toNat count.toNat
    ({ value := data.length, data },
      m.moveTo updateOffset fd (offset + UInt64.ofNat data.length))

/-- A call on an open descriptor. -/
def onOpen (m : PosixFile) (fd : Int) (act : FileState → CallReply × PosixFile) :
    CallReply × PosixFile :=
  match m.fds.get fd with
  | none => ({ value := -1, errno := some .ebadf }, m)
  | some state => act state

def call (m : PosixFile) : PosixCall → CallReply × PosixFile
  | .openFile path flags fd =>
      if fd < 0 then ({ value := -1, errno := some .enomem }, m)
      else ({ value := fd }, { m with fds := (m.fds.allocate path flags fd).2 })
  | .dup oldFd newFd =>
      m.onOpen oldFd fun _ =>
        let (fd, fds) := m.fds.duplicate oldFd newFd
        ({ value := fd }, { m with fds })
  | .close fd => m.onOpen fd fun _ => ({}, { m with fds := (m.fds.release fd).2 })
  | .write fd data => m.onOpen fd fun state => m.put fd data state.offset true
  | .pwrite fd data offset => m.onOpen fd fun _ => m.put fd data offset false
  | .read fd count => m.onOpen fd fun state => m.take fd count state.offset true
  | .pread fd count offset => m.onOpen fd fun _ => m.take fd count offset false
  | .fsync fd => m.onOpen fd fun _ => ({}, m)

end PosixFile

/-! ## The condition -/

/-- A write meets no staged region but own ones that will be flushed before it:
it is staged itself, and they start before it or are replaced by it as a whole. -/
def WriteSafe (session : Session) (content : ContentManager) (fd : Int) (data : List UInt8)
    (offset : UInt64) : Prop :=
  offset.toNat + data.length < 2 ^ 64 ∧
    (∀ r ∈ content.stagedByOthers fd, ¬r.Meets offset.toNat (offset.toNat + data.length)) ∧
    ∀ r ∈ content.staged fd, r.Meets offset.toNat (offset.toNat + data.length) →
      UInt64.ofNat data.length < session.labelMinSize ∧
        (r.1 < offset.toNat ∨ r.1 = offset.toNat ∧ r.2.length ≤ data.length)

/-- Where the cache answers, the regions that it looks at hold every byte; where
it does not, what other descriptors have staged lies outside the range, and
behind it only when the store and the own regions reach its end. -/
def ReadSafe (content : ContentManager) (store : List UInt8) (fd : Int) (count offset : UInt64) :
    Prop :=
  offset.toNat + count.toNat < 2 ^ 64 ∧
    (content.Answers fd offset.toNat count.toNat →
      ∀ p ∈ List.range' offset.toNat count.toNat,
        ∃ r ∈ content.lookedAt fd offset.toNat, r.Covers p) ∧
    (¬content.Answers fd offset.toNat count.toNat →
      ∀ r ∈ content.stagedByOthers fd, r.1 + r.2.length ≤ offset.toNat ∨
        offset.toNat + count.toNat ≤ r.1 ∧
          (offset.toNat + count.toNat ≤ store.length ∨
            ∃ r' ∈ content.staged fd, offset.toNat + count.toNat ≤ r'.1 + r'.2.length))

/-- The condition on a call: files are opened under the one path, and a close
that is not the last of its state has nothing staged. -/
def CallSafe (session : Session) (path : String) (s : Adapter) : PosixCall → Prop
  | .openFile name _ _ => name = path
  | .dup _ _ => True
  | .close fd => ∀ state ∈ s.fds.get fd, state.refCount ≠ 1 → s.content.staged fd = []
  | .write fd data =>
      ∀ state ∈ s.fds.get fd, data ≠ [] → WriteSafe session s.content fd data state.offset
  | .pwrite fd data offset =>
      (s.fds.get fd).isSome → data ≠ [] → WriteSafe session s.content fd data offset
  | .read fd count =>
      ∀ state ∈ s.fds.get fd, count ≠ 0 → ReadSafe s.content (s.files path) fd count state.offset
  | .pread fd count offset =>
      (s.fds.get fd).isSome → count ≠ 0 → ReadSafe s.content (s.files path) fd count offset
  | .fsync _ => True

/-- Every call of a run meets the condition where it is made. -/
def SafeRun (session : Session) (path : String) : Adapter → List PosixCall → Prop
  | _, [] => True
  | s, c :: rest => CallSafe session path s c ∧ SafeRun session path (s.call session c).2 rest

section Decidable

variable (session : Session) (path : String) (content : ContentManager) (fd : Int)

instance WriteSafe.decidable (data : List UInt8) (offset : UInt64) :
    Decidable (WriteSafe session content fd data offset) :=
  inferInstanceAs (Decidable (_ ∧ _))

instance ReadSafe.decidable (store : List UInt8) (count offset : UInt64) :
    Decidable (ReadSafe content store fd count offset) :=
  inferInstanceAs (Decidable (_ ∧ _))

instance CallSafe.decidable (s : Adapter) : (c : PosixCall) → Decidable (CallSafe session path s c)
  | .openFile name _ _ => inferInstanceAs (Decidable (name = path))
  | .dup _ _ | .fsync _ => inferInstanceAs (Decidable True)
  | .close fd => inferInstanceAs (Decidable (∀ state ∈ s.fds.get fd, _))
  | .write fd _ | .read fd _ => inferInstanceAs (Decidable (∀ state ∈ s.fds.get fd, _))
  | .pwrite fd _ _ | .pread fd _ _ => inferInstanceAs (Decidable ((s.fds.get fd).isSome → _))

instance SafeRun.decidable : (s : Adapter) → (calls : List PosixCall) →
    Decidable (SafeRun session path s calls)
  | _, [] => inferInstanceAs (Decidable True)
  | s, c :: rest =>
      let _ := SafeRun.decidable (s.call session c).2 rest
      inferInstanceAs (Decidable (_ ∧ _))

end Decidable

/-! ## Publishing -/

variable {session : Session} {path : String} {s : Adapter} {m : PosixFile}

theorem publishWrite_files (hmax : 0 < session.maxLabelSize) (s : Adapter) (filepath : String)
    {offset : UInt64} {data : List UInt8} (hbound : offset.toNat + data.length < 2 ^ 64) :
    (s.publishWrite session filepath offset data).files =
      Function.update s.files filepath (writeAt (s.files filepath) offset.toNat data) := by
  unfold Adapter.publishWrite Adapter.publish
  rw [applyLabels_publishWrite hmax _ _ _ _ _ hbound]

/-- Regions of one file are written in their order; nothing else changes. -/
theorem publishRegions_spec (hmax : 0 < session.maxLabelSize) (filepath : String)
    {regions : List Region} (hsized : ∀ r ∈ regions, r.1 + r.2.length < 2 ^ 64) (s : Adapter) :
    (s.publishRegions session (regions.map (toFlush filepath))).files filepath =
        writeAll (s.files filepath) regions ∧
      (s.publishRegions session (regions.map (toFlush filepath))).content = s.content ∧
      (s.publishRegions session (regions.map (toFlush filepath))).fds = s.fds := by
  induction regions generalizing s with
  | nil => exact ⟨rfl, rfl, rfl⟩
  | cons r rest ih =>
      have hr := hsized r List.mem_cons_self
      have hkey : (UInt64.ofNat r.1).toNat = r.1 := by
        rw [UInt64.toNat_ofNat', Nat.mod_eq_of_lt (by omega)]
      obtain ⟨h1, h2, h3⟩ := ih (fun r' hr' => hsized r' (List.mem_cons_of_mem _ hr'))
        (s.publishWrite session filepath (UInt64.ofNat r.1) r.2)
      rw [publishWrite_files hmax s filepath (by rwa [hkey]), Function.update_self, hkey] at h1
      exact ⟨h1, h2, h3⟩

/-- The table plays no part in a flush. -/
theorem publishRegions_withFds (session : Session) (fds : FdTable) (regions : List FlushRegion)
    (s : Adapter) :
    Adapter.publishRegions session { s with fds } regions =
      { s.publishRegions session regions with fds } := by
  induction regions generalizing s with
  | nil => rfl
  | cons r rest ih => exact ih (s.publishWrite session r.filepath r.offset r.data)

theorem flushAndPublish_withFds (session : Session) (fds : FdTable) (s : Adapter) (fd : Int) :
    Adapter.flushAndPublish session { s with fds } fd =
      { s.flushAndPublish session fd with fds } :=
  publishRegions_withFds session fds (s.content.flush fd).1
    { s with content := (s.content.flush fd).2 }

/-! ## Coherence -/

/-- The adapter and the file agree. -/
structure Coherent (path : String) (s : Adapter) (m : PosixFile) : Prop where
  fds : s.fds = m.fds
  onlyFile : s.fds.OnlyFile path
  holds : s.content.Holds path
  sized : ∀ fd, ∀ r ∈ s.content.staged fd, r.1 + r.2.length < 2 ^ 64
  opened : ∀ fd, s.content.staged fd ≠ [] → s.fds.Opened fd
  represents : Represents m.content (s.files path) s.content.staged

/-- A fresh adapter over a store. -/
theorem coherent_fresh (content : ContentManager) (hempty : content.caches = ∅)
    (files : PathStore) (path : String) :
    Coherent path { content, files } { content := files path } := by
  have hlookup : ∀ fd, content.caches.lookup fd = none := by
    intro fd
    rw [hempty]
    exact AList.lookup_empty fd
  have hstaged : ∀ fd, content.staged fd = [] := by
    intro fd
    rw [ContentManager.staged, hlookup]
  refine ⟨rfl, fun fd address h => ?_, fun fd cache h => ?_, fun fd r hr => ?_, fun fd h => ?_,
    ⟨fun i r hr => ?_, fun i p b hb => ?_, fun p _ => rfl, fun p => ?_⟩⟩
  · exact absurd (h.symm.trans (AList.lookup_empty fd)) (by simp)
  · exact absurd (h.symm.trans (hlookup fd)) (by simp)
  · exact absurd hr (by simp [hstaged])
  · exact absurd (hstaged fd) h
  · exact absurd hr (by simp [hstaged])
  · exact absurd hb (by simp [hstaged, lastAt])
  · simp [hstaged]

namespace Coherent

/-- One descriptor's regions and the files change. -/
theorem restage (h : Coherent path s m) {s' : Adapter} {m' : PosixFile} (fd : Int)
    (regions : List Region) (hfds : s'.fds = s.fds) (hfds' : m'.fds = m.fds)
    (hholds : s'.content.Holds path)
    (hstaged : s'.content.staged = Function.update s.content.staged fd regions)
    (hsized : ∀ r ∈ regions, r.1 + r.2.length < 2 ^ 64)
    (hopened : regions ≠ [] → s.fds.Opened fd)
    (hrepresents : Represents m'.content (s'.files path) s'.content.staged) :
    Coherent path s' m' := by
  refine ⟨by rw [hfds, hfds', h.fds], hfds ▸ h.onlyFile, hholds, fun fd' r hr => ?_,
    fun fd' hne => ?_, hrepresents⟩
  · rw [hstaged] at hr
    by_cases hfd : fd' = fd
    · rw [hfd, Function.update_self] at hr
      exact hsized r hr
    · rw [Function.update_of_ne hfd] at hr
      exact h.sized fd' r hr
  · rw [hstaged] at hne
    rw [hfds]
    by_cases hfd : fd' = fd
    · rw [hfd, Function.update_self] at hne
      exact hfd ▸ hopened hne
    · rw [Function.update_of_ne hfd] at hne
      exact h.opened fd' hne

/-- All regions of a descriptor are published. -/
theorem publishAll (h : Coherent path s m) (hmax : 0 < session.maxLabelSize)
    {content : ContentManager} {m' : PosixFile} {fd : Int} {regions : List Region}
    (hfds' : m'.fds = m.fds) (hholds : content.Holds path)
    (hstaged : content.staged = Function.update s.content.staged fd [])
    (hsized : ∀ r ∈ regions, r.1 + r.2.length < 2 ^ 64)
    (hrepresents : Represents m'.content (s.files path)
      (Function.update s.content.staged fd regions)) :
    Coherent path (Adapter.publishRegions session { s with content }
      (regions.map (toFlush path))) m' := by
  obtain ⟨hfiles, hcontent, hfds⟩ := publishRegions_spec hmax path hsized
    { s with content }
  refine h.restage fd [] hfds hfds' ?_ ?_ (by simp) (by simp) ?_
  · rw [hcontent]
    exact hholds
  · rw [hcontent]
    exact hstaged
  · have hdrain := hrepresents.drain fd
    rw [Function.update_idem, Function.update_self] at hdrain
    rw [hcontent, hfiles, hstaged]
    exact hdrain

/-- A flush publishes what is staged and changes nothing about the file. -/
theorem flushed (h : Coherent path s m) (hmax : 0 < session.maxLabelSize) (fd : Int) :
    Coherent path (s.flushAndPublish session fd) m ∧
      (s.flushAndPublish session fd).content.staged =
        Function.update s.content.staged fd [] ∧
      (s.flushAndPublish session fd).files path =
        writeAll (s.files path) (s.content.staged fd) ∧
      (s.flushAndPublish session fd).fds = s.fds := by
  obtain ⟨content, hflush, hholds, hstaged⟩ := ContentManager.flush_eq h.holds fd
  unfold Adapter.flushAndPublish
  rw [hflush]
  dsimp only
  obtain ⟨hfiles, hcontent, hfds⟩ := publishRegions_spec hmax path (h.sized fd) { s with content }
  refine ⟨h.publishAll hmax rfl hholds hstaged (h.sized fd) ?_, ?_, hfiles, hfds⟩
  · rw [Function.update_eq_self]
    exact h.represents
  · rw [hcontent]
    exact hstaged

/-- A write that is safe reaches cache or store. -/
theorem stored (h : Coherent path s m) (hmax : 0 < session.maxLabelSize) {state : FileState}
    {fd : Int} (hget : s.fds.get fd = some state) {data : List UInt8} (hne : data ≠ [])
    {offset : UInt64} (hsafe : WriteSafe session s.content fd data offset) :
    Coherent path (s.store session state fd data offset)
      { m with content := writeAt m.content offset.toNat data } := by
  obtain ⟨hbound, hothers, hown⟩ := hsafe
  have hother : ∀ fd', fd' ≠ fd → ∀ r ∈ s.content.staged fd',
      ¬r.Meets offset.toNat (offset.toNat + data.length) :=
    fun fd' hfd r hr => hothers r (ContentManager.mem_stagedByOthers.mpr ⟨fd', hfd, hr⟩)
  unfold Adapter.store
  rw [h.onlyFile.get hget]
  by_cases hsmall : UInt64.ofNat data.length < session.labelMinSize
  · rw [if_pos hsmall]
    -- the regions behind the write do not meet it, one at its offset lies within it
    have hstage := h.represents.stage hne (s.content.staged_split fd offset.toNat)
      (fun r hr => by
        obtain ⟨hr, heq⟩ := List.mem_filter.mp hr
        have heq : r.1 = offset.toNat := by simpa using heq
        by_cases hmeets : r.Meets offset.toNat (offset.toNat + data.length)
        · rcases (hown r hr hmeets).2 with hlt | ⟨-, hle⟩
          · omega
          · omega
        · have hpos := List.length_pos_iff.mpr hne
          have hpos' := List.length_pos_iff.mpr (h.represents.nonempty fd r hr)
          unfold Region.Meets at hmeets
          omega)
      (fun r hr hmeets => by
        obtain ⟨hr, hlt⟩ := List.mem_filter.mp hr
        have hlt : offset.toNat < r.1 := by simpa using hlt
        rcases (hown r hr hmeets).2 with hlt' | ⟨heq, -⟩
        · omega
        · omega)
      hother
    change Represents _ _ (Function.update s.content.staged fd
      (s.content.afterWrite fd offset data)) at hstage
    have hsized : ∀ r ∈ s.content.afterWrite fd offset data, r.1 + r.2.length < 2 ^ 64 := by
      intro r hr
      rcases List.mem_append.mp hr with hr | hr
      · exact h.sized fd r (List.mem_filter.mp hr).1
      · rcases List.mem_cons.mp hr with rfl | hr
        · exact hbound
        · exact h.sized fd r (List.mem_filter.mp hr).1
    rcases ContentManager.cacheWrite_cases h.holds fd offset data with
      ⟨content, hwrite, hholds, hstaged⟩ | ⟨content, hwrite, hholds, hstaged⟩
    · rw [hwrite]
      rw [← hstaged] at hstage
      exact h.restage fd _ rfl rfl hholds hstaged hsized
        (fun _ => FdTable.opened_of_get hget) hstage
    · rw [hwrite]
      exact h.publishAll hmax rfl hholds hstaged hsized hstage
  · rw [if_neg hsmall]
    have hrep := h.represents.direct hne fun fd' r hr hmeets => by
      by_cases hfd : fd' = fd
      · rw [hfd] at hr
        exact hsmall (hown r hr hmeets).1
      · exact hother fd' hfd r hr hmeets
    refine ⟨h.fds, h.onlyFile, h.holds, h.sized, h.opened, ?_⟩
    rw [publishWrite_files hmax s path hbound, Function.update_self]
    exact hrep

/-- A read that is safe sees the file. -/
theorem loaded (h : Coherent path s m) (hmax : 0 < session.maxLabelSize) {state : FileState}
    {fd : Int} (hget : s.fds.get fd = some state) {count : UInt64} (hne : count ≠ 0)
    {offset : UInt64} (hsafe : ReadSafe s.content (s.files path) fd count offset) :
    (s.load session state fd count offset).1 = readAt m.content offset.toNat count.toNat ∧
      Coherent path (s.load session state fd count offset).2 m := by
  obtain ⟨hbound, hcovered, hfree⟩ := hsafe
  have hpos : 0 < count.toNat := Nat.pos_of_ne_zero fun he => hne (UInt64.toNat_inj.mp he)
  unfold Adapter.load
  rw [ContentManager.cacheRead_eq (h.sized fd) hpos hbound, h.onlyFile.get hget]
  by_cases hanswers : s.content.Answers fd offset.toNat count.toNat
  · rw [if_pos hanswers, Option.filter_some, if_pos (by simp)]
    refine ⟨?_, h⟩
    obtain ⟨front, hfront⟩ := s.content.lookedAt_suffix fd offset.toNat
    have hlast : ∀ p, offset.toNat ≤ p → p < offset.toNat + count.toNat →
        lastAt (s.content.staged fd) p = lastAt (s.content.lookedAt fd offset.toNat) p := by
      intro p hlo hhi
      rw [hfront]
      exact lastAt_append_of_covers
        (hcovered hanswers p (List.mem_range'_1.mpr ⟨hlo, hhi⟩))
    rw [h.represents.readAt_covered (i := fd) fun p hlo hhi => ?_]
    · refine List.map_congr_left fun p hp => ?_
      obtain ⟨hlo, hhi⟩ := List.mem_range'_1.mp hp
      rw [hlast p hlo hhi]
    · rw [hlast p hlo hhi]
      refine Option.ne_none_iff_exists'.mp fun hnone => ?_
      obtain ⟨r, hr, hc⟩ := hcovered hanswers p (List.mem_range'_1.mpr ⟨hlo, hhi⟩)
      exact lastAt_eq_none.mp hnone r hr hc
  · rw [if_neg hanswers, Option.filter_none]
    dsimp only
    obtain ⟨hflushed, hstaged, hfiles, -⟩ := h.flushed hmax fd
    unfold Adapter.publishRead Adapter.publish
    rw [applyLabels_publishRead hmax _ _ _ _ hbound]
    dsimp only
    refine ⟨?_, hflushed.fds, hflushed.onlyFile, hflushed.holds, hflushed.sized, hflushed.opened,
      hflushed.represents⟩
    rw [List.take_of_length_le (by unfold readAt; simp)]
    refine hflushed.represents.readAt_store fun fd' r hr => ?_
    rw [hstaged] at hr
    by_cases hfd : fd' = fd
    · rw [hfd, Function.update_self] at hr
      exact absurd hr List.not_mem_nil
    · rw [Function.update_of_ne hfd] at hr
      rcases hfree hanswers r (ContentManager.mem_stagedByOthers.mpr ⟨fd', hfd, hr⟩) with
        hend | ⟨hstart, hreach⟩
      · exact .inl hend
      · -- after the flush the store reaches the end of the range
        refine .inr ⟨hstart, ?_⟩
        have hlast : offset.toNat + count.toNat - 1 < (writeAll (s.files path)
            (s.content.staged fd)).length := by
          rw [lt_length_writeAll (h.represents.nonempty fd)]
          rcases hreach with hstore | ⟨r', hr', hend⟩
          · exact .inl (by omega)
          · exact .inr ⟨r', hr', by omega⟩
        rw [hfiles]
        omega

theorem moved (h : Coherent path s m) (updateOffset : Bool) (fd : Int) (offset : UInt64) :
    Coherent path (s.moveTo updateOffset fd offset) (m.moveTo updateOffset fd offset) := by
  cases updateOffset with
  | false => exact h
  | true =>
      refine ⟨?_, h.onlyFile.setOffset fd offset, h.holds, h.sized,
        fun fd' hne => (h.opened fd' hne).setOffset fd offset, h.represents⟩
      change s.fds.setOffset fd offset = m.fds.setOffset fd offset
      rw [h.fds]

theorem wrote (h : Coherent path s m) (hmax : 0 < session.maxLabelSize) {state : FileState}
    {fd : Int} (hget : s.fds.get fd = some state) (data : List UInt8) (offset : UInt64)
    (updateOffset : Bool) (hsafe : data ≠ [] → WriteSafe session s.content fd data offset) :
    (s.doWrite session state fd data offset updateOffset).1 =
        (m.put fd data offset updateOffset).1 ∧
      Coherent path (s.doWrite session state fd data offset updateOffset).2
        (m.put fd data offset updateOffset).2 := by
  unfold Adapter.doWrite PosixFile.put
  by_cases hne : data = []
  · rw [if_pos hne, if_pos hne]
    exact ⟨rfl, h⟩
  · rw [if_neg hne, if_neg hne]
    exact ⟨rfl, (h.stored hmax hget hne (hsafe hne)).moved updateOffset fd _⟩

theorem didRead (h : Coherent path s m) (hmax : 0 < session.maxLabelSize) {state : FileState}
    {fd : Int} (hget : s.fds.get fd = some state) (count offset : UInt64) (updateOffset : Bool)
    (hsafe : count ≠ 0 → ReadSafe s.content (s.files path) fd count offset) :
    (s.doRead session state fd count offset updateOffset).1 =
        (m.take fd count offset updateOffset).1 ∧
      Coherent path (s.doRead session state fd count offset updateOffset).2
        (m.take fd count offset updateOffset).2 := by
  unfold Adapter.doRead PosixFile.take
  by_cases hne : count = 0
  · rw [if_pos hne, if_pos hne]
    exact ⟨rfl, h⟩
  · rw [if_neg hne, if_neg hne]
    obtain ⟨hdata, hload⟩ := h.loaded hmax hget hne (hsafe hne)
    dsimp only
    rw [hdata]
    exact ⟨rfl, hload.moved updateOffset fd _⟩

/-- The last close flushes; any other close has nothing staged. -/
theorem closed (h : Coherent path s m) (hmax : 0 < session.maxLabelSize) {fd : Int}
    (hsafe : ∀ state ∈ s.fds.get fd, state.refCount ≠ 1 → s.content.staged fd = []) :
    (s.close session fd).1 = (m.call (.close fd)).1 ∧
      Coherent path (s.close session fd).2 (m.call (.close fd)).2 := by
  unfold Adapter.close PosixFile.call PosixFile.onOpen
  dsimp only
  rw [← h.fds]
  cases hget : s.fds.get fd with
  | none => exact ⟨rfl, h⟩
  | some state =>
      have hopened := FdTable.opened_of_get hget
      -- what is open apart from the descriptor stays open
      have hrest : ∀ cm : ContentManager, cm.staged = Function.update s.content.staged fd [] →
          ∀ fd', cm.staged fd' ≠ [] → (s.fds.release fd).2.Opened fd' := by
        intro cm hcm fd' hne
        rw [hcm] at hne
        by_cases hfd : fd' = fd
        · rw [hfd, Function.update_self] at hne
          exact absurd rfl hne
        · rw [Function.update_of_ne hfd] at hne
          exact (h.opened fd' hne).release hfd
      dsimp only
      rw [FdTable.release_last hget]
      by_cases hlast : state.refCount = 1
      · rw [if_pos (by simpa using hlast), flushAndPublish_withFds]
        obtain ⟨hflushed, hstaged, -, -⟩ := h.flushed hmax fd
        have hevict : ((s.flushAndPublish session fd).content.evict fd).staged =
            Function.update s.content.staged fd [] := by
          rw [ContentManager.staged_evict, hstaged, Function.update_idem]
        refine ⟨rfl, rfl, h.onlyFile.release fd, hflushed.holds.evict fd, ?_, hrest _ hevict, ?_⟩
        · dsimp only
          rw [hevict, ← hstaged]
          exact hflushed.sized
        · dsimp only
          rw [hevict, ← hstaged]
          exact hflushed.represents
      · rw [if_neg (by simpa using hlast)]
        have hnone := hsafe state hget hlast
        refine ⟨rfl, rfl, h.onlyFile.release fd, h.holds, h.sized, hrest s.content ?_,
          h.represents⟩
        rw [← hnone, Function.update_eq_self]

/-- A safe call gives the file's reply and keeps the two in step. -/
theorem call (h : Coherent path s m) (hmax : 0 < session.maxLabelSize) {c : PosixCall}
    (hsafe : CallSafe session path s c) :
    (s.call session c).1 = (m.call c).1 ∧ Coherent path (s.call session c).2 (m.call c).2 := by
  cases c with
  | openFile name flags fd =>
      have hname : name = path := hsafe
      subst hname
      unfold Adapter.call Adapter.openFile PosixFile.call
      dsimp only
      rw [← h.fds]
      by_cases hfd : fd < 0
      · have hfail : s.fds.allocate name flags fd = (-1, s.fds) := by
          unfold FdTable.allocate
          rw [if_pos hfd]
        rw [hfail, if_pos hfd]
        exact ⟨rfl, h⟩
      · have hfirst : (s.fds.allocate name flags fd).1 = fd := by
          unfold FdTable.allocate
          rw [if_neg hfd]
        rw [hfirst, if_neg hfd, if_neg hfd]
        exact ⟨rfl, rfl, h.onlyFile.allocate flags fd, h.holds, h.sized,
          fun fd' hne => (h.opened fd' hne).allocate name flags fd, h.represents⟩
  | dup oldFd newFd =>
      unfold Adapter.call Adapter.dup PosixFile.call PosixFile.onOpen
      dsimp only
      rw [← h.fds]
      cases s.fds.get oldFd with
      | none => exact ⟨rfl, h⟩
      | some state =>
          exact ⟨rfl, rfl, h.onlyFile.duplicate oldFd newFd, h.holds, h.sized,
            fun fd hne => (h.opened fd hne).duplicate oldFd newFd, h.represents⟩
  | close fd => exact h.closed hmax hsafe
  | write fd data =>
      unfold Adapter.call Adapter.write PosixFile.call PosixFile.onOpen
      dsimp only
      rw [← h.fds]
      cases hget : s.fds.get fd with
      | none => exact ⟨rfl, h⟩
      | some state => exact h.wrote hmax hget data state.offset true (hsafe state hget)
  | pwrite fd data offset =>
      unfold Adapter.call Adapter.pwrite PosixFile.call PosixFile.onOpen
      dsimp only
      rw [← h.fds]
      cases hget : s.fds.get fd with
      | none => exact ⟨rfl, h⟩
      | some state => exact h.wrote hmax hget data offset false (hsafe (by rw [hget]; rfl))
  | read fd count =>
      unfold Adapter.call Adapter.read PosixFile.call PosixFile.onOpen
      dsimp only
      rw [← h.fds]
      cases hget : s.fds.get fd with
      | none => exact ⟨rfl, h⟩
      | some state => exact h.didRead hmax hget count state.offset true (hsafe state hget)
  | pread fd count offset =>
      unfold Adapter.call Adapter.pread PosixFile.call PosixFile.onOpen
      dsimp only
      rw [← h.fds]
      cases hget : s.fds.get fd with
      | none => exact ⟨rfl, h⟩
      | some state => exact h.didRead hmax hget count offset false (hsafe (by rw [hget]; rfl))
  | fsync fd =>
      unfold Adapter.call Adapter.fsync PosixFile.call PosixFile.onOpen
      dsimp only
      rw [← h.fds]
      cases s.fds.get fd with
      | none => exact ⟨rfl, h⟩
      | some state => exact ⟨rfl, (h.flushed hmax fd).1⟩

end Coherent

end Labios
