import Labios.Adapter.Posix

/-!
# Flushes that fail

The calls that take regions out of the cache, where publishing a region or
waiting for it may throw. The cache is emptied before the first region is
published, and the first exception ends the loop over them.

`flush_and_publish` waits for every region, `do_write` only with `sync_mode`. The
calls report `EIO` by `-1`; `close` swallows the exception.
-/

namespace Labios

/-- How the attempt to publish a region ends. -/
inductive Fate where
  | published
  | publishThrows
  | waitThrows
  deriving DecidableEq, Repr

def Fate.throws (waits : Bool) : Fate → Bool
  | .published => false
  | .publishThrows => true
  | .waitThrows => waits

/-- The loop over the regions of a flush: those that were published, and whether
it came to its end. -/
def publishEach (waits : Bool) (fate : Nat → Fate) : List FlushRegion → List FlushRegion × Bool
  | [] => ([], true)
  | region :: rest =>
      if (fate 0).throws waits then ([], false)
      else
        let (published, done) := publishEach waits (fun i => fate (i + 1)) rest
        (region :: published, done)

/-- No exception up to the given region. -/
def NoneThrows (waits : Bool) (fate : Nat → Fate) (count : Nat) : Prop :=
  ∀ i < count, (fate i).throws waits = false

instance (waits : Bool) (fate : Nat → Fate) (count : Nat) :
    Decidable (NoneThrows waits fate count) :=
  inferInstanceAs (Decidable (∀ i < count, _))

/-! ## Calls -/

/-- A call under failures: its value, what it leaves behind, and the regions that
it published. -/
structure Attempt where
  value : Int
  fds : FdTable
  content : ContentManager
  published : List FlushRegion := []

namespace Adapter

/-- `flush_and_publish`; the value is that of a call that passes the exception on. -/
def flushWith (fate : Nat → Fate) (s : Adapter) (fd : Int) : Bool × Attempt :=
  let (regions, content) := s.content.flush fd
  let (published, done) := publishEach true fate regions
  (done, { value := if done then 0 else -1, fds := s.fds, content, published })

def fsyncWith (fate : Nat → Fate) (s : Adapter) (fd : Int) : Attempt :=
  match s.fds.get fd with
  | none => { value := -1, fds := s.fds, content := s.content }
  | some _ => (s.flushWith fate fd).2

/-- The exception of the last close is caught, and the entry is evicted either way. -/
def closeWith (fate : Nat → Fate) (s : Adapter) (fd : Int) : Attempt :=
  match s.fds.get fd with
  | none => { value := -1, fds := s.fds, content := s.content }
  | some _ =>
      let (wasLast, fds) := s.fds.release fd
      let s := { s with fds }
      if wasLast then
        let attempt := (s.flushWith fate fd).2
        { attempt with value := 0, content := attempt.content.evict fd }
      else { value := 0, fds := s.fds, content := s.content }

/-- `if (update_offset) state->offset = offset`. -/
def seekTo (fds : FdTable) (updateOffset : Bool) (fd : Int) (offset : UInt64) : FdTable :=
  if updateOffset then fds.setOffset fd offset else fds

/-- `do_write`; a write that is not small publishes one region past the cache. -/
def doWriteWith (session : Session) (fate : Nat → Fate) (s : Adapter) (state : FileState)
    (fd : Int) (data : List UInt8) (offset : UInt64) (updateOffset : Bool) : Attempt :=
  if data = [] then { value := 0, fds := s.fds, content := s.content }
  else
    let (regions, content) :=
      if UInt64.ofNat data.length < session.labelMinSize then
        s.content.cacheWrite fd state.filepath offset data
      else ([{ filepath := state.filepath, offset, data }], s.content)
    let (published, done) := publishEach state.syncMode fate regions
    if done then
      { value := data.length
        fds := seekTo s.fds updateOffset fd (offset + UInt64.ofNat data.length)
        content
        published }
    else { value := -1, fds := s.fds, content, published }

/-- `do_read`; `arrived` is the length of the data of the read labels, unless they fail. -/
def doReadWith (fate : Nat → Fate) (arrived : Option Nat) (s : Adapter) (fd : Int)
    (count offset : UInt64) (updateOffset : Bool) : Attempt :=
  if count = 0 then { value := 0, fds := s.fds, content := s.content }
  else
    match (s.content.cacheRead fd offset count).filter fun data => data.length = count.toNat with
    | some _ =>
        { value := count.toNat
          fds := seekTo s.fds updateOffset fd (offset + count)
          content := s.content }
    | none =>
        let (done, attempt) := s.flushWith fate fd
        if done then
          match arrived with
          | none => { attempt with value := -1 }
          | some size =>
              let bytes := min size count.toNat
              { attempt with
                value := bytes
                fds := seekTo s.fds updateOffset fd (offset + UInt64.ofNat bytes) }
        else attempt

end Adapter

/-! ## The loop -/

/-- The regions split at the first one that throws. -/
theorem publishEach_split (waits : Bool) (fate : Nat → Fate) (regions : List FlushRegion) :
    ∃ front back, regions = front ++ back ∧
      publishEach waits fate regions = (front, back.isEmpty) ∧
      NoneThrows waits fate front.length ∧
      (back ≠ [] → (fate front.length).throws waits = true) := by
  induction regions generalizing fate with
  | nil => exact ⟨[], [], rfl, rfl, fun i hi => absurd hi (Nat.not_lt_zero i), fun h => absurd rfl h⟩
  | cons region rest ih =>
      rw [publishEach]
      by_cases hthrows : (fate 0).throws waits = true
      · rw [if_pos hthrows]
        exact ⟨[], region :: rest, rfl, rfl, fun i hi => absurd hi (Nat.not_lt_zero i),
          fun _ => hthrows⟩
      · obtain ⟨front, back, rfl, hrun, hnone, hback⟩ := ih fun i => fate (i + 1)
        rw [if_neg hthrows, hrun]
        refine ⟨region :: front, back, rfl, rfl, fun i hi => ?_, hback⟩
        cases i with
        | zero => simpa using hthrows
        | succ i => exact hnone i (Nat.lt_of_succ_lt_succ hi)

/-- The loop comes to its end exactly when nothing throws. -/
theorem noneThrows_iff {waits : Bool} {fate : Nat → Fate} {front back : List FlushRegion}
    (hnone : NoneThrows waits fate front.length)
    (hback : back ≠ [] → (fate front.length).throws waits = true) :
    NoneThrows waits fate (front ++ back).length ↔ back = [] := by
  constructor
  · intro h
    by_contra hne
    have hpos : 0 < back.length := List.length_pos_of_ne_nil hne
    have := h front.length (by rw [List.length_append]; omega)
    rw [hback hne] at this
    cases this
  · rintro rfl
    rw [List.append_nil]
    exact hnone

theorem publishEach_all {waits : Bool} {fate : Nat → Fate} {regions : List FlushRegion}
    (h : NoneThrows waits fate regions.length) : publishEach waits fate regions = (regions, true) := by
  obtain ⟨front, back, rfl, hrun, hnone, hback⟩ := publishEach_split waits fate regions
  obtain rfl := (noneThrows_iff hnone hback).mp h
  rw [hrun, List.append_nil]
  rfl

/-! ## Without failures -/

/-- An attempt ends like a call of the adapter on which nothing fails. -/
structure Attempt.Agrees (a : Attempt) (r : CallReply × Adapter) : Prop where
  value : a.value = r.1.value
  fds : a.fds = r.2.fds
  content : a.content = r.2.content

section Agrees

variable {fate : Nat → Fate} (session : Session) (s : Adapter) (fd : Int)

theorem flushWith_succeeds (h : ∀ i, fate i = .published) :
    s.flushWith fate fd = (true,
      { value := 0
        fds := s.fds
        content := (s.content.flush fd).2
        published := (s.content.flush fd).1 }) := by
  have hnone : NoneThrows true fate (s.content.flush fd).1.length := by
    intro i _
    rw [h i]
    rfl
  unfold Adapter.flushWith
  dsimp only
  rw [publishEach_all hnone]
  rfl

theorem fsyncWith_agrees (h : ∀ i, fate i = .published) :
    (s.fsyncWith fate fd).Agrees (s.fsync session fd) := by
  unfold Adapter.fsyncWith Adapter.fsync
  cases s.fds.get fd with
  | none => exact ⟨rfl, rfl, rfl⟩
  | some state =>
      dsimp only
      rw [flushWith_succeeds s fd h]
      exact ⟨rfl, by simp, by simp⟩

theorem closeWith_agrees (h : ∀ i, fate i = .published) :
    (s.closeWith fate fd).Agrees (s.close session fd) := by
  refine ⟨?_, ?_, ?_⟩
  · unfold Adapter.closeWith Adapter.close
    cases s.fds.get fd with
    | none => rfl
    | some state =>
        dsimp only
        cases (s.fds.release fd).1 with
        | false => rfl
        | true => rfl
  · rw [Adapter.close_fds]
    unfold Adapter.closeWith FdTable.get
    cases hopen : s.fds.table.lookup fd with
    | none =>
        unfold FdTable.release
        rw [hopen]
        rfl
    | some address =>
        dsimp only [Option.map_some]
        cases (s.fds.release fd).1 with
        | false => rfl
        | true =>
            simp only [flushWith_succeeds _ fd h]
            rfl
  · rw [Adapter.close_content]
    unfold Adapter.closeWith FdTable.get
    cases hopen : s.fds.table.lookup fd with
    | none =>
        unfold FdTable.release
        rw [hopen]
        rfl
    | some address =>
        dsimp only [Option.map_some]
        cases (s.fds.release fd).1 with
        | false => rfl
        | true =>
            simp only [flushWith_succeeds _ fd h]
            rfl

theorem doWriteWith_agrees (h : ∀ i, fate i = .published) (state : FileState)
    (data : List UInt8) (offset : UInt64) (updateOffset : Bool) :
    (s.doWriteWith session fate state fd data offset updateOffset).Agrees
      (s.doWrite session state fd data offset updateOffset) := by
  have hnone : ∀ waits count, NoneThrows waits fate count := by
    intro waits count i _
    rw [h i]
    rfl
  refine ⟨?_, ?_, ?_⟩
  · unfold Adapter.doWriteWith Adapter.doWrite
    by_cases hdata : data = []
    · rw [if_pos hdata, if_pos hdata]
    · rw [if_neg hdata, if_neg hdata]
      dsimp only
      rw [publishEach_all (hnone _ _)]
      rfl
  · rw [Adapter.doWrite_fds]
    unfold Adapter.doWriteWith
    by_cases hdata : data = []
    · simp [hdata]
    · rw [if_neg hdata]
      dsimp only
      rw [publishEach_all (hnone _ _)]
      cases updateOffset with
      | false => simp [Adapter.seekTo]
      | true => simp [Adapter.seekTo, hdata]
  · rw [Adapter.doWrite_content]
    unfold Adapter.doWriteWith
    by_cases hdata : data = []
    · simp [hdata]
    · rw [if_neg hdata]
      dsimp only
      rw [publishEach_all (hnone _ _)]
      by_cases hsmall : UInt64.ofNat data.length < session.labelMinSize
      · simp [hsmall, hdata]
      · simp [hsmall]

/-- The data of the read labels is what the store returns behind the flush. -/
theorem doReadWith_agrees (h : ∀ i, fate i = .published) (state : FileState)
    (count offset : UInt64) (updateOffset : Bool) :
    (s.doReadWith fate
      (some ((s.flushAndPublish session fd).publishRead session state.filepath offset
        count).1.length) fd count offset updateOffset).Agrees
      (s.doRead session state fd count offset updateOffset) := by
  unfold Adapter.doReadWith Adapter.doRead Adapter.load
  by_cases hcount : count = 0
  · rw [if_pos hcount, if_pos hcount]
    exact ⟨rfl, rfl, rfl⟩
  · rw [if_neg hcount, if_neg hcount]
    cases hhit : (s.content.cacheRead fd offset count).filter
        fun data => data.length = count.toNat with
    | some data =>
        have hlength : data.length = count.toNat := by
          simpa using (Option.filter_eq_some_iff.mp hhit).2
        dsimp only
        rw [hlength, UInt64.ofNat_toNat]
        cases updateOffset with
        | false => exact ⟨rfl, rfl, rfl⟩
        | true => exact ⟨rfl, rfl, rfl⟩
    | none =>
        dsimp only
        rw [flushWith_succeeds s fd h, List.length_take, Nat.min_comm]
        cases updateOffset with
        | false =>
            refine ⟨rfl, ?_, ?_⟩
            · show s.fds = (s.flushAndPublish session fd).fds
              simp
            · show (s.content.flush fd).2 = (s.flushAndPublish session fd).content
              simp
        | true =>
            refine ⟨rfl, ?_, ?_⟩
            · show s.fds.setOffset fd _ = (s.flushAndPublish session fd).fds.setOffset fd _
              simp
            · show (s.content.flush fd).2 = (s.flushAndPublish session fd).content
              simp

end Agrees

/-! ## What is lost -/

def FlushRegion.Holds (f : FlushRegion) (r : Region) : Prop :=
  f.offset = UInt64.ofNat r.1 ∧ f.data = r.2

instance (f : FlushRegion) (r : Region) : Decidable (f.Holds r) :=
  inferInstanceAs (Decidable (_ ∧ _))

/-- Every region was published. -/
def Attempt.Publishes (a : Attempt) (regions : List Region) : Prop :=
  ∀ r ∈ regions, ∃ f ∈ a.published, f.Holds r

/-- Every region was published or is in the descriptor's cache. -/
def Attempt.Secures (a : Attempt) (fd : Int) (regions : List Region) : Prop :=
  ∀ r ∈ regions, r ∈ a.content.staged fd ∨ ∃ f ∈ a.published, f.Holds r

instance (a : Attempt) (regions : List Region) : Decidable (a.Publishes regions) :=
  inferInstanceAs (Decidable (∀ r ∈ regions, _))

instance (a : Attempt) (fd : Int) (regions : List Region) : Decidable (a.Secures fd regions) :=
  inferInstanceAs (Decidable (∀ r ∈ regions, _))

/-- Offsets are 64 bits wide. -/
def ContentManager.Keyed (content : ContentManager) (fd : Int) : Prop :=
  ∀ r ∈ content.staged fd, r.1 < 2 ^ 64

instance (content : ContentManager) (fd : Int) : Decidable (content.Keyed fd) :=
  inferInstanceAs (Decidable (∀ r ∈ content.staged fd, _))

section Regions

variable {waits : Bool} {fate : Nat → Fate} {path : String} {regions front back : List Region}
  {r : Region}

theorem publishEach_regions (waits : Bool) (fate : Nat → Fate) (path : String)
    (regions : List Region) :
    ∃ front back, regions = front ++ back ∧
      publishEach waits fate (regions.map (toFlush path)) =
        (front.map (toFlush path), back.isEmpty) ∧
      NoneThrows waits fate front.length ∧
      (back ≠ [] → (fate front.length).throws waits = true) ∧
      (NoneThrows waits fate regions.length ↔ back = []) := by
  obtain ⟨front, back, hsplit, hrun, hnone, hback⟩ :=
    publishEach_split waits fate (regions.map (toFlush path))
  have hiff := noneThrows_iff hnone hback
  obtain ⟨front, back, rfl, rfl, rfl⟩ := List.map_eq_append_iff.mp hsplit
  rw [List.isEmpty_map] at hrun
  rw [List.length_map] at hnone hback
  rw [← List.map_append, List.length_map, List.map_eq_nil_iff] at hiff
  exact ⟨front, back, rfl, hrun, hnone, fun hne => hback (by simpa using hne), hiff⟩

theorem holds_toFlush (hr : r.1 < 2 ^ 64) {r' : Region} (hr' : r'.1 < 2 ^ 64) :
    (toFlush path r').Holds r ↔ r' = r := by
  unfold FlushRegion.Holds toFlush
  dsimp only
  constructor
  · rintro ⟨hoff, hdata⟩
    have hkey := congrArg UInt64.toNat hoff
    rw [UInt64.toNat_ofNat', UInt64.toNat_ofNat', Nat.mod_eq_of_lt hr, Nat.mod_eq_of_lt hr'] at hkey
    exact Prod.ext hkey hdata
  · rintro rfl
    exact ⟨rfl, rfl⟩

/-- Of the regions, exactly those up to the exception are published. -/
theorem exists_holds_iff (hfront : ∀ r ∈ front, r.1 < 2 ^ 64) (hr : r.1 < 2 ^ 64) :
    (∃ f ∈ front.map (toFlush path), f.Holds r) ↔ r ∈ front := by
  constructor
  · rintro ⟨f, hf, hholds⟩
    obtain ⟨r', hr', rfl⟩ := List.mem_map.mp hf
    rwa [← (holds_toFlush hr (hfront r' hr')).mp hholds]
  · intro hmem
    exact ⟨_, List.mem_map_of_mem hmem, (holds_toFlush hr hr).mpr rfl⟩

/-- Behind the exception nothing is published. -/
theorem not_mem_front (hsorted : (front ++ back).Pairwise fun a b => a.1 < b.1) (hr : r ∈ back) :
    r ∉ front :=
  fun hfront => lt_irrefl _ ((List.pairwise_append.mp hsorted).2.2 r hfront r hr)

end Regions

section Flush

variable {fate : Nat → Fate} {s : Adapter} {fd : Int}

theorem flushWith_spec (fate : Nat → Fate) (s : Adapter) (fd : Int) :
    ∃ path front back, s.content.staged fd = front ++ back ∧
      (s.flushWith fate fd).1 = back.isEmpty ∧
      (s.flushWith fate fd).2.value = (if back.isEmpty then 0 else -1) ∧
      (s.flushWith fate fd).2.published = front.map (toFlush path) ∧
      (s.flushWith fate fd).2.content = (s.content.flush fd).2 ∧
      (NoneThrows true fate (s.content.staged fd).length ↔ back = []) := by
  obtain ⟨path, hregions⟩ := s.content.flush_fst fd
  obtain ⟨front, back, hsplit, hrun, -, -, hiff⟩ :=
    publishEach_regions true fate path (s.content.staged fd)
  have heq : s.flushWith fate fd = (back.isEmpty,
      { value := if back.isEmpty then 0 else -1, fds := s.fds, content := (s.content.flush fd).2,
        published := front.map (toFlush path) }) := by
    unfold Adapter.flushWith
    dsimp only
    rw [hregions, hrun]
  rw [heq]
  exact ⟨path, front, back, hsplit, rfl, rfl, rfl, rfl, hiff⟩

/-- A flush publishes what was staged exactly when nothing throws. -/
theorem flushWith_publishes_iff (fate : Nat → Fate) (hkeyed : s.content.Keyed fd) :
    (s.flushWith fate fd).2.Publishes (s.content.staged fd) ↔
      NoneThrows true fate (s.content.staged fd).length := by
  obtain ⟨path, front, back, hsplit, -, -, hpublished, -, hiff⟩ := flushWith_spec fate s fd
  have hsorted := s.content.sorted_staged fd
  unfold ContentManager.Keyed at hkeyed
  rw [hiff]
  unfold Attempt.Publishes
  rw [hpublished]
  rw [hsplit] at hsorted hkeyed ⊢
  have hfront : ∀ r ∈ front, r.1 < 2 ^ 64 := fun r hr => hkeyed r (List.mem_append_left _ hr)
  constructor
  · intro hall
    refine List.eq_nil_iff_forall_not_mem.mpr fun r hr => ?_
    have hmem := List.mem_append_right front hr
    exact not_mem_front hsorted hr ((exists_holds_iff hfront (hkeyed r hmem)).mp (hall r hmem))
  · rintro rfl r hr
    rw [List.append_nil] at hr
    exact (exists_holds_iff hfront (hfront r hr)).mpr hr

/-- The cache is empty after a flush, so it secures what it publishes. -/
theorem secures_iff_publishes {a : Attempt} (hcontent : a.content.staged fd = [])
    (regions : List Region) : a.Secures fd regions ↔ a.Publishes regions := by
  unfold Attempt.Secures Attempt.Publishes
  rw [hcontent]
  simp

theorem flushWith_staged (fate : Nat → Fate) (s : Adapter) (fd : Int) :
    (s.flushWith fate fd).2.content.staged fd = [] := by
  obtain ⟨-, -, -, -, -, -, -, hcontent, -⟩ := flushWith_spec fate s fd
  rw [hcontent, ContentManager.staged_flush, Function.update_self]

/-- A flush comes to its end, and its value is `0`, when nothing throws. -/
theorem flushWith_done (fate : Nat → Fate) (s : Adapter) (fd : Int) :
    ((s.flushWith fate fd).1 = true ↔ NoneThrows true fate (s.content.staged fd).length) ∧
      ((s.flushWith fate fd).2.value = -1 ↔ ¬NoneThrows true fate (s.content.staged fd).length) := by
  obtain ⟨-, front, back, -, hdone, hvalue, -, -, hiff⟩ := flushWith_spec fate s fd
  rw [hdone, hvalue, hiff]
  cases back with
  | nil => simp
  | cons r rest => simp

end Flush

end Labios
