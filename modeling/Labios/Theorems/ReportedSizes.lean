import Labios.Adapter.Tracked
import Labios.Foundation.Machine

/-!
# The size that is reported

`fstat` and `lseek(fd, 0, SEEK_END)` report the size in the catalog. A small write is in the
cache and not in the catalog until something flushes it, and `ftruncate` leaves the cache
alone: the size lags behind the writes, and a flush brings back what was cut off
(`small_write_not_reported`). The size is right at every point exactly when no write that
stays in the cache extends the file, and no flush brings a region that ends past it
(`reported_size_iff`).
-/

namespace Labios

open Foundation

/-! ## Calls through one descriptor -/

inductive SizeCall where
  | write (data : List UInt8)
  | pwrite (data : List UInt8) (offset : Int64)
  | ftruncate (length : Int64)
  | fsync
  deriving DecidableEq, Repr

/-- The length of a truncation. -/
def SizeCall.length : SizeCall → Int64
  | .ftruncate length => length
  | _ => 0

/-- The adapter, and beside it the size of the file by POSIX. -/
structure SizedFile where
  adapter : TrackedAdapter
  size : Nat

namespace SizedFile

/-- Where the descriptor stands. -/
def position (s : SizedFile) (fd : Int) : Int64 :=
  ((s.adapter.fds.get fd).elim 0 FileState.offset).toInt64

/-- The end of what a write adds to the file. POSIX refuses a range that starts before the file
or ends where `off_t` does not reach. -/
def writeEnd (off : Int64) (data : List UInt8) : Nat :=
  if data ≠ [] ∧ 0 ≤ off.toInt ∧ off.toInt + data.length < 2 ^ 63 then
    off.toInt.toNat + data.length
  else 0

def stop (s : SizedFile) (fd : Int) : SizeCall → Nat
  | .write data => writeEnd (s.position fd) data
  | .pwrite data offset => writeEnd offset data
  | .ftruncate _ => 0
  | .fsync => 0

/-- The size by POSIX after a call; a negative length is refused. -/
def posixSize (s : SizedFile) (fd : Int) (c : SizeCall) : Nat :=
  match c with
  | .ftruncate length => if length.toInt < 0 then s.size else length.toInt.toNat
  | c => max s.size (s.stop fd c)

def call (session : Session) (outcomes : Outcomes) (fd : Int) (s : TrackedAdapter) :
    SizeCall → PosixReply × TrackedAdapter
  | .write data => s.write session outcomes fd data
  | .pwrite data offset => s.pwrite session outcomes fd data offset
  | .ftruncate length => s.ftruncate fd length
  | .fsync => s.fsync session outcomes fd

def step (session : Session) (outcomes : Outcomes) (fd : Int) (s : SizedFile) (c : SizeCall) :
    SizedFile :=
  { adapter := (call session outcomes fd s.adapter c).2, size := s.posixSize fd c }

def run (session : Session) (outcomes : Outcomes) (fd : Int) (s : SizedFile)
    (calls : List SizeCall) : SizedFile :=
  calls.foldl (step session outcomes fd) s

/-- A file that was just opened, with the size that the catalog has. -/
def opened (session : Session) (metadata : String → FileMeta) (path : String) (flags : UInt32)
    (fd : Int) : SizedFile :=
  { adapter := ((TrackedAdapter.fresh session metadata).openFile path flags fd).2
    size := ((metadata path).trackOpen flags).bytes }

/-- Both calls report the size by POSIX. -/
structure Reports (s : SizedFile) (fd : Int) : Prop where
  fstat : (s.adapter.fstat fd).toOption.map Int64.toInt = some (s.size : Int)
  seekEnd : (s.adapter.lseek fd 0 2).map (fun r => r.1.value) = some (s.size : Int)

instance Reports.decidable (s : SizedFile) (fd : Int) : Decidable (s.Reports fd) :=
  decidable_of_iff ((s.adapter.fstat fd).toOption.map Int64.toInt = some (s.size : Int) ∧
      (s.adapter.lseek fd 0 2).map (fun r => r.1.value) = some (s.size : Int))
    ⟨fun h => ⟨h.1, h.2⟩, fun h => ⟨h.fstat, h.seekEnd⟩⟩

/-! ## What a call hands to the catalog -/

/-- The regions that a write publishes, from the cache or past it. -/
def written (session : Session) (s : SizedFile) (fd : Int) (data : List UInt8) (off : Int64) :
    List FlushRegion :=
  match s.adapter.fds.get fd with
  | none => []
  | some state =>
      if data = [] then [] else (s.adapter.store session state fd data off.toUInt64).1

def handed (session : Session) (s : SizedFile) (fd : Int) : SizeCall → List FlushRegion
  | .write data => s.written session fd data (s.position fd)
  | .pwrite data offset => s.written session fd data offset
  | .ftruncate _ => []
  | .fsync => (s.adapter.content.flush fd).1

/-- No region that the call publishes ends past the file, none that it keeps in the cache
extends the file, and no length is negative. -/
structure InStep (session : Session) (fd : Int) (s : SizedFile) (c : SizeCall) : Prop where
  handed : ∀ r ∈ s.handed session fd c, r.stop ≤ max s.size (s.stop fd c)
  kept : s.handed session fd c = [] → s.stop fd c ≤ s.size
  length : 0 ≤ c.length.toInt

instance InStep.decidable (session : Session) (fd : Int) (s : SizedFile) (c : SizeCall) :
    Decidable (InStep session fd s c) :=
  decidable_of_iff ((∀ r ∈ s.handed session fd c, r.stop ≤ max s.size (s.stop fd c)) ∧
      (s.handed session fd c = [] → s.stop fd c ≤ s.size) ∧ 0 ≤ c.length.toInt)
    ⟨fun h => ⟨h.1, h.2.1, h.2.2⟩, fun h => ⟨h.handed, h.kept, h.length⟩⟩

/-! ## Reports -/

/-- What holds of the file whatever the calls. -/
structure Regular (s : SizedFile) (path : String) (fd : Int) : Prop where
  oneFile : s.adapter.OneFile path fd
  there : (s.adapter.metadata path).isThere = some true
  bound : s.size < 2 ^ 63

variable {session : Session} {outcomes : Outcomes} {s : SizedFile} {path : String} {fd : Int}
  {c : SizeCall}

/-- What both calls look up. -/
theorem Regular.info (h : s.Regular path fd) :
    (s.adapter.metadata path).getFileInfo =
      some { isThere := true, size := (s.adapter.metadata path).size.getD 0 } := by
  unfold FileMeta.getFileInfo
  rw [h.there]
  rfl

/-- A size is reported if it is the one in the catalog. -/
theorem reports_iff (h : s.Regular path fd) :
    s.Reports fd ↔ (s.adapter.metadata path).bytes = s.size := by
  obtain ⟨state, hget, hpath⟩ := h.oneFile.get
  have hbound := h.bound
  have hvalue : ((s.adapter.metadata path).size.getD 0).toInt64.toInt = s.size ↔
      (s.adapter.metadata path).bytes = s.size := by
    have hlt := ((s.adapter.metadata path).size.getD 0).toNat_lt
    unfold FileMeta.bytes
    rw [toInt_toInt64_cases]
    split
    · omega
    · omega
  have hfstat : s.adapter.fstat fd = .ok ((s.adapter.metadata path).size.getD 0).toInt64 := by
    unfold TrackedAdapter.fstat TrackedAdapter.populateStat
    rw [hget]
    dsimp only
    rw [hpath, h.info]
    rfl
  constructor
  · rintro ⟨hstat, -⟩
    rw [hfstat] at hstat
    exact hvalue.mp (Option.some.inj hstat)
  · intro hsize
    have hsigned := hvalue.mpr hsize
    refine ⟨by rw [hfstat]; exact congrArg some hsigned, ?_⟩
    have hfile : s.adapter.fileSize path = ((s.adapter.metadata path).size.getD 0).toInt64 := by
      unfold TrackedAdapter.fileSize
      rw [h.info]
      rfl
    have hsum : checkedAdd (s.adapter.fileSize path) 0 = some (s.adapter.fileSize path) := by
      have hzero : (0 : Int64).toInt = 0 := rfl
      rw [checkedAdd_of_fits (by rw [hfile]; omega) (by rw [hfile]; omega), Int64.add_zero]
    unfold TrackedAdapter.lseek
    rw [hget]
    dsimp only
    rw [if_neg (by decide), if_neg (by decide), if_pos rfl, hpath, hsum, Option.map_some,
      Option.map_some, TrackedAdapter.seekTo, hfile, if_neg (by omega), hsigned]

/-! ## One call -/

theorem doWrite_spec {s : TrackedAdapter} {state : FileState} (h : s.OneFile path fd)
    (hall : ∀ n, outcomes.written n = true) (hstate : state.filepath = path) (data : List UInt8)
    (off : Int64) (updateOffset : Bool) :
    (s.doWrite session outcomes state fd data off updateOffset).2.OneFile path fd ∧
      (s.doWrite session outcomes state fd data off updateOffset).2.metadata =
        trackAll s.metadata
          (if data = [] then [] else (s.store session state fd data off.toUInt64).1) := by
  unfold TrackedAdapter.doWrite
  by_cases hdata : data = []
  · rw [if_pos hdata, if_pos hdata]
    exact ⟨h, rfl⟩
  · rw [if_neg hdata, if_neg hdata]
    obtain ⟨hfile, hmetadata, -, -⟩ := h.store hstate session data off.toUInt64
    obtain ⟨hdone, -, htracked⟩ := TrackedAdapter.publishRegions_all session hall
      (s.store session state fd data off.toUInt64).1
      (s := (s.store session state fd data off.toUInt64).2)
    dsimp only
    rw [hdone, if_pos rfl]
    refine ⟨(hfile.publishRegions session outcomes _).moveTo updateOffset _, ?_⟩
    rw [TrackedAdapter.moveTo_metadata, htracked, hmetadata]

/-- A call tracks the regions that it hands over, and a truncation sets the size. -/
theorem call_spec (session : Session) (hall : ∀ n, outcomes.written n = true)
    (h : s.adapter.OneFile path fd) (c : SizeCall) :
    (call session outcomes fd s.adapter c).2.OneFile path fd ∧
      (call session outcomes fd s.adapter c).2.metadata =
        match c with
        | .ftruncate length =>
            Function.update s.adapter.metadata path
              ((s.adapter.metadata path).trackTruncate length.toUInt64)
        | c => trackAll s.adapter.metadata (s.handed session fd c) := by
  obtain ⟨state, hget, hstate⟩ := h.get
  have hposition : s.position fd = state.offset.toInt64 := by
    unfold position
    rw [hget]
    rfl
  have hwritten : ∀ data off, s.written session fd data off =
      if data = [] then [] else (s.adapter.store session state fd data off.toUInt64).1 := by
    intro data off
    unfold written
    rw [hget]
  cases c with
  | write data =>
      simp only [call, handed, TrackedAdapter.write, hget, hposition, hwritten]
      exact doWrite_spec h hall hstate data _ true
  | pwrite data offset =>
      simp only [call, handed, TrackedAdapter.pwrite, hget, hwritten]
      exact doWrite_spec h hall hstate data offset false
  | ftruncate length =>
      simp only [call, TrackedAdapter.ftruncate, hget, hstate]
      exact ⟨⟨h.file, h.opened, h.cached⟩, rfl⟩
  | fsync =>
      simp only [call, handed, TrackedAdapter.fsync, hget]
      refine ⟨h.flushAndPublish session outcomes, ?_⟩
      unfold TrackedAdapter.flushAndPublish
      exact (TrackedAdapter.publishRegions_all session hall _).2.2

/-- What is handed over is of the file, and reaches as far as the call does. -/
theorem handed_spec (h : s.adapter.OneFile path fd) (session : Session) (c : SizeCall) :
    (∀ r ∈ s.handed session fd c, r.filepath = path) ∧
      (s.handed session fd c ≠ [] → ∃ r ∈ s.handed session fd c, s.stop fd c ≤ r.stop) := by
  obtain ⟨state, hget, hstate⟩ := h.get
  have hwrite : ∀ data off, (∀ r ∈ s.written session fd data off, r.filepath = path) ∧
      (s.written session fd data off ≠ [] →
        ∃ r ∈ s.written session fd data off, writeEnd off data ≤ r.stop) := by
    intro data off
    unfold written
    rw [hget]
    dsimp only
    by_cases hdata : data = []
    · rw [if_pos hdata]
      exact ⟨fun r hr => absurd hr List.not_mem_nil, fun hne => absurd rfl hne⟩
    · rw [if_neg hdata]
      obtain ⟨-, -, hpath, hown⟩ := h.store hstate session data off.toUInt64
      refine ⟨hpath, fun hne => ⟨_, hown hne, ?_⟩⟩
      unfold writeEnd FlushRegion.stop
      dsimp only
      split
      next hvalid =>
        obtain ⟨-, hlow, hhigh⟩ := hvalid
        have hoff := toNat_toUInt64 hlow
        have hlength : (UInt64.ofNat data.length).toNat = data.length := by
          rw [UInt64.toNat_ofNat', Nat.mod_eq_of_lt (by omega)]
        rw [toNat_add_of_bound (by omega), hlength]
        omega
      next => exact Nat.zero_le _
  cases c with
  | write data => exact hwrite data (s.position fd)
  | pwrite data offset => exact hwrite data offset
  | ftruncate length => exact ⟨fun r hr => absurd hr List.not_mem_nil, fun hne => absurd rfl hne⟩
  | fsync =>
      obtain ⟨cm, hflush, -, -⟩ := ContentManager.flush_eq h.cached fd
      unfold handed
      rw [hflush]
      refine ⟨fun r hr => ?_, fun hne => ?_⟩
      · obtain ⟨region, -, rfl⟩ := List.mem_map.mp hr
        rfl
      · obtain ⟨r, hr⟩ := List.exists_mem_of_ne_nil _ hne
        exact ⟨r, hr, Nat.zero_le _⟩

theorem writeEnd_lt (off : Int64) (data : List UInt8) : writeEnd off data < 2 ^ 63 := by
  unfold writeEnd
  split
  · omega
  · omega

theorem posixSize_lt (hbound : s.size < 2 ^ 63) (fd : Int) (c : SizeCall) :
    s.posixSize fd c < 2 ^ 63 := by
  cases c with
  | write data => exact Nat.max_lt.mpr ⟨hbound, writeEnd_lt _ data⟩
  | pwrite data offset => exact Nat.max_lt.mpr ⟨hbound, writeEnd_lt _ data⟩
  | ftruncate length =>
      have hlt := length.toInt_lt
      show (if length.toInt < 0 then s.size else length.toInt.toNat) < 2 ^ 63
      split
      · exact hbound
      · omega
  | fsync => exact Nat.max_lt.mpr ⟨hbound, Nat.two_pow_pos 63⟩

theorem Regular.step (h : s.Regular path fd) (session : Session)
    (hall : ∀ n, outcomes.written n = true) (c : SizeCall) :
    (s.step session outcomes fd c).Regular path fd := by
  obtain ⟨hfile, hmetadata⟩ := call_spec session hall h.oneFile c
  refine ⟨hfile, ?_, posixSize_lt h.bound fd c⟩
  show ((call session outcomes fd s.adapter c).2.metadata path).isThere = some true
  rw [hmetadata]
  cases c with
  | write data => exact isThere_trackAll h.there
  | pwrite data offset => exact isThere_trackAll h.there
  | ftruncate length =>
      dsimp only
      rw [Function.update_self]
      rfl
  | fsync => exact isThere_trackAll h.there

/-- The size stays right exactly when the call meets the condition. -/
theorem bytes_step_iff (hall : ∀ n, outcomes.written n = true) (h : s.Regular path fd)
    (hsize : (s.adapter.metadata path).bytes = s.size) (c : SizeCall) :
    ((s.step session outcomes fd c).adapter.metadata path).bytes =
      (s.step session outcomes fd c).size ↔ InStep session fd s c := by
  obtain ⟨-, hmetadata⟩ := call_spec session hall h.oneFile c
  obtain ⟨hpath, hreach⟩ := handed_spec h.oneFile session c
  have hbound := h.bound
  -- a call that tracks regions makes the size the greatest of their ends
  have htracks : ((trackAll s.adapter.metadata (s.handed session fd c)) path).bytes =
      max s.size (s.stop fd c) ↔
        (∀ r ∈ s.handed session fd c, r.stop ≤ max s.size (s.stop fd c)) ∧
          (s.handed session fd c = [] → s.stop fd c ≤ s.size) := by
    have hle := bytes_trackAll_le_iff s.adapter.metadata hpath
    rw [hsize] at hle
    have hself := (hle _).mp (Nat.le_refl _)
    constructor
    · intro heq
      refine ⟨((hle _).mp (Nat.le_of_eq heq)).2, fun hnil => ?_⟩
      rw [hnil] at heq
      have hsame : (s.adapter.metadata path).bytes = max s.size (s.stop fd c) := heq
      omega
    · rintro ⟨hends, hkept⟩
      refine Nat.le_antisymm ((hle _).mpr ⟨Nat.le_max_left _ _, hends⟩) (Nat.max_le.mpr
        ⟨hself.1, ?_⟩)
      by_cases hnil : s.handed session fd c = []
      · exact (hkept hnil).trans hself.1
      · obtain ⟨r, hr, hstop⟩ := hreach hnil
        exact hstop.trans (hself.2 r hr)
  show ((call session outcomes fd s.adapter c).2.metadata path).bytes = s.posixSize fd c ↔ _
  rw [hmetadata]
  cases c with
  | write data =>
      exact htracks.trans
        ⟨fun hin => ⟨hin.1, hin.2, Int.le_refl 0⟩, fun hin => ⟨hin.handed, hin.kept⟩⟩
  | pwrite data offset =>
      exact htracks.trans
        ⟨fun hin => ⟨hin.1, hin.2, Int.le_refl 0⟩, fun hin => ⟨hin.handed, hin.kept⟩⟩
  | fsync =>
      exact htracks.trans
        ⟨fun hin => ⟨hin.1, hin.2, Int.le_refl 0⟩, fun hin => ⟨hin.handed, hin.kept⟩⟩
  | ftruncate length =>
      have hbytes : (Function.update s.adapter.metadata path
          ((s.adapter.metadata path).trackTruncate length.toUInt64) path).bytes =
            length.toUInt64.toNat := by
        rw [Function.update_self]
        rfl
      have hposix : s.posixSize fd (.ftruncate length) =
          if length.toInt < 0 then s.size else length.toInt.toNat := rfl
      have hsigned := toInt_toInt64_cases length.toUInt64
      rw [Int64.toInt64_toUInt64] at hsigned
      dsimp only
      rw [hbytes, hposix]
      constructor
      · intro heq
        refine ⟨fun r hr => absurd hr List.not_mem_nil, fun _ => Nat.zero_le _, ?_⟩
        show 0 ≤ length.toInt
        by_contra hneg
        rw [if_pos (by omega)] at heq
        split at hsigned
        · omega
        · omega
      · intro hin
        have hnonneg : 0 ≤ length.toInt := hin.length
        have hvalue := toNat_toUInt64 hnonneg
        rw [if_neg (by omega)]
        omega

/-! ## Every run -/

theorem Regular.run (h : s.Regular path fd) (session : Session)
    (hall : ∀ n, outcomes.written n = true) (calls : List SizeCall) :
    (s.run session outcomes fd calls).Regular path fd := by
  induction calls generalizing s with
  | nil => exact h
  | cons c rest ih => exact ih (h.step session hall c)

theorem regular_opened (session : Session) (metadata : String → FileMeta) (path : String)
    (flags : UInt32) (hfd : 0 ≤ fd)
    (hthere : ((metadata path).trackOpen flags).isThere = some true)
    (hsize : ((metadata path).trackOpen flags).bytes < 2 ^ 63) :
    (opened session metadata path flags fd).Regular path fd := by
  refine ⟨TrackedAdapter.oneFile_openFile session metadata path flags hfd, ?_, hsize⟩
  unfold opened
  rw [TrackedAdapter.openFile_fresh session metadata path flags hfd]
  unfold TrackedAdapter.track
  dsimp only
  rw [Function.update_self]
  exact hthere

/-- **The reported size.** For every file that is there, every sequence of calls through one
descriptor of it, and all publishes succeeding: `fstat` and `lseek` to the end report the POSIX
size at every point exactly when every call meets the condition in the state it finds. -/
theorem reported_size_iff (session : Session) (outcomes : Outcomes)
    (hall : ∀ n, outcomes.written n = true) (metadata : String → FileMeta) (path : String)
    (flags : UInt32) (fd : Int) (hfd : 0 ≤ fd)
    (hthere : ((metadata path).trackOpen flags).isThere = some true)
    (hsize : ((metadata path).trackOpen flags).bytes < 2 ^ 63) (calls : List SizeCall) :
    (∀ front, front <+: calls →
        ((opened session metadata path flags fd).run session outcomes fd front).Reports fd) ↔
      Along (fun s c => some (step session outcomes fd s c)) (InStep session fd)
        (opened session metadata path flags fd) calls := by
  have hopened := regular_opened session metadata path flags hfd hthere hsize
  have hstart : ((opened session metadata path flags fd).adapter.metadata path).bytes =
      (opened session metadata path flags fd).size := by
    unfold opened
    rw [TrackedAdapter.openFile_fresh session metadata path flags hfd]
    unfold TrackedAdapter.track
    dsimp only
    rw [Function.update_self]
    rfl
  have hstep : ∀ {s : SizedFile} {c : SizeCall} {t : SizedFile},
      (s.Regular path fd ∧ (s.adapter.metadata path).bytes = s.size) →
        some (step session outcomes fd s c) = some t →
        ((t.Regular path fd ∧ (t.adapter.metadata path).bytes = t.size) ↔
          InStep session fd s c) := by
    intro s c t hs ht
    obtain rfl := Option.some.inj ht
    rw [and_iff_right (hs.1.step session hall c)]
    exact bytes_step_iff hall hs.1 hs.2 c
  have hreached := Along.iff_reached hstep ⟨hopened, hstart⟩
    (exec_some (step session outcomes fd) _ calls)
  refine Iff.trans ⟨fun hreports front t hfront ht => ?_, fun hkept front hfront => ?_⟩ hreached
  · obtain rfl := Option.some.inj ((exec_some _ _ front).symm.trans ht)
    have hregular := hopened.run session hall front
    exact ⟨hregular, (reports_iff hregular).mp (hreports front hfront)⟩
  · have hs := hkept front _ hfront (exec_some _ _ front)
    exact (reports_iff hs.1).mpr hs.2

/-- A write past the cache, a small one within the file, a flush, a truncation and a write that
grows the file again. -/
theorem size_reported_within :
    ((opened fourByteSession (fun _ => {}) "/f" oCreat 3).run fourByteSession .succeeding 3
      [.write [1, 2, 3, 4], .pwrite [5] 2, .fsync, .ftruncate 3, .pwrite [6, 7, 8, 9] 10]).Reports
        3 :=
  (reported_size_iff fourByteSession .succeeding (fun _ => rfl) (fun _ => {}) "/f" oCreat 3
    (by decide) (by decide) (by decide) _).mpr (by decide +kernel) _ (List.prefix_refl _)

/-- After a write of one byte both calls report 0. And a byte that was cut off comes back: it is
flushed after the truncation. -/
theorem small_write_not_reported :
    let s := opened fourByteSession (fun _ => {}) "/f" oCreat 3
    let written := s.run fourByteSession .succeeding 3 [.write [1]]
    let flushed := s.run fourByteSession .succeeding 3 [.write [1], .ftruncate 0, .fsync]
    (written.size = 1 ∧ written.adapter.fstat 3 = .ok 0 ∧
      (written.adapter.lseek 3 0 2).map (·.1.value) = some 0 ∧ ¬written.Reports 3) ∧
    (flushed.size = 0 ∧ flushed.adapter.fstat 3 = .ok 1 ∧ ¬flushed.Reports 3) := by
  decide +kernel

end SizedFile
end Labios
