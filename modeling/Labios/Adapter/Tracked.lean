import Labios.Adapter.Posix
import Labios.Catalog.FileMeta
import Labios.Foundation.Machine

/-!
# The POSIX adapter with offsets and sizes

`labios/adapter/posix_adapter.cpp` with the signed numbers of `off_t`, the catalog's
metadata, and a history of what went to `publish_write` and of all labels. What the rest of
the system does is not determined: a publish may fail, and a read brings any bytes
(`Outcomes`).

A signed sum that overflows is undefined, and such a call has no result. Buffers are not
null, and the catalog itself does not fail.
-/

namespace Labios

open Foundation

inductive PosixErrno where
  | ebadf
  | enomem
  | einval
  | eio
  | enoent
  deriving DecidableEq, Repr

/-- The value of a call, its `errno`, and what it put into the caller's buffer. -/
structure PosixReply where
  value : Int := 0
  errno : Option PosixErrno := none
  data : List UInt8 := []
  deriving DecidableEq, Repr

def PosixReply.fails (errno : PosixErrno) : PosixReply := { value := -1, errno := some errno }

/-- What becomes of the requests, by their number. -/
structure Outcomes where
  /-- `publish_write` goes through, and the wait for its labels where there is one. -/
  written : Nat → Bool
  /-- The bytes that `wait_read` returns, unless the read fails. -/
  read : Nat → Option (List UInt8)

structure TrackedAdapter where
  fds : FdTable := {}
  content : ContentManager
  metadata : String → FileMeta := fun _ => {}
  /-- The regions that were given to `publish_write`, in this order. -/
  writes : List FlushRegion := []
  /-- How often `publish_read` was called. -/
  reads : Nat := 0
  labels : List LabelData := []

namespace TrackedAdapter

/-! ## Labels and metadata -/

def track (s : TrackedAdapter) (filepath : String) (change : FileMeta → FileMeta) :
    TrackedAdapter :=
  { s with metadata := Function.update s.metadata filepath (change (s.metadata filepath)) }

def publishWrite (session : Session) (outcomes : Outcomes) (s : TrackedAdapter)
    (r : FlushRegion) : Bool × TrackedAdapter :=
  let labels := Labios.publishWrite session.maxLabelSize session.appId
    (fun i => session.ids (s.labels.length + i)) session.now session.buffer r.filepath r.offset
    r.data
  (outcomes.written s.writes.length,
    { s with writes := s.writes ++ [r], labels := s.labels ++ labels.map (·.label) })

def publishRead (session : Session) (outcomes : Outcomes) (s : TrackedAdapter)
    (filepath : String) (offset size : UInt64) : Option (List UInt8) × TrackedAdapter :=
  let labels := Labios.publishRead session.maxLabelSize session.appId
    (fun i => session.ids (s.labels.length + i)) session.now filepath offset size
  (outcomes.read s.reads,
    { s with reads := s.reads + 1, labels := s.labels ++ labels.map (·.label) })

/-- The loop over regions: each is published and then tracked; a failure ends it. -/
def publishRegions (session : Session) (outcomes : Outcomes) :
    TrackedAdapter → List FlushRegion → Bool × TrackedAdapter
  | s, [] => (true, s)
  | s, r :: rest =>
      let (done, s) := s.publishWrite session outcomes r
      if done then
        publishRegions session outcomes
          (s.track r.filepath (·.trackWrite r.offset (UInt64.ofNat r.data.length))) rest
      else (false, s)

def flushAndPublish (session : Session) (outcomes : Outcomes) (s : TrackedAdapter) (fd : Int) :
    Bool × TrackedAdapter :=
  let (regions, content) := s.content.flush fd
  publishRegions session outcomes { s with content } regions

/-! ## Calls -/

/-- `open`, where the operating system hands out `fd`. -/
def openFile (s : TrackedAdapter) (path : String) (flags : UInt32) (fd : Int) :
    PosixReply × TrackedAdapter :=
  let (fd, fds) := s.fds.allocate path flags fd
  if fd < 0 then (.fails .enomem, s)
  else ({ value := fd }, { s with fds }.track path (·.trackOpen flags))

/-- Only the last descriptor of a state flushes and evicts its cache. A flush that fails is
ignored. -/
def close (session : Session) (outcomes : Outcomes) (s : TrackedAdapter) (fd : Int) :
    PosixReply × TrackedAdapter :=
  match s.fds.get fd with
  | none => (.fails .ebadf, s)
  | some _ =>
      let (wasLast, fds) := s.fds.release fd
      let s := { s with fds }
      if wasLast then
        let (_, s) := s.flushAndPublish session outcomes fd
        ({}, { s with content := s.content.evict fd })
      else ({}, s)

/-- `if (update_offset) state->offset = offset`. -/
def moveTo (s : TrackedAdapter) (updateOffset : Bool) (fd : Int) (offset : UInt64) :
    TrackedAdapter :=
  if updateOffset then { s with fds := s.fds.setOffset fd offset } else s

/-- The regions that a write publishes, after its bytes went to the cache or past it. -/
def store (session : Session) (s : TrackedAdapter) (state : FileState) (fd : Int)
    (data : List UInt8) (offset : UInt64) : List FlushRegion × TrackedAdapter :=
  if UInt64.ofNat data.length < session.labelMinSize then
    let (regions, content) := s.content.cacheWrite fd state.filepath offset data
    (regions, { s with content })
  else ([{ filepath := state.filepath, offset, data }], s)

def doWrite (session : Session) (outcomes : Outcomes) (s : TrackedAdapter) (state : FileState)
    (fd : Int) (data : List UInt8) (off : Int64) (updateOffset : Bool) :
    PosixReply × TrackedAdapter :=
  if data = [] then ({}, s)
  else
    let (regions, s) := s.store session state fd data off.toUInt64
    let (done, s) := publishRegions session outcomes s regions
    if done then
      ({ value := data.length },
        s.moveTo updateOffset fd (off.toUInt64 + UInt64.ofNat data.length))
    else (.fails .eio, s)

def write (session : Session) (outcomes : Outcomes) (s : TrackedAdapter) (fd : Int)
    (data : List UInt8) : PosixReply × TrackedAdapter :=
  match s.fds.get fd with
  | none => (.fails .ebadf, s)
  | some state => s.doWrite session outcomes state fd data state.offset.toInt64 true

def pwrite (session : Session) (outcomes : Outcomes) (s : TrackedAdapter) (fd : Int)
    (data : List UInt8) (offset : Int64) : PosixReply × TrackedAdapter :=
  match s.fds.get fd with
  | none => (.fails .ebadf, s)
  | some state => s.doWrite session outcomes state fd data offset false

/-- The bytes of a read, from the cache or from the worker, unless something fails. -/
def load (session : Session) (outcomes : Outcomes) (s : TrackedAdapter) (state : FileState)
    (fd : Int) (count offset : UInt64) : Option (List UInt8) × TrackedAdapter :=
  match (s.content.cacheRead fd offset count).filter fun data => data.length = count.toNat with
  | some data => (some data, s)
  | none =>
      let (done, s) := s.flushAndPublish session outcomes fd
      if done then
        let (data, s) := s.publishRead session outcomes state.filepath offset count
        (data.map (·.take count.toNat), s)
      else (none, s)

def doRead (session : Session) (outcomes : Outcomes) (s : TrackedAdapter) (state : FileState)
    (fd : Int) (count : UInt64) (off : Int64) (updateOffset : Bool) :
    PosixReply × TrackedAdapter :=
  if count = 0 then ({}, s)
  else
    match s.load session outcomes state fd count off.toUInt64 with
    | (none, s) => (.fails .eio, s)
    | (some data, s) =>
        ({ value := data.length, data },
          s.moveTo updateOffset fd (off.toUInt64 + UInt64.ofNat data.length))

def read (session : Session) (outcomes : Outcomes) (s : TrackedAdapter) (fd : Int)
    (count : UInt64) : PosixReply × TrackedAdapter :=
  match s.fds.get fd with
  | none => (.fails .ebadf, s)
  | some state => s.doRead session outcomes state fd count state.offset.toInt64 true

def pread (session : Session) (outcomes : Outcomes) (s : TrackedAdapter) (fd : Int)
    (count : UInt64) (offset : Int64) : PosixReply × TrackedAdapter :=
  match s.fds.get fd with
  | none => (.fails .ebadf, s)
  | some state => s.doRead session outcomes state fd count offset false

/-- `state->offset = new_pos`, unless it is negative. -/
def seekTo (s : TrackedAdapter) (fd : Int) (newPos : Int64) : PosixReply × TrackedAdapter :=
  if newPos.toInt < 0 then (.fails .einval, s)
  else ({ value := newPos.toInt }, s.moveTo true fd newPos.toUInt64)

/-- The size that `SEEK_END` counts from. -/
def fileSize (s : TrackedAdapter) (filepath : String) : Int64 :=
  ((s.metadata filepath).getFileInfo.elim 0 FileInfo.size).toInt64

/-- `SEEK_SET`, `SEEK_CUR` and `SEEK_END` are 0, 1 and 2. -/
def lseek (s : TrackedAdapter) (fd : Int) (offset : Int64) (whence : Int) :
    Option (PosixReply × TrackedAdapter) :=
  match s.fds.get fd with
  | none => some (.fails .ebadf, s)
  | some state =>
      if whence = 0 then some (s.seekTo fd offset)
      else if whence = 1 then (checkedAdd state.offset.toInt64 offset).map (s.seekTo fd)
      else if whence = 2 then (checkedAdd (s.fileSize state.filepath) offset).map (s.seekTo fd)
      else some (.fails .einval, s)

def fsync (session : Session) (outcomes : Outcomes) (s : TrackedAdapter) (fd : Int) :
    PosixReply × TrackedAdapter :=
  match s.fds.get fd with
  | none => (.fails .ebadf, s)
  | some _ =>
      let (done, s) := s.flushAndPublish session outcomes fd
      (if done then {} else .fails .eio, s)

def ftruncate (s : TrackedAdapter) (fd : Int) (length : Int64) : PosixReply × TrackedAdapter :=
  match s.fds.get fd with
  | none => (.fails .ebadf, s)
  | some state => ({}, s.track state.filepath (·.trackTruncate length.toUInt64))

/-- `st_size` of `populate_stat`. -/
def populateStat (s : TrackedAdapter) (filepath : String) : Except PosixErrno Int64 :=
  match (s.metadata filepath).getFileInfo with
  | none => .error .enoent
  | some info => if !info.isThere then .error .enoent else .ok info.size.toInt64

def fstat (s : TrackedAdapter) (fd : Int) : Except PosixErrno Int64 :=
  match s.fds.get fd with
  | none => .error .ebadf
  | some state => s.populateStat state.filepath

/-- An adapter before its first call. -/
def fresh (session : Session) (metadata : String → FileMeta) : TrackedAdapter :=
  { content := { minLabelSize := session.labelMinSize, defaultReadPolicy := session.readPolicy }
    metadata }

end TrackedAdapter

/-- Writes below four bytes are cached, and everything that is published succeeds; reads find
nothing. -/
def fourByteSession : Session :=
  { labelMinSize := 4
    maxLabelSize := 8
    readPolicy := .readThrough
    appId := 1
    ids := UInt64.ofNat
    now := 0
    buffer := 0 }

def Outcomes.succeeding : Outcomes := { written := fun _ => true, read := fun _ => some [] }

/-! ## Sizes in the catalog -/

/-- The end of a region, as `track_write` computes it. -/
def FlushRegion.stop (r : FlushRegion) : Nat := (r.offset + UInt64.ofNat r.data.length).toNat

/-- The size of a file. -/
def FileMeta.bytes (m : FileMeta) : Nat := (m.size.getD 0).toNat

/-- The metadata after a region was tracked. -/
def trackRegion (metadata : String → FileMeta) (r : FlushRegion) : String → FileMeta :=
  Function.update metadata r.filepath
    ((metadata r.filepath).trackWrite r.offset (UInt64.ofNat r.data.length))

def trackAll (metadata : String → FileMeta) (regions : List FlushRegion) : String → FileMeta :=
  regions.foldl trackRegion metadata

theorem trackAll_cons (metadata : String → FileMeta) (r : FlushRegion)
    (rest : List FlushRegion) :
    trackAll metadata (r :: rest) = trackAll (trackRegion metadata r) rest := rfl

theorem bytes_trackWrite_le_iff (m : FileMeta) (r : FlushRegion) (k : Nat) :
    (m.trackWrite r.offset (UInt64.ofNat r.data.length)).bytes ≤ k ↔ m.bytes ≤ k ∧ r.stop ≤ k := by
  unfold FileMeta.trackWrite FileMeta.bytes FlushRegion.stop
  dsimp only
  split
  next hlt =>
    rw [UInt64.lt_iff_toNat_lt] at hlt
    rw [Option.getD_some]
    omega
  next hge =>
    rw [UInt64.lt_iff_toNat_lt] at hge
    omega

section Sizes

variable {metadata : String → FileMeta} {path : String} {regions : List FlushRegion}

/-- The size becomes the greatest of the ends and of what it was. -/
theorem bytes_trackAll_le_iff (metadata : String → FileMeta)
    (hpath : ∀ r ∈ regions, r.filepath = path) (k : Nat) :
    (trackAll metadata regions path).bytes ≤ k ↔
      (metadata path).bytes ≤ k ∧ ∀ r ∈ regions, r.stop ≤ k := by
  induction regions generalizing metadata with
  | nil => simp [trackAll]
  | cons r rest ih =>
      rw [trackAll_cons, ih _ fun r' hr' => hpath r' (List.mem_cons_of_mem r hr'), trackRegion,
        hpath r List.mem_cons_self, Function.update_self, bytes_trackWrite_le_iff,
        List.forall_mem_cons, and_assoc]

/-- Tracking keeps a file there. -/
theorem isThere_trackAll (hthere : (metadata path).isThere = some true) :
    (trackAll metadata regions path).isThere = some true := by
  induction regions generalizing metadata with
  | nil => exact hthere
  | cons r rest ih =>
      rw [trackAll_cons]
      refine ih ?_
      unfold trackRegion
      by_cases hr : path = r.filepath
      · rw [← hr, Function.update_self]
        rfl
      · rw [Function.update_of_ne hr]
        exact hthere

end Sizes

namespace TrackedAdapter

/-! ## What is published -/

variable {session : Session} {outcomes : Outcomes} {s : TrackedAdapter}

@[simp] theorem publishRegions_fds (session : Session) (outcomes : Outcomes) (s : TrackedAdapter)
    (regions : List FlushRegion) :
    (publishRegions session outcomes s regions).2.fds = s.fds := by
  induction regions generalizing s with
  | nil => rfl
  | cons r rest ih =>
      rw [publishRegions]
      dsimp only
      split
      · exact ih _
      · rfl

@[simp] theorem publishRegions_content (session : Session) (outcomes : Outcomes)
    (s : TrackedAdapter) (regions : List FlushRegion) :
    (publishRegions session outcomes s regions).2.content = s.content := by
  induction regions generalizing s with
  | nil => rfl
  | cons r rest ih =>
      rw [publishRegions]
      dsimp only
      split
      · exact ih _
      · rfl

/-- Where no publish fails, every region is published and tracked. -/
theorem publishRegions_all (session : Session) (hall : ∀ n, outcomes.written n = true)
    (regions : List FlushRegion) :
    (publishRegions session outcomes s regions).1 = true ∧
      (publishRegions session outcomes s regions).2.writes = s.writes ++ regions ∧
      (publishRegions session outcomes s regions).2.metadata = trackAll s.metadata regions := by
  induction regions generalizing s with
  | nil => exact ⟨rfl, (List.append_nil _).symm, rfl⟩
  | cons r rest ih =>
      rw [publishRegions]
      dsimp only
      rw [show (s.publishWrite session outcomes r).1 = true from hall _, if_pos rfl]
      obtain ⟨hdone, hwrites, hmetadata⟩ := ih (s := ((s.publishWrite session outcomes r).2.track
        r.filepath (·.trackWrite r.offset (UInt64.ofNat r.data.length))))
      refine ⟨hdone, hwrites.trans ?_, hmetadata⟩
      show (s.writes ++ [r]) ++ rest = _
      rw [List.append_assoc]
      rfl

@[simp] theorem store_fds (session : Session) (s : TrackedAdapter) (state : FileState) (fd : Int)
    (data : List UInt8) (offset : UInt64) :
    (s.store session state fd data offset).2.fds = s.fds := by
  unfold store
  split
  · rfl
  · rfl

@[simp] theorem moveTo_content (s : TrackedAdapter) (updateOffset : Bool) (fd : Int)
    (offset : UInt64) : (s.moveTo updateOffset fd offset).content = s.content := by
  unfold moveTo
  split
  · rfl
  · rfl

@[simp] theorem moveTo_metadata (s : TrackedAdapter) (updateOffset : Bool) (fd : Int)
    (offset : UInt64) : (s.moveTo updateOffset fd offset).metadata = s.metadata := by
  unfold moveTo
  split
  · rfl
  · rfl

/-! ## One file behind one descriptor -/

/-- The descriptor is open, and all that is open or cached is the one file. -/
structure OneFile (s : TrackedAdapter) (path : String) (fd : Int) : Prop where
  file : s.fds.OnlyFile path
  opened : s.fds.Opened fd
  cached : s.content.Holds path

section OneFile

variable {path : String} {fd : Int} {state : FileState}

theorem OneFile.get (h : s.OneFile path fd) :
    ∃ state, s.fds.get fd = some state ∧ state.filepath = path := by
  obtain ⟨address, haddress⟩ := Option.ne_none_iff_exists'.mp h.opened
  exact ⟨s.fds.states address, by rw [FdTable.get, haddress]; rfl, h.file fd address haddress⟩

theorem openFile_fresh (session : Session) (metadata : String → FileMeta) (path : String)
    (flags : UInt32) (hfd : 0 ≤ fd) :
    ((fresh session metadata).openFile path flags fd).2 =
      { fresh session metadata with fds := (FdTable.allocate {} path flags fd).2 }.track path
        (·.trackOpen flags) := by
  have hallocate : (FdTable.allocate {} path flags fd).1 = fd := by
    unfold FdTable.allocate
    rw [if_neg (by omega)]
  unfold openFile
  dsimp only [fresh]
  rw [hallocate, if_neg (by omega)]

theorem oneFile_openFile (session : Session) (metadata : String → FileMeta) (path : String)
    (flags : UInt32) (hfd : 0 ≤ fd) :
    ((fresh session metadata).openFile path flags fd).2.OneFile path fd := by
  rw [openFile_fresh session metadata path flags hfd]
  refine ⟨?_, ?_, ?_⟩
  · refine FdTable.OnlyFile.allocate (fun fd' address h => ?_) flags fd
    cases h
  · show (FdTable.allocate {} path flags fd).2.table.lookup fd ≠ none
    unfold FdTable.allocate
    rw [if_neg (by omega)]
    dsimp only
    rw [AList.lookup_insert]
    exact Option.some_ne_none _
  · intro fd' cache h
    cases h

theorem OneFile.moveTo (h : s.OneFile path fd) (updateOffset : Bool) (offset : UInt64) :
    (s.moveTo updateOffset fd offset).OneFile path fd := by
  unfold TrackedAdapter.moveTo
  split
  · exact ⟨h.file.setOffset fd offset, h.opened.setOffset fd offset, h.cached⟩
  · exact h

theorem OneFile.publishRegions (h : s.OneFile path fd) (session : Session) (outcomes : Outcomes)
    (regions : List FlushRegion) :
    (publishRegions session outcomes s regions).2.OneFile path fd := by
  refine ⟨?_, ?_, ?_⟩
  · rw [publishRegions_fds]
    exact h.file
  · rw [publishRegions_fds]
    exact h.opened
  · rw [publishRegions_content]
    exact h.cached

/-- The regions that a write publishes are of the file, and if there are any, the write's own is
one of them. -/
theorem OneFile.store (h : s.OneFile path fd) (hstate : state.filepath = path) (session : Session)
    (data : List UInt8) (offset : UInt64) :
    (s.store session state fd data offset).2.OneFile path fd ∧
      (s.store session state fd data offset).2.metadata = s.metadata ∧
      (∀ r ∈ (s.store session state fd data offset).1, r.filepath = path) ∧
      ((s.store session state fd data offset).1 ≠ [] →
        { filepath := path, offset, data } ∈ (s.store session state fd data offset).1) := by
  unfold TrackedAdapter.store
  rw [hstate]
  by_cases hsmall : UInt64.ofNat data.length < session.labelMinSize
  · rw [if_pos hsmall]
    rcases ContentManager.cacheWrite_cases h.cached fd offset data with
      ⟨cm, hwrite, hholds, -⟩ | ⟨cm, hwrite, hholds, -⟩
    · rw [hwrite]
      exact ⟨⟨h.file, h.opened, hholds⟩, rfl, fun r hr => absurd hr List.not_mem_nil,
        fun hne => absurd rfl hne⟩
    · rw [hwrite]
      refine ⟨⟨h.file, h.opened, hholds⟩, rfl, fun r hr => ?_, fun _ => ?_⟩
      · obtain ⟨region, -, rfl⟩ := List.mem_map.mp hr
        rfl
      · refine List.mem_map.mpr ⟨_, ContentManager.mem_afterWrite.mpr (.inl rfl), ?_⟩
        unfold toFlush
        rw [UInt64.ofNat_toNat]
  · rw [if_neg hsmall]
    refine ⟨h, rfl, fun r hr => ?_, fun _ => List.mem_singleton.mpr rfl⟩
    rw [List.mem_singleton.mp hr]

theorem OneFile.flushAndPublish (h : s.OneFile path fd) (session : Session)
    (outcomes : Outcomes) : (s.flushAndPublish session outcomes fd).2.OneFile path fd := by
  obtain ⟨cm, hflush, hholds, -⟩ := ContentManager.flush_eq h.cached fd
  unfold TrackedAdapter.flushAndPublish
  rw [hflush]
  have hfile : OneFile { s with content := cm } path fd := ⟨h.file, h.opened, hholds⟩
  exact hfile.publishRegions session outcomes _

/-- Where no publish fails, a flush publishes what its descriptor has in the cache. -/
theorem flushAndPublish_all (session : Session) (hall : ∀ n, outcomes.written n = true)
    (hcached : s.content.Holds path) (fd : Int) :
    (s.flushAndPublish session outcomes fd).2.fds = s.fds ∧
      (s.flushAndPublish session outcomes fd).2.content.Holds path ∧
      (s.flushAndPublish session outcomes fd).2.content.staged =
        Function.update s.content.staged fd [] ∧
      (s.flushAndPublish session outcomes fd).2.writes =
        s.writes ++ (s.content.staged fd).map (toFlush path) := by
  obtain ⟨cm, hflush, hholds, hstaged⟩ := ContentManager.flush_eq hcached fd
  unfold TrackedAdapter.flushAndPublish
  rw [hflush]
  dsimp only
  rw [publishRegions_fds, publishRegions_content]
  exact ⟨rfl, hholds, hstaged, (publishRegions_all session hall _).2.1⟩

end OneFile

end TrackedAdapter
end Labios
