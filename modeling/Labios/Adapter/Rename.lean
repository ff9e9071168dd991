import Labios.Adapter.Backed
import Labios.Catalog.Locations

/-!
# Rename

`rename` of `labios/adapter/posix_adapter.cpp`, with what it changes in the catalog: the
metadata of both paths, and the whole-file location. The ranged locations and the files of
the backend keep their names.
-/

namespace Labios

def oWronly : UInt32 := 1

/-- `rename` has no other failure. -/
inductive RenameErrno
  | enoent
  deriving DecidableEq, Repr

/-- What the catalog has about files, and the files of the worker. -/
structure NamedFiles where
  metadata : String → FileMeta := fun _ => {}
  locations : LocationCatalog := { whole := fun _ => none, ranged := fun _ => [] }
  backend : FileSystem := fun _ => none

namespace NamedFiles

/-! ## The catalog's functions -/

def getFileInfo (s : NamedFiles) (path : String) : Option FileInfo := (s.metadata path).getFileInfo

def track (s : NamedFiles) (path : String) (change : FileMeta → FileMeta) : NamedFiles :=
  { s with metadata := Function.update s.metadata path (change (s.metadata path)) }

/-- The whole-file `set_location`. -/
def setLocation (s : NamedFiles) (path : String) (workerId : Int) : NamedFiles :=
  { s with locations :=
    { s.locations with whole := Function.update s.locations.whole path (some workerId) } }

/-- `track_unlink`; it drops both kinds of locations. -/
def trackUnlink (s : NamedFiles) (path : String) : NamedFiles :=
  { s.track path (·.trackUnlink) with
    locations :=
      { whole := Function.update s.locations.whole path none
        ranged := Function.update s.locations.ranged path [] } }

/-! ## Rename -/

def rename (s : NamedFiles) (oldPath newPath : String) : Except RenameErrno Unit × NamedFiles :=
  match s.getFileInfo oldPath with
  | none => (.error .enoent, s)
  | some info =>
      if !info.isThere then (.error .enoent, s)
      else
        let s := s.track newPath (·.trackOpen (oCreat ||| oWronly))
        let s := s.track newPath (·.trackWrite 0 info.size)
        let s :=
          match s.locations.whole oldPath with
          | some workerId => s.setLocation newPath workerId
          | none => s
        (.ok (), s.trackUnlink oldPath)

/-- A read of a file through a descriptor that was just opened. -/
def read (session : Session) (root : String) (s : NamedFiles) (path : String)
    (offset count : UInt64) : FileReply :=
  let adapter : BackedAdapter :=
    { content := { minLabelSize := session.labelMinSize, defaultReadPolicy := session.readPolicy }
      backend := s.backend }
  (adapter.doRead session root { filepath := path } 3 count offset false).1

/-! ## What a rename does -/

variable {s : NamedFiles} {a b p : String}

/-- The file is there with some size. -/
def Has (s : NamedFiles) (path : String) : Prop := (s.metadata path).isThere = some true

theorem getFileInfo_of_has (h : s.Has a) :
    s.getFileInfo a = some { isThere := true, size := (s.metadata a).size.getD 0 } := by
  unfold getFileInfo FileMeta.getFileInfo
  rw [h]
  rfl

/-- Opened for writing and grown, the target is there with the greater of two sizes. -/
theorem trackOpen_trackWrite (m : FileMeta) (size : UInt64) :
    (m.trackOpen (oCreat ||| oWronly)).trackWrite 0 size =
      { isThere := some true,
        size := some (if m.size.getD 0 < size then size else m.size.getD 0) } := by
  have hopen : m.trackOpen (oCreat ||| oWronly) =
      { isThere := some true, size := some (m.size.getD 0) } := rfl
  rw [hopen]
  unfold FileMeta.trackWrite
  dsimp only [Option.getD_some]
  rw [UInt64.zero_add]
  split
  · rfl
  · rfl

theorem track_track (s : NamedFiles) (path : String) (first second : FileMeta → FileMeta) :
    (s.track path first).track path second = s.track path fun m => second (first m) := by
  unfold track
  dsimp only
  rw [Function.update_self, Function.update_idem]

theorem track_trackOpen_trackWrite (s : NamedFiles) (path : String) (size : UInt64) :
    s.track path (fun m => (m.trackOpen (oCreat ||| oWronly)).trackWrite 0 size) =
      { s with
        metadata := Function.update s.metadata path
          ⟨some true, some (if (s.metadata path).size.getD 0 < size then size
            else (s.metadata path).size.getD 0)⟩ } := by
  unfold track
  dsimp only
  rw [trackOpen_trackWrite]

/-- The catalog after a rename of a file that is there. -/
theorem rename_of_has (h : s.Has a) (b : String) :
    (s.rename a b).1 = .ok () ∧ (s.rename a b).2.backend = s.backend ∧
      (s.rename a b).2.metadata =
        Function.update (Function.update s.metadata b
            { isThere := some true,
              size := some (if (s.metadata b).size.getD 0 < (s.metadata a).size.getD 0 then
                (s.metadata a).size.getD 0 else (s.metadata b).size.getD 0) })
          a { isThere := some false, size := some 0 } ∧
      (s.rename a b).2.locations.whole =
        Function.update (Function.update s.locations.whole b
          ((s.locations.whole a).or (s.locations.whole b))) a none ∧
      (s.rename a b).2.locations.ranged = Function.update s.locations.ranged a [] := by
  unfold rename
  rw [getFileInfo_of_has h]
  dsimp only
  rw [if_neg (by simp), track_track, track_trackOpen_trackWrite]
  cases hwhole : s.locations.whole a with
  | none =>
      refine ⟨rfl, rfl, rfl, ?_, rfl⟩
      rw [Option.none_or, Function.update_eq_self]
      rfl
  | some workerId => exact ⟨rfl, rfl, rfl, rfl, rfl⟩

/-! ## What a read depends on -/

/-- The content of the file that a path names. -/
def content (s : NamedFiles) (path : String) : Option (List UInt8) :=
  (fileOf path).bind s.backend

end NamedFiles

/-- The labels of a read bring what is in the file, whatever its name. -/
theorem getAll_congr {root : String} {fs : FileSystem} {a b : String}
    (h : (fileOf a).bind fs = (fileOf b).bind fs) (appId : UInt32) (now offset : UInt64)
    (pieces : List (UInt64 × UInt64)) (ids : Nat → UInt64) :
    getAll root fs (pieces.mapIdx fun i piece =>
        { label := readChunk (ids i) appId now a (offset + piece.1) piece.2, staged := none }) =
      getAll root fs (pieces.mapIdx fun i piece =>
        { label := readChunk (ids i) appId now b (offset + piece.1) piece.2, staged := none }) := by
  induction pieces generalizing ids with
  | nil => rfl
  | cons piece rest ih =>
      rw [List.mapIdx_cons, List.mapIdx_cons, getAll_cons, getAll_cons]
      dsimp only
      rw [posixGet_readChunk, posixGet_readChunk, h, ih fun i => ids (i + 1)]

namespace NamedFiles

variable {s : NamedFiles} {a b : String}

/-- What `doRead` makes of what was loaded. -/
theorem reply_fst (p : Option (List UInt8) × BackedAdapter)
    (next : List UInt8 → BackedAdapter → BackedAdapter) :
    (match p with
      | (none, t) => (({ value := -1 }, t) : FileReply × BackedAdapter)
      | (some data, t) => ({ value := data.length, data }, next data t)).1 =
      match p.1 with
      | none => { value := -1 }
      | some data => { value := data.length, data } := by
  obtain ⟨found, t⟩ := p
  cases found with
  | none => rfl
  | some data => rfl

/-- Nothing is in the cache, so the labels are read. -/
theorem read_eq (s : NamedFiles) (session : Session) (root path : String) (offset count : UInt64) :
    s.read session root path offset count =
      if count = 0 then {}
      else
        match (getAll root s.backend (publishRead session.maxLabelSize session.appId
          (fun i => session.ids (0 + i)) session.now path offset count)).map
            (·.take count.toNat) with
        | none => { value := -1 }
        | some data => { value := data.length, data } := by
  unfold read BackedAdapter.doRead
  dsimp only
  by_cases hcount : count = 0
  · rw [if_pos hcount, if_pos hcount]
  · rw [if_neg hcount, if_neg hcount]
    let adapter : BackedAdapter :=
      { content := { minLabelSize := session.labelMinSize, defaultReadPolicy := session.readPolicy }
        backend := s.backend }
    have hload : (adapter.load session root { filepath := path } 3 count offset).1 =
        (getAll root s.backend (publishRead session.maxLabelSize session.appId
          (fun i => session.ids (0 + i)) session.now path offset count)).map
            (·.take count.toNat) := rfl
    rw [← hload]
    exact reply_fst (adapter.load session root { filepath := path } 3 count offset)
      fun data t => t.moveTo false 3 (offset + UInt64.ofNat data.length)

/-- Under two names for the same content every read has the same reply. -/
theorem read_congr (h : s.content a = s.content b) (session : Session) (root : String)
    (offset count : UInt64) :
    s.read session root a offset count = s.read session root b offset count := by
  rw [read_eq, read_eq]
  unfold publishRead
  rw [getAll_congr h]

end NamedFiles
end Labios
