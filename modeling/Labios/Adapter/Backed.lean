import Labios.Adapter.Posix
import Labios.Catalog.FileMeta
import Labios.Storage.ByteFile

/-!
# The POSIX adapter over a file backend

Calls on one path with the three stores that they touch: the small-I/O cache, the
catalog's metadata, and the files of the one worker, whose backend executes the
labels in the order of their publication. A label that the backend refuses ends the
call that waits for it with `EIO`.

`unlink`, `ftruncate` and `open` with `O_TRUNC` change the metadata alone.
-/

namespace Labios

open Foundation

structure BackedAdapter where
  fds : FdTable := {}
  content : ContentManager
  metadata : String → FileMeta := fun _ => {}
  backend : FileSystem
  published : Nat := 0

/-- The value of a call, and what it put into the caller's buffer. -/
structure FileReply where
  value : Int := 0
  data : List UInt8 := []
  deriving DecidableEq, Repr

/-! ## The worker -/

/-- The labels of a write; all of them are executed, whether or not one fails. -/
def putAll (root : String) : FileSystem → List Publication → Bool × FileSystem
  | fs, [] => (true, fs)
  | fs, p :: rest =>
      let (result, fs) := posixPut root p.label (p.staged.getD []) fs
      let (done, fs) := putAll root fs rest
      (result.isOk && done, fs)

/-- The data that `wait_read` puts together, unless a label fails. -/
def getAll (root : String) (fs : FileSystem) : List Publication → Option (List UInt8)
  | [] => some []
  | p :: rest =>
      match posixGet root p.label fs with
      | .error _ => none
      | .ok data => (getAll root fs rest).map (data ++ ·)

section Worker

variable {Good : Nat → UInt8 → Prop} {root path : String} {name : List (List Char)}
  {fs : FileSystem} {maxLabelSize offset : UInt64} {data : List UInt8}

/-- A label whose data may be in the file where it goes. -/
def Publication.Brings (Good : Nat → UInt8 → Prop) (path : String) (q : Publication) : Prop :=
  q.label.destUri = "" ∧ ∃ offset length, q.label.destination = filePath path offset length ∧
    ∀ p b, offset.toNat ≤ p → (q.staged.getD [])[p - offset.toNat]? = some b → Good p b

theorem posixPut_keeps (hname : fileOf path = some name) (hzero : ∀ p, Good p 0)
    {q : Publication} (hq : q.Brings Good path)
    (hfs : ∀ p b, byteAt fs name p = some b → Good p b) :
    ∀ p b, byteAt (posixPut root q.label (q.staged.getD []) fs).2 name p = some b → Good p b := by
  obtain ⟨huri, offset, length, hdest, hgood⟩ := hq
  have hresolve : resolveDest q.label = some ((name, true), offset) := by
    unfold resolveDest
    rw [if_neg (by simpa using huri), hdest]
    show (resolvePath path).map (fun file => (file, offset)) = _
    rw [resolvePath_of_fileOf hname]
    rfl
  intro p b hb
  unfold posixPut at hb
  rw [hresolve] at hb
  dsimp only [Bool.not_true] at hb
  rw [if_neg (by simp)] at hb
  split at hb
  · rcases byteAt_put_cases hb with hold | rfl | ⟨hlo, -, hdata⟩
    · exact hfs p b hold
    · exact hzero p
    · exact hgood p b hlo hdata
  · -- the stream failed behind the open
    dsimp only at hb
    rw [byteAt, Function.update_self, Option.bind_some] at hb
    exact hfs p b (getElem?_openForPut hb)

theorem putAll_keeps (hname : fileOf path = some name) (hzero : ∀ p, Good p 0)
    {labels : List Publication} (hlabels : ∀ q ∈ labels, q.Brings Good path)
    (hfs : ∀ p b, byteAt fs name p = some b → Good p b) :
    ∀ p b, byteAt (putAll root fs labels).2 name p = some b → Good p b := by
  induction labels generalizing fs with
  | nil => exact hfs
  | cons q rest ih =>
      exact ih (fun q' hq' => hlabels q' (List.mem_cons_of_mem _ hq'))
        (posixPut_keeps hname hzero (hlabels q List.mem_cons_self) hfs)

/-- The chunks of a write bring its bytes where the write puts them. -/
theorem publishWrite_brings (hmax : 0 < maxLabelSize) (appId : UInt32) (ids : Nat → UInt64)
    (now buffer : UInt64) (hbound : offset.toNat + data.length < 2 ^ 64)
    (hgood : ∀ p b, offset.toNat ≤ p → data[p - offset.toNat]? = some b → Good p b) :
    ∀ q ∈ publishWrite maxLabelSize appId ids now buffer path offset data, q.Brings Good path := by
  have hsize : (UInt64.ofNat data.length).toNat = data.length := by
    rw [UInt64.toNat_ofNat', Nat.mod_eq_of_lt (by omega)]
  intro q hq
  obtain ⟨i, hi, rfl⟩ := List.mem_mapIdx.mp hq
  have hspec := chunkLoop_spec hmax (UInt64.ofNat data.length).toNat
    (show (0 : UInt64).toNat + (UInt64.ofNat data.length).toNat < 2 ^ 64 by
      rw [hsize, UInt64.toNat_zero]
      omega) (List.getElem_mem hi)
  generalize (chunks maxLabelSize (UInt64.ofNat data.length))[i] = chunk at hspec ⊢
  rw [hsize, UInt64.toNat_zero] at hspec
  have hstart := toNat_add_of_bound (show offset.toNat + chunk.1.toNat < 2 ^ 64 by omega)
  refine ⟨rfl, offset + chunk.1, chunk.2, rfl, fun p b hlo hb => ?_⟩
  rw [hstart] at hlo hb
  dsimp only [Option.getD_some] at hb
  refine hgood p b (by omega) ?_
  rw [List.getElem?_take] at hb
  split at hb
  · rw [List.getElem?_drop] at hb
    rwa [show p - offset.toNat = chunk.1.toNat + (p - (offset.toNat + chunk.1.toNat)) by omega]
  · cases hb

/-- What a read label brings, if it does not fail. -/
theorem posixGet_readChunk (root : String) (fs : FileSystem) (id : UInt64) (appId : UInt32)
    (now : UInt64) (path : String) (offset size : UInt64) :
    (posixGet root (readChunk id appId now path offset size) fs).toOption =
      ((fileOf path).bind fs).bind fun content =>
        if !seekable offset then none
        else if size = 0 then
          if content.length < offset.toNat then none else some (content.drop offset.toNat)
        else some ((content.drop offset.toNat).take size.toNat) := by
  have hsource : resolveSource (readChunk id appId now path offset size) =
      (resolvePath path).map fun file => (file, offset) := rfl
  unfold posixGet fileOf
  rw [hsource]
  cases resolvePath path with
  | none => rfl
  | some file =>
      obtain ⟨name, isFile⟩ := file
      cases isFile with
      | false => rfl
      | true =>
          dsimp only [Option.map_some]
          rw [if_pos rfl]
          show _ = (fs name).bind _
          cases fs name with
          | none => rfl
          | some content =>
              dsimp only [Option.bind_some]
              show (if (!seekable offset) = true then _ else
                if size = 0 then _ else _ : Except String (List UInt8)).toOption = _
              split
              · rfl
              · split
                · split
                  · rfl
                  · rfl
                · rfl

theorem getAll_cons (root : String) (fs : FileSystem) (p : Publication) (rest : List Publication) :
    getAll root fs (p :: rest) =
      (posixGet root p.label fs).toOption.bind fun data =>
        (getAll root fs rest).map (data ++ ·) := by
  rw [getAll]
  cases posixGet root p.label fs with
  | error text => rfl
  | ok data => rfl

/-- A chunk brings its piece of the file. -/
theorem posixGet_reads {id : UInt64} {appId : UInt32} {now start size : UInt64}
    {front : List UInt8} (hpos : 0 < size.toNat)
    (h : (posixGet root (readChunk id appId now path start size) fs).toOption = some front) :
    ∃ name content, fileOf path = some name ∧ fs name = some content ∧
      readAt content start.toNat size.toNat = front := by
  rw [posixGet_readChunk] at h
  obtain ⟨content, hcontent, hread⟩ := Option.bind_eq_some_iff.mp h
  obtain ⟨name, hname, hfs⟩ := Option.bind_eq_some_iff.mp hcontent
  refine ⟨name, content, hname, hfs, ?_⟩
  have hne : size ≠ 0 := by
    rintro rfl
    exact absurd hpos (by decide)
  simp only [if_neg hne] at hread
  split at hread
  · cases hread
  · exact Option.some.inj hread

/-- The chunks of a read, if none fails, are a piece of the file. -/
theorem getAll_reads (hmax : 0 < maxLabelSize) (appId : UInt32) (now : UInt64) (fuel : Nat)
    (ids : Nat → UInt64) (pos remaining : UInt64)
    (hbound : offset.toNat + pos.toNat + remaining.toNat < 2 ^ 64) {bytes : List UInt8}
    (h : getAll root fs ((chunkLoop maxLabelSize fuel pos remaining).mapIdx fun i chunk =>
        { label := readChunk (ids i) appId now path (offset + chunk.1) chunk.2
          staged := none }) = some bytes) (p : Nat) (b : UInt8) (hb : bytes[p]? = some b) :
    ∃ name, fileOf path = some name ∧ byteAt fs name (offset.toNat + pos.toNat + p) = some b := by
  induction fuel generalizing ids pos remaining bytes p with
  | zero =>
      obtain rfl := Option.some.inj h
      cases hb
  | succ fuel ih =>
      by_cases hrem : remaining = 0
      · subst hrem
        rw [chunkLoop, if_pos (by simp)] at h
        obtain rfl := Option.some.inj h
        cases hb
      · obtain ⟨size, hpos, hle, hloop⟩ := chunkLoop_cons hmax fuel pos hrem
        have hadd := toNat_add_of_bound (show pos.toNat + size.toNat < 2 ^ 64 by omega)
        have hsub := toNat_sub_of_bound hle
        have hoff := toNat_add_of_bound (show offset.toNat + pos.toNat < 2 ^ 64 by omega)
        rw [hloop, List.mapIdx_cons, getAll_cons] at h
        obtain ⟨front, hfront, hrest⟩ := Option.bind_eq_some_iff.mp h
        obtain ⟨back, hback, rfl⟩ := Option.map_eq_some_iff.mp hrest
        obtain ⟨name, content, hname, hcontent, rfl⟩ := posixGet_reads hpos hfront
        rw [hoff] at hb
        by_cases hp : p < (readAt content (offset.toNat + pos.toNat) size.toNat).length
        · rw [List.getElem?_append_left hp, getElem?_readAt] at hb
          split at hb
          · exact ⟨name, hname, by rw [byteAt, hcontent]; exact hb⟩
          · cases hb
        · rw [List.getElem?_append_right (Nat.le_of_not_lt hp)] at hb
          obtain ⟨name', hname', hbyte⟩ := ih (fun i => ids (i + 1)) (pos + size)
            (remaining - size) (by omega) hback _ hb
          rw [hname] at hname'
          obtain rfl := Option.some.inj hname'
          rw [hadd] at hbyte
          -- a short chunk ends the file
          by_cases hfull : (readAt content (offset.toNat + pos.toNat) size.toNat).length =
              size.toNat
          · rw [hfull] at hbyte
            refine ⟨name, hname, ?_⟩
            rwa [show offset.toNat + pos.toNat + p =
              offset.toNat + (pos.toNat + size.toNat) + (p - size.toNat) by omega]
          · exfalso
            have hshort : content.length < offset.toNat + pos.toNat + size.toNat := by
              unfold readAt at hfull
              rw [List.length_take, List.length_drop] at hfull
              omega
            rw [byteAt, hcontent, Option.bind_some, List.getElem?_eq_none (by omega)] at hbyte
            cases hbyte

theorem publishRead_bytes (hmax : 0 < maxLabelSize) (appId : UInt32) (ids : Nat → UInt64)
    (now size : UInt64) (hbound : offset.toNat + size.toNat < 2 ^ 64) {bytes : List UInt8}
    (h : getAll root fs (publishRead maxLabelSize appId ids now path offset size) = some bytes)
    {p : Nat} {b : UInt8} (hb : bytes[p]? = some b) :
    ∃ name, fileOf path = some name ∧ byteAt fs name (offset.toNat + p) = some b := by
  have hread := getAll_reads hmax appId now size.toNat ids 0 size
    (show offset.toNat + (0 : UInt64).toNat + size.toNat < 2 ^ 64 by simpa using hbound) h p b hb
  rwa [UInt64.toNat_zero, Nat.add_zero] at hread

end Worker

namespace BackedAdapter

/-! ## Calls -/

def track (s : BackedAdapter) (filepath : String) (change : FileMeta → FileMeta) : BackedAdapter :=
  { s with metadata := Function.update s.metadata filepath (change (s.metadata filepath)) }

def publishWrite (session : Session) (root : String) (s : BackedAdapter) (filepath : String)
    (offset : UInt64) (data : List UInt8) : Bool × BackedAdapter :=
  let labels := Labios.publishWrite session.maxLabelSize session.appId
    (fun i => session.ids (s.published + i)) session.now session.buffer filepath offset data
  let (done, backend) := putAll root s.backend labels
  (done, { s with backend, published := s.published + labels.length })

def publishRead (session : Session) (root : String) (s : BackedAdapter) (filepath : String)
    (offset size : UInt64) : Option (List UInt8) × BackedAdapter :=
  let labels := Labios.publishRead session.maxLabelSize session.appId
    (fun i => session.ids (s.published + i)) session.now filepath offset size
  (getAll root s.backend labels, { s with published := s.published + labels.length })

/-- The loop over flushed regions; where it waits, a failure ends it. -/
def publishRegions (session : Session) (root : String) (waits : Bool) :
    BackedAdapter → List FlushRegion → Bool × BackedAdapter
  | s, [] => (true, s)
  | s, r :: rest =>
      let (done, s) := s.publishWrite session root r.filepath r.offset r.data
      if waits && !done then (false, s)
      else
        publishRegions session root waits
          (s.track r.filepath (·.trackWrite r.offset (UInt64.ofNat r.data.length))) rest

def flushAndPublish (session : Session) (root : String) (s : BackedAdapter) (fd : Int) :
    Bool × BackedAdapter :=
  let (regions, content) := s.content.flush fd
  publishRegions session root true { s with content } regions

def moveTo (s : BackedAdapter) (updateOffset : Bool) (fd : Int) (offset : UInt64) : BackedAdapter :=
  if updateOffset then { s with fds := s.fds.setOffset fd offset } else s

/-- The bytes of a write, to the cache or to the worker. -/
def store (session : Session) (root : String) (s : BackedAdapter) (state : FileState) (fd : Int)
    (data : List UInt8) (offset : UInt64) : Bool × BackedAdapter :=
  if UInt64.ofNat data.length < session.labelMinSize then
    let (regions, content) := s.content.cacheWrite fd state.filepath offset data
    publishRegions session root state.syncMode { s with content } regions
  else
    publishRegions session root state.syncMode s [{ filepath := state.filepath, offset, data }]

def doWrite (session : Session) (root : String) (s : BackedAdapter) (state : FileState) (fd : Int)
    (data : List UInt8) (offset : UInt64) (updateOffset : Bool) : FileReply × BackedAdapter :=
  if data = [] then ({}, s)
  else
    let (done, s) := s.store session root state fd data offset
    if done then
      ({ value := data.length }, s.moveTo updateOffset fd (offset + UInt64.ofNat data.length))
    else ({ value := -1 }, s)

/-- The bytes of a read, from the cache or from the worker, unless a label fails. -/
def load (session : Session) (root : String) (s : BackedAdapter) (state : FileState) (fd : Int)
    (count offset : UInt64) : Option (List UInt8) × BackedAdapter :=
  match (s.content.cacheRead fd offset count).filter fun data => data.length = count.toNat with
  | some data => (some data, s)
  | none =>
      let (done, s) := s.flushAndPublish session root fd
      if done then
        let (data, s) := s.publishRead session root state.filepath offset count
        (data.map (·.take count.toNat), s)
      else (none, s)

def doRead (session : Session) (root : String) (s : BackedAdapter) (state : FileState) (fd : Int)
    (count offset : UInt64) (updateOffset : Bool) : FileReply × BackedAdapter :=
  if count = 0 then ({}, s)
  else
    match s.load session root state fd count offset with
    | (none, s) => ({ value := -1 }, s)
    | (some data, s) =>
        ({ value := data.length, data },
          s.moveTo updateOffset fd (offset + UInt64.ofNat data.length))

/-- `open`, where the operating system hands out `fd`. -/
def openFile (s : BackedAdapter) (path : String) (flags : UInt32) (fd : Int) :
    FileReply × BackedAdapter :=
  let (fd, fds) := s.fds.allocate path flags fd
  if fd < 0 then ({ value := -1 }, s)
  else ({ value := fd }, { s with fds }.track path (·.trackOpen flags))

def fsync (session : Session) (root : String) (s : BackedAdapter) (fd : Int) :
    FileReply × BackedAdapter :=
  match s.fds.get fd with
  | none => ({ value := -1 }, s)
  | some _ =>
      let (done, s) := s.flushAndPublish session root fd
      ({ value := if done then 0 else -1 }, s)

def ftruncate (s : BackedAdapter) (fd : Int) (length : UInt64) : FileReply × BackedAdapter :=
  match s.fds.get fd with
  | none => ({ value := -1 }, s)
  | some state => ({}, s.track state.filepath (·.trackTruncate length))

def unlink (s : BackedAdapter) (path : String) : FileReply × BackedAdapter :=
  ({}, s.track path (·.trackUnlink))

end BackedAdapter

/-- A call on the one path; `open` comes with the number that is handed out. -/
inductive FileCall where
  | openFile (flags : UInt32) (fd : Int)
  | write (fd : Int) (data : List UInt8)
  | pwrite (fd : Int) (data : List UInt8) (offset : UInt64)
  | read (fd : Int) (count : UInt64)
  | pread (fd : Int) (count offset : UInt64)
  | fsync (fd : Int)
  | ftruncate (fd : Int) (length : UInt64)
  | unlink
  deriving DecidableEq, Repr

/-- A call on an open descriptor. -/
def BackedAdapter.onOpen (s : BackedAdapter) (fd : Int)
    (act : FileState → FileReply × BackedAdapter) : FileReply × BackedAdapter :=
  match s.fds.get fd with
  | none => ({ value := -1 }, s)
  | some state => act state

def BackedAdapter.call (session : Session) (root path : String) (s : BackedAdapter) :
    FileCall → FileReply × BackedAdapter
  | .openFile flags fd => s.openFile path flags fd
  | .write fd data =>
      s.onOpen fd fun state => s.doWrite session root state fd data state.offset true
  | .pwrite fd data offset =>
      s.onOpen fd fun state => s.doWrite session root state fd data offset false
  | .read fd count =>
      s.onOpen fd fun state => s.doRead session root state fd count state.offset true
  | .pread fd count offset =>
      s.onOpen fd fun state => s.doRead session root state fd count offset false
  | .fsync fd => s.fsync session root fd
  | .ftruncate fd length => s.ftruncate fd length
  | .unlink => s.unlink path

end Labios
