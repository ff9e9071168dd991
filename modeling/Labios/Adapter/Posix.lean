import Labios.Adapter.FdTable
import Labios.Client.Model
import Labios.Client.SmallCache

/-!
# The POSIX adapter

`POSIXAdapter` of `labios/adapter/posix_adapter.cpp`: a write below
`label_min_size` goes to the small-I/O cache of its descriptor, every other write
is published at once. A read looks into the cache of its own descriptor; when
that does not answer, it flushes that descriptor and publishes.

The labels take effect where they are published, on one byte store per path
(`applyLabels`); nothing fails there, so `EIO` does not occur. The catalog's
metadata and the waits of `O_SYNC` are left out.
-/

namespace Labios

/-- The parts of the session that the adapter reads; `ids` are the label ids in
the order they are generated. -/
structure Session where
  labelMinSize : UInt64
  maxLabelSize : UInt64
  readPolicy : ReadPolicy
  appId : UInt32
  ids : Nat → UInt64
  now : UInt64
  buffer : UInt64

/-! ## Labels at the store -/

abbrev PathStore := String → List UInt8

/-- A label takes effect; a read returns its bytes up to the end of the data. -/
def applyLabel (files : PathStore) (p : Publication) : PathStore × List UInt8 :=
  match p.label.type, p.label.source, p.label.destination with
  | .write, _, .filePath fp =>
      (Function.update files fp.path
        (writeAt (files fp.path) fp.offset.toNat (p.staged.getD [])), [])
  | .read, .filePath fp, _ =>
      (files, readAt (files fp.path) fp.offset.toNat p.label.dataSize.toNat)
  | _, _, _ => (files, [])

/-- Labels in publish order; the data is what `wait_read` puts together. -/
def applyLabels (files : PathStore) : List Publication → PathStore × List UInt8
  | [] => (files, [])
  | p :: rest =>
      let (files, data) := applyLabel files p
      let (files, more) := applyLabels files rest
      (files, data ++ more)

/-! ## Adapter -/

inductive Errno where
  | ebadf
  | enomem
  deriving DecidableEq, Repr

/-- The value of a call, its `errno`, and what it put into the caller's buffer. -/
structure CallReply where
  value : Int := 0
  errno : Option Errno := none
  data : List UInt8 := []
  deriving DecidableEq, Repr

structure Adapter where
  fds : FdTable := {}
  content : ContentManager
  published : Nat := 0
  files : PathStore

namespace Adapter

def publish (s : Adapter) (labels : List Publication) : List UInt8 × Adapter :=
  let (files, data) := applyLabels s.files labels
  (data, { s with files, published := s.published + labels.length })

def publishWrite (session : Session) (s : Adapter) (filepath : String) (offset : UInt64)
    (data : List UInt8) : Adapter :=
  (s.publish (Labios.publishWrite session.maxLabelSize session.appId
    (fun i => session.ids (s.published + i)) session.now session.buffer filepath offset data)).2

def publishRead (session : Session) (s : Adapter) (filepath : String) (offset size : UInt64) :
    List UInt8 × Adapter :=
  s.publish (Labios.publishRead session.maxLabelSize session.appId
    (fun i => session.ids (s.published + i)) session.now filepath offset size)

def publishRegions (session : Session) (s : Adapter) (regions : List FlushRegion) : Adapter :=
  regions.foldl (fun s r => s.publishWrite session r.filepath r.offset r.data) s

def flushAndPublish (session : Session) (s : Adapter) (fd : Int) : Adapter :=
  let (regions, content) := s.content.flush fd
  publishRegions session { s with content } regions

/-- `if (update_offset) state->offset = offset`. -/
def moveTo (s : Adapter) (updateOffset : Bool) (fd : Int) (offset : UInt64) : Adapter :=
  if updateOffset then { s with fds := s.fds.setOffset fd offset } else s

/-- The bytes of a write reach the cache or the store. -/
def store (session : Session) (s : Adapter) (state : FileState) (fd : Int) (data : List UInt8)
    (offset : UInt64) : Adapter :=
  if UInt64.ofNat data.length < session.labelMinSize then
    let (regions, content) := s.content.cacheWrite fd state.filepath offset data
    publishRegions session { s with content } regions
  else s.publishWrite session state.filepath offset data

def doWrite (session : Session) (s : Adapter) (state : FileState) (fd : Int) (data : List UInt8)
    (offset : UInt64) (updateOffset : Bool) : CallReply × Adapter :=
  if data = [] then ({}, s)
  else
    ({ value := data.length },
      (s.store session state fd data offset).moveTo updateOffset fd
        (offset + UInt64.ofNat data.length))

/-- The bytes of a read, from the cache or from the store. -/
def load (session : Session) (s : Adapter) (state : FileState) (fd : Int) (count offset : UInt64) :
    List UInt8 × Adapter :=
  match (s.content.cacheRead fd offset count).filter fun data => data.length = count.toNat with
  | some data => (data, s)
  | none =>
      let (data, s) := (s.flushAndPublish session fd).publishRead session state.filepath offset count
      (data.take count.toNat, s)

def doRead (session : Session) (s : Adapter) (state : FileState) (fd : Int) (count offset : UInt64)
    (updateOffset : Bool) : CallReply × Adapter :=
  if count = 0 then ({}, s)
  else
    let (data, s) := s.load session state fd count offset
    ({ value := data.length, data },
      s.moveTo updateOffset fd (offset + UInt64.ofNat data.length))

/-- `open`, where the operating system hands out `fd`. -/
def openFile (s : Adapter) (path : String) (flags : UInt32) (fd : Int) : CallReply × Adapter :=
  let (fd, fds) := s.fds.allocate path flags fd
  if fd < 0 then ({ value := -1, errno := some .enomem }, s)
  else ({ value := fd }, { s with fds })

/-- `EBADF` for a descriptor that is not in the table. -/
def badDescriptor : CallReply := { value := -1, errno := some .ebadf }

def dup (s : Adapter) (oldFd newFd : Int) : CallReply × Adapter :=
  match s.fds.get oldFd with
  | none => (badDescriptor, s)
  | some _ =>
      let (fd, fds) := s.fds.duplicate oldFd newFd
      ({ value := fd }, { s with fds })

/-- Only the last descriptor of a state flushes and evicts its cache. -/
def close (session : Session) (s : Adapter) (fd : Int) : CallReply × Adapter :=
  match s.fds.get fd with
  | none => (badDescriptor, s)
  | some _ =>
      let (wasLast, fds) := s.fds.release fd
      let s := { s with fds }
      if wasLast then
        let s := s.flushAndPublish session fd
        ({}, { s with content := s.content.evict fd })
      else ({}, s)

/-- `dup2` closes a target that is in the table. -/
def closeTarget (session : Session) (s : Adapter) (target : Int) : Adapter :=
  if s.fds.isLabiosFd target then (s.close session target).2 else s

/-- `dup2`; the new descriptor is again the number that the operating system
hands out. -/
def dup2 (session : Session) (s : Adapter) (oldFd target newFd : Int) : CallReply × Adapter :=
  match s.fds.get oldFd with
  | none => (badDescriptor, s)
  | some _ =>
      let s := s.closeTarget session target
      let (fd, fds) := s.fds.duplicate oldFd newFd
      ({ value := fd }, { s with fds })

def write (session : Session) (s : Adapter) (fd : Int) (data : List UInt8) :
    CallReply × Adapter :=
  match s.fds.get fd with
  | none => (badDescriptor, s)
  | some state => s.doWrite session state fd data state.offset true

def pwrite (session : Session) (s : Adapter) (fd : Int) (data : List UInt8) (offset : UInt64) :
    CallReply × Adapter :=
  match s.fds.get fd with
  | none => (badDescriptor, s)
  | some state => s.doWrite session state fd data offset false

def read (session : Session) (s : Adapter) (fd : Int) (count : UInt64) : CallReply × Adapter :=
  match s.fds.get fd with
  | none => (badDescriptor, s)
  | some state => s.doRead session state fd count state.offset true

def pread (session : Session) (s : Adapter) (fd : Int) (count offset : UInt64) :
    CallReply × Adapter :=
  match s.fds.get fd with
  | none => (badDescriptor, s)
  | some state => s.doRead session state fd count offset false

def fsync (session : Session) (s : Adapter) (fd : Int) : CallReply × Adapter :=
  match s.fds.get fd with
  | none => (badDescriptor, s)
  | some _ => ({}, s.flushAndPublish session fd)

end Adapter

/-! ## Calls -/

/-- A call; `open` and `dup` come with the descriptor of the operating system. -/
inductive PosixCall where
  | openFile (path : String) (flags : UInt32) (fd : Int)
  | dup (oldFd newFd : Int)
  | close (fd : Int)
  | write (fd : Int) (data : List UInt8)
  | pwrite (fd : Int) (data : List UInt8) (offset : UInt64)
  | read (fd : Int) (count : UInt64)
  | pread (fd : Int) (count offset : UInt64)
  | fsync (fd : Int)
  deriving DecidableEq, Repr

def Adapter.call (session : Session) (s : Adapter) : PosixCall → CallReply × Adapter
  | .openFile path flags fd => s.openFile path flags fd
  | .dup oldFd newFd => s.dup oldFd newFd
  | .close fd => s.close session fd
  | .write fd data => s.write session fd data
  | .pwrite fd data offset => s.pwrite session fd data offset
  | .read fd count => s.read session fd count
  | .pread fd count offset => s.pread session fd count offset
  | .fsync fd => s.fsync session fd

/-- An adapter before its first call. -/
def Adapter.fresh (session : Session) (files : PathStore) : Adapter :=
  { content := { minLabelSize := session.labelMinSize, defaultReadPolicy := session.readPolicy }
    files }

/-- Calls one after the other, with all replies. -/
def runCalls {σ : Type} (step : σ → PosixCall → CallReply × σ) :
    σ → List PosixCall → List CallReply × σ
  | s, [] => ([], s)
  | s, c :: rest =>
      let (reply, s) := step s c
      let (replies, s) := runCalls step s rest
      (reply :: replies, s)

/-! ## What a flush leaves alone -/

namespace Adapter

@[simp] theorem publishRegions_content (session : Session) (s : Adapter)
    (regions : List FlushRegion) : (s.publishRegions session regions).content = s.content := by
  induction regions generalizing s with
  | nil => rfl
  | cons r rest ih => exact ih (s.publishWrite session r.filepath r.offset r.data)

@[simp] theorem publishRegions_fds (session : Session) (s : Adapter)
    (regions : List FlushRegion) : (s.publishRegions session regions).fds = s.fds := by
  induction regions generalizing s with
  | nil => rfl
  | cons r rest ih => exact ih (s.publishWrite session r.filepath r.offset r.data)

@[simp] theorem flushAndPublish_content (session : Session) (s : Adapter) (fd : Int) :
    (s.flushAndPublish session fd).content = (s.content.flush fd).2 :=
  publishRegions_content session _ _

@[simp] theorem flushAndPublish_fds (session : Session) (s : Adapter) (fd : Int) :
    (s.flushAndPublish session fd).fds = s.fds :=
  publishRegions_fds session _ _

theorem close_fds (session : Session) (s : Adapter) (fd : Int) :
    (s.close session fd).2.fds = (s.fds.release fd).2 := by
  unfold close FdTable.get
  cases hl : s.fds.table.lookup fd with
  | none =>
      unfold FdTable.release
      rw [hl]
      rfl
  | some address =>
      dsimp only [Option.map_some]
      cases (s.fds.release fd).1 with
      | false => rfl
      | true => simp

/-- Only the last close of an open file touches the cache. -/
theorem close_content (session : Session) (s : Adapter) (fd : Int) :
    (s.close session fd).2.content =
      if (s.fds.release fd).1 then (s.content.flush fd).2.evict fd else s.content := by
  unfold close FdTable.get
  cases hl : s.fds.table.lookup fd with
  | none =>
      unfold FdTable.release
      rw [hl]
      rfl
  | some address =>
      dsimp only [Option.map_some]
      cases (s.fds.release fd).1 with
      | false => rfl
      | true => simp

theorem doWrite_fds (session : Session) (s : Adapter) (state : FileState) (fd : Int)
    (data : List UInt8) (offset : UInt64) (updateOffset : Bool) :
    (s.doWrite session state fd data offset updateOffset).2.fds =
      if data ≠ [] ∧ updateOffset = true then
        s.fds.setOffset fd (offset + UInt64.ofNat data.length)
      else s.fds := by
  have hstore : (s.store session state fd data offset).fds = s.fds := by
    unfold store
    split
    · simp
    · rfl
  unfold doWrite
  by_cases hdata : data = []
  · simp [hdata]
  · cases updateOffset with
    | false => simp [hdata, moveTo, hstore]
    | true => simp [hdata, moveTo, hstore]

/-- A small write goes to the cache, every other one passes it by. -/
theorem doWrite_content (session : Session) (s : Adapter) (state : FileState) (fd : Int)
    (data : List UInt8) (offset : UInt64) (updateOffset : Bool) :
    (s.doWrite session state fd data offset updateOffset).2.content =
      if data ≠ [] ∧ UInt64.ofNat data.length < session.labelMinSize then
        (s.content.cacheWrite fd state.filepath offset data).2
      else s.content := by
  have hmove : ∀ (s' : Adapter) upd off, (s'.moveTo upd fd off).content = s'.content := by
    intro s' upd off
    unfold moveTo
    split
    · rfl
    · rfl
  unfold doWrite
  by_cases hdata : data = []
  · simp [hdata]
  · rw [if_neg hdata, hmove]
    unfold store
    by_cases hsmall : UInt64.ofNat data.length < session.labelMinSize
    · rw [if_pos hsmall, if_pos ⟨hdata, hsmall⟩]
      simp
    · rw [if_neg hsmall, if_neg fun h => hsmall h.2]
      rfl

end Adapter

/-! ## Chunks -/

variable {maxLabelSize offset : UInt64} {filepath : String}

/-- The chunks of a write are one write. -/
theorem applyLabels_writes (hmax : 0 < maxLabelSize) (appId : UInt32) (now buffer : UInt64)
    (data : List UInt8) (hbound : offset.toNat + data.length < 2 ^ 64) (fuel : Nat)
    (ids : Nat → UInt64) (filepath : String) (files : PathStore) (pos remaining : UInt64)
    (hfuel : remaining.toNat ≤ fuel) (hlength : pos.toNat + remaining.toNat = data.length) :
    applyLabels files ((chunkLoop maxLabelSize fuel pos remaining).mapIdx fun i chunk =>
        { label := writeChunk (ids i) appId now (buffer + chunk.1) filepath (offset + chunk.1)
            chunk.2
          staged := some ((data.drop chunk.1.toNat).take chunk.2.toNat) }) =
      (Function.update files filepath
        (writeAt (files filepath) (offset.toNat + pos.toNat) (data.drop pos.toNat)), []) := by
  induction fuel generalizing ids files pos remaining with
  | zero =>
      rw [List.drop_of_length_le (by omega), writeAt_nil, Function.update_eq_self]
      rfl
  | succ fuel ih =>
      by_cases hrem : remaining = 0
      · subst hrem
        rw [List.drop_of_length_le (by rw [← hlength]; simp), writeAt_nil,
          Function.update_eq_self, chunkLoop, if_pos (by simp)]
        rfl
      · obtain ⟨size, hpos, hle, hloop⟩ := chunkLoop_cons hmax fuel pos hrem
        have hadd := toNat_add_of_bound (show pos.toNat + size.toNat < 2 ^ 64 by omega)
        have hsub := toNat_sub_of_bound hle
        have hoff := toNat_add_of_bound (show offset.toNat + pos.toNat < 2 ^ 64 by omega)
        rw [hloop, List.mapIdx_cons, applyLabels]
        have hfirst : applyLabel files
            { label := writeChunk (ids 0) appId now (buffer + pos) filepath (offset + pos) size
              staged := some ((data.drop pos.toNat).take size.toNat) } =
            (Function.update files filepath (writeAt (files filepath)
              (offset.toNat + pos.toNat) ((data.drop pos.toNat).take size.toNat)), []) := by
          rw [← hoff]
          rfl
        have htake : ((data.drop pos.toNat).take size.toNat).length = size.toNat := by
          simp
          omega
        rw [hfirst]
        dsimp only
        rw [ih (fun i => ids (i + 1)) _ _ _ (by omega) (by omega), Function.update_idem,
          Function.update_self, hadd]
        have hone := writeAt_append (files filepath) (offset.toNat + pos.toNat)
          ((data.drop pos.toNat).take size.toNat) (data.drop (pos.toNat + size.toNat))
        rw [htake, Nat.add_assoc] at hone
        rw [hone, ← List.drop_drop, List.take_append_drop]
        rfl

theorem applyLabels_publishWrite (hmax : 0 < maxLabelSize) (appId : UInt32) (ids : Nat → UInt64)
    (now buffer : UInt64) (data : List UInt8) (hbound : offset.toNat + data.length < 2 ^ 64)
    (files : PathStore) :
    applyLabels files (publishWrite maxLabelSize appId ids now buffer filepath offset data) =
      (Function.update files filepath (writeAt (files filepath) offset.toNat data), []) := by
  have hsize : (UInt64.ofNat data.length).toNat = data.length := by
    rw [UInt64.toNat_ofNat', Nat.mod_eq_of_lt (by omega)]
  have h := applyLabels_writes hmax appId now buffer data hbound
    (UInt64.ofNat data.length).toNat ids filepath files 0 (UInt64.ofNat data.length) le_rfl
    (by rw [hsize]; simp)
  rwa [UInt64.toNat_zero, Nat.add_zero, List.drop_zero] at h

/-- The chunks of a read are one read. -/
theorem applyLabels_reads (hmax : 0 < maxLabelSize) (appId : UInt32) (now : UInt64)
    (files : PathStore) (filepath : String) (fuel : Nat) (ids : Nat → UInt64)
    (pos remaining : UInt64) (hfuel : remaining.toNat ≤ fuel)
    (hbound : offset.toNat + pos.toNat + remaining.toNat < 2 ^ 64) :
    applyLabels files ((chunkLoop maxLabelSize fuel pos remaining).mapIdx fun i chunk =>
        { label := readChunk (ids i) appId now filepath (offset + chunk.1) chunk.2
          staged := none }) =
      (files, readAt (files filepath) (offset.toNat + pos.toNat) remaining.toNat) := by
  induction fuel generalizing ids pos remaining with
  | zero =>
      rw [show remaining.toNat = 0 by omega]
      rfl
  | succ fuel ih =>
      by_cases hrem : remaining = 0
      · subst hrem
        rw [chunkLoop, if_pos (by simp)]
        rfl
      · obtain ⟨size, hpos, hle, hloop⟩ := chunkLoop_cons hmax fuel pos hrem
        have hadd := toNat_add_of_bound (show pos.toNat + size.toNat < 2 ^ 64 by omega)
        have hsub := toNat_sub_of_bound hle
        have hoff := toNat_add_of_bound (show offset.toNat + pos.toNat < 2 ^ 64 by omega)
        rw [hloop, List.mapIdx_cons, applyLabels]
        have hfirst : applyLabel files
            { label := readChunk (ids 0) appId now filepath (offset + pos) size
              staged := none } =
            (files, readAt (files filepath) (offset.toNat + pos.toNat) size.toNat) := by
          rw [← hoff]
          rfl
        rw [hfirst]
        dsimp only
        rw [ih (fun i => ids (i + 1)) _ _ (by omega) (by omega), hadd, hsub,
          ← Nat.add_assoc, ← readAt_add, Nat.add_sub_cancel' hle]

theorem applyLabels_publishRead (hmax : 0 < maxLabelSize) (appId : UInt32) (ids : Nat → UInt64)
    (now size : UInt64) (hbound : offset.toNat + size.toNat < 2 ^ 64) (files : PathStore) :
    applyLabels files (publishRead maxLabelSize appId ids now filepath offset size) =
      (files, readAt (files filepath) offset.toNat size.toNat) := by
  have h := applyLabels_reads hmax appId now files filepath size.toNat ids 0 size le_rfl
    (show offset.toNat + (0 : UInt64).toNat + size.toNat < 2 ^ 64 by simpa using hbound)
  rwa [UInt64.toNat_zero, Nat.add_zero] at h

end Labios
