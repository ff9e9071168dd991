import Labios.Client.Uri
import Labios.Label.Basic
import Labios.Storage.Execution

/-!
# The client entry points

What the client library puts on `labios.labels`: `publish_write` and
`publish_read` of `labios/label_manager.cpp`, which cut a request into chunks of
at most `max_label_size` bytes, and the label-level calls of
`labios/client.cpp`, which go through `create_label` and `publish`.

Fresh ids, the clock and the address of the caller's buffer are parameters.
`FromLabelManager` is what every label of the chunking calls looks like.
-/

namespace Labios

/-- A published label and the bytes staged under its data key. -/
structure Publication where
  label : LabelData
  staged : Option (List UInt8)
  deriving DecidableEq, Repr

/-! ## Label manager -/

/-- The `while (remaining > 0)` loop: position and size of each chunk. Every
turn takes a byte, so `remaining` turns are enough. -/
def chunkLoop (maxLabelSize : UInt64) : Nat → UInt64 → UInt64 → List (UInt64 × UInt64)
  | 0, _, _ => []
  | fuel + 1, pos, remaining =>
      if remaining == 0 then []
      else
        let chunkSize := if maxLabelSize < remaining then maxLabelSize else remaining
        (pos, chunkSize) :: chunkLoop maxLabelSize fuel (pos + chunkSize) (remaining - chunkSize)

def chunks (maxLabelSize size : UInt64) : List (UInt64 × UInt64) :=
  chunkLoop maxLabelSize size.toNat 0 size

/-- The label of one chunk of a write; `source` is the caller's buffer. -/
def writeChunk (id : UInt64) (appId : UInt32) (now buffer : UInt64) (filepath : String)
    (offset chunkSize : UInt64) : LabelData :=
  markLabelCreated
    { id
      type := .write
      source := .memoryPtr { address := buffer, size := chunkSize }
      destination := filePath filepath offset chunkSize
      operation := "write"
      flags := LabelFlags.queued
      fileKey := filepath
      appId
      dataSize := chunkSize } now

/-- The label of one chunk of a read. -/
def readChunk (id : UInt64) (appId : UInt32) (now : UInt64) (filepath : String)
    (offset chunkSize : UInt64) : LabelData :=
  markLabelCreated
    { id
      type := .read
      source := filePath filepath offset chunkSize
      destination := .memoryPtr { address := 0, size := chunkSize }
      operation := "read"
      flags := LabelFlags.queued
      fileKey := filepath
      appId
      dataSize := chunkSize } now

def publishWrite (maxLabelSize : UInt64) (appId : UInt32) (ids : Nat → UInt64)
    (now buffer : UInt64) (filepath : String) (offset : UInt64) (data : List UInt8) :
    List Publication :=
  (chunks maxLabelSize (UInt64.ofNat data.length)).mapIdx fun i chunk =>
    { label := writeChunk (ids i) appId now (buffer + chunk.1) filepath (offset + chunk.1) chunk.2
      staged := some ((data.drop chunk.1.toNat).take chunk.2.toNat) }

def publishRead (maxLabelSize : UInt64) (appId : UInt32) (ids : Nat → UInt64)
    (now : UInt64) (filepath : String) (offset size : UInt64) : List Publication :=
  (chunks maxLabelSize size).mapIdx fun i chunk =>
    { label := readChunk (ids i) appId now filepath (offset + chunk.1) chunk.2
      staged := none }

/-! ## Client -/

structure LabelParams where
  type : LabelType := .write
  source : Pointer := .monostate
  destination : Pointer := .monostate
  operation : String := ""
  flags : UInt32 := 0
  priority : UInt8 := 0
  dependencies : List LabelDependency := []
  intent : Intent := .none
  ttlSeconds : UInt32 := 0
  isolation : Isolation := .none
  version : UInt64 := 0
  durability : Durability := .ephemeral
  continuation : Continuation := {}
  sourceUri : String := ""
  destUri : String := ""
  pipeline : Pipeline := {}

def createLabel (id : UInt64) (appId : UInt32) (now : UInt64) (params : LabelParams) :
    LabelData :=
  markLabelCreated
    { id
      type := params.type
      source := params.source
      destination := params.destination
      operation := params.operation
      flags := params.flags
      priority := params.priority
      dependencies := params.dependencies
      intent := params.intent
      ttlSeconds := params.ttlSeconds
      isolation := params.isolation
      appId
      version := params.version
      durability := params.durability
      continuation := params.continuation
      sourceUri := params.sourceUri
      destUri := params.destUri
      pipeline := params.pipeline } now

def publish (now : UInt64) (label : LabelData) (data : List UInt8) : Publication :=
  { label := if label.createdUs == 0 then markLabelCreated label now else label
    staged := if data.isEmpty then none else some data }

def asyncWriteTo (id : UInt64) (appId : UInt32) (now : UInt64) (destUri : String)
    (data : List UInt8) : Publication :=
  let label := createLabel id appId now { type := .write, destUri }
  publish now { label with dataSize := UInt64.ofNat data.length } data

def asyncReadFrom (id : UInt64) (appId : UInt32) (now : UInt64) (sourceUri : String)
    (size : UInt64) : Publication :=
  let label := createLabel id appId now { type := .read, sourceUri }
  publish now { label with dataSize := size } []

def writeWithIntent (id : UInt64) (appId : UInt32) (now : UInt64) (filepath : String)
    (data : List UInt8) (intent : Intent) (priority : UInt8) : Publication :=
  let label := createLabel id appId now
    { type := .write, destination := filePath filepath 0 0, intent, priority }
  publish now { label with dataSize := UInt64.ofNat data.length } data

def executePipeline (id : UInt64) (appId : UInt32) (now : UInt64) (sourceUri destUri : String)
    (pipeline : Pipeline) (intent : Intent) : Publication :=
  publish now (createLabel id appId now { type := .write, sourceUri, destUri, pipeline, intent }) []

/-- The dispatcher's subscription: the reply subject becomes the reply inbox. -/
def receive (replyTo : String) (now : UInt64) (label : LabelData) : LabelData :=
  markLabelQueued { label with replyTo } now

/-! ## Labels of the label manager -/

/-- The labels of `publish_write` and `publish_read`: plain reads and writes with
every other field that steers execution at its default. -/
structure FromLabelManager (l : LabelData) : Prop where
  plain : PlainIO l
  sourceUri : l.sourceUri = ""
  destUri : l.destUri = ""
  pipeline : l.pipeline = {}
  continuation : l.continuation = {}
  durability : l.durability = .ephemeral
  dependencies : l.dependencies = []
  children : l.children = []

/-- One turn of the loop takes as much as the limit allows. -/
theorem chunkLoop_succ {maxLabelSize remaining : UInt64} (hmax : 0 < maxLabelSize) (fuel : Nat)
    (pos : UInt64) (hrem : remaining ≠ 0) :
    ∃ size : UInt64, size.toNat = min remaining.toNat maxLabelSize.toNat ∧ 0 < size.toNat ∧
      chunkLoop maxLabelSize (fuel + 1) pos remaining =
        (pos, size) :: chunkLoop maxLabelSize fuel (pos + size) (remaining - size) := by
  have hmax' : 0 < maxLabelSize.toNat := UInt64.lt_iff_toNat_lt.mp hmax
  have hrem' : remaining.toNat ≠ 0 := fun he => hrem (UInt64.toNat_inj.mp he)
  rw [chunkLoop, if_neg (by simpa using hrem)]
  dsimp only
  by_cases hlt : maxLabelSize < remaining
  · rw [if_pos hlt]
    have hlt' : maxLabelSize.toNat < remaining.toNat := UInt64.lt_iff_toNat_lt.mp hlt
    exact ⟨_, (Nat.min_eq_right (Nat.le_of_lt hlt')).symm, hmax', rfl⟩
  · rw [if_neg hlt]
    have hle : remaining.toNat ≤ maxLabelSize.toNat :=
      Nat.le_of_not_lt fun h => hlt (UInt64.lt_iff_toNat_lt.mpr h)
    exact ⟨_, (Nat.min_eq_left hle).symm, Nat.pos_of_ne_zero hrem', rfl⟩

/-- One turn of the loop takes a chunk off that is not empty. -/
theorem chunkLoop_cons {maxLabelSize remaining : UInt64} (hmax : 0 < maxLabelSize) (fuel : Nat)
    (pos : UInt64) (hrem : remaining ≠ 0) :
    ∃ size : UInt64, 0 < size.toNat ∧ size.toNat ≤ remaining.toNat ∧
      chunkLoop maxLabelSize (fuel + 1) pos remaining =
        (pos, size) :: chunkLoop maxLabelSize fuel (pos + size) (remaining - size) := by
  obtain ⟨size, hsize, hpos, hloop⟩ := chunkLoop_succ hmax fuel pos hrem
  exact ⟨size, hpos, hsize ▸ Nat.min_le_left _ _, hloop⟩

theorem toNat_add_of_bound {a b : UInt64} (h : a.toNat + b.toNat < 2 ^ 64) :
    (a + b).toNat = a.toNat + b.toNat := by
  rw [UInt64.toNat_add, Nat.mod_eq_of_lt h]

theorem toNat_sub_of_bound {a b : UInt64} (h : b.toNat ≤ a.toNat) :
    (a - b).toNat = a.toNat - b.toNat :=
  UInt64.toNat_sub_of_le _ _ (UInt64.le_iff_toNat_le.mpr h)

theorem chunkLoop_spec {maxLabelSize : UInt64} (hmax : 0 < maxLabelSize) (fuel : Nat)
    {pos remaining : UInt64} (hbound : pos.toNat + remaining.toNat < 2 ^ 64)
    {chunk : UInt64 × UInt64} (hc : chunk ∈ chunkLoop maxLabelSize fuel pos remaining) :
    pos.toNat ≤ chunk.1.toNat ∧ 0 < chunk.2.toNat ∧
      chunk.1.toNat + chunk.2.toNat ≤ pos.toNat + remaining.toNat := by
  induction fuel generalizing pos remaining with
  | zero => exact absurd hc (by simp [chunkLoop])
  | succ fuel ih =>
      by_cases hrem : remaining = 0
      · rw [hrem, chunkLoop, if_pos (by simp)] at hc
        exact absurd hc List.not_mem_nil
      · obtain ⟨size, hpos, hle, hloop⟩ := chunkLoop_cons hmax fuel pos hrem
        rw [hloop] at hc
        rcases List.mem_cons.mp hc with rfl | hc
        · exact ⟨Nat.le_refl _, hpos, Nat.add_le_add_left hle _⟩
        · have hadd := toNat_add_of_bound (show pos.toNat + size.toNat < 2 ^ 64 by omega)
          have hsub := toNat_sub_of_bound hle
          obtain ⟨h1, h2, h3⟩ := ih (by omega) hc
          exact ⟨by omega, h2, by omega⟩

theorem fromLabelManager_writeChunk (id : UInt64) (appId : UInt32) (now buffer : UInt64)
    (filepath : String) {offset chunkSize : UInt64} (hpos : 0 < chunkSize)
    (hbound : offset.toNat + chunkSize.toNat < 2 ^ 64) :
    FromLabelManager (writeChunk id appId now buffer filepath offset chunkSize) :=
  ⟨⟨.inr rfl, rfl, hpos, hbound⟩, rfl, rfl, rfl, rfl, rfl, rfl, rfl⟩

theorem fromLabelManager_readChunk (id : UInt64) (appId : UInt32) (now : UInt64)
    (filepath : String) {offset chunkSize : UInt64} (hpos : 0 < chunkSize)
    (hbound : offset.toNat + chunkSize.toNat < 2 ^ 64) :
    FromLabelManager (readChunk id appId now filepath offset chunkSize) :=
  ⟨⟨.inl rfl, rfl, hpos, hbound⟩, rfl, rfl, rfl, rfl, rfl, rfl, rfl⟩

theorem fromLabelManager_receive {l : LabelData} (h : FromLabelManager l) (replyTo : String)
    (now : UInt64) : FromLabelManager (receive replyTo now l) := by
  have hfields : ∀ m : LabelData, FromLabelManager m →
      FromLabelManager (stampCreated m now) := by
    intro m hm
    unfold stampCreated
    split
    · exact ⟨⟨hm.plain.kind, hm.plain.address, hm.plain.nonempty, hm.plain.bounded⟩,
        hm.sourceUri, hm.destUri, hm.pipeline, hm.continuation, hm.durability, hm.dependencies,
        hm.children⟩
    · exact hm
  have hreply : FromLabelManager { l with replyTo } :=
    ⟨⟨h.plain.kind, h.plain.address, h.plain.nonempty, h.plain.bounded⟩,
      h.sourceUri, h.destUri, h.pipeline, h.continuation, h.durability, h.dependencies,
      h.children⟩
  have hm := hfields _ hreply
  exact ⟨⟨hm.plain.kind, hm.plain.address, hm.plain.nonempty, hm.plain.bounded⟩,
    hm.sourceUri, hm.destUri, hm.pipeline, hm.continuation, hm.durability, hm.dependencies,
    hm.children⟩

/-- Every label of `publish_write`, for a range below `2 ^ 64`. -/
theorem publishWrite_labels {maxLabelSize : UInt64} (hmax : 0 < maxLabelSize) (appId : UInt32)
    (ids : Nat → UInt64) (now buffer : UInt64) (filepath : String) {offset : UInt64}
    {data : List UInt8} (hbound : offset.toNat + data.length < 2 ^ 64) {p : Publication}
    (hp : p ∈ publishWrite maxLabelSize appId ids now buffer filepath offset data) :
    FromLabelManager p.label := by
  obtain ⟨i, hi, rfl⟩ := List.mem_mapIdx.mp hp
  have hsize : (UInt64.ofNat data.length).toNat = data.length := by
    rw [UInt64.toNat_ofNat', Nat.mod_eq_of_lt (by omega)]
  obtain ⟨_, hpos, hle⟩ := chunkLoop_spec hmax _ (by simp; omega) (List.getElem_mem hi)
  rw [hsize, UInt64.toNat_zero] at hle
  refine fromLabelManager_writeChunk _ _ _ _ _ (UInt64.lt_iff_toNat_lt.mpr hpos) ?_
  rw [UInt64.toNat_add, Nat.mod_eq_of_lt (by omega)]
  omega

/-- Every label of `publish_read`, for a range below `2 ^ 64`. -/
theorem publishRead_labels {maxLabelSize : UInt64} (hmax : 0 < maxLabelSize) (appId : UInt32)
    (ids : Nat → UInt64) (now : UInt64) (filepath : String) {offset size : UInt64}
    (hbound : offset.toNat + size.toNat < 2 ^ 64) {p : Publication}
    (hp : p ∈ publishRead maxLabelSize appId ids now filepath offset size) :
    FromLabelManager p.label := by
  obtain ⟨i, hi, rfl⟩ := List.mem_mapIdx.mp hp
  obtain ⟨_, hpos, hle⟩ := chunkLoop_spec hmax _ (by simp; omega) (List.getElem_mem hi)
  rw [UInt64.toNat_zero] at hle
  refine fromLabelManager_readChunk _ _ _ _ (UInt64.lt_iff_toNat_lt.mpr hpos) ?_
  rw [UInt64.toNat_add, Nat.mod_eq_of_lt (by omega)]
  omega

end Labios
