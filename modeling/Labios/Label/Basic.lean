import Mathlib.Algebra.Group.Nat.Defs
import Mathlib.Data.List.Nodup
import Mathlib.Data.List.Perm.Basic
import Mathlib.Data.Rat.Defs

/-!
# Labels

The data model of `labios/label.h`: pointers, dependencies, the accumulated
runtime records and the label itself, each field with the default the C++
declaration gives it. Scores are carried as rationals (the code stores and
compares them, nothing more); every other number keeps its width.
-/

namespace Labios

inductive LabelType
  | read | write | delete | flush | composite | observe
  deriving DecidableEq, Repr

inductive Intent
  | none | checkpoint | cache | toolOutput | finalResult | intermediate | sharedState
  | embedding | modelWeight | kvCache | reasoningTrace
  deriving DecidableEq, Repr

inductive Isolation
  | none | agent | workspace | global
  deriving DecidableEq, Repr

inductive HazardType
  | raw | waw | war
  deriving DecidableEq, Repr

inductive CompletionStatus
  | complete | error
  deriving DecidableEq, Repr

inductive Durability
  | ephemeral | durable
  deriving DecidableEq, Repr

inductive StatusCode
  | created | queued | shuffled | scheduled | executing | complete | failed
  deriving DecidableEq, Repr

inductive ContinuationKind
  | none | notify | chain | conditional
  deriving DecidableEq, Repr

namespace LabelFlags

def queued : UInt32 := (1 : UInt32) <<< 0
def scheduled : UInt32 := (1 : UInt32) <<< 1
def pending : UInt32 := (1 : UInt32) <<< 2

end LabelFlags

structure MemoryPtr where
  address : UInt64
  size : UInt64
  deriving DecidableEq, Repr

structure FilePath where
  path : String
  offset : UInt64 := 0
  length : UInt64 := 0
  deriving DecidableEq, Repr

structure NetworkEndpoint where
  host : String
  port : UInt16
  deriving DecidableEq, Repr

/-- `std::variant<std::monostate, MemoryPtr, FilePath, NetworkEndpoint>`. -/
inductive Pointer
  | monostate
  | memoryPtr (p : MemoryPtr)
  | filePath (p : FilePath)
  | networkEndpoint (p : NetworkEndpoint)
  deriving DecidableEq, Repr

structure LabelDependency where
  labelId : UInt64 := 0
  hazardType : HazardType := .raw
  deriving DecidableEq, Repr

structure Continuation where
  kind : ContinuationKind := .none
  targetChannel : String := ""
  chainParams : String := ""
  condition : String := ""
  deriving DecidableEq, Repr

structure RoutingDecision where
  workerId : UInt32 := 0
  policy : String := ""
  deriving DecidableEq, Repr

structure HopRecord where
  component : String
  timestampUs : UInt64 := 0
  deriving DecidableEq, Repr

structure AggregationInfo where
  originalIds : List UInt64 := []
  mergedOffset : UInt64 := 0
  mergedLength : UInt64 := 0
  deriving DecidableEq, Repr

structure ScoreSnapshot where
  availability : Rat := 0
  capacity : Rat := 0
  load : Rat := 0
  speed : Rat := 0
  energy : Rat := 0
  tier : Rat := 0
  deriving DecidableEq, Repr

structure LabelResult where
  dataLocation : String := ""
  error : String := ""
  bytesTransferred : UInt64 := 0
  deriving DecidableEq, Repr

/-- A stage of an SDS pipeline. -/
structure PipelineStage where
  operation : String
  args : String
  inputStage : Int := -1
  outputStage : Int := -1
  deriving DecidableEq, Repr

structure Pipeline where
  stages : List PipelineStage := []
  deriving DecidableEq, Repr

def Pipeline.empty (p : Pipeline) : Bool := p.stages.isEmpty

structure LabelData where
  id : UInt64 := 0
  type : LabelType := .write
  source : Pointer := .monostate
  destination : Pointer := .monostate
  operation : String := ""
  flags : UInt32 := 0
  priority : UInt8 := 0
  appId : UInt32 := 0
  dependencies : List LabelDependency := []
  dataSize : UInt64 := 0
  intent : Intent := .none
  ttlSeconds : UInt32 := 0
  isolation : Isolation := .none
  replyTo : String := ""
  fileKey : String := ""
  children : List UInt64 := []
  -- spec fields
  version : UInt64 := 0
  durability : Durability := .ephemeral
  continuation : Continuation := {}
  sourceUri : String := ""
  destUri : String := ""
  pipeline : Pipeline := {}
  -- accumulation, written by the runtime
  routing : RoutingDecision := {}
  supertaskId : UInt64 := 0
  aggregation : AggregationInfo := {}
  scoreSnapshot : ScoreSnapshot := {}
  hops : List HopRecord := []
  -- state
  status : StatusCode := .created
  createdUs : UInt64 := 0
  queuedUs : UInt64 := 0
  dispatchedUs : UInt64 := 0
  startedUs : UInt64 := 0
  completedUs : UInt64 := 0
  result : LabelResult := {}
  deriving DecidableEq, Repr

structure CompletionData where
  labelId : UInt64 := 0
  status : CompletionStatus := .complete
  error : String := ""
  dataKey : String := ""
  deriving DecidableEq, Repr

/-- `file_path(path, offset, length)`. -/
def filePath (path : String) (offset length : UInt64) : Pointer :=
  .filePath { path, offset, length }

/-- The path a pointer names, when it is a `FilePath`. -/
def Pointer.path? : Pointer → Option String
  | .filePath fp => some fp.path
  | _ => none

/-! ## Distinct ids -/

/-- The ids of a batch are pairwise distinct. -/
def DistinctIds (batch : List LabelData) : Prop := (batch.map (·.id)).Nodup

instance (batch : List LabelData) : Decidable (DistinctIds batch) :=
  inferInstanceAs (Decidable (List.Nodup _))

/-- With distinct ids, an id names one label. -/
theorem DistinctIds.eq_of_id_eq {batch : List LabelData} (h : DistinctIds batch)
    {a b : LabelData} (ha : a ∈ batch) (hb : b ∈ batch) (hid : a.id = b.id) : a = b :=
  List.inj_on_of_nodup_map h ha hb hid

theorem DistinctIds.nodup {batch : List LabelData} (h : DistinctIds batch) : batch.Nodup :=
  List.Nodup.of_map _ h

theorem DistinctIds.perm {batch batch' : List LabelData} (h : DistinctIds batch)
    (hp : batch'.Perm batch) : DistinctIds batch' :=
  (hp.map LabelData.id).nodup_iff.mpr h

/-- The sort key `a.id < b.id` of the code, as a natural number. -/
def idKey (l : LabelData) : Nat := l.id.toNat

theorem DistinctIds.idKey_nodup {batch : List LabelData} (h : DistinctIds batch) :
    (batch.map idKey).Nodup := by
  have : batch.map idKey = (batch.map (·.id)).map UInt64.toNat := by
    simp [idKey]
  rw [this]
  exact List.Nodup.map (fun _ _ => UInt64.toNat_inj.mp) h

end Labios

/-!
## The life of a label

The `mark_label_*` functions of `labios/label.cpp`. Each takes its timestamp
already normalized: the code reads the clock when it is given zero.
-/

namespace Labios

def appendLabelHop (label : LabelData) (component : String) (timestampUs : UInt64) : LabelData :=
  if component.isEmpty then label
  else { label with hops := label.hops ++ [{ component, timestampUs }] }

/-- The first timestamp wins. -/
def stampCreated (label : LabelData) (ts : UInt64) : LabelData :=
  if label.createdUs == 0 then { label with createdUs := ts } else label

def markLabelCreated (label : LabelData) (ts : UInt64) : LabelData :=
  { stampCreated label ts with status := .created }

def markLabelQueued (label : LabelData) (ts : UInt64) : LabelData :=
  let label := stampCreated label ts
  { label with flags := label.flags ||| LabelFlags.queued, queuedUs := ts, status := .queued }

def markLabelShuffled (label : LabelData) (ts : UInt64) : LabelData :=
  appendLabelHop { stampCreated label ts with status := .shuffled } "shuffler" ts

def markLabelScheduled (label : LabelData) (workerId : UInt32) (policy : String)
    (snapshot : ScoreSnapshot) (ts : UInt64) : LabelData :=
  let label := stampCreated label ts
  appendLabelHop
    { label with
      flags := label.flags ||| LabelFlags.scheduled
      routing := { workerId, policy }
      scoreSnapshot := snapshot
      dispatchedUs := ts
      status := .scheduled }
    "scheduler" ts

def markLabelExecuting (label : LabelData) (workerComponent : String) (ts : UInt64) : LabelData :=
  let label := stampCreated label ts
  appendLabelHop
    { label with
      flags := label.flags ||| LabelFlags.pending
      startedUs := ts
      status := .executing }
    workerComponent ts

def markLabelFinished (label : LabelData) (status : CompletionStatus) (dataLocation : String)
    (bytesTransferred : UInt64) (error : String) (ts : UInt64) : LabelData :=
  { stampCreated label ts with
    completedUs := ts
    result := { dataLocation, bytesTransferred, error }
    status := if status = .complete then .complete else .failed }

/-! ## What the marks leave alone -/

/-- A label without the fields the marks write: what was asked for. -/
def request (l : LabelData) : LabelData :=
  { l with
    flags := 0
    status := .created
    createdUs := 0
    queuedUs := 0
    dispatchedUs := 0
    startedUs := 0
    completedUs := 0
    routing := {}
    scoreSnapshot := {}
    hops := []
    result := {} }

section Marks

variable (l : LabelData) (ts : UInt64) (component : String)

@[simp] theorem request_appendLabelHop : request (appendLabelHop l component ts) = request l := by
  unfold appendLabelHop
  split <;> rfl

@[simp] theorem request_stampCreated : request (stampCreated l ts) = request l := by
  unfold stampCreated
  split <;> rfl

@[simp] theorem request_markLabelQueued : request (markLabelQueued l ts) = request l :=
  request_stampCreated l ts

@[simp] theorem request_markLabelShuffled : request (markLabelShuffled l ts) = request l :=
  (request_appendLabelHop _ _ _).trans (request_stampCreated l ts)

@[simp] theorem request_markLabelScheduled (worker : UInt32) (policy : String)
    (snapshot : ScoreSnapshot) :
    request (markLabelScheduled l worker policy snapshot ts) = request l :=
  (request_appendLabelHop _ _ _).trans (request_stampCreated l ts)

@[simp] theorem request_markLabelExecuting :
    request (markLabelExecuting l component ts) = request l :=
  (request_appendLabelHop _ _ _).trans (request_stampCreated l ts)

@[simp] theorem request_markLabelFinished (status : CompletionStatus) (location error : String)
    (bytes : UInt64) : request (markLabelFinished l status location bytes error ts) = request l :=
  request_stampCreated l ts

end Marks

section Fields

variable {a b : LabelData}

theorem id_of_request (h : request a = request b) : a.id = b.id := by
  have hfield := congrArg LabelData.id h
  exact hfield

theorem type_of_request (h : request a = request b) : a.type = b.type := by
  have hfield := congrArg LabelData.type h
  exact hfield

theorem replyTo_of_request (h : request a = request b) : a.replyTo = b.replyTo := by
  have hfield := congrArg LabelData.replyTo h
  exact hfield

end Fields
end Labios
