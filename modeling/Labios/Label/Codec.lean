import Labios.Label.Basic
import Labios.Sds.RoundTrip

/-!
# The label tables

`serialize_label` and `deserialize_label` of `labios/label.cpp` between a label and the
tables of `schemas/label.fbs`. A table holds the fields that were added to it: the
builder leaves out a scalar that has the default of the schema, and a string, vector
or table that was not created. A field that is not there reads as its default, and
a missing string, vector or table as the null pointer. Enumerators go by their number;
the schema lists them in the order of `label.h`.
-/

namespace Labios

namespace Schema

structure MemoryPtr where
  address : Option UInt64
  size : Option UInt64

structure FilePath where
  path : Option String
  offset : Option UInt64
  length : Option UInt64

structure NetworkEndpoint where
  host : Option String
  port : Option UInt16

inductive PointerVariant
  | memoryPtr (p : MemoryPtr)
  | filePath (p : FilePath)
  | networkEndpoint (p : NetworkEndpoint)

structure Pointer where
  ptr : Option PointerVariant

structure LabelDependency where
  labelId : Option UInt64
  hazardType : Option Nat

structure Continuation where
  kind : Option Nat
  targetChannel : Option String
  chainParams : Option String
  condition : Option String

structure RoutingDecision where
  workerId : Option UInt32
  policy : Option String

structure HopRecord where
  component : Option String
  timestampUs : Option UInt64

structure AggregationInfo where
  originalIds : Option (List UInt64)
  mergedOffset : Option UInt64
  mergedLength : Option UInt64

structure ScoreSnapshot where
  availability : Option Rat
  capacity : Option Rat
  load : Option Rat
  speed : Option Rat
  energy : Option Rat
  tier : Option Rat

structure LabelResult where
  dataLocation : Option String
  error : Option String
  bytesTransferred : Option UInt64

structure Label where
  id : Option UInt64
  type : Option Nat
  source : Option Pointer
  destination : Option Pointer
  operation : Option String
  flags : Option UInt32
  priority : Option UInt8
  appId : Option UInt32
  dataSize : Option UInt64
  intent : Option Nat
  ttlSeconds : Option UInt32
  isolation : Option Nat
  replyTo : Option String
  fileKey : Option String
  version : Option UInt64
  durability : Option Nat
  continuation : Option Continuation
  sourceUri : Option String
  destUri : Option String
  pipelineData : Option String
  dependencies : Option (List LabelDependency)
  children : Option (List UInt64)
  routing : Option RoutingDecision
  supertaskId : Option UInt64
  aggregation : Option AggregationInfo
  scoreSnapshot : Option ScoreSnapshot
  hops : Option (List HopRecord)
  status : Option Nat
  createdUs : Option UInt64
  queuedUs : Option UInt64
  dispatchedUs : Option UInt64
  startedUs : Option UInt64
  completedUs : Option UInt64
  result : Option LabelResult

/-- A scalar as the builder adds it: every default in the schema is zero. -/
def addScalar {α : Type} [DecidableEq α] [OfNat α 0] (v : α) : Option α :=
  if v = 0 then none else some v

/-- A scalar as it is read. -/
def scalar {α : Type} [OfNat α 0] (field : Option α) : α := field.getD 0

@[simp] theorem scalar_addScalar {α : Type} [DecidableEq α] [OfNat α 0] (v : α) :
    scalar (addScalar v) = v := by
  unfold scalar addScalar
  split
  · next hzero => exact hzero.symm
  · rfl

end Schema

open Schema (addScalar scalar scalar_addScalar)

/-! ## Writing -/

/-- A vector or string only if it is not empty. -/
def maybeString (s : String) : Option String := if s = "" then none else some s

def maybeVector {α : Type} (xs : List α) : Option (List α) := if xs = [] then none else some xs

/-- `PointerSerializer`. -/
def serializePointer : Pointer → Schema.Pointer
  | .monostate => { ptr := none }
  | .memoryPtr mp =>
      { ptr := some (.memoryPtr { address := addScalar mp.address, size := addScalar mp.size }) }
  | .filePath fp =>
      { ptr := some (.filePath {
          path := some fp.path
          offset := addScalar fp.offset
          length := addScalar fp.length }) }
  | .networkEndpoint ne =>
      { ptr := some (.networkEndpoint { host := some ne.host, port := addScalar ne.port }) }

def serializeDependency (dep : LabelDependency) : Schema.LabelDependency :=
  { labelId := addScalar dep.labelId, hazardType := addScalar dep.hazardType.ctorIdx }

def serializeContinuation (continuation : Continuation) : Option Schema.Continuation :=
  if continuation.kind ≠ .none then
    some {
      kind := addScalar continuation.kind.ctorIdx
      targetChannel := maybeString continuation.targetChannel
      chainParams := maybeString continuation.chainParams
      condition := maybeString continuation.condition }
  else none

def serializeRouting (routing : RoutingDecision) : Option Schema.RoutingDecision :=
  if routing.workerId ≠ 0 ∨ routing.policy ≠ "" then
    some { workerId := addScalar routing.workerId, policy := maybeString routing.policy }
  else none

def serializeHop (hop : HopRecord) : Schema.HopRecord :=
  { component := some hop.component, timestampUs := addScalar hop.timestampUs }

def serializeAggregation (aggregation : AggregationInfo) : Option Schema.AggregationInfo :=
  if aggregation.originalIds ≠ [] then
    some {
      originalIds := some aggregation.originalIds
      mergedOffset := addScalar aggregation.mergedOffset
      mergedLength := addScalar aggregation.mergedLength }
  else none

def serializeScores (scores : ScoreSnapshot) : Option Schema.ScoreSnapshot :=
  if scores.availability ≠ 0 ∨ scores.capacity ≠ 0 ∨ scores.load ≠ 0 ∨ scores.speed ≠ 0 ∨
      scores.energy ≠ 0 ∨ scores.tier ≠ 0 then
    some {
      availability := addScalar scores.availability
      capacity := addScalar scores.capacity
      load := addScalar scores.load
      speed := addScalar scores.speed
      energy := addScalar scores.energy
      tier := addScalar scores.tier }
  else none

def serializeResult (result : LabelResult) : Option Schema.LabelResult :=
  if result.dataLocation ≠ "" ∨ result.error ≠ "" ∨ result.bytesTransferred ≠ 0 then
    some {
      dataLocation := maybeString result.dataLocation
      error := maybeString result.error
      bytesTransferred := addScalar result.bytesTransferred }
  else none

def serializeLabel (label : LabelData) : Schema.Label where
  id := addScalar label.id
  type := addScalar label.type.ctorIdx
  source := some (serializePointer label.source)
  destination := some (serializePointer label.destination)
  operation := maybeString label.operation
  flags := addScalar label.flags
  priority := addScalar label.priority
  appId := addScalar label.appId
  dataSize := addScalar label.dataSize
  intent := addScalar label.intent.ctorIdx
  ttlSeconds := addScalar label.ttlSeconds
  isolation := addScalar label.isolation.ctorIdx
  replyTo := maybeString label.replyTo
  fileKey := maybeString label.fileKey
  version := addScalar label.version
  durability := addScalar label.durability.ctorIdx
  continuation := serializeContinuation label.continuation
  sourceUri := maybeString label.sourceUri
  destUri := maybeString label.destUri
  pipelineData :=
    if label.pipeline.empty then none else some (serializePipeline label.pipeline)
  dependencies := maybeVector (label.dependencies.map serializeDependency)
  children := maybeVector label.children
  routing := serializeRouting label.routing
  supertaskId := addScalar label.supertaskId
  aggregation := serializeAggregation label.aggregation
  scoreSnapshot := serializeScores label.scoreSnapshot
  hops := maybeVector (label.hops.map serializeHop)
  status := addScalar label.status.ctorIdx
  createdUs := addScalar label.createdUs
  queuedUs := addScalar label.queuedUs
  dispatchedUs := addScalar label.dispatchedUs
  startedUs := addScalar label.startedUs
  completedUs := addScalar label.completedUs
  result := serializeResult label.result

/-! ## Reading -/

/-- `fb_read_string` into an empty string. -/
def fbReadString (src : Option String) : String := src.getD ""

def deserializePointer : Option Schema.Pointer → Pointer
  | none => .monostate
  | some table =>
      match table.ptr with
      | some (.memoryPtr mp) => .memoryPtr { address := scalar mp.address, size := scalar mp.size }
      | some (.filePath fp) =>
          .filePath {
            path := fp.path.getD ""
            offset := scalar fp.offset
            length := scalar fp.length }
      | some (.networkEndpoint ne) =>
          .networkEndpoint { host := ne.host.getD "", port := scalar ne.port }
      | none => .monostate

def deserializeDependency (dep : Schema.LabelDependency) : LabelDependency :=
  { labelId := scalar dep.labelId, hazardType := .ofNat (scalar dep.hazardType) }

def deserializeContinuation : Option Schema.Continuation → Continuation
  | none => {}
  | some cont =>
      { kind := .ofNat (scalar cont.kind)
        targetChannel := fbReadString cont.targetChannel
        chainParams := fbReadString cont.chainParams
        condition := fbReadString cont.condition }

def deserializeRouting : Option Schema.RoutingDecision → RoutingDecision
  | none => {}
  | some rt => { workerId := scalar rt.workerId, policy := fbReadString rt.policy }

def deserializeHop (hop : Schema.HopRecord) : HopRecord :=
  { component := fbReadString hop.component, timestampUs := scalar hop.timestampUs }

def deserializeAggregation : Option Schema.AggregationInfo → AggregationInfo
  | none => {}
  | some agg =>
      { originalIds := agg.originalIds.getD []
        mergedOffset := scalar agg.mergedOffset
        mergedLength := scalar agg.mergedLength }

def deserializeScores : Option Schema.ScoreSnapshot → ScoreSnapshot
  | none => {}
  | some ss =>
      { availability := scalar ss.availability
        capacity := scalar ss.capacity
        load := scalar ss.load
        speed := scalar ss.speed
        energy := scalar ss.energy
        tier := scalar ss.tier }

def deserializeResult : Option Schema.LabelResult → LabelResult
  | none => {}
  | some res =>
      { dataLocation := fbReadString res.dataLocation
        error := fbReadString res.error
        bytesTransferred := scalar res.bytesTransferred }

/-- The pipeline text is only parsed if it is there and not empty. -/
def deserializePipelineData : Option String → Except String Pipeline
  | none => .ok {}
  | some text => if text = "" then .ok {} else deserializePipeline text

/-- It throws only when the pipeline text is malformed. -/
def deserializeLabel (fb : Schema.Label) : Except String LabelData :=
  (deserializePipelineData fb.pipelineData).map fun pipeline =>
    { id := scalar fb.id
      type := .ofNat (scalar fb.type)
      source := deserializePointer fb.source
      destination := deserializePointer fb.destination
      operation := fbReadString fb.operation
      flags := scalar fb.flags
      priority := scalar fb.priority
      appId := scalar fb.appId
      dataSize := scalar fb.dataSize
      intent := .ofNat (scalar fb.intent)
      ttlSeconds := scalar fb.ttlSeconds
      isolation := .ofNat (scalar fb.isolation)
      replyTo := fbReadString fb.replyTo
      fileKey := fbReadString fb.fileKey
      version := scalar fb.version
      durability := .ofNat (scalar fb.durability)
      sourceUri := fbReadString fb.sourceUri
      destUri := fbReadString fb.destUri
      pipeline
      continuation := deserializeContinuation fb.continuation
      dependencies := (fb.dependencies.getD []).map deserializeDependency
      children := fb.children.getD []
      routing := deserializeRouting fb.routing
      hops := (fb.hops.getD []).map deserializeHop
      supertaskId := scalar fb.supertaskId
      aggregation := deserializeAggregation fb.aggregation
      scoreSnapshot := deserializeScores fb.scoreSnapshot
      status := .ofNat (scalar fb.status)
      createdUs := scalar fb.createdUs
      queuedUs := scalar fb.queuedUs
      dispatchedUs := scalar fb.dispatchedUs
      startedUs := scalar fb.startedUs
      completedUs := scalar fb.completedUs
      result := deserializeResult fb.result }

/-! ## Fields that come back -/

@[simp] theorem fbReadString_maybeString (s : String) : fbReadString (maybeString s) = s := by
  unfold fbReadString maybeString
  split
  · next hempty => exact hempty.symm
  · rfl

@[simp] theorem getD_maybeVector {α : Type} (xs : List α) : (maybeVector xs).getD [] = xs := by
  unfold maybeVector
  split
  · next hempty => exact hempty.symm
  · rfl

@[simp] theorem deserializePointer_serializePointer (p : Pointer) :
    deserializePointer (some (serializePointer p)) = p := by
  cases p with
  | monostate => rfl
  | memoryPtr mp => simp [serializePointer, deserializePointer]
  | filePath fp => simp [serializePointer, deserializePointer]
  | networkEndpoint ne => simp [serializePointer, deserializePointer]

@[simp] theorem deserializeDependency_serializeDependency (dep : LabelDependency) :
    deserializeDependency (serializeDependency dep) = dep := by
  unfold deserializeDependency serializeDependency
  rw [scalar_addScalar, scalar_addScalar, HazardType.ofNat_ctorIdx]

@[simp] theorem deserializeHop_serializeHop (hop : HopRecord) :
    deserializeHop (serializeHop hop) = hop := by
  unfold deserializeHop serializeHop
  rw [scalar_addScalar]
  rfl

/-- Without a kind the strings of a continuation are lost. -/
theorem deserializeContinuation_serializeContinuation (c : Continuation) :
    deserializeContinuation (serializeContinuation c) = if c.kind = .none then {} else c := by
  unfold serializeContinuation
  by_cases hkind : c.kind = .none
  · rw [if_neg (not_not.mpr hkind), if_pos hkind]
    rfl
  · rw [if_pos hkind, if_neg hkind]
    simp [deserializeContinuation, ContinuationKind.ofNat_ctorIdx]

@[simp] theorem deserializeRouting_serializeRouting (routing : RoutingDecision) :
    deserializeRouting (serializeRouting routing) = routing := by
  unfold serializeRouting
  split
  · simp [deserializeRouting]
  · next hdefault =>
      obtain ⟨hworker, hpolicy⟩ := not_or.mp hdefault
      obtain ⟨workerId, policy⟩ := routing
      obtain rfl : workerId = 0 := not_not.mp hworker
      obtain rfl : policy = "" := not_not.mp hpolicy
      rfl

/-- Without original ids the merged range is lost. -/
theorem deserializeAggregation_serializeAggregation (aggregation : AggregationInfo) :
    deserializeAggregation (serializeAggregation aggregation) =
      if aggregation.originalIds = [] then {} else aggregation := by
  unfold serializeAggregation
  by_cases hids : aggregation.originalIds = []
  · rw [if_neg (not_not.mpr hids), if_pos hids]
    rfl
  · rw [if_pos hids, if_neg hids]
    simp [deserializeAggregation]

@[simp] theorem deserializeScores_serializeScores (scores : ScoreSnapshot) :
    deserializeScores (serializeScores scores) = scores := by
  unfold serializeScores
  split
  · simp [deserializeScores]
  · next hdefault =>
      obtain ⟨availability, capacity, load, speed, energy, tier⟩ := scores
      simp only [not_or, not_not] at hdefault
      obtain ⟨rfl, rfl, rfl, rfl, rfl, rfl⟩ := hdefault
      rfl

@[simp] theorem deserializeResult_serializeResult (result : LabelResult) :
    deserializeResult (serializeResult result) = result := by
  unfold serializeResult
  split
  · simp [deserializeResult]
  · next hdefault =>
      obtain ⟨dataLocation, error, bytesTransferred⟩ := result
      simp only [not_or, not_not] at hdefault
      obtain ⟨rfl, rfl, rfl⟩ := hdefault
      rfl

theorem deserializePipelineData_serializePipeline {p : Pipeline}
    (hplain : ∀ stage ∈ p.stages, stage.Plain) (htyped : ∀ stage ∈ p.stages, stage.Typed) :
    deserializePipelineData (if p.empty then none else some (serializePipeline p)) = .ok p := by
  split
  · next hempty =>
      obtain ⟨stages⟩ := p
      obtain rfl := List.isEmpty_iff.mp hempty
      rfl
  · next hnonempty =>
      have hread := deserializePipeline_serializePipeline hplain htyped
      unfold deserializePipelineData
      dsimp only
      split
      · next htext =>
          -- an empty text would be read as no stages
          rw [htext] at hread
          obtain rfl := Except.ok.inj hread
          exact absurd rfl hnonempty
      · exact hread

/-- What is left of a label when it is read back. -/
def kept (label : LabelData) : LabelData :=
  { label with
    continuation := if label.continuation.kind = .none then {} else label.continuation
    aggregation := if label.aggregation.originalIds = [] then {} else label.aggregation }

theorem deserializeLabel_serializeLabel {label : LabelData}
    (hplain : ∀ stage ∈ label.pipeline.stages, stage.Plain)
    (htyped : ∀ stage ∈ label.pipeline.stages, stage.Typed) :
    deserializeLabel (serializeLabel label) = .ok (kept label) := by
  unfold deserializeLabel serializeLabel
  dsimp only
  rw [deserializePipelineData_serializePipeline hplain htyped]
  have hdependencies : label.dependencies.map (deserializeDependency ∘ serializeDependency) =
      label.dependencies := by simp [Function.comp_def]
  have hhops : label.hops.map (deserializeHop ∘ serializeHop) = label.hops := by
    simp [Function.comp_def]
  simp only [Except.map, scalar_addScalar, fbReadString_maybeString, getD_maybeVector,
    deserializePointer_serializePointer, deserializeRouting_serializeRouting,
    deserializeScores_serializeScores, deserializeResult_serializeResult,
    deserializeContinuation_serializeContinuation, deserializeAggregation_serializeAggregation,
    List.map_map, hdependencies, hhops, LabelType.ofNat_ctorIdx, Intent.ofNat_ctorIdx,
    Isolation.ofNat_ctorIdx, Durability.ofNat_ctorIdx, StatusCode.ofNat_ctorIdx]
  rfl

end Labios

/-!
## Round trip of labels

Does `deserialize_label` return the label that `serialize_label` was given? Every field
is written unless it has its default, and reads as that default when it was left out,
for all pointers, enumerators, vectors and tables. Two tables are left out although they
may hold something: a continuation of kind `None` and an aggregation without original
ids (`label_roundTrip`).
-/

namespace Labios

/-- **Round trip.** Every label whose pipeline text can be read back comes back as it was,
but for the strings of a continuation of kind `None` and the merged range of an
aggregation without original ids. -/
theorem label_roundTrip (label : LabelData)
    (hplain : ∀ stage ∈ label.pipeline.stages, stage.Plain)
    (htyped : ∀ stage ∈ label.pipeline.stages, stage.Typed) :
    deserializeLabel (serializeLabel label) = .ok (kept label) ∧
      (kept label = label ↔
        (label.continuation.kind = .none → label.continuation = {}) ∧
          (label.aggregation.originalIds = [] → label.aggregation = {})) := by
  refine ⟨deserializeLabel_serializeLabel hplain htyped, ?_⟩
  constructor
  · intro hkept
    have hcontinuation := congrArg LabelData.continuation hkept
    have haggregation := congrArg LabelData.aggregation hkept
    refine ⟨fun hkind => ?_, fun hids => ?_⟩
    · exact hcontinuation.symm.trans (if_pos hkind)
    · exact haggregation.symm.trans (if_pos hids)
  · rintro ⟨hcontinuation, haggregation⟩
    have hsame : (if label.continuation.kind = .none then {} else label.continuation) =
        label.continuation := by
      split
      · next hkind => exact (hcontinuation hkind).symm
      · rfl
    have hsame' : (if label.aggregation.originalIds = [] then {} else label.aggregation) =
        label.aggregation := by
      split
      · next hids => exact (haggregation hids).symm
      · rfl
    unfold kept
    rw [hsame, hsame']

/-- A label that has something in most of its fields, and both kinds of loss. -/
def richLabel : LabelData where
  id := 7
  type := .observe
  source := .networkEndpoint { host := "", port := 0 }
  destination := .filePath { path := "/a", length := 4 }
  dependencies := [{ labelId := 3, hazardType := .war }, {}]
  intent := .reasoningTrace
  isolation := .global
  durability := .durable
  continuation := { targetChannel := "c" }
  pipeline := { stages := [{ operation := "builtin://identity", args := "" }] }
  routing := { policy := "round-robin" }
  aggregation := { mergedOffset := 5 }
  scoreSnapshot := { tier := 2 }
  hops := [{ component := "", timestampUs := 1 }]
  status := .failed
  result := { error := "no worker" }

theorem label_roundTrip_rich :
    deserializeLabel (serializeLabel richLabel) = .ok (kept richLabel) ∧
      kept richLabel ≠ richLabel := by
  obtain ⟨hread, hkept⟩ := label_roundTrip richLabel (by decide) (by decide)
  refine ⟨hread, fun hsame => ?_⟩
  have hcontinuation := (hkept.mp hsame).1 rfl
  have hchannel := congrArg Continuation.targetChannel hcontinuation
  revert hchannel
  decide

end Labios
