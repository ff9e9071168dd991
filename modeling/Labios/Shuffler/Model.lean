import Labios.Foundation.Grouping
import Labios.Foundation.StdSort
import Labios.Label.Basic

/-!
# The shuffler

`labios/shuffler.cpp`, function by function: `aggregate` merges runs of abutting
writes of one file, `detectDependencies` records RAW/WAW/WAR hazards between
the labels of one granularity group, `buildSupertasks` collects the labels
involved in a dependency, and `shuffle` chains the three and routes the
remaining reads by location.

Vectors are lists. The three `std::sort` calls go through a `StdSort`, because
the order they give to equal keys is not specified.
-/

namespace Labios

open Foundation

/-! ## Helpers -/

structure OffsetRange where
  offset : UInt64 := 0
  length : UInt64 := 0
  deriving DecidableEq, Repr

def getRange : Pointer → OffsetRange
  | .filePath fp => { offset := fp.offset, length := fp.length }
  | _ => {}

/-- Write, Delete and Flush use the destination; everything else the source. -/
def labelRange (l : LabelData) : OffsetRange :=
  match l.type with
  | .write | .delete | .flush => getRange l.destination
  | _ => getRange l.source

/-- The sums wrap at `2 ^ 64`, as in the code. -/
def rangesOverlap (a b : OffsetRange) : Bool :=
  if a.length == 0 || b.length == 0 then false
  else decide (a.offset < b.offset + b.length) && decide (b.offset < a.offset + a.length)

/-- The grouping key: the application for `per-application`, else the file key. -/
def groupKey (l : LabelData) (granularity : String) : String :=
  if granularity == "per-application" then toString l.appId else l.fileKey

structure ShufflerConfig where
  aggregationEnabled : Bool := true
  depGranularity : String := "per-file"
  deriving DecidableEq, Repr

structure Supertask where
  composite : LabelData
  children : List LabelData
  deriving DecidableEq, Repr

/-- `reply_fanout`: merged label id to the reply addresses of its members. -/
abbrev ReplyFanout := UInt64 → Option (List String)

abbrev LocationLookup := String → UInt64 → UInt64 → Option Int

structure ShuffleResult where
  directRoute : List (LabelData × Int)
  supertasks : List Supertask
  independent : List LabelData
  replyFanout : ReplyFanout

/-! ## aggregate -/

def destOffset (w : LabelData) : UInt64 := (getRange w.destination).offset

/-- `run_end_offset` after the run has taken `w`. -/
def runEndOffset (w : LabelData) : UInt64 := destOffset w + w.dataSize

/-- The two nested scan loops as one pass: `run` holds `writes[run_start .. j)`,
and the next write joins it or closes it. -/
def scanRuns (run : List LabelData) (runEnd : UInt64) : List LabelData → List (List LabelData)
  | [] => [run]
  | w :: rest =>
      if destOffset w == runEnd then scanRuns (run ++ [w]) (runEndOffset w) rest
      else run :: scanRuns [w] (runEndOffset w) rest

def totalSize (run : List LabelData) : UInt64 :=
  run.foldl (fun total w => total + w.dataSize) 0

/-- The label that replaces a run, rebuilt field by field from its first write. -/
def mergeRun (first : LabelData) (run : List LabelData) : LabelData :=
  { id := first.id
    type := .write
    destination := filePath ((first.destination.path?).getD "") (destOffset first) (totalSize run)
    dataSize := totalSize run
    children := run.map (·.id)
    replyTo := first.replyTo
    aggregation :=
      { originalIds := run.map (·.id)
        mergedOffset := destOffset first
        mergedLength := totalSize run }
    fileKey := first.fileKey
    appId := first.appId
    flags := first.flags
    priority := first.priority
    intent := first.intent
    ttlSeconds := first.ttlSeconds
    isolation := first.isolation
    source := first.source
    operation := first.operation }

/-- The non-empty reply addresses of a run. -/
def runReplies (run : List LabelData) : List String :=
  (run.map (·.replyTo)).filter (fun r => r ≠ "")

/-- What `aggregate` has built so far. -/
structure AggregateState where
  output : List LabelData := []
  replyFanout : ReplyFanout := fun _ => none

/-- Emit one run: a single write as it is, a longer run merged. -/
def emitRun (st : AggregateState) (run : List LabelData) : AggregateState :=
  match run with
  | [] => st
  | [w] => { st with output := st.output ++ [w] }
  | first :: _ :: _ =>
      let merged := mergeRun first run
      { output := st.output ++ [merged]
        replyFanout :=
          if (runReplies run).length > 1 then
            Function.update st.replyFanout merged.id (some (runReplies run))
          else st.replyFanout }

/-- One file group: the non-writes pass, the writes are sorted and scanned. -/
def aggregateGroup (S : StdSort) (st : AggregateState) (group : List LabelData) :
    AggregateState :=
  let writes := group.filter (fun l => l.type = .write)
  let st := { st with output := st.output ++ group.filter (fun l => l.type ≠ .write) }
  match S.sortBy (fun w => (destOffset w).toNat) writes with
  | [] => st
  | w :: rest => (scanRuns [w] (runEndOffset w) rest).foldl emitRun st

def aggregate (S : StdSort) (config : ShufflerConfig) (labels : List LabelData) :
    AggregateState :=
  if !config.aggregationEnabled then { output := labels }
  else ((groupBy (·.fileKey) labels).map (·.2)).foldl (aggregateGroup S) {}

/-! ## detect_dependencies -/

/-- The body of the pair loop: the hazard that `later` has on `earlier`. -/
def hazardBetween (earlier later : LabelData) : Option HazardType :=
  if !rangesOverlap (labelRange earlier) (labelRange later) then none
  else if earlier.type = .read ∧ later.type = .read then none
  else if earlier.type = .write ∧ later.type = .read then some .raw
  else if earlier.type = .write ∧ later.type = .write then some .waw
  else some .war

/-- `later.dependencies.push_back(..)` for one pair of indices. -/
def recordHazard (labels : List LabelData) (pair : Nat × Nat) : List LabelData :=
  match labels[pair.1]?, labels[pair.2]? with
  | some earlier, some later =>
      match hazardBetween earlier later with
      | some hazard =>
          labels.set pair.2
            { later with dependencies := later.dependencies ++ [⟨earlier.id, hazard⟩] }
      | none => labels
  | _, _ => labels

/-- The index pairs of the double loop `ii < jj`, in loop order. -/
def indexPairs : List Nat → List (Nat × Nat)
  | [] => []
  | i :: rest => rest.map (fun j => (i, j)) ++ indexPairs rest

/-- The id at an index of the vector, as a sort key. -/
def idAt (labels : List LabelData) (i : Nat) : Nat :=
  (labels[i]?).elim 0 idKey

def keyAt (labels : List LabelData) (granularity : String) (i : Nat) : String :=
  (labels[i]?).elim "" (fun l => groupKey l granularity)

def detectDependencies (S : StdSort) (granularity : String) (labels : List LabelData) :
    List LabelData :=
  let groups := groupBy (keyAt labels granularity) (List.range labels.length)
  let pairs := groups.flatMap (fun g => indexPairs (S.sortBy (idAt labels) g.2))
  pairs.foldl recordHazard labels

/-! ## build_supertasks -/

/-- The ids that take part in any dependency, as dependent or as dependency. -/
def involvedIds (labels : List LabelData) : List UInt64 :=
  labels.flatMap fun l =>
    if l.dependencies.isEmpty then [] else l.id :: l.dependencies.map (·.labelId)

/-- The composite label over a group in id order whose first label is `first`. -/
def makeComposite (first : LabelData) (group : List LabelData) : LabelData :=
  { id := first.id
    type := .composite
    fileKey := first.fileKey
    appId := first.appId
    priority := first.priority
    flags := first.flags
    children := group.map (·.id) }

def joinSupertask (id : UInt64) (child : LabelData) : LabelData :=
  { child with supertaskId := id }

/-- One supertask from one group of dependent labels. -/
def makeSupertask (S : StdSort) (group : List LabelData) : Option Supertask :=
  match S.sortBy idKey group with
  | [] => none
  | first :: rest =>
      some
        { composite := makeComposite first (first :: rest)
          children := (first :: rest).map (joinSupertask first.id) }

/-- The supertasks, and the labels left independent. -/
def buildSupertasks (S : StdSort) (granularity : String) (labels : List LabelData) :
    List Supertask × List LabelData :=
  let involved := involvedIds labels
  let dependent := labels.filter (fun l => l.id ∈ involved)
  let independent := labels.filter (fun l => l.id ∉ involved)
  let groups := groupBy (groupKey · granularity) dependent
  (groups.filterMap (fun g => makeSupertask S g.2), independent)

/-! ## shuffle -/

/-- Phase 4 for one label: the worker that holds what a read asks for. -/
def readLocation (lookup : Option LocationLookup) (l : LabelData) : Option Int :=
  match l.type, lookup with
  | .read, some find => find l.fileKey (labelRange l).offset (labelRange l).length
  | _, _ => none

def shuffle (S : StdSort) (config : ShufflerConfig) (batch : List LabelData)
    (lookup : Option LocationLookup) : ShuffleResult :=
  let aggregated := aggregate S config batch
  let detected := detectDependencies S config.depGranularity aggregated.output
  let (supertasks, remaining) := buildSupertasks S config.depGranularity detected
  { directRoute := remaining.filterMap (fun l => (readLocation lookup l).map (fun w => (l, w)))
    supertasks := supertasks
    independent := remaining.filter (fun l => (readLocation lookup l).isNone)
    replyFanout := aggregated.replyFanout }

end Labios
