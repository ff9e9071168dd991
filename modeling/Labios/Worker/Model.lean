import Labios.Catalog.Status
import Labios.Label.Basic

/-!
# The worker

The message handler of `services/labios-worker.cpp`: one label, or a composite
whose children run one after another until one throws. An exception is a value
`.error text`.

What an execution does to the warehouse and the backends is a parameter: a
worker carries its `execute_write`, its `execute_read` and its continuation
step, each a function on a storage state `σ`. The handler itself is what is
modelled: the order of the steps, the status writes, the completions.
-/

namespace Labios

open StatusCatalog

structure CompletionResult where
  status : CompletionStatus := .complete
  dataKey : String := ""
  resultLocation : String := ""
  bytesTransferred : UInt64 := 0
  deriving DecidableEq, Repr

/-- A worker: its name, the clock, and what its executions do. An execution that
returns, returns `Complete`; every other outcome is an exception. -/
structure Worker (σ : Type) where
  name : String
  now : UInt64
  executeWrite : LabelData → σ → Except String CompletionResult × σ
  executeRead : LabelData → σ → Except String CompletionResult × σ
  processContinuation : LabelData → CompletionData → σ → σ
  write_complete : ∀ l s r, (executeWrite l s).1 = .ok r → r.status = .complete
  read_complete : ∀ l s r, (executeRead l s).1 = .ok r → r.status = .complete

structure WorkerState (σ : Type) where
  storage : σ
  catalog : StatusCatalog
  /-- `labios:supertask:<id>`, unpacked. -/
  supertasks : UInt64 → Option (List LabelData)
  /-- What has been published on reply inboxes, oldest first. -/
  published : List (String × CompletionData) := []

/-- `static_cast<int>(type)`. -/
def LabelType.code : LabelType → Nat
  | .read => 0
  | .write => 1
  | .delete => 2
  | .flush => 3
  | .composite => 4
  | .observe => 5

def publishCompletion (published : List (String × CompletionData)) (replyTo : String)
    (completion : CompletionData) : List (String × CompletionData) :=
  if replyTo.isEmpty then published else published ++ [(replyTo, completion)]

section Handler

variable {σ : Type} (w : Worker σ)

def maybeProcessContinuation (label : LabelData) (completion : CompletionData) (s : σ) : σ :=
  if label.continuation.kind = .none then s else w.processContinuation label completion s

/-! ## Composite execution -/

/-- The type dispatch for one child. -/
def executeChild (child : LabelData) (s : σ) : Except String CompletionResult × σ :=
  match child.type with
  | .write => w.executeWrite child s
  | .read => w.executeRead child s
  | t => (.error ("unsupported child label type: " ++ toString t.code), s)

def successCompletion (child : LabelData) (result : CompletionResult) : CompletionData :=
  { labelId := child.id
    status := result.status
    dataKey := if child.type = .read then result.dataKey else "" }

def errorCompletion (label : LabelData) (text : String) : CompletionData :=
  { labelId := label.id, status := .error, error := text }

/-- The body of the child loop. An exception is answered and recorded for the
child, then rethrown. -/
def runChild (child : LabelData) (st : WorkerState σ) :
    Except String UInt64 × WorkerState σ :=
  let child := markLabelExecuting child w.name w.now
  let catalog := (st.catalog.setStatus child.id .executing).setFlags child.id child.flags
  match executeChild w child st.storage with
  | (.ok result, storage) =>
      let completion := successCompletion child result
      let child := markLabelFinished child completion.status result.resultLocation
        result.bytesTransferred "" w.now
      (.ok result.bytesTransferred,
        { st with
          storage := maybeProcessContinuation w child completion storage
          catalog := catalog.setStatus child.id .complete
          published := publishCompletion st.published child.replyTo completion })
  | (.error text, storage) =>
      let completion := errorCompletion child text
      let child := markLabelFinished child completion.status "" 0 text w.now
      (.error text,
        { st with
          storage := maybeProcessContinuation w child completion storage
          catalog := (catalog.setStatus child.id .error).setError child.id text
          published := publishCompletion st.published child.replyTo completion })

/-- The child loop; the first exception leaves it. -/
def runChildren : List LabelData → UInt64 → WorkerState σ →
    Except String UInt64 × WorkerState σ
  | [], bytes, st => (.ok bytes, st)
  | child :: rest, bytes, st =>
      match runChild w child st with
      | (.ok transferred, st) => runChildren rest (bytes + transferred) st
      | (.error text, st) => (.error text, st)

/-! ## One message -/

/-- The common end of a label that was executed. -/
def finishLabel (label : LabelData) (completion : CompletionData) (result : CompletionResult)
    (st : WorkerState σ) : WorkerState σ :=
  let label := markLabelFinished label completion.status result.resultLocation
    result.bytesTransferred "" w.now
  { st with
    storage := maybeProcessContinuation w label completion st.storage
    catalog := st.catalog.setStatus label.id .complete
    published := publishCompletion st.published label.replyTo completion }

/-- The outer handler. -/
def failLabel (label : LabelData) (text : String) (st : WorkerState σ) : WorkerState σ :=
  let completion := errorCompletion label text
  let label := markLabelFinished label completion.status "" 0 text w.now
  { st with
    storage := maybeProcessContinuation w label completion st.storage
    catalog :=
      if completion.labelId ≠ 0 then
        (st.catalog.setStatus completion.labelId .error).setError completion.labelId text
      else st.catalog
    published := publishCompletion st.published label.replyTo completion }

/-- What the worker does with one label it receives. -/
def processLabel (label : LabelData) (st : WorkerState σ) : WorkerState σ :=
  let label := markLabelExecuting label w.name w.now
  let st := { st with
    catalog := (st.catalog.setStatus label.id .executing).setFlags label.id label.flags }
  match label.type with
  | .write =>
      match w.executeWrite label st.storage with
      | (.ok result, storage) =>
          finishLabel w label (successCompletion label result) result { st with storage }
      | (.error text, storage) => failLabel w label text { st with storage }
  | .read =>
      match w.executeRead label st.storage with
      | (.ok result, storage) =>
          finishLabel w label (successCompletion label result) result { st with storage }
      | (.error text, storage) => failLabel w label text { st with storage }
  | .composite =>
      match st.supertasks label.id with
      | none => failLabel w label ("supertask children not found for " ++ toString label.id) st
      | some children =>
          match runChildren w children 0 st with
          | (.ok bytes, st) =>
              finishLabel w label { labelId := label.id } { bytesTransferred := bytes }
                { st with supertasks := Function.update st.supertasks label.id none }
          | (.error text, st) => failLabel w label text st
  | t => failLabel w label ("unsupported label type: " ++ toString t.code) st

end Handler

/-! ## Marked labels -/

section Marks

variable (l : LabelData) (component : String) (ts : UInt64)

@[simp] theorem markLabelExecuting_id : (markLabelExecuting l component ts).id = l.id :=
  id_of_request (request_markLabelExecuting l ts component)

@[simp] theorem markLabelExecuting_type : (markLabelExecuting l component ts).type = l.type :=
  type_of_request (request_markLabelExecuting l ts component)

@[simp] theorem markLabelExecuting_replyTo :
    (markLabelExecuting l component ts).replyTo = l.replyTo :=
  replyTo_of_request (request_markLabelExecuting l ts component)

@[simp] theorem markLabelFinished_id (status : CompletionStatus) (location error : String)
    (bytes : UInt64) : (markLabelFinished l status location bytes error ts).id = l.id :=
  id_of_request (request_markLabelFinished l ts status location error bytes)

@[simp] theorem markLabelFinished_replyTo (status : CompletionStatus) (location error : String)
    (bytes : UInt64) :
    (markLabelFinished l status location bytes error ts).replyTo = l.replyTo :=
  replyTo_of_request (request_markLabelFinished l ts status location error bytes)

end Marks
end Labios
