import Labios.Label.Basic
import Mathlib.Data.List.Induction
import Mathlib.Logic.Function.Basic

/-!
# Catalog: label status

The per-label hash of `labios/catalog_manager.cpp`: the fields a worker and the
dispatcher write while a label runs. A field that was never set is absent.
`updated_at` and the descriptive fields of `create` are left out; no modelled
function reads them.
-/

namespace Labios

inductive LabelStatus
  | queued | scheduled | executing | complete | error
  deriving DecidableEq, Repr

structure CatalogEntry where
  status : Option LabelStatus := none
  flags : Option UInt32 := none
  workerId : Option Int := none
  error : Option String := none
  deriving DecidableEq, Repr

abbrev StatusCatalog := UInt64 → CatalogEntry

namespace StatusCatalog

def setStatus (catalog : StatusCatalog) (id : UInt64) (status : LabelStatus) : StatusCatalog :=
  Function.update catalog id { catalog id with status := some status }

def setFlags (catalog : StatusCatalog) (id : UInt64) (flags : UInt32) : StatusCatalog :=
  Function.update catalog id { catalog id with flags := some flags }

def setError (catalog : StatusCatalog) (id : UInt64) (error : String) : StatusCatalog :=
  Function.update catalog id { catalog id with error := some error }

structure ScheduleEntry where
  labelId : UInt64
  workerId : Int
  flags : UInt32
  deriving DecidableEq, Repr

/-- One entry of `schedule_batch`. -/
def schedule (catalog : StatusCatalog) (e : ScheduleEntry) : StatusCatalog :=
  Function.update catalog e.labelId
    { catalog e.labelId with
      status := some .scheduled
      flags := some e.flags
      workerId := some e.workerId }

def scheduleBatch (catalog : StatusCatalog) (entries : List ScheduleEntry) : StatusCatalog :=
  entries.foldl schedule catalog

variable (catalog : StatusCatalog) (id other : UInt64)

@[simp] theorem setStatus_status (status : LabelStatus) :
    (catalog.setStatus id status id).status = some status := by
  simp [setStatus]

@[simp] theorem setStatus_of_ne (status : LabelStatus) (h : other ≠ id) :
    catalog.setStatus id status other = catalog other :=
  Function.update_of_ne h _ _

@[simp] theorem setFlags_status (flags : UInt32) :
    (catalog.setFlags id flags other).status = (catalog other).status := by
  by_cases h : other = id
  · subst h
    simp [setFlags]
  · rw [setFlags, Function.update_of_ne h]

@[simp] theorem setFlags_of_ne (flags : UInt32) (h : other ≠ id) :
    catalog.setFlags id flags other = catalog other :=
  Function.update_of_ne h _ _

@[simp] theorem setError_status (error : String) :
    (catalog.setError id error other).status = (catalog other).status := by
  by_cases h : other = id
  · subst h
    simp [setError]
  · rw [setError, Function.update_of_ne h]

@[simp] theorem setError_of_ne (error : String) (h : other ≠ id) :
    catalog.setError id error other = catalog other :=
  Function.update_of_ne h _ _

/-- Every label of the batch ends up scheduled. -/
theorem scheduleBatch_status (entries : List ScheduleEntry)
    (h : id ∈ entries.map (·.labelId)) :
    (catalog.scheduleBatch entries id).status = some .scheduled := by
  induction entries using List.reverseRecOn with
  | nil => simp at h
  | append_singleton entries e ih =>
      rw [scheduleBatch, List.foldl_append, List.foldl_cons, List.foldl_nil]
      by_cases he : id = e.labelId
      · subst he
        simp [schedule]
      · rw [schedule, Function.update_of_ne he]
        apply ih
        simpa [he] using h

end StatusCatalog
end Labios

/-!
## Catalog commands

The functions of the label catalog are sequences of `HSET` commands on single
fields, each of which Redis runs at once. `schedule`, `setStatus`, `setFlags` and
`setError` are what their commands do together.
-/

namespace Labios

open StatusCatalog

/-- `HSET` on a field of a label's hash. -/
inductive CatalogCommand
  | status (id : UInt64) (value : LabelStatus)
  | flags (id : UInt64) (value : UInt32)
  | workerId (id : UInt64) (value : Int)
  | error (id : UInt64) (value : String)
  deriving DecidableEq, Repr

namespace CatalogCommand

def apply (c : CatalogCommand) (catalog : StatusCatalog) : StatusCatalog :=
  match c with
  | status id value => Function.update catalog id { catalog id with status := some value }
  | flags id value => Function.update catalog id { catalog id with flags := some value }
  | workerId id value => Function.update catalog id { catalog id with workerId := some value }
  | error id value => Function.update catalog id { catalog id with error := some value }

def applyAll (commands : List CatalogCommand) (catalog : StatusCatalog) : StatusCatalog :=
  commands.foldl (fun catalog c => c.apply catalog) catalog

theorem applyAll_append (front back : List CatalogCommand) (catalog : StatusCatalog) :
    applyAll (front ++ back) catalog = applyAll back (applyAll front catalog) :=
  List.foldl_append ..

/-- The commands of one entry of `schedule_batch`. -/
def scheduling (e : ScheduleEntry) : List CatalogCommand :=
  [status e.labelId .scheduled, flags e.labelId e.flags, workerId e.labelId e.workerId]

theorem applyAll_scheduling (e : ScheduleEntry) (catalog : StatusCatalog) :
    applyAll (scheduling e) catalog = catalog.schedule e := by
  simp [applyAll, scheduling, apply, schedule]

theorem applyAll_schedulings (entries : List ScheduleEntry) (catalog : StatusCatalog) :
    applyAll (entries.flatMap scheduling) catalog = catalog.scheduleBatch entries := by
  induction entries generalizing catalog with
  | nil => rfl
  | cons e rest ih =>
      rw [List.flatMap_cons, applyAll_append, applyAll_scheduling, ih]
      rfl

/-! ## Statuses -/

/-- The status a command writes. -/
def statusOf : CatalogCommand → Option (UInt64 × LabelStatus)
  | status id value => some (id, value)
  | _ => none

theorem apply_status (c : CatalogCommand) (catalog : StatusCatalog) (x : UInt64) :
    (c.apply catalog x).status =
      match c.statusOf with
      | some (id, value) => if id = x then some value else (catalog x).status
      | none => (catalog x).status := by
  have hkeep : ∀ (id : UInt64) (e : CatalogEntry), e.status = (catalog id).status →
      (Function.update catalog id e x).status = (catalog x).status := by
    intro id e he
    by_cases hx : x = id
    · subst hx
      rw [Function.update_self, he]
    · rw [Function.update_of_ne hx]
  cases c with
  | status id value =>
      by_cases hx : id = x
      · subst hx
        simp [apply, statusOf]
      · simp [apply, statusOf, hx, Function.update_of_ne (Ne.symm hx)]
  | flags id value => exact hkeep id _ rfl
  | workerId id value => exact hkeep id _ rfl
  | error id value => exact hkeep id _ rfl

end CatalogCommand

/-- How far a label has come. -/
def LabelStatus.rank : LabelStatus → Nat
  | .queued => 0
  | .scheduled => 1
  | .executing => 2
  | .complete => 3
  | .error => 3

end Labios
