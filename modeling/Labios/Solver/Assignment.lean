import Labios.Foundation.StdSort
import Labios.Solver.Workers
import Mathlib.Data.List.GetD

/-!
# The solvers

`assign` of the four solvers under `labios/solver`. An assignment map is a list
of keys with what was pushed under each; only maps of one key are ever iterated,
so the order of the keys means nothing.

`count_assignTo` reads a map back: under a key are the labels that were pushed
there, and the solvers are described by whom they push to.
-/

namespace Labios

open Foundation

variable {α : Type}

/-! ## Assignment maps -/

abbrev AssignmentMap (α : Type) := List (Int × List α)

namespace AssignmentMap

/-- `result[key].push_back(label)`. -/
def push (key : Int) (label : α) : AssignmentMap α → AssignmentMap α
  | [] => [(key, [label])]
  | (k, labels) :: rest =>
      if k = key then (k, labels ++ [label]) :: rest else (k, labels) :: push key label rest

/-- How many labels a worker was given. -/
def count (key : Int) : AssignmentMap α → Nat
  | [] => 0
  | (k, labels) :: rest => if k = key then labels.length else count key rest

/-- Every label of the list pushed to its target. -/
def assignTo (map : AssignmentMap α) (targets : List (Int × α)) : AssignmentMap α :=
  targets.foldl (fun map t => map.push t.1 t.2) map

theorem count_push (w key : Int) (label : α) (map : AssignmentMap α) :
    (map.push key label).count w = map.count w + if key = w then 1 else 0 := by
  induction map with
  | nil =>
      simp only [push, count, List.length_singleton]
      omega
  | cons entry rest ih =>
      obtain ⟨k, labels⟩ := entry
      by_cases hk : k = key
      · subst hk
        by_cases hw : k = w
        · simp [push, count, hw]
        · simp [push, count, hw]
      · by_cases hw : k = w
        · subst hw
          simp [push, count, hk, Ne.symm hk]
        · simp [push, count, hk, hw, ih]

theorem count_assignTo (w : Int) (targets : List (Int × α)) (map : AssignmentMap α) :
    (map.assignTo targets).count w = map.count w + (targets.map (·.1)).count w := by
  induction targets generalizing map with
  | nil => rfl
  | cons t rest ih =>
      have hstep : map.assignTo (t :: rest) = (map.push t.1 t.2).assignTo rest := rfl
      rw [hstep, ih, count_push, List.map_cons, List.count_cons]
      simp only [beq_iff_eq]
      omega

end AssignmentMap

open AssignmentMap

/-! ## Round-robin -/

def availableIds (workers : List WorkerInfo) : List Int :=
  (workers.filter (·.available)).map (·.id)

/-- The wrap of the cursor before a call. -/
def wrapCursor (next size : Nat) : Nat := if size ≤ next then 0 else next

/-- The label loop; the cursor moves with every label. -/
def roundRobinLoop (ids : List Int) : Nat → List α → AssignmentMap α → AssignmentMap α × Nat
  | next, [], map => (map, next)
  | next, label :: rest, map =>
      roundRobinLoop ids ((next + 1) % ids.length) rest (map.push (ids.getD next 0) label)

def roundRobinAssign (next : Nat) (labels : List α) (workers : List WorkerInfo) :
    AssignmentMap α × Nat :=
  let ids := availableIds workers
  if ids.isEmpty then ([], next)
  else roundRobinLoop ids (wrapCursor next ids.length) labels []

/-! ## Random -/

section Random

variable {γ : Type}

/-- One draw per label, over all workers. The distribution of `k + 1` workers
is over the indices `0` to `k`. -/
def randomLoop (draw : γ → (k : Nat) → Fin (k + 1) × γ) (workers : List WorkerInfo) :
    γ → List α → AssignmentMap α → AssignmentMap α × γ
  | rng, [], map => (map, rng)
  | rng, label :: rest, map =>
      let (i, rng) := draw rng (workers.length - 1)
      randomLoop draw workers rng rest (map.push ((workers.map (·.id)).getD i 0) label)

def randomAssign (draw : γ → (k : Nat) → Fin (k + 1) × γ) (rng : γ) (labels : List α)
    (workers : List WorkerInfo) : AssignmentMap α × γ :=
  if workers.isEmpty then ([], rng) else randomLoop draw workers rng labels []

end Random

/-! ## Constraint -/

/-- The available workers, best score first. -/
def scoredWorkers (S : StdSort) (score : WorkerInfo → Rat) (workers : List WorkerInfo) :
    List WorkerInfo :=
  S.sortDescending score (workers.filter (·.available))

/-- `min(scored, max(1, ceil(labels / 50)))`. -/
def workersNeeded (scored labels : Nat) : Nat := min scored (max 1 ((labels + 49) / 50))

def constraintAssign (S : StdSort) (score : WorkerInfo → Rat) (labels : List α)
    (workers : List WorkerInfo) : AssignmentMap α :=
  let ids := (scoredWorkers S score workers).map (·.id)
  if workers.isEmpty ∨ labels.isEmpty ∨ ids.isEmpty then []
  else
    let needed := workersNeeded ids.length labels.length
    assignTo [] (labels.zipIdx.map fun p => (ids.getD (p.2 % needed) 0, p.1))

/-! ## Minmax -/

/-- The worker loop: each takes its share of what remains, at least one label.
It ends with the labels that are left. -/
def minmaxLoop (share : WorkerInfo → Nat) :
    List WorkerInfo → List α → AssignmentMap α → AssignmentMap α × List α
  | [], labels, map => (map, labels)
  | w :: rest, labels, map =>
      if labels.isEmpty then (map, [])
      else
        let count := min (share w) labels.length
        let count := if count = 0 then 1 else count
        minmaxLoop share rest (labels.drop count)
          (map.assignTo ((labels.take count).map fun l => (w.id, l)))

def minmaxAssign (S : StdSort) (scoring : Scoring) (labels : List α)
    (workers : List WorkerInfo) : AssignmentMap α :=
  let scored := scoredWorkers S scoring.profit workers
  if workers.isEmpty ∨ labels.isEmpty then []
  else
    match scored with
    | [] => []
    | top :: _ =>
        let share := fun w =>
          scoring.share (scoring.profit w) (scored.map scoring.profit) labels.length
        let (map, left) := minmaxLoop share scored labels []
        map.assignTo (left.map fun l => (top.id, l))

/-! ## A batch of one -/

section Single

variable (S : StdSort) (label : α) (workers : List WorkerInfo)

theorem scoredWorkers_perm (score : WorkerInfo → Rat) :
    (scoredWorkers S score workers).Perm (workers.filter (·.available)) :=
  S.sortDescending_perm score _

theorem scoredWorkers_eq_nil (score : WorkerInfo → Rat) :
    scoredWorkers S score workers = [] ↔ ∀ w ∈ workers, w.available = false := by
  have hperm := scoredWorkers_perm S workers score
  have hnil : scoredWorkers S score workers = [] ↔ workers.filter (·.available) = [] :=
    ⟨fun h => (h ▸ hperm).symm.eq_nil, fun h => (h ▸ hperm).eq_nil⟩
  rw [hnil, List.filter_eq_nil_iff]
  exact forall₂_congr fun w _ => iff_of_eq (Bool.not_eq_true _)

theorem workers_ne_nil {score : WorkerInfo → Rat} {top : WorkerInfo} {rest : List WorkerInfo}
    (h : scoredWorkers S score workers = top :: rest) : workers.isEmpty = false := by
  cases workers with
  | nil =>
      rw [(scoredWorkers_eq_nil S [] score).mpr (fun _ hw => absurd hw List.not_mem_nil)] at h
      exact absurd h (by simp)
  | cons _ _ => rfl

/-- A constraint batch of one goes to the best available worker. -/
theorem constraintAssign_single (score : WorkerInfo → Rat) :
    constraintAssign S score [label] workers =
      ((scoredWorkers S score workers).head?.map fun w => (w.id, [label])).toList := by
  unfold constraintAssign
  cases hscored : scoredWorkers S score workers with
  | nil => simp
  | cons top rest => simp [workers_ne_nil S workers hscored, assignTo, push, workersNeeded]

/-- So does a minmax batch of one: the first worker takes at least one label. -/
theorem minmaxAssign_single (scoring : Scoring) :
    minmaxAssign S scoring [label] workers =
      ((scoredWorkers S scoring.profit workers).head?.map fun w => (w.id, [label])).toList := by
  unfold minmaxAssign
  cases hscored : scoredWorkers S scoring.profit workers with
  | nil => simp
  | cons top rest =>
      have hloop : ∀ share : WorkerInfo → Nat,
          minmaxLoop share (top :: rest) [label] [] = ([(top.id, [label])], []) := by
        intro share
        have hone : (if min (share top) 1 = 0 then 1 else min (share top) 1) = 1 := by
          split
          · rfl
          · omega
        have hend : ∀ map : AssignmentMap α,
            minmaxLoop share rest ([] : List α) map = (map, []) := by
          intro map
          cases rest with
          | nil => rfl
          | cons _ _ => rfl
        simp only [minmaxLoop, List.isEmpty_cons, Bool.false_eq_true, if_false,
          List.length_singleton, hone]
        exact hend _
      simp [workers_ne_nil S workers hscored, hloop, assignTo]

theorem roundRobinAssign_single (next : Nat) :
    roundRobinAssign next [label] workers =
      if (availableIds workers).isEmpty then ([], next)
      else
        let cursor := wrapCursor next (availableIds workers).length
        ([((availableIds workers).getD cursor 0, [label])],
          (cursor + 1) % (availableIds workers).length) :=
  rfl

theorem randomAssign_single {γ : Type} (draw : γ → (k : Nat) → Fin (k + 1) × γ) (rng : γ) :
    randomAssign draw rng [label] workers =
      if workers.isEmpty then ([], rng)
      else
        ([((workers.map (·.id)).getD (draw rng (workers.length - 1)).1 0, [label])],
          (draw rng (workers.length - 1)).2) :=
  rfl

end Single
end Labios
