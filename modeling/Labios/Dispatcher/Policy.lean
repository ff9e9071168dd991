import Labios.Dispatcher.Routing
import Labios.Solver.Assignment

/-!
# Scheduling policies

`solve` and `select_worker` of the batch loop: the policy string picks one of
the four solvers, and a label is placed by a call on a batch of one. Round-robin
and random carry state from call to call.

`selectWorker_eq` is the placement policy by policy; `selectWorker_none_iff` says
when nobody is found, `selectWorker_mem` who can be.
-/

namespace Labios

open Foundation AssignmentMap

structure Scheduling (γ : Type) where
  sort : StdSort
  /-- `scheduler.policy`. -/
  policy : String
  scoring : Scoring
  /-- One draw of `std::uniform_int_distribution(0, k)`. -/
  draw : γ → (k : Nat) → Fin (k + 1) × γ

structure SolverState (γ : Type) where
  /-- The cursor of the round-robin solver. -/
  next : Nat := 0
  rng : γ

section Solve

variable {γ α : Type} (c : Scheduling γ)

def solve (labels : List α) (workers : List WorkerInfo) (intent : Intent) (s : SolverState γ) :
    AssignmentMap α × SolverState γ :=
  if c.policy = "random" then
    let (map, rng) := randomAssign c.draw s.rng labels workers
    (map, { s with rng })
  else if c.policy = "constraint" then
    (constraintAssign c.sort (c.scoring.score intent) labels workers, s)
  else if c.policy = "minmax" then (minmaxAssign c.sort c.scoring labels workers, s)
  else
    let (map, next) := roundRobinAssign s.next labels workers
    (map, { s with next })

/-- `select_worker`: the key of the one assignment. -/
def selectWorker (workers : List WorkerInfo) (intent : Intent) (s : SolverState γ) :
    Option Int × SolverState γ :=
  let (map, s) := solve c [()] workers intent s
  (map.head?.map (·.1), s)

/-- The dispatcher that schedules this way. -/
def Scheduling.dispatcher (config : ShufflerConfig) (now : UInt64) (inboxName : Nat → String) :
    Dispatcher (SolverState γ) :=
  { config
    policy := c.policy
    now
    selectWorker := selectWorker c
    inboxName }

/-! ## One call -/

/-- The score that orders the workers, under the two policies that score. -/
def policyScore (intent : Intent) : WorkerInfo → Rat :=
  if c.policy = "constraint" then c.scoring.score intent else c.scoring.profit

/-- The policy is one of the two that score. -/
def Scheduling.Scores : Prop := c.policy = "constraint" ∨ c.policy = "minmax"

instance : Decidable c.Scores := inferInstanceAs (Decidable (_ ∨ _))

/-- The available worker that a scoring policy puts first. -/
def topWorker (workers : List WorkerInfo) (intent : Intent) : Option WorkerInfo :=
  (scoredWorkers c.sort (policyScore c intent) workers).head?

/-- The worker under the cursor of the round-robin solver. -/
def cursorWorker (workers : List WorkerInfo) (next : Nat) : Int :=
  (availableIds workers).getD (wrapCursor next (availableIds workers).length) 0

variable (workers : List WorkerInfo) (intent : Intent) (s : SolverState γ)

theorem selectWorker_scores (h : c.Scores) :
    selectWorker c workers intent s = ((topWorker c workers intent).map (·.id), s) := by
  unfold selectWorker solve topWorker policyScore
  rcases h with hp | hp
  · rw [if_neg (by rw [hp]; decide), if_pos hp, if_pos hp, constraintAssign_single]
    cases (scoredWorkers c.sort (c.scoring.score intent) workers).head? with
    | none => rfl
    | some top => rfl
  · rw [if_neg (by rw [hp]; decide), if_neg (by rw [hp]; decide), if_pos hp,
      if_neg (by rw [hp]; decide), minmaxAssign_single]
    cases (scoredWorkers c.sort c.scoring.profit workers).head? with
    | none => rfl
    | some top => rfl

theorem selectWorker_random (h : c.policy = "random") :
    selectWorker c workers intent s =
      if workers.isEmpty then (none, s)
      else
        (some ((workers.map (·.id)).getD (c.draw s.rng (workers.length - 1)).1 0),
          { s with rng := (c.draw s.rng (workers.length - 1)).2 }) := by
  unfold selectWorker solve
  rw [if_pos h, randomAssign_single]
  cases workers with
  | nil => rfl
  | cons _ _ => rfl

theorem selectWorker_roundRobin (hrandom : c.policy ≠ "random") (hscores : ¬c.Scores) :
    selectWorker c workers intent s =
      if (availableIds workers).isEmpty then (none, s)
      else
        (some (cursorWorker workers s.next),
          { s with
            next := (wrapCursor s.next (availableIds workers).length + 1) %
              (availableIds workers).length }) := by
  unfold selectWorker solve
  rw [if_neg hrandom, if_neg fun h => hscores (.inl h), if_neg fun h => hscores (.inr h),
    roundRobinAssign_single]
  by_cases hempty : (availableIds workers).isEmpty
  · rw [if_pos hempty, if_pos hempty]
    rfl
  · rw [if_neg hempty, if_neg hempty]
    rfl

/-! ## Who is found -/

/-- The policy finds somebody: random takes any worker, the others an available one. -/
def FindsWorker : Prop :=
  if c.policy = "random" then workers ≠ [] else ∃ w ∈ workers, w.available = true

instance : Decidable (FindsWorker c workers) :=
  inferInstanceAs (Decidable (if c.policy = "random" then workers ≠ []
    else ∃ w ∈ workers, w.available = true))

theorem availableIds_eq_nil : availableIds workers = [] ↔ ∀ w ∈ workers, w.available = false := by
  rw [availableIds, List.map_eq_nil_iff, List.filter_eq_nil_iff]
  exact forall₂_congr fun w _ => iff_of_eq (Bool.not_eq_true _)

theorem noneAvailable_iff :
    (∀ w ∈ workers, w.available = false) ↔ ¬∃ w ∈ workers, w.available = true := by
  push Not
  exact forall₂_congr fun w _ => (iff_of_eq (Bool.not_eq_true _)).symm

/-- Whether a worker is found depends on the policy and the workers alone. -/
theorem selectWorker_none_iff :
    (selectWorker c workers intent s).1 = none ↔ ¬FindsWorker c workers := by
  unfold FindsWorker
  by_cases hrandom : c.policy = "random"
  · rw [selectWorker_random c workers intent s hrandom, if_pos hrandom]
    cases workers with
    | nil => simp
    | cons _ _ => simp
  · rw [if_neg hrandom, ← noneAvailable_iff]
    by_cases hscores : c.Scores
    · rw [selectWorker_scores c workers intent s hscores,
        ← scoredWorkers_eq_nil c.sort workers (policyScore c intent)]
      simp [topWorker]
    · rw [selectWorker_roundRobin c workers intent s hrandom hscores,
        ← availableIds_eq_nil workers]
      by_cases hempty : availableIds workers = []
      · simp [hempty]
      · simp [hempty]

end Solve

theorem solverFinds_of_findsWorker {γ : Type} {c : Scheduling γ} (config : ShufflerConfig)
    (now : UInt64) (inboxName : Nat → String) {workers : List WorkerInfo}
    (h : FindsWorker c workers) : SolverFinds (c.dispatcher config now inboxName) workers := by
  intro intent s
  have hsome := mt (selectWorker_none_iff c workers intent s).mp (not_not.mpr h)
  obtain ⟨w, hw⟩ := Option.ne_none_iff_exists'.mp hsome
  exact ⟨w, _, Prod.ext hw rfl⟩

/-! ## A scheduling to run with -/

/-- A policy without random numbers, over workers that score exactly. -/
def plainScheduling (policy : String) : Scheduling Unit :=
  { sort := .insertion
    policy
    scoring := exactScoring {}
    draw := fun s _ => (0, s) }

/-- A dispatcher that has nothing staged and nothing located. -/
def freshState : DispatchState (SolverState Unit) :=
  { solver := { rng := () }
    warehouse := fun _ => none
    locations := { whole := fun _ => none, ranged := fun _ => [] }
    status := fun _ => {} }

/-- Two workers alike. -/
def twins : List WorkerInfo := [{ id := 1 }, { id := 2 }]

end Labios
