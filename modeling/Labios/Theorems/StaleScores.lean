import Labios.Elastic.Workers
import Labios.Foundation.Machine

/-!
# The handlers of the manager

The handlers of `services/labios-manager.cpp` that change the registry, on one thread a subject. The
handler of `labios.worker.score_update` copies all workers, edits the row of its worker and writes
the row back in a second call, so a registration may come in between.

`said` is what the messages say: a registration sets a worker, and an update sets its capacity,
load and availability.
-/

namespace Labios.Elastic

open Foundation

/-- What a score update says of a worker. -/
structure ScoreMessage where
  id : Int
  capacity : ℚ := 1
  load : ℚ := 0
  available : Bool := true
  deriving DecidableEq

/-- The worker with the numbers of the message. -/
def ScoreMessage.apply (msg : ScoreMessage) (w : WorkerInfo) : WorkerInfo :=
  { w with capacity := msg.capacity, load := msg.load, available := msg.available }

def WorkerManager.allWorkers (m : WorkerManager) : List WorkerInfo := m.workers.entries.map (·.2)

structure Handlers where
  mgr : WorkerManager := {}
  /-- The score update that is handled, with the row of its worker. -/
  pending : Option (ScoreMessage × WorkerInfo) := none
  /-- The workers as the messages say. -/
  said : Int → Option WorkerInfo := fun _ => none

inductive HandlerEvent
  | registers (info : WorkerInfo)
  | deregisters (id : Int)
  /-- The score update handler finds its worker in the copy, or is done. -/
  | reads (msg : ScoreMessage)
  /-- It writes the row back. -/
  | writes (now : Int)

namespace Handlers

def step (s : Handlers) : HandlerEvent → Option Handlers
  | .registers info =>
      some
        { s with
          mgr := s.mgr.registerWorker info
          said := Function.update s.said info.id (some info) }
  | .deregisters id =>
      some { s with mgr := s.mgr.deregisterWorker id, said := Function.update s.said id none }
  | .reads msg =>
      if s.pending.isSome then none
      else
        some { s with pending := (s.mgr.allWorkers.find? (·.id = msg.id)).map fun w => (msg, w) }
  | .writes now =>
      s.pending.map fun (msg, w) =>
        { mgr := s.mgr.updateScore msg.id (msg.apply w) now
          pending := none
          said := Function.update s.said msg.id ((s.said msg.id).map msg.apply) }

end Handlers

/-- An update replaces the row of a registered worker. -/
theorem WorkerManager.lookup_updateScore (m : WorkerManager) (id : Int) (info : WorkerInfo)
    (now id' : Int) :
    (m.updateScore id info now).workers.lookup id' =
      if id' = id then (m.workers.lookup id).map fun _ => info else m.workers.lookup id' := by
  unfold WorkerManager.updateScore
  cases hlookup : m.workers.lookup id with
  | none =>
      dsimp only
      by_cases heq : id' = id
      · rw [if_pos heq, heq, hlookup]
        rfl
      · rw [if_neg heq]
  | some old =>
      dsimp only
      by_cases heq : id' = id
      · rw [if_pos heq, heq, AList.lookup_insert]
        rfl
      · rw [if_neg heq, AList.lookup_insert_ne heq]

end Labios.Elastic

/-!
## Scores that undo a registration

The static variables of a worker are set when it registers. The handler of a score update writes a
whole row back that it read before, so it also sets them. `registrations_kept_iff` says in which
runs the registry is what the messages say all the time: those in which the worker that a score
update is written for has not registered with other static variables since its row was read.
-/

namespace Labios.Elastic

open Foundation

/-- Speed, energy and tier, which a worker sets when it registers. -/
def staticVariables (w : WorkerInfo) : Int × Int × WorkerTier := (w.speed, w.energy, w.tier)

def dynamicVariables (w : WorkerInfo) : ℚ × ℚ × Bool := (w.capacity, w.load, w.available)

namespace Handlers

/-- The registered workers are those of the messages, with the variables of their latest
registration or score update. -/
def Truthful (s : Handlers) : Prop :=
  ∀ id, (s.mgr.workers.lookup id).map staticVariables = (s.said id).map staticVariables ∧
    (s.mgr.workers.lookup id).map dynamicVariables = (s.said id).map dynamicVariables

/-- The row that is written back has the static variables of the registration, if its worker is
still registered. -/
def RowCurrent (s : Handlers) : HandlerEvent → Prop
  | .writes _ => ∀ p ∈ s.pending, ∀ w ∈ s.said p.1.id, staticVariables p.2 = staticVariables w
  | .registers _ | .deregisters _ | .reads _ => True

instance (s : Handlers) : (e : HandlerEvent) → Decidable (s.RowCurrent e)
  | .writes _ => inferInstanceAs (Decidable
      (∀ p ∈ s.pending, ∀ w ∈ s.said p.1.id, staticVariables p.2 = staticVariables w))
  | .registers _ | .deregisters _ | .reads _ => inferInstanceAs (Decidable True)

variable {s s' : Handlers}

/-- A registration or a deregistration on both sides. -/
theorem Truthful.update (h : s.Truthful) {workers : AList fun _ : Int => WorkerInfo} {id : Int}
    {w : Option WorkerInfo}
    (hworkers : ∀ id', workers.lookup id' = if id' = id then w else s.mgr.workers.lookup id')
    (id' : Int) :
    (workers.lookup id').map staticVariables =
        (Function.update s.said id w id').map staticVariables ∧
      (workers.lookup id').map dynamicVariables =
        (Function.update s.said id w id').map dynamicVariables := by
  rw [hworkers, Function.update_apply]
  by_cases heq : id' = id
  · rw [if_pos heq, if_pos heq]
    exact ⟨rfl, rfl⟩
  · rw [if_neg heq, if_neg heq]
    exact h id'

/-- A row that is written back is right exactly if its static variables are. -/
theorem truthful_write_iff (h : s.Truthful) (msg : ScoreMessage) (row : WorkerInfo) (now : Int) :
    (∀ id, ((s.mgr.updateScore msg.id (msg.apply row) now).workers.lookup id).map staticVariables =
        (Function.update s.said msg.id ((s.said msg.id).map msg.apply) id).map staticVariables ∧
      ((s.mgr.updateScore msg.id (msg.apply row) now).workers.lookup id).map dynamicVariables =
        (Function.update s.said msg.id ((s.said msg.id).map msg.apply) id).map dynamicVariables) ↔
      ∀ w ∈ s.said msg.id, staticVariables row = staticVariables w := by
  obtain ⟨hstatic, -⟩ := h msg.id
  constructor
  · intro hall w hw
    obtain ⟨hnow, -⟩ := hall msg.id
    rw [WorkerManager.lookup_updateScore, if_pos rfl, Function.update_self] at hnow
    rw [Option.mem_def.mp hw] at hstatic hnow
    obtain ⟨old, hold, -⟩ := Option.map_eq_some_iff.mp hstatic
    rw [hold] at hnow
    exact Option.some.inj hnow
  · intro hrow id
    rw [WorkerManager.lookup_updateScore, Function.update_apply]
    by_cases heq : id = msg.id
    · rw [if_pos heq, if_pos heq]
      cases hsaid : s.said msg.id with
      | none =>
          rw [hsaid] at hstatic
          rw [Option.map_eq_none_iff.mp hstatic]
          exact ⟨rfl, rfl⟩
      | some w =>
          rw [hsaid] at hstatic
          obtain ⟨old, hold, -⟩ := Option.map_eq_some_iff.mp hstatic
          rw [hold]
          exact ⟨congrArg some (hrow w hsaid), rfl⟩
    · rw [if_neg heq, if_neg heq]
      exact h id

/-- One step. -/
theorem truthful_step_iff {e : HandlerEvent} (h : s.Truthful) (hstep : s.step e = some s') :
    s'.Truthful ↔ s.RowCurrent e := by
  cases e with
  | registers info =>
      obtain rfl := Option.some.inj hstep
      refine iff_of_true (h.update fun id => ?_) trivial
      by_cases heq : id = info.id
      · rw [if_pos heq, heq]
        exact AList.lookup_insert _
      · rw [if_neg heq]
        exact AList.lookup_insert_ne heq
  | deregisters id =>
      obtain rfl := Option.some.inj hstep
      refine iff_of_true (h.update fun id' => ?_) trivial
      by_cases heq : id' = id
      · rw [if_pos heq, heq]
        exact AList.lookup_erase _ _
      · rw [if_neg heq]
        exact AList.lookup_erase_ne heq
  | reads msg =>
      unfold Handlers.step at hstep
      dsimp only at hstep
      split at hstep
      · cases hstep
      · obtain rfl := Option.some.inj hstep
        exact iff_of_true h trivial
  | writes now =>
      obtain ⟨⟨msg, row⟩, hpending, rfl⟩ := Option.map_eq_some_iff.mp hstep
      refine (truthful_write_iff h msg row now).trans ?_
      unfold RowCurrent
      rw [hpending]
      constructor
      · rintro hrow p hp
        obtain rfl := Option.some.inj hp
        exact hrow
      · exact fun hall => hall (msg, row) rfl

theorem truthful_empty : Truthful {} := fun _ => ⟨rfl, rfl⟩

/-- **Registrations.** At every moment of a run the registry is what the messages say, exactly if
every row that is written back is current in its static variables. -/
theorem registrations_kept_iff {events : List HandlerEvent} {t : Handlers}
    (hrun : exec step {} events = some t) :
    (∀ front s, front <+: events → exec step {} front = some s → s.Truthful) ↔
      Along step RowCurrent {} events :=
  Along.iff_reached truthful_step_iff truthful_empty hrun

/-- A worker registers again, faster, while an update of it is handled. -/
def registersDuringUpdate : List HandlerEvent :=
  [.registers { id := 1 }, .reads { id := 1, load := 1 / 2 }, .registers { id := 1, speed := 5 },
    .writes 0]

/-- The same, but the worker registers again after the update. -/
def registersAfterUpdate : List HandlerEvent :=
  [.registers { id := 1 }, .reads { id := 1, load := 1 / 2 }, .writes 0,
    .registers { id := 1, speed := 5 }]

theorem registrations_kept_inOrder :
    (exec step {} registersAfterUpdate).isSome ∧
      ∀ front s, front <+: registersAfterUpdate → exec step {} front = some s → s.Truthful :=
  ⟨rfl, (registrations_kept_iff rfl).mpr (by decide +kernel)⟩

theorem registersDuringUpdate_undone :
    ∃ s, exec step {} registersDuringUpdate = some s ∧
      (s.said 1).map (·.speed) = some 5 ∧
        (s.mgr.workers.lookup 1).map (·.speed) = some 1 ∧ ¬s.Truthful := by
  refine ⟨_, rfl, by decide +kernel, by decide +kernel, fun h => ?_⟩
  exact absurd (h 1).1 (by decide +kernel)

end Handlers
end Labios.Elastic
