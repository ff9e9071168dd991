import Labios.Foundation.Counts
import Labios.Solver.Workers

/-!
# The manager's workers

`InMemoryWorkerManager` of `labios/worker_manager.cpp`, as far as elastic scaling uses it:
the registered workers, since when a worker is suspended, and the ids for new ones;
`Elastic/Buckets` adds the scheduler's buckets. An `unordered_map` is walked in an order of its
own, so a list of ids is given up to permutation.
-/

namespace Labios.Elastic

open Foundation

structure WorkerManager where
  workers : AList fun _ : Int => WorkerInfo := ∅
  suspendedSince : AList fun _ : Int => Int := ∅
  nextElasticId : Int := 100

namespace WorkerManager

def registerWorker (m : WorkerManager) (info : WorkerInfo) : WorkerManager :=
  { m with workers := m.workers.insert info.id info }

def deregisterWorker (m : WorkerManager) (id : Int) : WorkerManager :=
  { m with workers := m.workers.erase id, suspendedSince := m.suspendedSince.erase id }

def updateScore (m : WorkerManager) (id : Int) (info : WorkerInfo) (now : Int) : WorkerManager :=
  match m.workers.lookup id with
  | none => m
  | some old =>
      { m with
        workers := m.workers.insert id info
        suspendedSince :=
          if old.available ∧ ¬info.available then m.suspendedSince.insert id now
          else if ¬old.available ∧ info.available then m.suspendedSince.erase id
          else m.suspendedSince }

/-- The handler of `labios.worker.score_update`: the worker with its new numbers. -/
def scoreUpdate (m : WorkerManager) (id : Int) (capacity load : Rat) (available : Bool)
    (now : Int) : WorkerManager :=
  match m.workers.lookup id with
  | none => m
  | some w => m.updateScore id { w with capacity, load, available } now

def workerCount (m : WorkerManager) : Nat := countOf m.workers fun _ _ => true

def countByTier (m : WorkerManager) (tier : WorkerTier) : Nat :=
  countOf m.workers fun _ w => w.tier = tier

def suspendedWorkers (m : WorkerManager) : List Int :=
  (m.workers.entries.filter fun e => !e.2.available).map (·.1)

def suspendedWorkersByTier (m : WorkerManager) (tier : WorkerTier) : List Int :=
  (m.workers.entries.filter fun e => !e.2.available && e.2.tier = tier).map (·.1)

/-- Suspended, and for longer than the threshold in whole milliseconds. -/
def LongSuspended (m : WorkerManager) (thresholdMs now : Int) (id since : Int) : Prop :=
  (∃ w ∈ m.workers.lookup id, w.available = false) ∧ thresholdMs < (now - since).tdiv 1000000

instance LongSuspended.decidable (m : WorkerManager) (thresholdMs now id since : Int) :
    Decidable (m.LongSuspended thresholdMs now id since) :=
  inferInstanceAs (Decidable (_ ∧ _))

def decommissionableWorkers (m : WorkerManager) (thresholdMs now : Int) : List Int :=
  (m.suspendedSince.entries.filter fun e => m.LongSuspended thresholdMs now e.1 e.2).map (·.1)

def decommissionableWorkersByTier (m : WorkerManager) (tier : WorkerTier)
    (thresholdMs now : Int) : List Int :=
  (m.suspendedSince.entries.filter fun e =>
    m.LongSuspended thresholdMs now e.1 e.2 ∧ (m.workers.lookup e.1).any (·.tier = tier)).map (·.1)

/-! ## How registrations change the counts -/

variable {m : WorkerManager}

/-- New scores keep the tier, and with it every count of workers by their tiers. -/
theorem countOf_scoreUpdate (q : WorkerTier → Bool) (id : Int) (capacity load : Rat)
    (available : Bool) (now : Int) :
    countOf (m.scoreUpdate id capacity load available now).workers (fun _ w => q w.tier) =
      countOf m.workers (fun _ w => q w.tier) := by
  unfold scoreUpdate
  cases hlookup : m.workers.lookup id with
  | none => rfl
  | some w =>
      show countOf (m.updateScore id _ now).workers _ = _
      unfold updateScore
      rw [hlookup]
      exact countOf_insert_same hlookup rfl

end WorkerManager
end Labios.Elastic
