import Labios.Elastic.DecisionEngine
import Labios.Elastic.Workers
import Labios.Foundation.Machine

/-!
# The orchestrator

`Orchestrator` of `labios/elastic/orchestrator.h` as a machine. An evaluation reads the
registry, the table of commissioned containers and the atomics one after the other, decides,
and carries its decision out; each of these accesses is a step of its own. Between the steps
queue depths arrive, workers register, deregister and send scores, and the clock goes on.
`update_queue_breakdown` stores its three numbers and then calls `update_queue_depth`; each
store is a step of its own, too.

`onTheWay` is not a variable of the code: the containers that were started and whose
workers have not registered yet.
-/

namespace Labios.Elastic

open Foundation

structure ElasticConfig where
  minWorkers : Int := 1
  maxWorkers : Int := 10
  pressureThreshold : Int := 5
  decommissionTimeoutMs : Int := 60000
  commissionCooldownMs : Int := 5000
  minDatabotWorkers : Int := 1
  maxDatabotWorkers : Int := 10
  minPipelineWorkers : Int := 0
  maxPipelineWorkers : Int := 5
  minAgenticWorkers : Int := 0
  maxAgenticWorkers : Int := 2
  dispatcherBatchSize : Int := 100

def ElasticConfig.tierMin (cfg : ElasticConfig) : WorkerTier → Int
  | .databot => cfg.minDatabotWorkers
  | .pipeline => cfg.minPipelineWorkers
  | .agentic => cfg.minAgenticWorkers

def ElasticConfig.tierMax (cfg : ElasticConfig) : WorkerTier → Int
  | .databot => cfg.maxDatabotWorkers
  | .pipeline => cfg.maxPipelineWorkers
  | .agentic => cfg.maxAgenticWorkers

/-! ## Readings -/

/-- What an evaluation has read so far. -/
structure Seen where
  idle : List Int := []
  suspended : List Int := []
  candidates : List Int := []
  lastCommission : Int := 0
  pressureCount : Int := 0
  currentWorkers : Int := 0
  queue : QueueBreakdown := {}
  tiers : WorkerTier → TierState := fun _ => {}

inductive Read
  | idle
  | suspended
  | candidates
  | pressure
  | workerCount
  | lastCommission
  | total
  | withPipeline
  | observe
  | active (tier : WorkerTier)
  | idleOf (tier : WorkerTier)
  | candidatesOf (tier : WorkerTier)
  | suspendedOf (tier : WorkerTier)

def evaluateOnce : List Read := [.idle, .suspended, .candidates, .pressure, .workerCount]

/-- `build_tier`. -/
def buildTier (tier : WorkerTier) : List Read :=
  [.active tier, .idleOf tier, .candidatesOf tier, .suspendedOf tier]

def evaluateTieredOnce : List Read :=
  [.lastCommission, .total, .withPipeline, .observe, .pressure] ++
    buildTier .databot ++ buildTier .pipeline ++ buildTier .agentic

def Seen.snapshot (cfg : ElasticConfig) (seen : Seen) : ElasticSnapshot where
  pressureCount := seen.pressureCount
  pressureThreshold := cfg.pressureThreshold
  currentWorkers := seen.currentWorkers
  minWorkers := cfg.minWorkers
  maxWorkers := cfg.maxWorkers
  idleWorkerIds := seen.candidates
  suspendedWorkerIds := seen.suspended
  lastCommission := seen.lastCommission
  cooldownMs := cfg.commissionCooldownMs

def Seen.tieredSnapshot (cfg : ElasticConfig) (seen : Seen) : TieredSnapshot where
  queue := seen.queue
  pressureCount := seen.pressureCount
  pressureThreshold := cfg.pressureThreshold
  databot := seen.tiers .databot
  pipeline := seen.tiers .pipeline
  agentic := seen.tiers .agentic
  lastCommission := seen.lastCommission
  cooldownMs := cfg.commissionCooldownMs

/-- What the `switch` over the decision does. -/
inductive Outcome
  | nothing
  | commission (tier : WorkerTier)
  | decommission (id : Int)
  | resume (id : Int)
  deriving DecidableEq

/-- `commission_worker()` without a tier commissions a Databot. -/
def Decision.outcome (d : Decision) : Outcome :=
  match d.action with
  | .commission => .commission .databot
  | .decommission => .decommission d.targetWorkerId
  | .resume => .resume d.targetWorkerId
  | .none => .nothing

def ScaleDecision.outcome (sd : ScaleDecision) : Outcome :=
  match sd.action with
  | .commission => .commission sd.targetTier
  | .decommission => .decommission sd.targetWorkerId
  | .resume => .resume sd.targetWorkerId
  | .none => .nothing

/-- The decision of `evaluate_once` or of `evaluate_tiered_once`. -/
def Seen.outcome (cfg : ElasticConfig) (tiered : Bool) (seen : Seen) (now : Int) : Outcome :=
  if tiered then (evaluateTiered (seen.tieredSnapshot cfg) now).outcome
  else (evaluate (seen.snapshot cfg) now).outcome

/-! ## States -/

/-- Where the evaluating thread stands. -/
inductive Phase
  | idle
  | reading (tiered : Bool) (todo : List Read) (seen : Seen)
  /-- In `create_and_start`. -/
  | starting (tiered : Bool) (tier : WorkerTier) (wid : Int)
  | started (wid : Int) (containerId : String)
  /-- The container is recorded; about to reset the pressure. -/
  | recorded
  | erasing (wid : Int)
  | erased (wid : Int) (containerId : String)
  /-- In `stop_and_remove`. -/
  | removing (containerId : String)

structure Orchestrator where
  mgr : WorkerManager := {}
  now : Int := 0
  pressureCount : Int := 0
  queueBreakdown : QueueBreakdown := {}
  lastCommissionTime : Int := 0
  commissioned : AList fun _ : Int => String := ∅
  pendingResumeId : Int := 0
  phase : Phase := .idle
  onTheWay : List (Int × WorkerTier) := []

namespace Orchestrator

/-- `fetch_add(1)` of an atomic `int`. -/
def increment (n : Int) : Int := if n = 2147483647 then -2147483648 else n + 1

def updateQueueDepth (cfg : ElasticConfig) (s : Orchestrator) (depth : Int) : Orchestrator :=
  if cfg.dispatcherBatchSize ≤ depth then { s with pressureCount := increment s.pressureCount }
  else { s with pressureCount := 0 }

/-- The ids in the order in which the map is walked. -/
def walked (order ids : List Int) (seen : Seen) : Option Seen :=
  if order.Perm ids then some seen else none

/-- One access of an evaluation. -/
def read (cfg : ElasticConfig) (s : Orchestrator) (order : List Int) (seen : Seen) :
    Read → Option Seen
  | .idle =>
      walked order (s.mgr.decommissionableWorkers cfg.decommissionTimeoutMs s.now)
        { seen with idle := order }
  | .suspended => walked order s.mgr.suspendedWorkers { seen with suspended := order }
  | .candidates =>
      some { seen with
        candidates := seen.idle.filter fun id => (s.commissioned.lookup id).isSome
        lastCommission := s.lastCommissionTime }
  | .pressure => some { seen with pressureCount := s.pressureCount }
  | .workerCount => some { seen with currentWorkers := s.mgr.workerCount }
  | .lastCommission => some { seen with lastCommission := s.lastCommissionTime }
  | .total => some { seen with queue := { seen.queue with total := s.queueBreakdown.total } }
  | .withPipeline =>
      some { seen with
        queue := { seen.queue with withPipeline := s.queueBreakdown.withPipeline } }
  | .observe =>
      some { seen with
        queue := { seen.queue with observeCount := s.queueBreakdown.observeCount } }
  | .active tier =>
      some { seen with
        tiers := Function.update seen.tiers tier
          { active := s.mgr.countByTier tier, min := cfg.tierMin tier, max := cfg.tierMax tier } }
  | .idleOf tier =>
      walked order (s.mgr.decommissionableWorkersByTier tier cfg.decommissionTimeoutMs s.now)
        { seen with idle := order }
  | .candidatesOf tier =>
      some { seen with
        tiers := Function.update seen.tiers tier
          { seen.tiers tier with
            idleIds := seen.idle.filter fun id => (s.commissioned.lookup id).isSome } }
  | .suspendedOf tier =>
      walked order (s.mgr.suspendedWorkersByTier tier)
        { seen with
          tiers := Function.update seen.tiers tier
            { seen.tiers tier with suspendedIds := order } }

/-- What follows a decision at once: the id of a new worker, the worker to decommission, or
the worker to resume. -/
def carryOut (s : Orchestrator) (tiered : Bool) : Outcome → Orchestrator
  | .nothing => { s with phase := .idle }
  | .commission tier =>
      { s with
        mgr := { s.mgr with nextElasticId := s.mgr.nextElasticId + 1 }
        phase := .starting tiered tier s.mgr.nextElasticId }
  | .decommission id => { s with phase := .erasing id }
  | .resume id => { s with pendingResumeId := id, phase := .idle }

/-- A worker registers, and its container is no longer on the way. -/
def registers (s : Orchestrator) (info : WorkerInfo) : Orchestrator :=
  { s with
    mgr := s.mgr.registerWorker info
    onTheWay := s.onTheWay.filter fun c => c.1 ≠ info.id }

end Orchestrator

inductive Event
  | queueDepth (depth : Int)
  | storesTotal (n : Int)
  | storesWithPipeline (n : Int)
  | storesObserve (n : Int)
  | registers (info : WorkerInfo)
  | deregisters (id : Int)
  | scores (id : Int) (capacity load : Rat) (available : Bool)
  | ticks (now : Int)
  | calls (tiered : Bool)
  | reads (order : List Int)
  | decides
  | starts (containerId : String)
  | startFails
  | advances

namespace Orchestrator

def step (cfg : ElasticConfig) (s : Orchestrator) : Event → Option Orchestrator
  | .queueDepth depth => some (s.updateQueueDepth cfg depth)
  | .storesTotal n => some { s with queueBreakdown := { s.queueBreakdown with total := n } }
  | .storesWithPipeline n =>
      some { s with queueBreakdown := { s.queueBreakdown with withPipeline := n } }
  | .storesObserve n =>
      some { s with queueBreakdown := { s.queueBreakdown with observeCount := n } }
  | .registers info => some (s.registers info)
  | .deregisters id => some { s with mgr := s.mgr.deregisterWorker id }
  | .scores id capacity load available =>
      some { s with mgr := s.mgr.scoreUpdate id capacity load available s.now }
  | .ticks now => if s.now ≤ now then some { s with now } else none
  | .calls tiered =>
      match s.phase with
      | .idle =>
          some { s with
            phase := .reading tiered (if tiered then evaluateTieredOnce else evaluateOnce) {} }
      | _ => none
  | .reads order =>
      match s.phase with
      | .reading tiered (r :: todo) seen =>
          (s.read cfg order seen r).map fun seen => { s with phase := .reading tiered todo seen }
      | _ => none
  | .decides =>
      match s.phase with
      | .reading tiered [] seen => some (s.carryOut tiered (seen.outcome cfg tiered s.now))
      | _ => none
  | .starts containerId =>
      match s.phase with
      | .starting _ tier wid =>
          some { s with phase := .started wid containerId, onTheWay := (wid, tier) :: s.onTheWay }
      | _ => none
  | .startFails =>
      match s.phase with
      | .starting _ _ _ => some { s with phase := .idle }
      | _ => none
  | .advances =>
      match s.phase with
      | .started wid containerId =>
          some { s with
            commissioned := s.commissioned.insert wid containerId
            lastCommissionTime := s.now
            phase := .recorded }
      | .recorded => some { s with pressureCount := 0, phase := .idle }
      | .erasing wid =>
          match s.commissioned.lookup wid with
          | none => some { s with phase := .idle }
          | some containerId =>
              some { s with
                commissioned := s.commissioned.erase wid
                phase := .erased wid containerId }
      | .erased wid containerId =>
          some { s with mgr := s.mgr.deregisterWorker wid, phase := .removing containerId }
      | .removing _ => some { s with phase := .idle }
      | _ => none

/-! ## What a step can do -/

/-- The cases of `step`, with the guards under which they are taken. -/
inductive Steps (cfg : ElasticConfig) (s : Orchestrator) : Event → Orchestrator → Prop
  | queueDepth (depth : Int) : Steps cfg s (.queueDepth depth) (s.updateQueueDepth cfg depth)
  | storesTotal (n : Int) :
      Steps cfg s (.storesTotal n)
        { s with queueBreakdown := { s.queueBreakdown with total := n } }
  | storesWithPipeline (n : Int) :
      Steps cfg s (.storesWithPipeline n)
        { s with queueBreakdown := { s.queueBreakdown with withPipeline := n } }
  | storesObserve (n : Int) :
      Steps cfg s (.storesObserve n)
        { s with queueBreakdown := { s.queueBreakdown with observeCount := n } }
  | registers (info : WorkerInfo) : Steps cfg s (.registers info) (s.registers info)
  | deregisters (id : Int) :
      Steps cfg s (.deregisters id) { s with mgr := s.mgr.deregisterWorker id }
  | scores (id : Int) (capacity load : Rat) (available : Bool) :
      Steps cfg s (.scores id capacity load available)
        { s with mgr := s.mgr.scoreUpdate id capacity load available s.now }
  | ticks {now : Int} (hle : s.now ≤ now) : Steps cfg s (.ticks now) { s with now }
  | calls (tiered : Bool) (hphase : s.phase = .idle) :
      Steps cfg s (.calls tiered)
        { s with
          phase := .reading tiered (if tiered then evaluateTieredOnce else evaluateOnce) {} }
  | reads {order : List Int} {tiered : Bool} {r : Read} {todo : List Read} {seen seen' : Seen}
      (hphase : s.phase = .reading tiered (r :: todo) seen)
      (hread : s.read cfg order seen r = some seen') :
      Steps cfg s (.reads order) { s with phase := .reading tiered todo seen' }
  | decides {tiered : Bool} {seen : Seen} (hphase : s.phase = .reading tiered [] seen) :
      Steps cfg s .decides (s.carryOut tiered (seen.outcome cfg tiered s.now))
  | starts {tiered : Bool} {tier : WorkerTier} {wid : Int} (containerId : String)
      (hphase : s.phase = .starting tiered tier wid) :
      Steps cfg s (.starts containerId)
        { s with phase := .started wid containerId, onTheWay := (wid, tier) :: s.onTheWay }
  | startFails {tiered : Bool} {tier : WorkerTier} {wid : Int}
      (hphase : s.phase = .starting tiered tier wid) :
      Steps cfg s .startFails { s with phase := .idle }
  | records {wid : Int} {containerId : String} (hphase : s.phase = .started wid containerId) :
      Steps cfg s .advances
        { s with
          commissioned := s.commissioned.insert wid containerId
          lastCommissionTime := s.now
          phase := .recorded }
  | resets (hphase : s.phase = .recorded) :
      Steps cfg s .advances { s with pressureCount := 0, phase := .idle }
  | findsNone {wid : Int} (hphase : s.phase = .erasing wid)
      (hlookup : s.commissioned.lookup wid = none) :
      Steps cfg s .advances { s with phase := .idle }
  | erases {wid : Int} {containerId : String} (hphase : s.phase = .erasing wid)
      (hlookup : s.commissioned.lookup wid = some containerId) :
      Steps cfg s .advances
        { s with commissioned := s.commissioned.erase wid, phase := .erased wid containerId }
  | dropsWorker {wid : Int} {containerId : String} (hphase : s.phase = .erased wid containerId) :
      Steps cfg s .advances
        { s with mgr := s.mgr.deregisterWorker wid, phase := .removing containerId }
  | removes {containerId : String} (hphase : s.phase = .removing containerId) :
      Steps cfg s .advances { s with phase := .idle }

theorem steps_of_step {cfg : ElasticConfig} {s s' : Orchestrator} {e : Event}
    (h : s.step cfg e = some s') : s.Steps cfg e s' := by
  cases e with
  | queueDepth depth =>
      obtain rfl := Option.some.inj h
      exact .queueDepth depth
  | storesTotal n =>
      obtain rfl := Option.some.inj h
      exact .storesTotal n
  | storesWithPipeline n =>
      obtain rfl := Option.some.inj h
      exact .storesWithPipeline n
  | storesObserve n =>
      obtain rfl := Option.some.inj h
      exact .storesObserve n
  | registers info =>
      obtain rfl := Option.some.inj h
      exact .registers info
  | deregisters id =>
      obtain rfl := Option.some.inj h
      exact .deregisters id
  | scores id capacity load available =>
      obtain rfl := Option.some.inj h
      exact .scores id capacity load available
  | ticks now =>
      simp only [step] at h
      split at h
      · next hle =>
          obtain rfl := Option.some.inj h
          exact .ticks hle
      · cases h
  | calls tiered =>
      simp only [step] at h
      split at h
      · next hphase =>
          obtain rfl := Option.some.inj h
          exact .calls tiered hphase
      · cases h
  | reads order =>
      simp only [step] at h
      split at h
      · next hphase =>
          obtain ⟨seen, hread, rfl⟩ := Option.map_eq_some_iff.mp h
          exact .reads hphase hread
      · cases h
  | decides =>
      simp only [step] at h
      split at h
      · next hphase =>
          obtain rfl := Option.some.inj h
          exact .decides hphase
      · cases h
  | starts containerId =>
      simp only [step] at h
      split at h
      · next hphase =>
          obtain rfl := Option.some.inj h
          exact .starts containerId hphase
      · cases h
  | startFails =>
      simp only [step] at h
      split at h
      · next hphase =>
          obtain rfl := Option.some.inj h
          exact .startFails hphase
      · cases h
  | advances =>
      simp only [step] at h
      split at h
      · next hphase =>
          obtain rfl := Option.some.inj h
          exact .records hphase
      · next hphase =>
          obtain rfl := Option.some.inj h
          exact .resets hphase
      · next hphase =>
          split at h
          · next hlookup =>
              obtain rfl := Option.some.inj h
              exact .findsNone hphase hlookup
          · next hlookup =>
              obtain rfl := Option.some.inj h
              exact .erases hphase hlookup
      · next hphase =>
          obtain rfl := Option.some.inj h
          exact .dropsWorker hphase
      · next hphase =>
          obtain rfl := Option.some.inj h
          exact .removes hphase
      · cases h

end Orchestrator
end Labios.Elastic
