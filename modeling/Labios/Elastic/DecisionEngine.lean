import Labios.Sds.Codec
import Labios.Solver.Workers

/-!
# The decision engine

`evaluate` and `evaluate_tiered` of `labios/elastic/decision_engine.cpp`, and the queue
depth message. Times are nanoseconds of the steady clock; the time at which a function
reads the clock is its argument.
-/

namespace Labios.Elastic

inductive Action
  | none | commission | decommission | resume
  deriving DecidableEq, Repr

structure Decision where
  action : Action := .none
  targetWorkerId : Int := 0
  deriving DecidableEq, Repr

structure ElasticSnapshot where
  pressureCount : Int
  pressureThreshold : Int
  currentWorkers : Int
  minWorkers : Int
  maxWorkers : Int
  idleWorkerIds : List Int
  suspendedWorkerIds : List Int
  lastCommission : Int
  cooldownMs : Int
  energyBudget : Rat := 0
  currentEnergy : Rat := 0

/-- `(now - last_commission) > cooldown`. -/
def Cooled (lastCommission cooldownMs now : Int) : Prop :=
  cooldownMs * 1000000 < now - lastCommission

instance Cooled.decidable (lastCommission cooldownMs now : Int) :
    Decidable (Cooled lastCommission cooldownMs now) :=
  inferInstanceAs (Decidable (_ < _))

def evaluate (state : ElasticSnapshot) (now : Int) : Decision :=
  if 0 < state.energyBudget ∧ state.energyBudget ≤ state.currentEnergy then
    match state.idleWorkerIds with
    | id :: _ => { action := .decommission, targetWorkerId := id }
    | [] => {}
  else if state.pressureThreshold ≤ state.pressureCount ∧
      state.currentWorkers < state.maxWorkers ∧
      Cooled state.lastCommission state.cooldownMs now then
    match state.suspendedWorkerIds with
    | id :: _ => { action := .resume, targetWorkerId := id }
    | [] => { action := .commission }
  else
    match state.idleWorkerIds with
    | id :: _ =>
        if state.minWorkers < state.currentWorkers ∧ state.pressureCount = 0 then
          { action := .decommission, targetWorkerId := id }
        else {}
    | [] => {}

/-! ## Queue depth messages -/

structure QueueBreakdown where
  total : Int := 0
  withPipeline : Int := 0
  observeCount : Int := 0
  deriving DecidableEq, Repr

/-- What stands behind the numeral that `std::from_chars` reads. -/
def behindNumeral (cs : List Char) : List Char :=
  let rest := match cs with
    | '-' :: rest => rest
    | _ => cs
  if rest.takeWhile Char.isDigit = [] then cs else rest.dropWhile Char.isDigit

/-- One field and what follows its comma; a field that is no `int` counts as 0. -/
def nextInt (cs : List Char) : Int × List Char :=
  let cs := cs.dropWhile (· = ' ')
  let rest := match behindNumeral cs with
    | ',' :: rest => rest
    | rest => rest
  (fromChars cs 0, rest)

def parseQueueBreakdown (msg : List Char) : QueueBreakdown :=
  let (total, rest) := nextInt msg
  let (withPipeline, rest) := nextInt rest
  { total, withPipeline, observeCount := (nextInt rest).1 }

/-! ## Tiers -/

structure TierState where
  active : Int := 0
  min : Int := 0
  max : Int := 0
  idleIds : List Int := []
  suspendedIds : List Int := []
  deriving DecidableEq, Repr

structure TieredSnapshot where
  queue : QueueBreakdown
  pressureCount : Int
  pressureThreshold : Int
  databot : TierState
  pipeline : TierState
  agentic : TierState
  lastCommission : Int
  cooldownMs : Int
  energyBudget : Rat := 0
  currentEnergy : Rat := 0

structure ScaleDecision where
  action : Action := .none
  targetTier : WorkerTier := .databot
  targetWorkerId : Int := -1
  reason : String := ""
  deriving DecidableEq, Repr

def tryCommission (ts : TierState) (tier : WorkerTier) (state : TieredSnapshot) (reason : String)
    (now : Int) : ScaleDecision :=
  if ts.max ≤ ts.active then { targetTier := tier }
  else if ¬Cooled state.lastCommission state.cooldownMs now then { targetTier := tier }
  else
    match ts.suspendedIds with
    | id :: _ =>
        { action := .resume, targetTier := tier, targetWorkerId := id,
          reason := "resume " ++ reason }
    | [] => { action := .commission, targetTier := tier, reason := "commission " ++ reason }

def tryDecommission (ts : TierState) (tier : WorkerTier) (reason : String) : ScaleDecision :=
  match ts.idleIds with
  | [] => { targetTier := tier }
  | id :: _ =>
      if ts.active ≤ ts.min then { targetTier := tier }
      else
        { action := .decommission, targetTier := tier, targetWorkerId := id,
          reason := "decommission idle " ++ reason }

/-- `if (d.action != Action::None) return d;` -/
def ScaleDecision.orElse (d next : ScaleDecision) : ScaleDecision :=
  if d.action ≠ .none then d else next

/-- The lowest tier first. -/
def decommissionLowest (state : TieredSnapshot) (databot pipeline agentic : String)
    (otherwise : ScaleDecision) : ScaleDecision :=
  (tryDecommission state.databot .databot databot).orElse <|
    (tryDecommission state.pipeline .pipeline pipeline).orElse <|
      (tryDecommission state.agentic .agentic agentic).orElse otherwise

/-- The block under `if (under_pressure)`. -/
def commissionForPressure (state : TieredSnapshot) (now : Int) (otherwise : ScaleDecision) :
    ScaleDecision :=
  let hasPipelineDemand := 0 < state.queue.withPipeline
  (if hasPipelineDemand ∧ state.pipeline.active + state.agentic.active = 0 then
      tryCommission state.pipeline .pipeline state "pipeline worker for SDS labels" now
    else {}).orElse <|
  (tryCommission state.databot .databot state "databot for I/O pressure" now).orElse <|
  (if hasPipelineDemand then
      tryCommission state.pipeline .pipeline state "pipeline worker (overflow)" now
    else {}).orElse otherwise

def evaluateTiered (state : TieredSnapshot) (now : Int) : ScaleDecision :=
  if 0 < state.energyBudget ∧ state.energyBudget ≤ state.currentEnergy then
    decommissionLowest state "energy budget exceeded" "energy budget exceeded"
      "energy budget exceeded" { reason := "energy budget exceeded, no idle workers" }
  else
    let idle :=
      if state.pressureCount = 0 then decommissionLowest state "databot" "pipeline" "agentic" {}
      else {}
    if state.pressureThreshold ≤ state.pressureCount then commissionForPressure state now idle
    else idle

end Labios.Elastic
