import Labios.Elastic.DecisionEngine
import Labios.Elastic.Orchestrator

/-!
# Elastic decisions

The bounds on the number of workers, over the runs of the manager and in one decision.
-/

/-!
## Elastic capacity

Does a commission ever lead past the maximum? An evaluation compares the maximum with the
workers that are registered. A container that was started counts only once its worker has
registered, which may take longer than the cooldown and the next pressure
(`slowRegistration_exceeds`). The maximum is kept as long as the containers on the way fit in
when a commission is decided, and no other worker takes the place while its container is
being started (`commissions_within`).
-/

namespace Labios.Elastic

open Foundation

/-- `evaluate_once` counts every worker, `evaluate_tiered_once` those of the tier. -/
def counts (tiered : Bool) (tier t : WorkerTier) : Bool := !tiered || t = tier

def ElasticConfig.capacity (cfg : ElasticConfig) (tiered : Bool) (tier : WorkerTier) : Int :=
  if tiered then cfg.tierMax tier else cfg.maxWorkers

namespace Orchestrator

variable {cfg : ElasticConfig} {s s' : Orchestrator} {tiered : Bool} {tier : WorkerTier}
  {info : WorkerInfo} {e : Event}

/-- The registered workers, and the containers on the way. -/
def held (s : Orchestrator) (tiered : Bool) (tier : WorkerTier) : Nat :=
  countOf s.mgr.workers (fun _ w => counts tiered tier w.tier) +
    s.onTheWay.countP fun c => counts tiered tier c.2

theorem held_all : s.held false tier = s.mgr.workerCount + s.onTheWay.length := by
  show _ + s.onTheWay.countP (fun _ => true) = _
  rw [List.countP_true]
  rfl

theorem held_tier : s.held true tier =
    s.mgr.countByTier tier + s.onTheWay.countP fun c => c.2 = tier := rfl

/-- The registration is of a worker that neither is registered nor has a container on the
way. -/
def Joins (s : Orchestrator) (tiered : Bool) (tier : WorkerTier) (info : WorkerInfo) : Prop :=
  counts tiered tier info.tier = true ∧
    (∀ w ∈ s.mgr.workers.lookup info.id, counts tiered tier w.tier = false) ∧
      ∀ c ∈ s.onTheWay, c.1 = info.id → counts tiered tier c.2 = false

instance Joins.decidable (s : Orchestrator) (tiered : Bool) (tier : WorkerTier)
    (info : WorkerInfo) : Decidable (s.Joins tiered tier info) :=
  inferInstanceAs (Decidable (_ ∧ _))

/-- A commission is decided only where the containers on the way leave room for one more,
and while its container is being started nobody takes the last place. -/
def roomFor (cfg : ElasticConfig) (s : Orchestrator) : Event → Bool
  | .decides =>
      match s.phase with
      | .reading tiered [] seen =>
          match seen.outcome cfg tiered s.now with
          | .commission tier => (s.held tiered tier : Int) < cfg.capacity tiered tier
          | _ => true
      | _ => true
  | .registers info =>
      match s.phase with
      | .starting tiered tier _ =>
          s.Joins tiered tier info → (s.held tiered tier + 1 : Int) < cfg.capacity tiered tier
      | _ => true
  | _ => true

theorem held_deregister_le (s : Orchestrator) (id : Int) :
    held { s with mgr := s.mgr.deregisterWorker id } tiered tier ≤ s.held tiered tier :=
  Nat.add_le_add_right (countOf_erase_le s.mgr.workers id _) _

theorem held_scoreUpdate (s : Orchestrator) (id : Int) (capacity load : Rat) (available : Bool) :
    held { s with mgr := s.mgr.scoreUpdate id capacity load available s.now } tiered tier =
      s.held tiered tier := by
  unfold held
  exact congrArg (· + _)
    (WorkerManager.countOf_scoreUpdate (counts tiered tier) id capacity load available s.now)

theorem held_registers (s : Orchestrator) (info : WorkerInfo) :
    (s.registers info).held tiered tier =
      countOf (s.mgr.workers.insert info.id info) (fun _ w => counts tiered tier w.tier) +
        (s.onTheWay.filter fun c => c.1 ≠ info.id).countP fun c => counts tiered tier c.2 := rfl

theorem held_registers_le (s : Orchestrator) (info : WorkerInfo) (tiered : Bool)
    (tier : WorkerTier) : (s.registers info).held tiered tier ≤ s.held tiered tier + 1 := by
  have hworkers := countOf_insert_le s.mgr.workers info.id info fun _ w => counts tiered tier w.tier
  have hway : (s.onTheWay.filter fun c => c.1 ≠ info.id).countP (fun c => counts tiered tier c.2) ≤
      s.onTheWay.countP fun c => counts tiered tier c.2 := List.filter_sublist.countP_le
  rw [held_registers, held]
  omega

/-- A worker that is counted already, or does not count, adds nothing. -/
theorem held_registers_le_of (h : ¬s.Joins tiered tier info) :
    (s.registers info).held tiered tier ≤ s.held tiered tier := by
  rw [held_registers, held]
  by_cases hregistered : counts tiered tier info.tier = true →
      ∃ w, s.mgr.workers.lookup info.id = some w ∧ counts tiered tier w.tier = true
  · have hworkers := countOf_insert_le_of (m := s.mgr.workers) (k := info.id) (v := info)
      (p := fun _ w => counts tiered tier w.tier) hregistered
    have hway : (s.onTheWay.filter fun c => c.1 ≠ info.id).countP
        (fun c => counts tiered tier c.2) ≤ s.onTheWay.countP fun c => counts tiered tier c.2 :=
      List.filter_sublist.countP_le
    omega
  · -- its container is on the way, and no longer after the registration
    obtain ⟨hcounts, hnone⟩ := Classical.not_imp.mp hregistered
    have hfound : ∃ c ∈ s.onTheWay, c.1 = info.id ∧ counts tiered tier c.2 = true := by
      by_contra hno
      refine h ⟨hcounts, fun w hw => ?_, fun c hc hid => ?_⟩
      · exact eq_false_of_ne_true fun hw' => hnone ⟨w, hw, hw'⟩
      · exact eq_false_of_ne_true fun hc' => hno ⟨c, hc, hid, hc'⟩
    obtain ⟨c, hc, hid, hcount⟩ := hfound
    have hless := countP_filter_lt (q := fun c : Int × WorkerTier => decide (c.1 ≠ info.id))
      (p := fun c => counts tiered tier c.2) ⟨c, hc, hcount, by simp [hid]⟩
    have hworkers := countOf_insert_le s.mgr.workers info.id info
      fun _ w => counts tiered tier w.tier
    omega

/-! ## Runs -/

/-- While a container is being started there is room for it. -/
def Roomy (cfg : ElasticConfig) (s : Orchestrator) : Prop :=
  ∀ tiered tier wid, s.phase = .starting tiered tier wid →
    (s.held tiered tier : Int) < cfg.capacity tiered tier

/-- A step that keeps the phase and does not raise the number. -/
theorem Roomy.of_le (h : s.Roomy cfg) (hphase : s'.phase = s.phase)
    (hheld : ∀ tiered tier, s'.held tiered tier ≤ s.held tiered tier) : s'.Roomy cfg := by
  intro tiered tier wid hstarting
  have hroom := h tiered tier wid (hphase.symm.trans hstarting)
  have hle := hheld tiered tier
  omega

theorem roomy_of_phase (h : ∀ tiered tier wid, s'.phase ≠ .starting tiered tier wid) :
    s'.Roomy cfg := fun tiered tier wid hphase => absurd hphase (h tiered tier wid)

theorem Roomy.registers (h : s.Roomy cfg) (hroom : s.roomFor cfg (.registers info)) :
    (s.registers info).Roomy cfg := by
  intro tiered tier wid hphase
  have hphase : s.phase = .starting tiered tier wid := hphase
  simp only [roomFor, hphase, decide_eq_true_iff] at hroom
  by_cases hjoins : s.Joins tiered tier info
  · have hroom := hroom hjoins
    have hle := s.held_registers_le info tiered tier
    omega
  · have hroom := h tiered tier wid hphase
    have hle := held_registers_le_of hjoins
    omega

theorem roomy_carryOut {seen : Seen} {tiered : Bool}
    (hphase : s.phase = .reading tiered [] seen) (hroom : s.roomFor cfg .decides) :
    (s.carryOut tiered (seen.outcome cfg tiered s.now)).Roomy cfg := by
  simp only [roomFor, hphase] at hroom
  cases houtcome : seen.outcome cfg tiered s.now with
  | nothing => exact roomy_of_phase fun _ _ _ h => by cases h
  | decommission id => exact roomy_of_phase fun _ _ _ h => by cases h
  | resume id => exact roomy_of_phase fun _ _ _ h => by cases h
  | commission tier =>
      simp only [houtcome, decide_eq_true_iff] at hroom
      intro tiered' tier' wid h
      obtain ⟨rfl, rfl, -⟩ := Phase.starting.inj h
      exact hroom

theorem Roomy.step (h : s.Roomy cfg) (hroom : s.roomFor cfg e)
    (hstep : s.step cfg e = some s') : s'.Roomy cfg := by
  cases steps_of_step hstep with
  | queueDepth depth =>
      unfold updateQueueDepth
      split
      · exact h
      · exact h
  | storesTotal n => exact h
  | storesWithPipeline n => exact h
  | storesObserve n => exact h
  | registers info => exact h.registers hroom
  | deregisters id => exact h.of_le rfl fun _ _ => s.held_deregister_le id
  | scores id capacity load available =>
      exact h.of_le rfl fun _ _ => (s.held_scoreUpdate id capacity load available).le
  | ticks => exact h
  | decides hphase => exact roomy_carryOut hphase hroom
  -- no other step of the orchestrator leads back to the start of a container
  | _ => exact roomy_of_phase fun _ _ _ h => by cases h

end Orchestrator

open Orchestrator

/-- One static worker, ten seconds after the start of the clock. -/
def oneWorker : Orchestrator :=
  { mgr := ({} : WorkerManager).registerWorker { id := 1 }, now := 10000000000 }

end Labios.Elastic

/-!
## Safety of elastic decisions

The guards that a decision must respect, read off the snapshot it is made for. All of them
hold for `evaluate_tiered`. `evaluate` decommissions an idle worker over the energy budget
without a look at the minimum; otherwise they hold for it too (`elastic_decisions_safe_iff`).
-/

namespace Labios.Elastic

/-! ## Guards -/

/-- The budget is set and used up. -/
abbrev BudgetExceeded (energyBudget currentEnergy : Rat) : Prop :=
  0 < energyBudget ∧ energyBudget ≤ currentEnergy

/-- An idle worker goes, above the minimum, without pressure or over the budget. -/
structure MayDecommission (idle : List Int) (count min pressureCount : Int)
    (energyBudget currentEnergy : Rat) (target : Int) : Prop where
  idle : target ∈ idle
  aboveMin : min < count
  reason : pressureCount = 0 ∨ BudgetExceeded energyBudget currentEnergy

/-- Capacity is added under pressure, within the budget, below the maximum, and after the
cooldown. -/
structure MayGrow (count max pressureCount pressureThreshold lastCommission cooldownMs : Int)
    (energyBudget currentEnergy : Rat) (now : Int) : Prop where
  pressure : pressureThreshold ≤ pressureCount
  budget : ¬BudgetExceeded energyBudget currentEnergy
  belowMax : count < max
  cooled : Cooled lastCommission cooldownMs now

def Decision.Safe (d : Decision) (state : ElasticSnapshot) (now : Int) : Prop :=
  match d.action with
  | .none => True
  | .decommission =>
      MayDecommission state.idleWorkerIds state.currentWorkers state.minWorkers
        state.pressureCount state.energyBudget state.currentEnergy d.targetWorkerId
  | .commission =>
      MayGrow state.currentWorkers state.maxWorkers state.pressureCount state.pressureThreshold
        state.lastCommission state.cooldownMs state.energyBudget state.currentEnergy now
  | .resume =>
      MayGrow state.currentWorkers state.maxWorkers state.pressureCount state.pressureThreshold
        state.lastCommission state.cooldownMs state.energyBudget state.currentEnergy now ∧
        d.targetWorkerId ∈ state.suspendedWorkerIds

def TieredSnapshot.tier (state : TieredSnapshot) : WorkerTier → TierState
  | .databot => state.databot
  | .pipeline => state.pipeline
  | .agentic => state.agentic

/-- The counts, limits and lists are those of the target's tier. -/
def ScaleDecision.Safe (sd : ScaleDecision) (state : TieredSnapshot) (now : Int) : Prop :=
  let ts := state.tier sd.targetTier
  match sd.action with
  | .none => True
  | .decommission =>
      MayDecommission ts.idleIds ts.active ts.min state.pressureCount state.energyBudget
        state.currentEnergy sd.targetWorkerId
  | .commission =>
      MayGrow ts.active ts.max state.pressureCount state.pressureThreshold state.lastCommission
        state.cooldownMs state.energyBudget state.currentEnergy now
  | .resume =>
      MayGrow ts.active ts.max state.pressureCount state.pressureThreshold state.lastCommission
        state.cooldownMs state.energyBudget state.currentEnergy now ∧
        sd.targetWorkerId ∈ ts.suspendedIds

/-! ## Tiers -/

section Tiers

variable {state : TieredSnapshot} {now : Int} {d next : ScaleDecision}

theorem ScaleDecision.Safe.orElse (h : d.Safe state now) (hnext : next.Safe state now) :
    (d.orElse next).Safe state now := by
  unfold ScaleDecision.orElse
  split
  · exact h
  · exact hnext

theorem safe_tryDecommission (tier : WorkerTier) (reason : String)
    (hreason : state.pressureCount = 0 ∨ BudgetExceeded state.energyBudget state.currentEnergy) :
    (tryDecommission (state.tier tier) tier reason).Safe state now := by
  unfold tryDecommission
  cases hidle : (state.tier tier).idleIds with
  | nil => trivial
  | cons id rest =>
      dsimp only
      split
      · trivial
      · next hmin => exact ⟨hidle ▸ List.mem_cons_self, Int.not_le.mp hmin, hreason⟩

theorem safe_decommissionLowest (databot pipeline agentic : String)
    (hreason : state.pressureCount = 0 ∨ BudgetExceeded state.energyBudget state.currentEnergy)
    (hnext : next.Safe state now) :
    (decommissionLowest state databot pipeline agentic next).Safe state now :=
  (safe_tryDecommission .databot databot hreason).orElse
    ((safe_tryDecommission .pipeline pipeline hreason).orElse
      ((safe_tryDecommission .agentic agentic hreason).orElse hnext))

theorem safe_tryCommission (tier : WorkerTier) (reason : String)
    (hpressure : state.pressureThreshold ≤ state.pressureCount)
    (hbudget : ¬BudgetExceeded state.energyBudget state.currentEnergy) :
    (tryCommission (state.tier tier) tier state reason now).Safe state now := by
  unfold tryCommission
  by_cases hmax : (state.tier tier).max ≤ (state.tier tier).active
  · rw [if_pos hmax]
    trivial
  · rw [if_neg hmax]
    by_cases hcooled : Cooled state.lastCommission state.cooldownMs now
    · rw [if_neg (not_not_intro hcooled)]
      have hgrow : MayGrow (state.tier tier).active (state.tier tier).max state.pressureCount
          state.pressureThreshold state.lastCommission state.cooldownMs state.energyBudget
          state.currentEnergy now := ⟨hpressure, hbudget, Int.not_le.mp hmax, hcooled⟩
      cases hsuspended : (state.tier tier).suspendedIds with
      | nil => exact hgrow
      | cons id rest =>
          refine ⟨hgrow, ?_⟩
          show id ∈ (state.tier tier).suspendedIds
          rw [hsuspended]
          exact List.mem_cons_self
    · rw [if_pos hcooled]
      trivial

theorem safe_commissionForPressure (hpressure : state.pressureThreshold ≤ state.pressureCount)
    (hbudget : ¬BudgetExceeded state.energyBudget state.currentEnergy)
    (hnext : next.Safe state now) : (commissionForPressure state now next).Safe state now := by
  have hpipeline : ∀ (c : Prop) [Decidable c] (reason : String),
      (if c then tryCommission state.pipeline .pipeline state reason now else {}).Safe
        state now := by
    intro c _ reason
    split
    · exact safe_tryCommission .pipeline reason hpressure hbudget
    · trivial
  unfold commissionForPressure
  exact (hpipeline _ _).orElse
    ((safe_tryCommission .databot _ hpressure hbudget).orElse ((hpipeline _ _).orElse hnext))

theorem evaluateTiered_safe (state : TieredSnapshot) (now : Int) :
    (evaluateTiered state now).Safe state now := by
  have hnothing : ∀ reason, ScaleDecision.Safe { reason } state now := fun _ => trivial
  unfold evaluateTiered
  by_cases hbudget : BudgetExceeded state.energyBudget state.currentEnergy
  · rw [if_pos hbudget]
    exact safe_decommissionLowest _ _ _ (.inr hbudget) (hnothing _)
  · rw [if_neg hbudget]
    have hidle : (if state.pressureCount = 0 then
        decommissionLowest state "databot" "pipeline" "agentic" {} else {}).Safe state now := by
      split
      · next hquiet => exact safe_decommissionLowest _ _ _ (.inl hquiet) (hnothing _)
      · exact hnothing _
    dsimp only
    split
    · next hpressure => exact safe_commissionForPressure hpressure hbudget hidle
    · exact hidle

end Tiers

/-! ## The evaluator without tiers -/

/-- Only over the budget, and only the minimum, can be missed. -/
theorem evaluate_safe_iff (state : ElasticSnapshot) (now : Int) :
    (evaluate state now).Safe state now ↔
      (BudgetExceeded state.energyBudget state.currentEnergy →
        state.idleWorkerIds = [] ∨ state.minWorkers < state.currentWorkers) := by
  unfold evaluate
  by_cases hbudget : BudgetExceeded state.energyBudget state.currentEnergy
  · rw [if_pos hbudget]
    cases hidle : state.idleWorkerIds with
    | nil => exact ⟨fun _ _ => .inl rfl, fun _ => trivial⟩
    | cons id rest =>
        -- this branch of the source does not ask for the minimum
        refine ⟨fun h _ => .inr (MayDecommission.aboveMin h), fun h => ?_⟩
        have hmem : id ∈ state.idleWorkerIds := by
          rw [hidle]
          exact List.mem_cons_self
        exact ⟨hmem, (h hbudget).resolve_left (List.cons_ne_nil id rest), .inr hbudget⟩
  · rw [if_neg hbudget]
    refine ⟨fun _ h => absurd h hbudget, fun _ => ?_⟩
    split
    · next hgrow =>
        have hmay : MayGrow state.currentWorkers state.maxWorkers state.pressureCount
            state.pressureThreshold state.lastCommission state.cooldownMs state.energyBudget
            state.currentEnergy now := ⟨hgrow.1, hbudget, hgrow.2.1, hgrow.2.2⟩
        cases hsuspended : state.suspendedWorkerIds with
        | nil => exact hmay
        | cons id rest =>
            refine ⟨hmay, ?_⟩
            show id ∈ state.suspendedWorkerIds
            rw [hsuspended]
            exact List.mem_cons_self
    · cases hidle : state.idleWorkerIds with
      | nil => trivial
      | cons id rest =>
          dsimp only
          split
          · next hquiet => exact ⟨hidle ▸ List.mem_cons_self, hquiet.1, .inl hquiet.2⟩
          · trivial

/-- **Safety.** `evaluate` decides safely if and only if the budget is not exceeded, no worker
is idle, or there are more workers than the minimum; `evaluate_tiered` always does. -/
theorem elastic_decisions_safe_iff (state : ElasticSnapshot) (tiered : TieredSnapshot)
    (now : Int) :
    ((evaluate state now).Safe state now ↔
      (BudgetExceeded state.energyBudget state.currentEnergy →
        state.idleWorkerIds = [] ∨ state.minWorkers < state.currentWorkers)) ∧
    (evaluateTiered tiered now).Safe tiered now :=
  ⟨evaluate_safe_iff state now, evaluateTiered_safe tiered now⟩

/-- The only worker is idle, and the budget is used up. -/
def lastWorker : ElasticSnapshot where
  pressureCount := 0
  pressureThreshold := 5
  currentWorkers := 1
  minWorkers := 1
  maxWorkers := 5
  idleWorkerIds := [103]
  suspendedWorkerIds := []
  lastCommission := 0
  cooldownMs := 5000
  energyBudget := 10
  currentEnergy := 12

theorem lastWorker_decommissioned :
    evaluate lastWorker 0 = { action := .decommission, targetWorkerId := 103 } ∧
      ¬(evaluate lastWorker 0).Safe lastWorker 0 := by
  have hdecision : evaluate lastWorker 0 = { action := .decommission, targetWorkerId := 103 } := by
    decide
  refine ⟨hdecision, fun h => ?_⟩
  rw [hdecision] at h
  exact absurd (MayDecommission.aboveMin h) (by decide)

end Labios.Elastic
