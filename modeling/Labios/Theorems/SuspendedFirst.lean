import Labios.Elastic.Orchestrator

/-!
# Suspended workers first

Under sustained pressure a suspended worker is to be resumed before a new one is started.
Both evaluators do so below the maximum. But a suspended worker is still registered, and the
snapshots count it: where the suspended workers fill the maximum, nobody is resumed
(`suspended_resumed_iff`). The snapshots leave the energy budget at 0, which is never
exceeded.
-/

namespace Labios.Elastic

open Foundation

namespace Orchestrator

/-! ## An evaluation's readings -/

/-- The readings of an evaluation during which nothing else happens; the maps are walked in
these orders. -/
def readAll (cfg : ElasticConfig) (s : Orchestrator) :
    List Read → List (List Int) → Seen → Option Seen
  | [], _, seen => some seen
  | r :: todo, orders, seen =>
      (s.read cfg (orders.headD []) seen r).bind (s.readAll cfg todo orders.tail)

variable {cfg : ElasticConfig} {s : Orchestrator} {orders : List (List Int)} {seen seen' : Seen}

theorem readAll_cons {r : Read} {todo : List Read}
    (h : s.readAll cfg (r :: todo) orders seen = some seen') :
    ∃ mid, s.read cfg (orders.headD []) seen r = some mid ∧
      s.readAll cfg todo orders.tail mid = some seen' :=
  Option.bind_eq_some_iff.mp h

theorem readAll_append {front back : List Read}
    (h : s.readAll cfg (front ++ back) orders seen = some seen') :
    ∃ mid orders', s.readAll cfg front orders seen = some mid ∧
      s.readAll cfg back orders' mid = some seen' := by
  induction front generalizing orders seen with
  | nil => exact ⟨seen, orders, rfl, h⟩
  | cons r front ih =>
      obtain ⟨first, hread, hrest⟩ := readAll_cons h
      obtain ⟨mid, orders', hfront, hback⟩ := ih hrest
      refine ⟨mid, orders', ?_, hback⟩
      show (s.read cfg (orders.headD []) seen r).bind _ = some mid
      rw [hread]
      exact hfront

/-- They are what the machine reads when no other event comes between. -/
theorem exec_reads (cfg : ElasticConfig) (s : Orchestrator) (tiered : Bool) {todo : List Read}
    (hlength : orders.length = todo.length) (seen : Seen) :
    exec (step cfg) { s with phase := .reading tiered todo seen } (orders.map Event.reads) =
      (s.readAll cfg todo orders seen).map fun seen' =>
        { s with phase := .reading tiered [] seen' } := by
  induction todo generalizing orders seen with
  | nil =>
      rw [List.length_eq_zero_iff.mp hlength]
      rfl
  | cons r todo ih =>
      cases orders with
      | nil => cases hlength
      | cons order orders =>
          have hread :
              (read cfg { s with phase := .reading tiered (r :: todo) seen } order seen r) =
                s.read cfg order seen r := by
            cases r with
            | _ => rfl
          show (step cfg { s with phase := .reading tiered (r :: todo) seen }
            (.reads order)).bind _ = _
          simp only [step, hread, readAll, List.headD_cons, List.tail_cons]
          cases s.read cfg order seen r with
          | none => rfl
          | some mid => exact ih (Nat.succ.inj hlength) mid

/-- Walking a map gives its ids in some order. -/
theorem walked_eq_some {order ids : List Int} (h : walked order ids seen = some seen') :
    order.Perm ids ∧ seen = seen' := by
  unfold walked at h
  split at h
  · next hperm => exact ⟨hperm, Option.some.inj h⟩
  · cases h

theorem seen_evaluateOnce (h : s.readAll cfg evaluateOnce orders {} = some seen) :
    seen.suspended.Perm s.mgr.suspendedWorkers ∧ seen.pressureCount = s.pressureCount ∧
      seen.currentWorkers = s.mgr.workerCount ∧ seen.lastCommission = s.lastCommissionTime := by
  obtain ⟨first, hidle, h⟩ := readAll_cons h
  obtain ⟨-, rfl⟩ := walked_eq_some hidle
  obtain ⟨second, hsuspended, h⟩ := readAll_cons h
  obtain ⟨hperm, rfl⟩ := walked_eq_some hsuspended
  obtain rfl := Option.some.inj h
  exact ⟨hperm, rfl, rfl, rfl⟩

/-- `build_tier` fills in its own tier. -/
theorem seen_buildTier {tier : WorkerTier}
    (h : s.readAll cfg (buildTier tier) orders seen = some seen') :
    (seen'.queue = seen.queue ∧ seen'.pressureCount = seen.pressureCount ∧
        seen'.lastCommission = seen.lastCommission) ∧
      (∀ other, other ≠ tier → seen'.tiers other = seen.tiers other) ∧
      (seen'.tiers tier).active = s.mgr.countByTier tier ∧
      (seen'.tiers tier).max = cfg.tierMax tier ∧
      (seen'.tiers tier).suspendedIds.Perm (s.mgr.suspendedWorkersByTier tier) := by
  obtain ⟨first, hactive, h⟩ := readAll_cons h
  obtain rfl := Option.some.inj hactive
  obtain ⟨second, hidle, h⟩ := readAll_cons h
  obtain ⟨-, rfl⟩ := walked_eq_some hidle
  obtain ⟨third, hcandidates, h⟩ := readAll_cons h
  obtain rfl := Option.some.inj hcandidates
  obtain ⟨last, hsuspended, h⟩ := readAll_cons h
  obtain ⟨hperm, rfl⟩ := walked_eq_some hsuspended
  obtain rfl := Option.some.inj h
  refine ⟨⟨rfl, rfl, rfl⟩, fun other hother => ?_, ?_⟩
  · simp only [Function.update_of_ne hother]
  · simp only [Function.update_self]
    exact ⟨trivial, trivial, hperm⟩

theorem seen_evaluateTieredOnce (h : s.readAll cfg evaluateTieredOnce orders {} = some seen) :
    seen.queue.withPipeline = s.queueBreakdown.withPipeline ∧
      seen.pressureCount = s.pressureCount ∧ seen.lastCommission = s.lastCommissionTime ∧
      (seen.tiers .databot).active = s.mgr.countByTier .databot ∧
      (seen.tiers .databot).max = cfg.maxDatabotWorkers ∧
      (seen.tiers .databot).suspendedIds.Perm (s.mgr.suspendedWorkersByTier .databot) := by
  obtain ⟨afterPipeline, _, h, hagentic⟩ := readAll_append h
  obtain ⟨afterDatabot, _, h, hpipeline⟩ := readAll_append h
  obtain ⟨afterQueue, _, hqueue, hdatabot⟩ := readAll_append h
  obtain rfl := Option.some.inj hqueue
  obtain ⟨⟨hqueue₁, hpressure₁, hcommission₁⟩, -, hactive, hmax, hperm⟩ := seen_buildTier hdatabot
  obtain ⟨⟨hqueue₂, hpressure₂, hcommission₂⟩, hothers₂, -⟩ := seen_buildTier hpipeline
  obtain ⟨⟨hqueue₃, hpressure₃, hcommission₃⟩, hothers₃, -⟩ := seen_buildTier hagentic
  -- the readings of the other two tiers leave that of the Databots
  have htier : seen.tiers .databot = afterDatabot.tiers .databot :=
    (hothers₃ .databot (by decide)).trans (hothers₂ .databot (by decide))
  refine ⟨?_, ?_, ?_, ?_⟩
  · rw [hqueue₃, hqueue₂, hqueue₁]
  · rw [hpressure₃, hpressure₂, hpressure₁]
  · rw [hcommission₃, hcommission₂, hcommission₁]
  · rw [htier]
    exact ⟨hactive, hmax, hperm⟩

end Orchestrator

/-! ## Who is resumed -/

theorem Seen.notOverBudget (cfg : ElasticConfig) (seen : Seen) :
    ¬(0 < (seen.snapshot cfg).energyBudget ∧
      (seen.snapshot cfg).energyBudget ≤ (seen.snapshot cfg).currentEnergy) :=
  fun h => absurd h.1 (lt_irrefl (0 : Rat))

theorem Seen.tiered_notOverBudget (cfg : ElasticConfig) (seen : Seen) :
    ¬(0 < (seen.tieredSnapshot cfg).energyBudget ∧
      (seen.tieredSnapshot cfg).energyBudget ≤ (seen.tieredSnapshot cfg).currentEnergy) :=
  fun h => absurd h.1 (lt_irrefl (0 : Rat))

section Decisions

variable {cfg : ElasticConfig} {seen : Seen} {now id : Int}

/-- Below the maximum the first suspended worker is resumed. -/
theorem outcome_resume {rest : List Int} (hpressure : cfg.pressureThreshold ≤ seen.pressureCount)
    (hcooled : Cooled seen.lastCommission cfg.commissionCooldownMs now)
    (hmax : seen.currentWorkers < cfg.maxWorkers) (hsuspended : seen.suspended = id :: rest) :
    seen.outcome cfg false now = .resume id := by
  have hgrow : (seen.snapshot cfg).pressureThreshold ≤ (seen.snapshot cfg).pressureCount ∧
      (seen.snapshot cfg).currentWorkers < (seen.snapshot cfg).maxWorkers ∧
      Cooled (seen.snapshot cfg).lastCommission (seen.snapshot cfg).cooldownMs now :=
    ⟨hpressure, hmax, hcooled⟩
  show (evaluate (seen.snapshot cfg) now).outcome = _
  unfold evaluate
  rw [if_neg (seen.notOverBudget cfg), if_pos hgrow,
    show (seen.snapshot cfg).suspendedWorkerIds = id :: rest from hsuspended]
  rfl

/-- From the maximum on only a decommission is left. -/
theorem outcome_ne_resume (hmax : cfg.maxWorkers ≤ seen.currentWorkers) :
    seen.outcome cfg false now ≠ .resume id := by
  have hgrow : ¬((seen.snapshot cfg).pressureThreshold ≤ (seen.snapshot cfg).pressureCount ∧
      (seen.snapshot cfg).currentWorkers < (seen.snapshot cfg).maxWorkers ∧
      Cooled (seen.snapshot cfg).lastCommission (seen.snapshot cfg).cooldownMs now) :=
    fun h => absurd h.2.1 (Int.not_lt.mpr hmax)
  show (evaluate (seen.snapshot cfg) now).outcome ≠ _
  unfold evaluate
  rw [if_neg (seen.notOverBudget cfg), if_neg hgrow]
  cases (seen.snapshot cfg).idleWorkerIds with
  | nil => exact Outcome.noConfusion
  | cons idle rest =>
      dsimp only
      split
      · exact Outcome.noConfusion
      · exact Outcome.noConfusion

theorem ScaleDecision.empty_orElse (tier : WorkerTier) (next : ScaleDecision) :
    ({ targetTier := tier } : ScaleDecision).orElse next = next := rfl

/-- Under pressure and without pipeline labels the Databots come first. -/
theorem evaluateTiered_eq (hpressure : cfg.pressureThreshold ≤ seen.pressureCount)
    (hqueue : seen.queue.withPipeline ≤ 0) :
    evaluateTiered (seen.tieredSnapshot cfg) now =
      (tryCommission (seen.tiers .databot) .databot (seen.tieredSnapshot cfg)
        "databot for I/O pressure" now).orElse
        (if seen.pressureCount = 0 then
          decommissionLowest (seen.tieredSnapshot cfg) "databot" "pipeline" "agentic" {}
        else {}) := by
  have hdemand : ¬0 < (seen.tieredSnapshot cfg).queue.withPipeline := Int.not_lt.mpr hqueue
  unfold evaluateTiered commissionForPressure
  rw [if_neg (seen.tiered_notOverBudget cfg)]
  simp only [if_pos (show (seen.tieredSnapshot cfg).pressureThreshold ≤
    (seen.tieredSnapshot cfg).pressureCount from hpressure), hdemand, false_and, if_false,
    ScaleDecision.empty_orElse]
  rfl

theorem tryDecommission_outcome_ne (ts : TierState) (tier : WorkerTier) (reason : String) :
    (tryDecommission ts tier reason).outcome ≠ .resume id := by
  unfold tryDecommission
  cases ts.idleIds with
  | nil => exact Outcome.noConfusion
  | cons idle rest =>
      dsimp only
      split
      · exact Outcome.noConfusion
      · exact Outcome.noConfusion

theorem ScaleDecision.orElse_outcome_ne {d next : ScaleDecision} {o : Outcome}
    (hd : d.outcome ≠ o) (hnext : next.outcome ≠ o) : (d.orElse next).outcome ≠ o := by
  unfold orElse
  split
  · exact hd
  · exact hnext

theorem decommissionLowest_outcome_ne (state : TieredSnapshot) (databot pipeline agentic : String) :
    (decommissionLowest state databot pipeline agentic {}).outcome ≠ .resume id := by
  unfold decommissionLowest
  refine ScaleDecision.orElse_outcome_ne (tryDecommission_outcome_ne _ _ _) ?_
  refine ScaleDecision.orElse_outcome_ne (tryDecommission_outcome_ne _ _ _) ?_
  exact ScaleDecision.orElse_outcome_ne (tryDecommission_outcome_ne _ _ _) Outcome.noConfusion

theorem tiered_outcome_resume {rest : List Int}
    (hpressure : cfg.pressureThreshold ≤ seen.pressureCount)
    (hcooled : Cooled seen.lastCommission cfg.commissionCooldownMs now)
    (hqueue : seen.queue.withPipeline ≤ 0)
    (hmax : (seen.tiers .databot).active < (seen.tiers .databot).max)
    (hsuspended : (seen.tiers .databot).suspendedIds = id :: rest) :
    seen.outcome cfg true now = .resume id := by
  have hcooled : Cooled (seen.tieredSnapshot cfg).lastCommission
      (seen.tieredSnapshot cfg).cooldownMs now := hcooled
  show (evaluateTiered (seen.tieredSnapshot cfg) now).outcome = _
  rw [evaluateTiered_eq hpressure hqueue, tryCommission, if_neg (Int.not_le.mpr hmax),
    if_neg (not_not_intro hcooled), hsuspended]
  rfl

theorem tiered_outcome_ne_resume (hpressure : cfg.pressureThreshold ≤ seen.pressureCount)
    (hqueue : seen.queue.withPipeline ≤ 0)
    (hmax : (seen.tiers .databot).max ≤ (seen.tiers .databot).active) :
    seen.outcome cfg true now ≠ .resume id := by
  show (evaluateTiered (seen.tieredSnapshot cfg) now).outcome ≠ _
  rw [evaluateTiered_eq hpressure hqueue, tryCommission, if_pos hmax, ScaleDecision.empty_orElse]
  split
  · exact decommissionLowest_outcome_ne _ _ _ _
  · exact Outcome.noConfusion

end Decisions

namespace Orchestrator

theorem suspendedWorkersByTier_subset (m : WorkerManager) (tier : WorkerTier) :
    m.suspendedWorkersByTier tier ⊆ m.suspendedWorkers := by
  intro id hid
  obtain ⟨e, he, rfl⟩ := List.mem_map.mp hid
  obtain ⟨hmem, hsuspended⟩ := List.mem_filter.mp he
  rw [Bool.and_eq_true] at hsuspended
  exact List.mem_map.mpr ⟨e, List.mem_filter.mpr ⟨hmem, hsuspended.1⟩, rfl⟩

theorem exists_head {ids suspended : List Int} (hperm : ids.Perm suspended)
    (hsome : suspended ≠ []) : ∃ id rest, ids = id :: rest ∧ id ∈ suspended := by
  cases ids with
  | nil => exact absurd hperm.nil_eq.symm hsome
  | cons id rest => exact ⟨id, rest, rfl, hperm.mem_iff.mp List.mem_cons_self⟩

variable {cfg : ElasticConfig} {s : Orchestrator} {orders : List (List Int)} {seen : Seen}

theorem resumes_once_iff (hpressure : cfg.pressureThreshold ≤ s.pressureCount)
    (hcooled : Cooled s.lastCommissionTime cfg.commissionCooldownMs s.now)
    (hsome : s.mgr.suspendedWorkers ≠ [])
    (hreads : s.readAll cfg evaluateOnce orders {} = some seen) :
    (∃ id ∈ s.mgr.suspendedWorkers, seen.outcome cfg false s.now = .resume id) ↔
      (s.mgr.workerCount : Int) < cfg.maxWorkers := by
  obtain ⟨hperm, hcount, hworkers, hcommission⟩ := seen_evaluateOnce hreads
  constructor
  · rintro ⟨id, -, hresume⟩
    by_contra hmax
    refine outcome_ne_resume ?_ hresume
    rw [hworkers]
    exact Int.not_lt.mp hmax
  · intro hmax
    obtain ⟨id, rest, hsuspended, hmem⟩ := exists_head hperm hsome
    refine ⟨id, hmem, outcome_resume ?_ ?_ ?_ hsuspended⟩
    · rwa [hcount]
    · rwa [hcommission]
    · rwa [hworkers]

theorem resumes_tieredOnce_iff (hpressure : cfg.pressureThreshold ≤ s.pressureCount)
    (hcooled : Cooled s.lastCommissionTime cfg.commissionCooldownMs s.now)
    (hsome : s.mgr.suspendedWorkersByTier .databot ≠ [])
    (hqueue : s.queueBreakdown.withPipeline ≤ 0)
    (hreads : s.readAll cfg evaluateTieredOnce orders {} = some seen) :
    (∃ id ∈ s.mgr.suspendedWorkers, seen.outcome cfg true s.now = .resume id) ↔
      (s.mgr.countByTier .databot : Int) < cfg.maxDatabotWorkers := by
  obtain ⟨hpipeline, hcount, hcommission, hactive, hmaximum, hperm⟩ :=
    seen_evaluateTieredOnce hreads
  have hpressure : cfg.pressureThreshold ≤ seen.pressureCount := by rwa [hcount]
  have hqueue : seen.queue.withPipeline ≤ 0 := by rwa [hpipeline]
  constructor
  · rintro ⟨id, -, hresume⟩
    by_contra hmax
    refine tiered_outcome_ne_resume hpressure hqueue ?_ hresume
    rw [hactive, hmaximum]
    exact Int.not_lt.mp hmax
  · intro hmax
    obtain ⟨id, rest, hsuspended, hmem⟩ := exists_head hperm hsome
    refine ⟨id, suspendedWorkersByTier_subset _ _ hmem,
      tiered_outcome_resume hpressure ?_ hqueue ?_ hsuspended⟩
    · rwa [hcommission]
    · rwa [hactive, hmaximum]

end Orchestrator

open Orchestrator

/-- **Suspended workers first.** Under pressure and after the cooldown a suspended worker is
resumed if and only if the registered workers, those of the tier for the tiered evaluator, are
fewer than the maximum. -/
theorem suspended_resumed_iff (cfg : ElasticConfig) (s : Orchestrator)
    (hpressure : cfg.pressureThreshold ≤ s.pressureCount)
    (hcooled : Cooled s.lastCommissionTime cfg.commissionCooldownMs s.now) :
    (s.mgr.suspendedWorkers ≠ [] → ∀ orders seen,
      s.readAll cfg evaluateOnce orders {} = some seen →
        ((∃ id ∈ s.mgr.suspendedWorkers, seen.outcome cfg false s.now = .resume id) ↔
          (s.mgr.workerCount : Int) < cfg.maxWorkers)) ∧
    (s.mgr.suspendedWorkersByTier .databot ≠ [] → s.queueBreakdown.withPipeline ≤ 0 →
      ∀ orders seen, s.readAll cfg evaluateTieredOnce orders {} = some seen →
        ((∃ id ∈ s.mgr.suspendedWorkers, seen.outcome cfg true s.now = .resume id) ↔
          (s.mgr.countByTier .databot : Int) < cfg.maxDatabotWorkers)) :=
  ⟨fun hsome _ _ hreads => resumes_once_iff hpressure hcooled hsome hreads,
    fun hsome hqueue _ _ hreads => resumes_tieredOnce_iff hpressure hcooled hsome hqueue hreads⟩

/-- Ten seconds in, with one suspended Databot and the pressure at its threshold. -/
def suspendedDatabot : Orchestrator where
  mgr := ({} : WorkerManager).registerWorker { id := 7, available := false }
  now := 10000000000
  pressureCount := 5

/-- The walks over `idle` and `suspended` of `evaluate_once`. -/
def onceOrders : List (List Int) := [[], [7], [], [], []]

def tieredOrders : List (List Int) := [[], [], [], [], [], [], [], [], [7]]

theorem suspended_resumed_iff_default :
    ∃ seen tieredSeen, suspendedDatabot.readAll {} evaluateOnce onceOrders {} = some seen ∧
      suspendedDatabot.readAll {} evaluateTieredOnce tieredOrders {} = some tieredSeen ∧
      ((∃ id ∈ suspendedDatabot.mgr.suspendedWorkers,
          seen.outcome {} false suspendedDatabot.now = .resume id) ↔
        (suspendedDatabot.mgr.workerCount : Int) < 10) ∧
      ((∃ id ∈ suspendedDatabot.mgr.suspendedWorkers,
          tieredSeen.outcome {} true suspendedDatabot.now = .resume id) ↔
        (suspendedDatabot.mgr.countByTier .databot : Int) < 10) := by
  have honce : (suspendedDatabot.readAll {} evaluateOnce onceOrders {}).isSome := by decide
  have htiered : (suspendedDatabot.readAll {} evaluateTieredOnce tieredOrders {}).isSome := by
    decide
  obtain ⟨seen, hseen⟩ := Option.isSome_iff_exists.mp honce
  obtain ⟨tieredSeen, htieredSeen⟩ := Option.isSome_iff_exists.mp htiered
  obtain ⟨hresumed, hresumedTiered⟩ :=
    suspended_resumed_iff {} suspendedDatabot (by decide) (by decide)
  exact ⟨seen, tieredSeen, hseen, htieredSeen, hresumed (by decide) _ _ hseen,
    hresumedTiered (by decide) (by decide) _ _ htieredSeen⟩

/-- At most one worker, which is the suspended one. -/
def fullByOne : ElasticConfig where
  maxWorkers := 1
  maxDatabotWorkers := 1

theorem suspendedDatabot_not_resumed :
    suspendedDatabot.mgr.suspendedWorkersByTier .databot = [7] ∧
      fullByOne.pressureThreshold ≤ suspendedDatabot.pressureCount ∧
      Cooled suspendedDatabot.lastCommissionTime fullByOne.commissionCooldownMs
        suspendedDatabot.now ∧
      (suspendedDatabot.readAll fullByOne evaluateOnce onceOrders {}).map
          (fun seen => seen.outcome fullByOne false suspendedDatabot.now) = some .nothing ∧
      (suspendedDatabot.readAll fullByOne evaluateTieredOnce tieredOrders {}).map
          (fun seen => seen.outcome fullByOne true suspendedDatabot.now) = some .nothing := by
  decide

end Labios.Elastic
