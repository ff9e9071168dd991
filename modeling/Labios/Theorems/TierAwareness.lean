import Labios.Elastic.Manager

/-!
# Is the deployed loop tier-aware?

The manager's loop acts on `evaluate`, which knows no tiers, and every container that it
commissions is a Databot. `evaluate_tiered` is the function that the documentation describes.
Where do the two take the same action for the same tier? `actsAsPrescribed_iff` says so for
every run; `pipelineDemand_ignored` is the case the tiers were made for.
-/

namespace Labios.Elastic

open Foundation

/-! ## Which action, and for which tier -/

namespace ScaleDecision

def kind (sd : ScaleDecision) : Option (Action × WorkerTier) :=
  if sd.action = .none then none else some (sd.action, sd.targetTier)

theorem kind_orElse (d next : ScaleDecision) : (d.orElse next).kind = d.kind.or next.kind := by
  unfold orElse
  by_cases haction : d.action = .none
  · have hkind : d.kind = none := if_pos haction
    rw [if_neg (not_not_intro haction), hkind, Option.none_or]
  · have hkind : d.kind = some (d.action, d.targetTier) := if_neg haction
    rw [if_pos haction, hkind, Option.some_or]

theorem kind_empty : ({} : ScaleDecision).kind = none := rfl

theorem kind_ite (c : Prop) [Decidable c] (d e : ScaleDecision) :
    (if c then d else e).kind = if c then d.kind else e.kind := by
  split <;> rfl

end ScaleDecision

theorem kind_tryCommission (ts : TierState) (tier : WorkerTier) (state : TieredSnapshot)
    (reason : String) (now : Int) :
    (tryCommission ts tier state reason now).kind =
      if ts.active < ts.max ∧ Cooled state.lastCommission state.cooldownMs now then
        some (if ts.suspendedIds = [] then .commission else .resume, tier)
      else none := by
  unfold tryCommission
  by_cases hmax : ts.max ≤ ts.active
  · rw [if_pos hmax, if_neg (fun h => absurd h.1 (by omega))]
    rfl
  · by_cases hcooled : Cooled state.lastCommission state.cooldownMs now
    · rw [if_neg hmax, if_neg (not_not_intro hcooled), if_pos ⟨by omega, hcooled⟩]
      cases ts.suspendedIds with
      | nil => rfl
      | cons id rest => rfl
    · rw [if_neg hmax, if_pos hcooled, if_neg (fun h => hcooled h.2)]
      rfl

theorem kind_tryDecommission (ts : TierState) (tier : WorkerTier) (reason : String) :
    (tryDecommission ts tier reason).kind =
      if ts.idleIds ≠ [] ∧ ts.min < ts.active then some (.decommission, tier) else none := by
  unfold tryDecommission
  cases ts.idleIds with
  | nil => rfl
  | cons id rest =>
      by_cases hmin : ts.active ≤ ts.min
      · rw [if_neg (fun h => absurd h.2 (by omega))]
        simp only [if_pos hmin]
        rfl
      · rw [if_pos ⟨List.cons_ne_nil id rest, by omega⟩]
        simp only [if_neg hmin]
        rfl

/-! ## What is prescribed -/

namespace Orchestrator

def tierState (cfg : ElasticConfig) (s : Orchestrator) (tier : WorkerTier) : TierState where
  active := s.mgr.countByTier tier
  min := cfg.tierMin tier
  max := cfg.tierMax tier
  idleIds := (s.mgr.decommissionableWorkersByTier tier cfg.decommissionTimeoutMs s.now).filter
    fun id => (s.commissioned.lookup id).isSome
  suspendedIds := s.mgr.suspendedWorkersByTier tier

def tieredSnapshot (cfg : ElasticConfig) (s : Orchestrator) (queue : QueueBreakdown) :
    TieredSnapshot where
  queue
  pressureCount := s.pressureCount
  pressureThreshold := cfg.pressureThreshold
  databot := s.tierState cfg .databot
  pipeline := s.tierState cfg .pipeline
  agentic := s.tierState cfg .agentic
  lastCommission := s.lastCommissionTime
  cooldownMs := cfg.commissionCooldownMs

def tierOf (s : Orchestrator) (id : Int) : Option WorkerTier :=
  (s.mgr.workers.lookup id).map (·.tier)

/-- The action and the tier of an outcome are those of the decision. -/
def agrees (s : Orchestrator) (sd : ScaleDecision) : Outcome → Bool
  | .nothing => true
  | .commission tier => sd.kind = some (.commission, tier)
  | .decommission id => (s.tierOf id).any fun tier => sd.kind = some (.decommission, tier)
  | .resume id => (s.tierOf id).any fun tier => sd.kind = some (.resume, tier)

/-! ## When both agree -/

/-- Pipeline labels are queued, no worker could execute them, and one may be commissioned. -/
def PipelineGap (cfg : ElasticConfig) (s : Orchestrator) (queue : QueueBreakdown) : Prop :=
  0 < queue.withPipeline ∧ s.mgr.countByTier .pipeline = 0 ∧ s.mgr.countByTier .agentic = 0 ∧
    0 < cfg.maxPipelineWorkers

instance PipelineGap.decidable (cfg : ElasticConfig) (s : Orchestrator) (queue : QueueBreakdown) :
    Decidable (s.PipelineGap cfg queue) :=
  inferInstanceAs (Decidable (_ ∧ _))

/-- A Databot is what the pressure calls for. -/
def CallsForDatabot (cfg : ElasticConfig) (s : Orchestrator) (queue : QueueBreakdown) : Prop :=
  s.mgr.countByTier .databot < cfg.maxDatabotWorkers ∧ ¬s.PipelineGap cfg queue

/-- The Databots are at their maximum, and pipeline labels are queued. -/
def OverflowsToPipeline (cfg : ElasticConfig) (s : Orchestrator) (queue : QueueBreakdown) : Prop :=
  cfg.maxDatabotWorkers ≤ s.mgr.countByTier .databot ∧ 0 < queue.withPipeline ∧
    s.mgr.countByTier .pipeline < cfg.maxPipelineWorkers

/-- The lowest tier that has an idle commissioned worker and more workers than its minimum. -/
def lowestIdle (cfg : ElasticConfig) (s : Orchestrator) : Option WorkerTier :=
  [WorkerTier.databot, .pipeline, .agentic].find? fun tier =>
    (s.tierState cfg tier).idleIds ≠ [] ∧ cfg.tierMin tier < s.mgr.countByTier tier

/-- Enough pressed batches, and the cooldown is over. -/
def Pressed (cfg : ElasticConfig) (s : Orchestrator) : Prop :=
  cfg.pressureThreshold ≤ s.pressureCount ∧
    Cooled s.lastCommissionTime cfg.commissionCooldownMs s.now

instance Pressed.decidable (cfg : ElasticConfig) (s : Orchestrator) : Decidable (s.Pressed cfg) :=
  inferInstanceAs (Decidable (_ ∧ _))

/-- The tiers of the workers lead to the action that is taken without regard to them. -/
def FitsTiers (cfg : ElasticConfig) (s : Orchestrator) (queue : QueueBreakdown)
    (idle suspended : List Int) : Prop :=
  if s.Pressed cfg ∧ s.mgr.workerCount < cfg.maxWorkers then
    match suspended with
    | [] => s.CallsForDatabot cfg queue
    | id :: _ =>
        s.tierOf id = some .databot ∧ s.CallsForDatabot cfg queue ∨
          s.tierOf id = some .pipeline ∧ s.OverflowsToPipeline cfg queue
  else
    match idle.filter fun id => (s.commissioned.lookup id).isSome with
    | [] => True
    | id :: _ =>
        cfg.minWorkers < s.mgr.workerCount ∧ s.pressureCount = 0 →
          (s.Pressed cfg →
            ¬s.CallsForDatabot cfg queue ∧ ¬s.OverflowsToPipeline cfg queue ∧
              ¬s.PipelineGap cfg queue) ∧
            s.lowestIdle cfg = s.tierOf id

/-! ## The action of `evaluate` -/

variable {cfg : ElasticConfig} {s : Orchestrator} {queue : QueueBreakdown}
  {idle suspended : List Int} {id : Int} {tier : WorkerTier} {w : WorkerInfo}

theorem deployedOutcome_eq (cfg : ElasticConfig) (s : Orchestrator) (idle suspended : List Int) :
    s.deployedOutcome cfg idle suspended =
      if s.Pressed cfg ∧ s.mgr.workerCount < cfg.maxWorkers then
        match suspended with
        | [] => .commission .databot
        | id :: _ => .resume id
      else
        match idle.filter fun id => (s.commissioned.lookup id).isSome with
        | [] => .nothing
        | id :: _ =>
            if cfg.minWorkers < s.mgr.workerCount ∧ s.pressureCount = 0 then .decommission id
            else .nothing := by
  unfold deployedOutcome evaluate
  rw [if_neg (fun h => absurd h.1 (lt_irrefl (0 : Rat)))]
  have hiff : (cfg.pressureThreshold ≤ s.pressureCount ∧
      (s.mgr.workerCount : Int) < cfg.maxWorkers ∧
        Cooled s.lastCommissionTime cfg.commissionCooldownMs s.now) ↔
      s.Pressed cfg ∧ (s.mgr.workerCount : Int) < cfg.maxWorkers := by
    unfold Pressed
    tauto
  simp only [snapshot, hiff]
  split
  · cases suspended with
    | nil => rfl
    | cons id rest => rfl
  · cases idle.filter fun id => (s.commissioned.lookup id).isSome with
    | nil => rfl
    | cons id rest =>
        by_cases hidle : cfg.minWorkers < s.mgr.workerCount ∧ s.pressureCount = 0
        · simp only [if_pos hidle]
          exact congrArg Decision.outcome (if_pos hidle)
        · simp only [if_neg hidle]
          exact congrArg Decision.outcome (if_neg hidle)

/-! ## The action of `evaluate_tiered` -/

/-- A suspended worker of the tier is resumed before a new one is commissioned. -/
def commissionOrResume (s : Orchestrator) (tier : WorkerTier) : Action :=
  if s.mgr.suspendedWorkersByTier tier = [] then .commission else .resume

theorem map_find?_three {α β : Type} (p : α → Bool) (f : α → β) (a b c : α) :
    ([a, b, c].find? p).map f =
      (if p a then some (f a) else none).or
        ((if p b then some (f b) else none).or (if p c then some (f c) else none)) := by
  simp only [List.find?_cons, List.find?_nil]
  cases p a with
  | true => rfl
  | false =>
      cases p b with
      | true => rfl
      | false =>
          cases p c with
          | true => rfl
          | false => rfl

theorem kind_idle (cfg : ElasticConfig) (s : Orchestrator) (queue : QueueBreakdown)
    (databot pipeline agentic : String) :
    (decommissionLowest (s.tieredSnapshot cfg queue) databot pipeline agentic {}).kind =
      (s.lowestIdle cfg).map fun tier => (.decommission, tier) := by
  unfold decommissionLowest lowestIdle
  rw [ScaleDecision.kind_orElse, ScaleDecision.kind_orElse, ScaleDecision.kind_orElse,
    kind_tryDecommission, kind_tryDecommission, kind_tryDecommission, ScaleDecision.kind_empty,
    Option.or_none, map_find?_three]
  simp only [decide_eq_true_iff]
  rfl

/-- What pressure leads to, in the order of the tiers. -/
def pressedKind (cfg : ElasticConfig) (s : Orchestrator) (queue : QueueBreakdown) :
    Option (Action × WorkerTier) :=
  (if s.PipelineGap cfg queue then some (.commission, .pipeline) else none).or <|
    (if s.mgr.countByTier .databot < cfg.maxDatabotWorkers then
        some (s.commissionOrResume .databot, .databot)
      else none).or <|
    if 0 < queue.withPipeline ∧ s.mgr.countByTier .pipeline < cfg.maxPipelineWorkers then
      some (s.commissionOrResume .pipeline, .pipeline)
    else none

theorem kind_commission (h : Cooled s.lastCommissionTime cfg.commissionCooldownMs s.now)
    (tier : WorkerTier) (reason : String) :
    (tryCommission (s.tierState cfg tier) tier (s.tieredSnapshot cfg queue) reason s.now).kind =
      if s.mgr.countByTier tier < cfg.tierMax tier then some (s.commissionOrResume tier, tier)
      else none := by
  rw [kind_tryCommission]
  by_cases hmax : (s.mgr.countByTier tier : Int) < cfg.tierMax tier
  · rw [if_pos hmax]
    exact if_pos ⟨hmax, h⟩
  · rw [if_neg hmax]
    exact if_neg fun hboth => hmax hboth.1

theorem kind_not_cooled (h : ¬Cooled s.lastCommissionTime cfg.commissionCooldownMs s.now)
    (tier : WorkerTier) (reason : String) :
    (tryCommission (s.tierState cfg tier) tier (s.tieredSnapshot cfg queue) reason s.now).kind =
      none := by
  rw [kind_tryCommission]
  exact if_neg fun hboth => h hboth.2

/-- Without workers of a tier none of it is suspended. -/
theorem suspended_of_none (h : s.mgr.countByTier tier = 0) :
    s.mgr.suspendedWorkersByTier tier = [] := by
  unfold WorkerManager.suspendedWorkersByTier
  rw [List.map_eq_nil_iff, List.filter_eq_nil_iff]
  intro e he htier
  have hnone := List.countP_eq_zero.mp h e he
  rw [Bool.and_eq_true] at htier
  exact hnone htier.2

/-- The first attempt is for a tier without workers, so it commissions. -/
theorem kind_gap (cfg : ElasticConfig) (s : Orchestrator) (queue : QueueBreakdown) :
    (if 0 < queue.withPipeline ∧
          (s.mgr.countByTier .pipeline : Int) + (s.mgr.countByTier .agentic : Int) = 0 then
        (if (s.mgr.countByTier .pipeline : Int) < cfg.tierMax .pipeline then
          some (s.commissionOrResume .pipeline, WorkerTier.pipeline)
        else none)
      else none) =
      if s.PipelineGap cfg queue then some (.commission, .pipeline) else none := by
  by_cases hgap : s.PipelineGap cfg queue
  · obtain ⟨hqueued, hpipeline, hagentic, hmax⟩ := id hgap
    have hnone : (s.mgr.countByTier .pipeline : Int) + (s.mgr.countByTier .agentic : Int) = 0 := by
      omega
    have hroom : (s.mgr.countByTier .pipeline : Int) < cfg.tierMax .pipeline := by
      rw [hpipeline]
      exact hmax
    rw [if_pos hgap, if_pos ⟨hqueued, hnone⟩, if_pos hroom, commissionOrResume,
      if_pos (suspended_of_none hpipeline)]
  · rw [if_neg hgap]
    split
    · next hfirst =>
        refine if_neg fun hmax => hgap ⟨hfirst.1, by omega, by omega, ?_⟩
        have hmax : (s.mgr.countByTier .pipeline : Int) < cfg.maxPipelineWorkers := hmax
        omega
    · rfl

theorem kind_commissionForPressure (otherwise : ScaleDecision) :
    (commissionForPressure (s.tieredSnapshot cfg queue) s.now otherwise).kind =
      (if Cooled s.lastCommissionTime cfg.commissionCooldownMs s.now then s.pressedKind cfg queue
        else none).or otherwise.kind := by
  unfold commissionForPressure
  simp only [ScaleDecision.kind_orElse, ScaleDecision.kind_ite, ScaleDecision.kind_empty]
  show (if _ then ScaleDecision.kind (tryCommission (s.tierState cfg .pipeline) _ _ _ _)
        else none).or
      ((ScaleDecision.kind (tryCommission (s.tierState cfg .databot) _ _ _ _)).or
        ((if _ then ScaleDecision.kind (tryCommission (s.tierState cfg .pipeline) _ _ _ _)
          else none).or _)) = _
  by_cases hcooled : Cooled s.lastCommissionTime cfg.commissionCooldownMs s.now
  · rw [kind_commission hcooled, kind_commission hcooled, kind_commission hcooled, if_pos hcooled,
      pressedKind, Option.or_assoc, Option.or_assoc, ← kind_gap]
    simp only [ite_and]
    rfl
  · rw [kind_not_cooled hcooled, kind_not_cooled hcooled, kind_not_cooled hcooled,
      if_neg hcooled, ite_self, ite_self]
    rfl

theorem kind_evaluateTiered (cfg : ElasticConfig) (s : Orchestrator) (queue : QueueBreakdown) :
    (evaluateTiered (s.tieredSnapshot cfg queue) s.now).kind =
      (if s.Pressed cfg then s.pressedKind cfg queue else none).or
        (if s.pressureCount = 0 then (s.lowestIdle cfg).map fun tier => (.decommission, tier)
        else none) := by
  unfold evaluateTiered
  rw [if_neg (fun h => absurd h.1 (lt_irrefl (0 : Rat)))]
  have hidle : (if (s.tieredSnapshot cfg queue).pressureCount = 0 then
      decommissionLowest (s.tieredSnapshot cfg queue) "databot" "pipeline" "agentic" {}
      else {}).kind =
      if s.pressureCount = 0 then (s.lowestIdle cfg).map fun tier => (.decommission, tier)
      else none := by
    rw [ScaleDecision.kind_ite, kind_idle]
    rfl
  by_cases hpressure : cfg.pressureThreshold ≤ s.pressureCount
  · rw [if_pos (show (s.tieredSnapshot cfg queue).pressureThreshold ≤
      (s.tieredSnapshot cfg queue).pressureCount from hpressure), kind_commissionForPressure, hidle]
    have hiff : s.Pressed cfg ↔ Cooled s.lastCommissionTime cfg.commissionCooldownMs s.now :=
      and_iff_right hpressure
    simp only [hiff]
  · have hpressed : ¬s.Pressed cfg := fun h => hpressure h.1
    rw [if_neg (show ¬(s.tieredSnapshot cfg queue).pressureThreshold ≤
      (s.tieredSnapshot cfg queue).pressureCount from hpressure), if_neg hpressed, Option.none_or]
    exact hidle

/-! ## Agreement -/

theorem tierOf_eq (h : s.mgr.workers.lookup id = some w) : s.tierOf id = some w.tier := by
  unfold tierOf
  rw [h]
  rfl

theorem mem_suspendedWorkersByTier :
    id ∈ s.mgr.suspendedWorkersByTier tier ↔
      id ∈ s.mgr.suspendedWorkers ∧ s.tierOf id = some tier := by
  unfold WorkerManager.suspendedWorkersByTier WorkerManager.suspendedWorkers
  constructor
  · intro h
    obtain ⟨e, he, rfl⟩ := List.mem_map.mp h
    obtain ⟨hmem, hboth⟩ := List.mem_filter.mp he
    rw [Bool.and_eq_true, decide_eq_true_iff] at hboth
    refine ⟨List.mem_map.mpr ⟨e, List.mem_filter.mpr ⟨hmem, hboth.1⟩, rfl⟩, ?_⟩
    rw [tierOf_eq (AList.mem_lookup_iff.mpr hmem), hboth.2]
  · rintro ⟨h, htier⟩
    obtain ⟨e, he, rfl⟩ := List.mem_map.mp h
    obtain ⟨hmem, havailable⟩ := List.mem_filter.mp he
    rw [tierOf_eq (AList.mem_lookup_iff.mpr hmem)] at htier
    refine List.mem_map.mpr ⟨e, List.mem_filter.mpr ⟨hmem, ?_⟩, rfl⟩
    rw [Bool.and_eq_true, decide_eq_true_iff]
    exact ⟨havailable, Option.some.inj htier⟩

/-- A suspended worker is registered. -/
theorem tierOf_suspended (h : id ∈ s.mgr.suspendedWorkers) : ∃ tier, s.tierOf id = some tier := by
  obtain ⟨e, he, rfl⟩ := List.mem_map.mp h
  exact ⟨_, tierOf_eq (AList.mem_lookup_iff.mpr (List.mem_of_mem_filter he))⟩

theorem commissionOrResume_of_mem (h : id ∈ s.mgr.suspendedWorkers) (htier : s.tierOf id = some tier) :
    s.commissionOrResume tier = .resume :=
  if_neg (List.ne_nil_of_mem (mem_suspendedWorkersByTier.mpr ⟨h, htier⟩))

theorem commissionOrResume_of_nil (h : s.mgr.suspendedWorkers = []) :
    s.commissionOrResume tier = .commission := by
  refine if_pos (List.eq_nil_iff_forall_not_mem.mpr fun id hid => ?_)
  have hmem := (mem_suspendedWorkersByTier.mp hid).1
  rw [h] at hmem
  cases hmem

theorem countByTier_pos (h : s.tierOf id = some tier) : 0 < s.mgr.countByTier tier := by
  obtain ⟨w, hw, rfl⟩ := Option.map_eq_some_iff.mp h
  exact List.countP_pos_iff.mpr ⟨⟨id, w⟩, AList.mem_lookup_iff.mp hw, decide_eq_true rfl⟩

theorem kind_of_pressed (h : s.Pressed cfg) :
    (evaluateTiered (s.tieredSnapshot cfg queue) s.now).kind =
      (s.pressedKind cfg queue).or
        (if s.pressureCount = 0 then (s.lowestIdle cfg).map fun tier => (.decommission, tier)
        else none) := by
  rw [kind_evaluateTiered, if_pos h]

theorem idle_ne {action : Action} (h : action ≠ .decommission) :
    (if s.pressureCount = 0 then (s.lowestIdle cfg).map fun tier => (Action.decommission, tier)
      else none) ≠ some (action, tier) := by
  split
  · intro hsome
    obtain ⟨_, -, heq⟩ := Option.map_eq_some_iff.mp hsome
    exact h (Prod.mk.inj heq).1.symm
  · intro hsome
    cases hsome

theorem commissionOrResume_ne (s : Orchestrator) (tier : WorkerTier) :
    s.commissionOrResume tier ≠ .decommission := by
  unfold commissionOrResume
  split
  · exact Action.noConfusion
  · exact Action.noConfusion

/-- A Databot is commissioned or resumed under pressure. -/
theorem kind_databot_iff (h : s.Pressed cfg) :
    (evaluateTiered (s.tieredSnapshot cfg queue) s.now).kind =
        some (s.commissionOrResume .databot, .databot) ↔ s.CallsForDatabot cfg queue := by
  rw [kind_of_pressed h, pressedKind, CallsForDatabot]
  by_cases hgap : s.PipelineGap cfg queue
  · rw [if_pos hgap, Option.some_or, Option.some_or]
    refine iff_of_false (fun heq => ?_) fun hboth => hboth.2 hgap
    cases (Prod.mk.inj (Option.some.inj heq)).2
  · rw [if_neg hgap, Option.none_or]
    by_cases hmax : (s.mgr.countByTier .databot : Int) < cfg.maxDatabotWorkers
    · rw [if_pos hmax, Option.some_or, Option.some_or]
      exact iff_of_true rfl ⟨hmax, hgap⟩
    · rw [if_neg hmax, Option.none_or]
      refine iff_of_false (fun heq => ?_) fun hboth => hmax hboth.1
      split at heq
      · rw [Option.some_or] at heq
        cases (Prod.mk.inj (Option.some.inj heq)).2
      · rw [Option.none_or] at heq
        exact idle_ne (s.commissionOrResume_ne .databot) heq

/-- A suspended Pipeline worker is resumed under pressure. -/
theorem kind_pipeline_iff (h : s.Pressed cfg) (hid : id ∈ s.mgr.suspendedWorkers)
    (htier : s.tierOf id = some .pipeline) :
    (evaluateTiered (s.tieredSnapshot cfg queue) s.now).kind = some (.resume, .pipeline) ↔
      s.OverflowsToPipeline cfg queue := by
  have hgap : ¬s.PipelineGap cfg queue := by
    intro hgap
    have hpos := countByTier_pos htier
    have hnone := hgap.2.1
    omega
  rw [kind_of_pressed h, pressedKind, OverflowsToPipeline, if_neg hgap, Option.none_or,
    commissionOrResume_of_mem hid htier]
  by_cases hmax : (s.mgr.countByTier .databot : Int) < cfg.maxDatabotWorkers
  · rw [if_pos hmax, Option.some_or, Option.some_or]
    refine iff_of_false (fun heq => ?_) fun hboth => absurd hboth.1 (by omega)
    cases (Prod.mk.inj (Option.some.inj heq)).2
  · rw [if_neg hmax, Option.none_or]
    by_cases hqueued : 0 < queue.withPipeline ∧
        (s.mgr.countByTier .pipeline : Int) < cfg.maxPipelineWorkers
    · rw [if_pos hqueued, Option.some_or]
      exact iff_of_true rfl ⟨by omega, hqueued⟩
    · rw [if_neg hqueued, Option.none_or]
      exact iff_of_false (idle_ne Action.noConfusion) fun hboth => hqueued hboth.2

theorem kind_agentic_ne (h : s.Pressed cfg) :
    (evaluateTiered (s.tieredSnapshot cfg queue) s.now).kind ≠ some (.resume, .agentic) := by
  rw [kind_of_pressed h, pressedKind]
  intro heq
  split at heq
  · cases (Prod.mk.inj (Option.some.inj heq)).2
  · split at heq
    · cases (Prod.mk.inj (Option.some.inj heq)).2
    · split at heq
      · cases (Prod.mk.inj (Option.some.inj heq)).2
      · exact idle_ne Action.noConfusion heq

/-- An idle worker of a tier is decommissioned. -/
theorem kind_decommission_iff (h : s.pressureCount = 0) :
    (evaluateTiered (s.tieredSnapshot cfg queue) s.now).kind = some (.decommission, tier) ↔
      (s.Pressed cfg → ¬s.CallsForDatabot cfg queue ∧ ¬s.OverflowsToPipeline cfg queue ∧
        ¬s.PipelineGap cfg queue) ∧ s.lowestIdle cfg = some tier := by
  have hmap : (s.lowestIdle cfg).map (fun tier => (Action.decommission, tier)) =
      some (.decommission, tier) ↔ s.lowestIdle cfg = some tier := by
    cases s.lowestIdle cfg with
    | none => exact iff_of_false nofun nofun
    | some t =>
        show some _ = some _ ↔ some t = some tier
        rw [Option.some_inj, Option.some_inj, Prod.mk.injEq]
        exact and_iff_right rfl
  rw [kind_evaluateTiered, if_pos h]
  by_cases hpressed : s.Pressed cfg
  · -- under pressure a decommission is what is left when nothing is called for
    have hnot : ∀ {action t} {rest : Option (Action × WorkerTier)}, action ≠ .decommission →
        ((some (action, t)).or rest = some (.decommission, tier)) = False := by
      intro action t rest haction
      rw [Option.some_or, eq_iff_iff, iff_false]
      exact fun heq => haction (Prod.mk.inj (Option.some.inj heq)).1
    rw [if_pos hpressed, pressedKind, CallsForDatabot, OverflowsToPipeline]
    by_cases hgap : s.PipelineGap cfg queue
    · rw [if_pos hgap, Option.some_or, hnot Action.noConfusion, false_iff]
      exact fun hboth => (hboth.1 hpressed).2.2 hgap
    rw [if_neg hgap, Option.none_or]
    by_cases hmax : (s.mgr.countByTier .databot : Int) < cfg.maxDatabotWorkers
    · rw [if_pos hmax, Option.some_or, hnot (s.commissionOrResume_ne .databot), false_iff]
      exact fun hboth => (hboth.1 hpressed).1 ⟨hmax, hgap⟩
    rw [if_neg hmax, Option.none_or]
    by_cases hqueued : 0 < queue.withPipeline ∧
        (s.mgr.countByTier .pipeline : Int) < cfg.maxPipelineWorkers
    · rw [if_pos hqueued, hnot (s.commissionOrResume_ne .pipeline), false_iff]
      exact fun hboth => (hboth.1 hpressed).2.1 ⟨by omega, hqueued⟩
    rw [if_neg hqueued, Option.none_or, hmap]
    exact (and_iff_right fun _ => ⟨fun h => hmax h.1, fun h => hqueued h.2, hgap⟩).symm
  · rw [if_neg hpressed, Option.none_or, hmap]
    exact (and_iff_right fun h => absurd h hpressed).symm

/-- An idle worker is registered. -/
theorem tierOf_idle {threshold : Int} (h : id ∈ s.mgr.decommissionableWorkers threshold s.now) :
    ∃ tier, s.tierOf id = some tier := by
  obtain ⟨e, he, rfl⟩ := List.mem_map.mp h
  obtain ⟨⟨w, hw, -⟩, -⟩ := of_decide_eq_true (List.mem_filter.mp he).2
  exact ⟨w.tier, tierOf_eq hw⟩

/-- The two evaluators agree where the tiers lead to the same action. -/
theorem agrees_iff (hidle : idle.Perm (s.mgr.decommissionableWorkers cfg.decommissionTimeoutMs s.now))
    (hsuspended : suspended.Perm s.mgr.suspendedWorkers) :
    s.agrees (evaluateTiered (s.tieredSnapshot cfg queue) s.now)
        (s.deployedOutcome cfg idle suspended) ↔
      s.FitsTiers cfg queue idle suspended := by
  rw [deployedOutcome_eq]
  unfold FitsTiers
  by_cases hcommission : s.Pressed cfg ∧ (s.mgr.workerCount : Int) < cfg.maxWorkers
  · rw [if_pos hcommission, if_pos hcommission]
    have hpressed := hcommission.1
    cases suspended with
    | nil =>
        have hnone := List.nil_perm.mp hsuspended
        show decide (_ = some (Action.commission, WorkerTier.databot)) = true ↔ _
        rw [decide_eq_true_iff, ← commissionOrResume_of_nil hnone]
        exact kind_databot_iff hpressed
    | cons id rest =>
        have hmem : id ∈ s.mgr.suspendedWorkers := hsuspended.mem_iff.mp List.mem_cons_self
        obtain ⟨tier, htier⟩ := tierOf_suspended hmem
        have haction := commissionOrResume_of_mem hmem htier
        show (s.tierOf id).any (fun tier => decide (_ = some (Action.resume, tier))) = true ↔ _
        simp only [htier, Option.any_some, decide_eq_true_iff, Option.some.injEq]
        cases tier with
        | databot =>
            rw [← haction, kind_databot_iff hpressed]
            simp
        | pipeline =>
            rw [kind_pipeline_iff hpressed hmem htier]
            simp
        | agentic =>
            refine iff_of_false (kind_agentic_ne hpressed) ?_
            rintro (⟨hne, -⟩ | ⟨hne, -⟩)
            · cases hne
            · cases hne
  · rw [if_neg hcommission, if_neg hcommission]
    cases hfilter : idle.filter fun id => (s.commissioned.lookup id).isSome with
    | nil => exact iff_of_true rfl trivial
    | cons id rest =>
        have hmem : id ∈ idle := by
          refine List.mem_of_mem_filter (p := fun id => (s.commissioned.lookup id).isSome) ?_
          rw [hfilter]
          exact List.mem_cons_self
        obtain ⟨tier, htier⟩ := tierOf_idle (hidle.mem_iff.mp hmem)
        by_cases hacts : cfg.minWorkers < s.mgr.workerCount ∧ s.pressureCount = 0
        · simp only [if_pos hacts]
          show (s.tierOf id).any (fun tier => decide (_ = some (Action.decommission, tier))) = true ↔ _
          rw [htier, Option.any_some, decide_eq_true_iff, kind_decommission_iff hacts.2]
          exact ⟨fun h _ => h, fun h => h hacts⟩
        · simp only [if_neg hacts]
          exact iff_of_true rfl fun h => absurd h hacts

end Orchestrator

/-! ## Runs -/

namespace DeployedLoop

/-- Where the loop acts, it does what `evaluate_tiered` prescribes for the latest message and
the registered workers. -/
def actsAsPrescribed (cfg : ElasticConfig) (s : DeployedLoop) : LoopEvent → Bool
  | .evaluates idle suspended _ =>
      s.orch.agrees
        (evaluateTiered (s.orch.tieredSnapshot cfg (parseQueueBreakdown s.message)) s.orch.now)
        (s.orch.deployedOutcome cfg idle suspended)
  | _ => true

def TiersFit (cfg : ElasticConfig) (s : DeployedLoop) : LoopEvent → Prop
  | .evaluates idle suspended _ =>
      s.orch.FitsTiers cfg (parseQueueBreakdown s.message) idle suspended
  | _ => True

theorem actsAsPrescribed_iff_of_step {cfg : ElasticConfig} {s s' : DeployedLoop} {e : LoopEvent}
    (h : s.step cfg e = some s') : s.actsAsPrescribed cfg e ↔ s.TiersFit cfg e := by
  cases e with
  | evaluates idle suspended containerId =>
      obtain ⟨decided, hdecided, -⟩ := Option.bind_eq_some_iff.mp h
      obtain ⟨hidle, hsuspended, -⟩ := Orchestrator.exec_evaluation hdecided
      exact Orchestrator.agrees_iff hidle hsuspended
  | _ => exact iff_of_true rfl trivial

end DeployedLoop

open DeployedLoop

/-- **Tier awareness.** For every run of the deployed loop: it acts as `evaluate_tiered`
prescribes if and only if, at every evaluation, the tiers lead to the action that is taken
without regard to them. -/
theorem actsAsPrescribed_iff (cfg : ElasticConfig) {s t : DeployedLoop} {events : List LoopEvent}
    (hexec : exec (step cfg) s events = some t) :
    Along (step cfg) (fun s e => s.actsAsPrescribed cfg e) s events ↔
      Along (step cfg) (TiersFit cfg) s events :=
  Along.iff_exec (fun _ => True) (fun _ _ _ _ => trivial)
    (fun _ _ hstep => actsAsPrescribed_iff_of_step hstep) trivial hexec (Along.trivial s events)

/-- Five full batches, ten of whose labels carry a pipeline, and one Databot. -/
def pipelineDemand : List LoopEvent :=
  [.ticks 10000000000, .registers { id := 1 }] ++
    List.replicate 5 (.queueDepth "100,10,0".toList) ++ [.evaluates [] [] (some "a1")]

/-- As above, with a Pipeline worker that is registered. -/
def pipelineServed : List LoopEvent := .registers { id := 2, tier := .pipeline } :: pipelineDemand

theorem actsAsPrescribed_iff_served :
    ∃ t, exec (step {}) {} pipelineServed = some t ∧
      Along (step {}) (fun s e => s.actsAsPrescribed {} e) {} pipelineServed ∧
      (Along (step {}) (fun s e => s.actsAsPrescribed {} e) {} pipelineServed ↔
        Along (step {}) (TiersFit {}) {} pipelineServed) := by
  have hsome : (exec (step {}) {} pipelineServed).isSome := by decide +kernel
  obtain ⟨t, ht⟩ := Option.isSome_iff_exists.mp hsome
  exact ⟨t, ht, by decide +kernel, actsAsPrescribed_iff {} ht⟩

/-- A Databot is commissioned where a Pipeline worker is prescribed. -/
theorem pipelineDemand_ignored :
    (exec (step {}) {} pipelineDemand).map (fun t => t.orch.onTheWay) = some [(100, .databot)] ∧
      ¬Along (step {}) (fun s e => s.actsAsPrescribed {} e) {} pipelineDemand := by
  decide +kernel

end Labios.Elastic
