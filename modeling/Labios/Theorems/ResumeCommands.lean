import Labios.Elastic.Orchestrator

/-!
# The elastic thread

The thread of `services/labios-manager.cpp`: an outer loop that calls `Orchestrator::run` and
then publishes a pending resume command, and `run` with its own loop around `evaluate_once`.
Both loops end on the stop request, so `run` returns only then. `decided` is not a variable
of the code: the workers that evaluations decided to resume before the stop was requested.
-/

namespace Labios.Elastic

inductive ThreadLoc
  /-- At the test of the outer loop. -/
  | outer
  /-- At the test of the loop in `run`. -/
  | inner
  /-- In `sleep_for`, and then at the second test. -/
  | asleep
  | evaluating
  /-- `run` has returned: about to take the pending resume command. -/
  | consuming
  | publishing (id : Int)
  | finished
  deriving DecidableEq

structure ElasticThread where
  orch : Orchestrator := {}
  loc : ThreadLoc := .outer
  stopRequested : Bool := false
  decided : List Int := []
  published : List Int := []

inductive ThreadEvent
  /-- A message arrives, or time passes. -/
  | environment (e : Event)
  | requestsStop
  /-- The next step of the loops. -/
  | proceeds
  /-- The next step of `evaluate_once`. -/
  | evaluates (e : Event)
  /-- `publish` and `flush`; what they throw is caught, and the command is gone. -/
  | publishes (delivered : Bool)

/-- The steps of the evaluating thread. -/
def Event.isEvaluation : Event → Bool
  | .calls _ | .reads _ | .decides | .starts _ | .startFails | .advances => true
  | _ => false

/-- The worker that the decision taken by the step resumes. -/
def Orchestrator.resumeTarget (cfg : ElasticConfig) (s : Orchestrator) : Event → Option Int
  | .decides =>
      match s.phase with
      | .reading tiered [] seen =>
          match seen.outcome cfg tiered s.now with
          | .resume id => some id
          | _ => none
      | _ => none
  | _ => none

namespace ElasticThread

/-- Where the thread stands after a step of the evaluation. -/
def afterEvaluation : Phase → ThreadLoc
  | .idle => .inner
  | _ => .evaluating

def step (cfg : ElasticConfig) (s : ElasticThread) : ThreadEvent → Option ElasticThread
  | .environment e =>
      if e.isEvaluation then none else (s.orch.step cfg e).map fun orch => { s with orch }
  | .requestsStop => some { s with stopRequested := true }
  | .proceeds =>
      match s.loc with
      | .outer => some { s with loc := if s.stopRequested then .finished else .inner }
      | .inner => some { s with loc := if s.stopRequested then .consuming else .asleep }
      | .asleep =>
          if s.stopRequested then some { s with loc := .consuming }
          else (s.orch.step cfg (.calls false)).map fun orch => { s with orch, loc := .evaluating }
      | .consuming =>
          some { s with
            orch := { s.orch with pendingResumeId := 0 }
            loc := if 0 < s.orch.pendingResumeId then .publishing s.orch.pendingResumeId
              else .outer }
      | _ => none
  | .evaluates e =>
      if s.loc = .evaluating ∧ e.isEvaluation then
        (s.orch.step cfg e).map fun orch =>
          { s with
            orch
            loc := afterEvaluation orch.phase
            decided :=
              if s.stopRequested then s.decided
              else s.decided ++ (s.orch.resumeTarget cfg e).toList }
      else none
  | .publishes delivered =>
      match s.loc with
      | .publishing id =>
          some { s with
            loc := .outer
            published := if delivered then s.published ++ [id] else s.published }
      | _ => none

end ElasticThread
end Labios.Elastic

/-!
## Resume commands

Is every resume command that was decided published, once and before the next evaluation? The
command waits in one slot until `run` returns, which it does when the thread is stopped, and
a later one overwrites it (`resume_overwritten`). Nothing is lost as long as no evaluation
begins while a command waits, no resume is decided after the stop request, workers that are
resumed have positive ids, and publishing does not throw (`resumes_delivered`).
-/

namespace Labios.Elastic

open Foundation

/-! ## The slot -/

namespace Orchestrator

variable {cfg : ElasticConfig} {s s' : Orchestrator} {e : Event}

theorem step_carryOut {tiered : Bool} {seen : Seen} (hphase : s.phase = .reading tiered [] seen) :
    (s.carryOut tiered (seen.outcome cfg tiered s.now)).pendingResumeId =
        (s.resumeTarget cfg .decides).getD s.pendingResumeId ∧
      ((s.resumeTarget cfg .decides).isSome →
        (s.carryOut tiered (seen.outcome cfg tiered s.now)).phase = .idle) := by
  simp only [resumeTarget, hphase]
  cases seen.outcome cfg tiered s.now with
  | nothing => exact ⟨rfl, nofun⟩
  | commission tier => exact ⟨rfl, nofun⟩
  | decommission id => exact ⟨rfl, nofun⟩
  | resume id => exact ⟨rfl, fun _ => rfl⟩

/-- Only a decision to resume writes the slot, and ends the evaluation. -/
theorem step_pendingResumeId (h : s.step cfg e = some s') :
    s'.pendingResumeId = (s.resumeTarget cfg e).getD s.pendingResumeId ∧
      ((s.resumeTarget cfg e).isSome → s'.phase = .idle) := by
  cases steps_of_step h with
  | queueDepth depth =>
      refine ⟨?_, nofun⟩
      unfold updateQueueDepth
      split
      · rfl
      · rfl
  | decides hphase => exact step_carryOut hphase
  | _ => exact ⟨rfl, nofun⟩

end Orchestrator

/-! ## The thread -/

namespace ElasticThread

variable {cfg : ElasticConfig} {s s' : ElasticThread} {e : ThreadEvent}

/-- Before the next evaluation, and when the thread ends, the commands that were published
are those that were decided. -/
def resumesDelivered (s : ElasticThread) : ThreadEvent → Bool
  | .proceeds =>
      match s.loc with
      | .asleep => s.stopRequested ∨ s.published = s.decided
      | .outer => s.stopRequested → s.published = s.decided
      | _ => true
  | _ => true

/-- No evaluation begins while a command waits, only workers with positive ids are resumed,
none after the stop request, and publishing does not throw. -/
def resumeKept (cfg : ElasticConfig) (s : ElasticThread) : ThreadEvent → Bool
  | .proceeds =>
      match s.loc with
      | .asleep => s.stopRequested ∨ s.orch.pendingResumeId = 0
      | _ => true
  | .evaluates e => (s.orch.resumeTarget cfg e).all fun id => !s.stopRequested && 0 < id
  | .publishes delivered => delivered
  | _ => true

/-- The command that is decided and not yet published. -/
def inTransit (s : ElasticThread) : List Int :=
  match s.loc with
  | .publishing id => [id]
  | _ => if s.orch.pendingResumeId = 0 then [] else [s.orch.pendingResumeId]

/-- The slot may be full only from the end of an evaluation to the end of `run`. -/
def SlotEmpty : ThreadLoc → Prop
  | .outer | .evaluating | .publishing _ | .finished => True
  | .inner | .asleep | .consuming => False

structure Delivering (s : ElasticThread) : Prop where
  decided : s.published ++ s.inTransit = s.decided
  nonneg : 0 ≤ s.orch.pendingResumeId
  empty : SlotEmpty s.loc → s.orch.pendingResumeId = 0

theorem inTransit_of_empty (h : s.orch.pendingResumeId = 0)
    (hloc : ∀ id, s.loc ≠ .publishing id) : s.inTransit = [] := by
  unfold inTransit
  split
  · next id hid => exact absurd hid (hloc id)
  · exact if_pos h

/-- Where the slot is empty and nothing is being published, all is published. -/
theorem Delivering.published_eq (h : s.Delivering) (hempty : s.orch.pendingResumeId = 0)
    (hloc : ∀ id, s.loc ≠ .publishing id) : s.published = s.decided := by
  have hdecided := h.decided
  rw [inTransit_of_empty hempty hloc, List.append_nil] at hdecided
  exact hdecided

theorem Delivering.resumesDelivered (h : s.Delivering) (hkept : s.resumeKept cfg e) :
    s.resumesDelivered e := by
  cases e with
  | proceeds =>
      cases hloc : s.loc with
      | asleep =>
          simp only [resumeKept, hloc, decide_eq_true_iff] at hkept
          simp only [ElasticThread.resumesDelivered, hloc, decide_eq_true_iff]
          refine hkept.imp_right fun hempty => h.published_eq hempty fun id hid => ?_
          rw [hloc] at hid
          cases hid
      | outer =>
          simp only [ElasticThread.resumesDelivered, hloc, decide_eq_true_iff]
          intro _
          refine h.published_eq (h.empty ?_) fun id hid => ?_
          · rw [hloc]
            trivial
          · rw [hloc] at hid
            cases hid
      | _ => simp only [ElasticThread.resumesDelivered, hloc]
  | _ => rfl

/-- Another state with the same commands in the slot. -/
theorem Delivering.of_same (h : s.Delivering)
    (hpending : s'.orch.pendingResumeId = s.orch.pendingResumeId)
    (hpublished : s'.published = s.published)
    (hdecided : s'.decided = s.decided) (htransit : s'.inTransit = s.inTransit)
    (hempty : SlotEmpty s'.loc → s.orch.pendingResumeId = 0) : s'.Delivering where
  decided := by
    rw [hpublished, htransit, hdecided]
    exact h.decided
  nonneg := by
    rw [hpending]
    exact h.nonneg
  empty := fun hloc => hpending.trans (hempty hloc)

theorem environment_pending {e : Event} {orch : Orchestrator} (he : e.isEvaluation = false)
    (h : s.orch.step cfg e = some orch) : orch.pendingResumeId = s.orch.pendingResumeId := by
  have hpending := (Orchestrator.step_pendingResumeId h).1
  cases e with
  | decides => cases he
  | _ => exact hpending

theorem Delivering.environment {e : Event} (h : s.Delivering)
    (hstep : s.step cfg (.environment e) = some s') : s'.Delivering := by
  simp only [step] at hstep
  split at hstep
  · cases hstep
  · next he =>
      obtain ⟨orch, horch, rfl⟩ := Option.map_eq_some_iff.mp hstep
      have hpending := environment_pending (eq_false_of_ne_true he) horch
      refine h.of_same hpending rfl rfl ?_ h.empty
      unfold inTransit
      rw [hpending]

/-- With an empty slot, and nothing being published. -/
theorem delivering_of_empty (hempty : s.orch.pendingResumeId = 0)
    (hloc : ∀ id, s.loc ≠ .publishing id) (hpublished : s.published = s.decided) :
    s.Delivering where
  decided := by
    rw [inTransit_of_empty hempty hloc, List.append_nil]
    exact hpublished
  nonneg := hempty.ge
  empty := fun _ => hempty

theorem Delivering.proceeds (h : s.Delivering) (hkept : s.resumeKept cfg .proceeds)
    (hstep : s.step cfg .proceeds = some s') : s'.Delivering := by
  have htransit : (∀ id, s.loc ≠ .publishing id) → ∀ loc, (∀ id, loc ≠ .publishing id) →
      inTransit { s with loc } = s.inTransit := by
    intro hloc loc hloc'
    unfold inTransit
    cases loc with
    | publishing id => exact absurd rfl (hloc' id)
    | _ =>
        cases hs : s.loc with
        | publishing id => exact absurd hs (hloc id)
        | _ => rfl
  cases hloc : s.loc with
  | outer =>
      simp only [step, hloc] at hstep
      obtain rfl := Option.some.inj hstep
      have hempty : s.orch.pendingResumeId = 0 := h.empty (by rw [hloc]; trivial)
      refine delivering_of_empty hempty (fun id hid => ?_)
        (h.published_eq hempty fun id hid => by rw [hloc] at hid; cases hid)
      have hid : (if s.stopRequested then ThreadLoc.finished else .inner) = .publishing id := hid
      split at hid
      · cases hid
      · cases hid
  | inner =>
      simp only [step, hloc] at hstep
      obtain rfl := Option.some.inj hstep
      refine h.of_same rfl rfl rfl (htransit (by rw [hloc]; nofun) _ ?_) fun hempty => ?_
      · split
        · nofun
        · nofun
      · have hempty : SlotEmpty (if s.stopRequested then .consuming else .asleep) := hempty
        split at hempty
        · exact hempty.elim
        · exact hempty.elim
  | asleep =>
      simp only [step, hloc] at hstep
      split at hstep
      · obtain rfl := Option.some.inj hstep
        exact h.of_same rfl rfl rfl (htransit (by rw [hloc]; nofun) _ nofun) fun hempty =>
          hempty.elim
      · next hstop =>
          simp only [resumeKept, hloc, decide_eq_true_iff] at hkept
          have hempty := hkept.resolve_left hstop
          obtain ⟨orch, horch, rfl⟩ := Option.map_eq_some_iff.mp hstep
          have hpending := (Orchestrator.step_pendingResumeId horch).1
          exact delivering_of_empty (hpending.trans hempty) nofun
            (h.published_eq hempty fun id hid => by rw [hloc] at hid; cases hid)
  | consuming =>
      simp only [step, hloc] at hstep
      obtain rfl := Option.some.inj hstep
      have hdecided := h.decided
      simp only [inTransit, hloc] at hdecided
      by_cases hempty : s.orch.pendingResumeId = 0
      · rw [if_pos hempty, List.append_nil] at hdecided
        have hnot : ¬0 < s.orch.pendingResumeId := by omega
        simp only [if_neg hnot]
        exact delivering_of_empty rfl nofun hdecided
      · rw [if_neg hempty] at hdecided
        have hpos : 0 < s.orch.pendingResumeId := lt_of_le_of_ne h.nonneg (Ne.symm hempty)
        simp only [if_pos hpos]
        exact ⟨hdecided, Int.le_refl 0, fun _ => rfl⟩
  | evaluating =>
      simp only [step, hloc] at hstep
      cases hstep
  | publishing id =>
      simp only [step, hloc] at hstep
      cases hstep
  | finished =>
      simp only [step, hloc] at hstep
      cases hstep

/-- A resume that is decided fills the empty slot. -/
theorem Delivering.evaluates {e : Event} (h : s.Delivering)
    (hkept : s.resumeKept cfg (.evaluates e)) (hstep : s.step cfg (.evaluates e) = some s') :
    s'.Delivering := by
  simp only [step] at hstep
  split at hstep
  · next hboth =>
      obtain ⟨hloc, -⟩ := hboth
      obtain ⟨orch, horch, rfl⟩ := Option.map_eq_some_iff.mp hstep
      have hempty : s.orch.pendingResumeId = 0 := h.empty (by rw [hloc]; trivial)
      have hpublished := h.published_eq hempty fun id hid => by rw [hloc] at hid; cases hid
      have hafter : ∀ id, afterEvaluation orch.phase ≠ .publishing id := by
        intro id
        cases orch.phase with
        | _ => nofun
      obtain ⟨hpending, hphase⟩ := Orchestrator.step_pendingResumeId horch
      cases htarget : s.orch.resumeTarget cfg e with
      | none =>
          rw [htarget] at hpending
          have hdecided : (if s.stopRequested then s.decided else s.decided ++ []) = s.decided := by
            rw [List.append_nil, ite_self]
          exact delivering_of_empty (hpending.trans hempty) hafter
            (hpublished.trans hdecided.symm)
      | some id =>
          simp only [resumeKept, htarget, Option.all_some, Bool.and_eq_true, Bool.not_eq_true',
            decide_eq_true_iff] at hkept
          obtain ⟨hstop, hpos⟩ := hkept
          rw [htarget] at hpending hphase
          have hidle := hphase rfl
          have hpending : orch.pendingResumeId = id := hpending
          refine ⟨?_, ?_, fun hslot => ?_⟩
          · simp only [inTransit, hidle, afterEvaluation, hpending, if_neg hpos.ne',
              Option.toList_some, hstop, hpublished]
            rfl
          · exact hpending ▸ hpos.le
          · have hslot : SlotEmpty (afterEvaluation orch.phase) := hslot
            rw [hidle] at hslot
            exact hslot.elim
  · cases hstep

theorem Delivering.step (h : s.Delivering) (hkept : s.resumeKept cfg e)
    (hstep : s.step cfg e = some s') : s'.Delivering := by
  cases e with
  | environment e => exact h.environment hstep
  | requestsStop =>
      obtain rfl := Option.some.inj hstep
      exact h.of_same rfl rfl rfl rfl h.empty
  | proceeds => exact h.proceeds hkept hstep
  | evaluates e => exact h.evaluates hkept hstep
  | publishes delivered =>
      simp only [ElasticThread.step] at hstep
      split at hstep
      · next id hloc =>
          obtain rfl := Option.some.inj hstep
          obtain rfl : delivered = true := hkept
          have hdecided := h.decided
          simp only [inTransit, hloc] at hdecided
          exact delivering_of_empty (h.empty (by rw [hloc]; trivial)) nofun hdecided
      · cases hstep

end ElasticThread

open ElasticThread

/-- **Resume commands.** In every run in which no evaluation begins while a command waits, no
resume is decided after the stop request or for an id that is not positive, and publishing
does not throw: before every evaluation and at the end, the commands that were published are
those that were decided. -/
theorem resumes_delivered (cfg : ElasticConfig) (orch : Orchestrator)
    (hempty : orch.pendingResumeId = 0) (events : List ThreadEvent)
    (hkept : Along (step cfg) (fun s e => s.resumeKept cfg e) { orch } events) :
    Along (step cfg) (fun s e => s.resumesDelivered e) { orch } events :=
  Along.of_invariant (I := Delivering) (fun h hok hstep => h.step hok hstep)
    (fun h hok => h.resumesDelivered hok) (delivering_of_empty hempty nofun rfl) hkept

/-! ## Two workers -/

def onePressedBatch : ElasticConfig := { pressureThreshold := 1 }

/-- Two workers, the first of which is suspended, ten seconds after the start of the clock. -/
def oneSuspended : Orchestrator :=
  { mgr := ((({} : WorkerManager).registerWorker { id := 5 }).registerWorker { id := 7 }).scoreUpdate
      5 1 0 false 10000000000
    now := 10000000000 }

/-- `run` evaluates once, with one suspended worker. -/
def evaluatesOnce (suspended : Int) : List ThreadEvent :=
  [.proceeds, .environment (.queueDepth 100), .proceeds] ++
    [Event.reads [], .reads [suspended], .reads [], .reads [], .reads [], .decides].map .evaluates

/-- The thread is stopped and publishes what waits. -/
def stops : List ThreadEvent :=
  [.requestsStop, .proceeds, .proceeds, .publishes true, .proceeds]

/-- The first worker wakes up and the second one suspends before the next evaluation. -/
def secondSuspended : List ThreadEvent :=
  [.environment (.scores 5 1 0 true), .environment (.scores 7 1 0 false)]

theorem resumes_delivered_once :
    (exec (step onePressedBatch) { orch := oneSuspended }
        (.proceeds :: evaluatesOnce 5 ++ stops)).map (fun t => (t.loc, t.published, t.decided)) =
      some (.finished, [5], [5]) ∧
    Along (step onePressedBatch) (fun s e => s.resumesDelivered e) { orch := oneSuspended }
      (.proceeds :: evaluatesOnce 5 ++ stops) :=
  ⟨by decide +kernel,
    resumes_delivered onePressedBatch oneSuspended rfl _ (by decide +kernel)⟩

/-- The first command is overwritten, and the second one waits for the end. -/
theorem resume_overwritten :
    (exec (step onePressedBatch) { orch := oneSuspended }
        (.proceeds :: evaluatesOnce 5 ++ secondSuspended ++ evaluatesOnce 7 ++ stops)).map
          (fun t => (t.loc, t.published, t.decided)) = some (.finished, [7], [5, 7]) ∧
    ¬Along (step onePressedBatch) (fun s e => s.resumesDelivered e) { orch := oneSuspended }
      (.proceeds :: evaluatesOnce 5 ++ secondSuspended ++ evaluatesOnce 7 ++ stops) := by
  decide +kernel

end Labios.Elastic
