import Labios.Client.Model
import Labios.Dispatcher.Placement
import Labios.Dispatcher.Policy
import Labios.Solver.Targets

/-!
# One call per label, or one for all

The solvers spread a list of labels: round-robin by its cursor, constraint over
one worker per fifty labels, minmax by shares of profit. The dispatcher calls
them with lists of one, and for the two scoring policies a list of one always
goes to the top worker. `per_label_dispatch_iff` says when the spread is the
same all the same.
-/

namespace Labios

open Foundation AssignmentMap StatusCatalog

/-! ## The dispatcher's loop -/

section Loop

variable {ρ : Type} (d : Dispatcher ρ) (workers : List WorkerInfo)

/-- The answers of the solver to `n` calls in a row. -/
def solverAnswers (intent : Intent) : Nat → ρ → List (Option Int)
  | 0, _ => []
  | n + 1, s =>
      (d.selectWorker workers intent s).1 :: solverAnswers intent n (d.selectWorker workers intent s).2

/-- When its turn comes, no worker is recorded for a label: the solver decides. -/
def NoneLocated (fanout : ReplyFanout) :
    DispatchState ρ × List ScheduleEntry → List LabelData → Prop
  | _, [] => True
  | acc, l :: rest =>
      (writeLocation acc.1.locations l).filter (fun w => 0 < w) = none ∧
        NoneLocated fanout (routeIndependent d workers fanout acc l) rest

/-- How many labels have been sent to a worker. -/
def DispatchState.sentTo (st : DispatchState ρ) (w : Int) : Nat :=
  (st.sent.map (·.1)).count w

/-- One label without a location goes where the solver says. -/
theorem routeIndependent_solved (fanout : ReplyFanout)
    (acc : DispatchState ρ × List ScheduleEntry) (l : LabelData)
    (hno : (writeLocation acc.1.locations l).filter (fun w => 0 < w) = none) :
    (routeIndependent d workers fanout acc l).1.sent.map (·.1) =
        acc.1.sent.map (·.1) ++ (d.selectWorker workers l.intent acc.1.solver).1.toList ∧
      (routeIndependent d workers fanout acc l).1.solver =
        (d.selectWorker workers l.intent acc.1.solver).2 := by
  have hrouted := routeIndependent_alone d workers fanout acc l
  rw [hrouted.sent, hrouted.solver, placeIndependent_solved d workers hno]
  refine ⟨?_, rfl⟩
  cases (d.selectWorker workers l.intent acc.1.solver).1 with
  | none => simp
  | some w => simp

/-- Labels for which no worker is recorded, no two of them writes of one file,
stay without location until their turn. -/
theorem noneLocated_of_distinct (fanout : ReplyFanout)
    (acc : DispatchState ρ × List ScheduleEntry) (labels : List LabelData)
    (hno : ∀ l ∈ labels, (writeLocation acc.1.locations l).filter (fun w => 0 < w) = none)
    (hdistinct : labels.Pairwise fun a b =>
      placingFile a = none ∨ placingFile a ≠ placingFile b) :
    NoneLocated d workers fanout acc labels := by
  induction labels generalizing acc with
  | nil => trivial
  | cons l rest ih =>
      rw [List.pairwise_cons] at hdistinct
      refine ⟨hno l List.mem_cons_self, ih _ (fun b hb => ?_) hdistinct.2⟩
      have hbefore := hno b (List.mem_cons_of_mem _ hb)
      rw [writeLocation_eq] at hbefore ⊢
      cases hfile : placingFile b with
      | none => rfl
      | some path =>
          rw [hfile] at hbefore
          rw [Option.bind_some] at hbefore ⊢
          rw [(routeIndependent_alone d workers fanout acc l).locations,
            recordPlaced_whole d workers acc.1, hbefore]
          rcases hdistinct.1 b hb with hnone | hne
          · exact fun h => absurd (hnone.symm.trans h) (by simp)
          · exact fun h => hne (h.trans hfile.symm)

/-- A loop over labels without locations sends as many labels to a worker as
the solver names it. -/
theorem sentTo_routeIndependents (fanout : ReplyFanout) (st : DispatchState ρ)
    (labels : List LabelData) {intent : Intent} (hintent : ∀ l ∈ labels, l.intent = intent)
    (hno : NoneLocated d workers fanout (st, []) labels) (w : Int) :
    (routeIndependents d workers fanout st labels).sentTo w =
      st.sentTo w + (solverAnswers d workers intent labels.length st.solver).count (some w) := by
  have hfold : ∀ acc : DispatchState ρ × List ScheduleEntry,
      NoneLocated d workers fanout acc labels →
      ((labels.foldl (routeIndependent d workers fanout) acc).1.sent.map (·.1)).count w =
        (acc.1.sent.map (·.1)).count w +
          (solverAnswers d workers intent labels.length acc.1.solver).count (some w) := by
    clear hno
    induction labels with
    | nil => exact fun _ _ => rfl
    | cons l rest ih =>
        intro acc hacc
        obtain ⟨hsent, hsolver⟩ := routeIndependent_solved d workers fanout acc l hacc.1
        rw [hintent l List.mem_cons_self] at hsent hsolver
        rw [List.foldl_cons, ih (fun x hx => hintent x (List.mem_cons_of_mem _ hx)) _ hacc.2,
          hsent, hsolver, List.length_cons, solverAnswers, List.count_append, List.count_cons]
        cases (d.selectWorker workers intent acc.1.solver).1 with
        | none => simp
        | some v =>
            simp only [Option.toList_some, List.count_singleton, beq_iff_eq, Option.some.injEq]
            omega
  exact hfold (st, []) hno

end Loop

/-! ## Round-robin -/

theorem count_roundRobinLoop {α : Type} (ids : List Int) (w : Int) (labels : List α)
    (next : Nat) (map : AssignmentMap α) :
    (roundRobinLoop ids next labels map).1.count w =
      map.count w + (cursorTargets ids labels.length next).count w := by
  induction labels generalizing next map with
  | nil => rfl
  | cons l rest ih =>
      rw [roundRobinLoop, ih, count_push, List.length_cons, cursorTargets, List.count_cons]
      simp only [beq_iff_eq]
      omega

section Policies

variable {γ : Type} (c : Scheduling γ) (config : ShufflerConfig) (now : UInt64)
  (inboxName : Nat → String) (workers : List WorkerInfo) (intent : Intent)

theorem answers_roundRobin (hrandom : c.policy ≠ "random") (hscores : ¬c.Scores)
    (hids : availableIds workers ≠ []) (n : Nat) (s : SolverState γ) :
    solverAnswers (c.dispatcher config now inboxName) workers intent n s =
      (cursorTargets (availableIds workers) n
        (wrapCursor s.next (availableIds workers).length)).map some := by
  induction n generalizing s with
  | zero => rfl
  | succ n ih =>
      have hcall : (c.dispatcher config now inboxName).selectWorker workers intent s =
          (some (cursorWorker workers s.next),
            { s with
              next := (wrapCursor s.next (availableIds workers).length + 1) %
                (availableIds workers).length }) := by
        show selectWorker c workers intent s = _
        rw [selectWorker_roundRobin c workers intent s hrandom hscores,
          if_neg (by simpa using hids)]
      rw [solverAnswers, hcall, ih, cursorTargets, List.map_cons]
      dsimp only
      rw [wrapCursor_mod hids]
      rfl

/-! ## Scoring policies -/

/-- A scoring policy has no state: every label goes to the top worker. -/
theorem answers_scores (h : c.Scores) (n : Nat) (s : SolverState γ) :
    solverAnswers (c.dispatcher config now inboxName) workers intent n s =
      List.replicate n ((topWorker c workers intent).map (·.id)) := by
  induction n with
  | zero => rfl
  | succ n ih =>
      have hcall : (c.dispatcher config now inboxName).selectWorker workers intent s =
          ((topWorker c workers intent).map (·.id), s) := selectWorker_scores c workers intent s h
      rw [solverAnswers, hcall, ih, List.replicate_succ]

theorem count_answers_scores (h : c.Scores) {top : WorkerInfo} {rest : List WorkerInfo}
    (htop : scoredWorkers c.sort (policyScore c intent) workers = top :: rest) (n : Nat)
    (s : SolverState γ) (w : Int) :
    (solverAnswers (c.dispatcher config now inboxName) workers intent n s).count (some w) =
      (List.replicate n top.id).count w := by
  have hanswers : solverAnswers (c.dispatcher config now inboxName) workers intent n s =
      (List.replicate n top.id).map some := by
    rw [answers_scores c config now inboxName workers intent h, topWorker, htop, List.map_replicate]
    rfl
  rw [hanswers, List.count_map_of_injective _ some (Option.some_injective _)]

end Policies

theorem exists_scored (S : StdSort) (score : WorkerInfo → Rat) {workers : List WorkerInfo}
    (havailable : ∃ w ∈ workers, w.available = true) :
    ∃ top rest, scoredWorkers S score workers = top :: rest := by
  refine List.exists_cons_of_ne_nil fun hnil => ?_
  exact (noneAvailable_iff workers).mp ((scoredWorkers_eq_nil S workers score).mp hnil) havailable

theorem scored_singleton_iff {S : StdSort} {score : WorkerInfo → Rat} {workers : List WorkerInfo}
    {top : WorkerInfo} {rest : List WorkerInfo}
    (hscored : scoredWorkers S score workers = top :: rest) :
    rest = [] ↔ (workers.filter (·.available)).length = 1 := by
  rw [← (scoredWorkers_perm S workers score).length_eq, hscored, List.length_cons,
    Nat.add_eq_right, List.length_eq_zero_iff]

/-- Two scored workers are two workers. -/
theorem top_id_ne (S : StdSort) (score : WorkerInfo → Rat) (workers : List WorkerInfo)
    (hids : (workers.map (·.id)).Nodup) {top second : WorkerInfo} {more : List WorkerInfo}
    (hscored : scoredWorkers S score workers = top :: second :: more) : top.id ≠ second.id := by
  have hnodup : ((top :: second :: more).map (·.id)).Nodup := by
    rw [← hscored]
    exact ((scoredWorkers_perm S workers score).map _).nodup_iff.mpr
      (hids.sublist (List.filter_sublist.map _))
  intro heq
  refine (List.nodup_cons.mp hnodup).1 ?_
  rw [List.map_cons]
  exact List.mem_cons.mpr (.inl heq)

/-- The labels of a constraint batch go round among the best workers. -/
theorem count_constraintAssign {α : Type} (S : StdSort) (score : WorkerInfo → Rat)
    (labels : List α) (workers : List WorkerInfo) {top : WorkerInfo} {rest : List WorkerInfo}
    (hscored : scoredWorkers S score workers = top :: rest) (w : Int) :
    (constraintAssign S score labels workers).count w =
      ((List.range labels.length).map fun i =>
        ((top :: rest).map (·.id)).getD
          (i % workersNeeded (rest.length + 1) labels.length) 0).count w := by
  unfold constraintAssign
  rw [hscored, workers_ne_nil S workers hscored]
  cases labels with
  | nil => simp [AssignmentMap.count]
  | cons l ls =>
      simp only [Bool.false_eq_true, List.isEmpty_cons, List.map_cons, or_self, if_false]
      rw [count_assignTo, List.map_map, List.length_cons, List.length_map]
      have hindex : ∀ f : Nat → Int, (l :: ls).zipIdx.map (fun p => f p.2) =
          (List.range (l :: ls).length).map f := by
        intro f
        rw [List.range_eq_range', ← List.zipIdx_map_snd 0 (l :: ls), List.map_map]
        rfl
      rw [← hindex]
      exact Nat.zero_add _

/-- Constraint puts the whole batch on the top worker exactly when one worker is
needed, or one is there. -/
theorem constraint_agrees_iff {α : Type} (S : StdSort) (score : WorkerInfo → Rat)
    (labels : List α) (workers : List WorkerInfo) (hids : (workers.map (·.id)).Nodup)
    {top : WorkerInfo} {rest : List WorkerInfo}
    (hscored : scoredWorkers S score workers = top :: rest) :
    (∀ w, (constraintAssign S score labels workers).count w =
        (List.replicate labels.length top.id).count w) ↔
      labels.length ≤ 50 ∨ rest = [] := by
  constructor
  · intro h
    by_contra hno
    rw [not_or, not_le] at hno
    obtain ⟨second, more, rfl⟩ := List.exists_cons_of_ne_nil hno.2
    -- the second label of the batch goes to the second worker
    have hsecond := h second.id
    rw [count_constraintAssign S score labels workers hscored] at hsecond
    have hneeded : 1 % workersNeeded ((second :: more).length + 1) labels.length = 1 := by
      apply Nat.mod_eq_of_lt
      unfold workersNeeded
      rw [List.length_cons]
      omega
    have hpos : 0 < ((List.range labels.length).map fun i =>
        ((top :: second :: more).map (·.id)).getD
          (i % workersNeeded ((second :: more).length + 1) labels.length) 0).count second.id := by
      refine List.count_pos_iff.mpr (List.mem_map.mpr ⟨1, List.mem_range.mpr (by omega), ?_⟩)
      rw [hneeded]
      rfl
    have hne := top_id_ne S score workers hids hscored
    rw [List.count_replicate, if_neg (by simpa using hne)] at hsecond
    omega
  · intro h w
    have hneeded : workersNeeded (rest.length + 1) labels.length = 1 := by
      unfold workersNeeded
      rcases h with h | rfl
      · omega
      · simp only [List.length_nil]
        omega
    rw [count_constraintAssign S score labels workers hscored, hneeded]
    have hall : ((List.range labels.length).map fun i =>
        ((top :: rest).map (·.id)).getD (i % 1) 0) = List.replicate labels.length top.id := by
      rw [List.eq_replicate_iff]
      refine ⟨by simp, fun x hx => ?_⟩
      obtain ⟨i, _, rfl⟩ := List.mem_map.mp hx
      rw [Nat.mod_one]
      rfl
    rw [hall]

/-! ## Minmax -/

theorem count_le_minmaxLoop {α : Type} (share : WorkerInfo → Nat) (w : Int)
    (ws : List WorkerInfo) (labels : List α) (map : AssignmentMap α) :
    map.count w ≤ (minmaxLoop share ws labels map).1.count w := by
  induction ws generalizing labels map with
  | nil => exact le_refl _
  | cons v rest ih =>
      rw [minmaxLoop]
      by_cases hempty : labels.isEmpty
      · rw [if_pos hempty]
      · rw [if_neg hempty]
        refine le_trans ?_ (ih _ _)
        rw [count_assignTo]
        exact Nat.le_add_right _ _

theorem minmaxLoop_nil {α : Type} (share : WorkerInfo → Nat) (ws : List WorkerInfo)
    (map : AssignmentMap α) : minmaxLoop share ws ([] : List α) map = (map, []) := by
  cases ws with
  | nil => rfl
  | cons _ _ => rfl

/-- All labels of a list to one worker. -/
theorem count_assignTo_const {α : Type} (w key : Int) (labels : List α)
    (map : AssignmentMap α) :
    (map.assignTo (labels.map fun l => (key, l))).count w =
      map.count w + (List.replicate labels.length key).count w := by
  rw [count_assignTo, List.map_map]
  have hall : labels.map ((fun t : Int × α => t.1) ∘ fun l => (key, l)) =
      List.replicate labels.length key := List.map_const' ..
  rw [hall]

/-- The share of the most profitable available worker in a list of `n` labels. -/
def topShare (scoring : Scoring) (workers : List WorkerInfo) (n : Nat) : Nat :=
  let profits := (((workers.filter (·.available)).map scoring.profit).mergeSort
    (fun a b => b ≤ a))
  scoring.share (profits.headD 0) profits n

/-- After the top worker has taken `k` labels: all of them are its own in the end
exactly when that was the batch, or nobody else is there. -/
theorem minmax_rest_iff {α : Type} (share : WorkerInfo → Nat) (labels : List α) (key : Int)
    (rest : List WorkerInfo) (k : Nat)
    (hne : ∀ second more, rest = second :: more → key ≠ second.id) :
    (∀ w, ((minmaxLoop share rest (labels.drop k)
          (assignTo [] ((labels.take k).map fun l => (key, l)))).1.assignTo
        ((minmaxLoop share rest (labels.drop k)
          (assignTo [] ((labels.take k).map fun l => (key, l)))).2.map fun l =>
            (key, l))).count w = (List.replicate labels.length key).count w) ↔
      labels.length ≤ k ∨ rest = [] := by
  have htake : ∀ w, (assignTo [] ((labels.take k).map fun l => (key, l))).count w =
      (List.replicate (labels.take k).length key).count w := by
    intro w
    rw [count_assignTo_const]
    exact Nat.zero_add _
  constructor
  · intro h
    by_contra hno
    rw [not_or, not_le] at hno
    obtain ⟨second, more, rfl⟩ := List.exists_cons_of_ne_nil hno.2
    have hother := hne second more rfl
    have hsecond := h second.id
    rw [List.count_replicate, if_neg (by simpa using hother), count_assignTo_const] at hsecond
    -- the second worker takes one label at least
    have hdrop : (labels.drop k).length = labels.length - k := List.length_drop
    have hnempty : (labels.drop k).isEmpty = false := by
      cases hl : labels.drop k with
      | nil =>
          rw [hl, List.length_nil] at hdrop
          omega
      | cons _ _ => rfl
    rw [minmaxLoop, if_neg (by simp [hnempty])] at hsecond
    dsimp only at hsecond
    generalize hcount : (if min (share second) (labels.drop k).length = 0 then 1
      else min (share second) (labels.drop k).length) = n at hsecond
    have hn : 0 < n := by
      rw [← hcount]
      split
      · exact Nat.one_pos
      · omega
    have hmono := count_le_minmaxLoop share second.id more ((labels.drop k).drop n)
      ((assignTo [] ((labels.take k).map fun l => (key, l))).assignTo
        (((labels.drop k).take n).map fun l => (second.id, l)))
    rw [count_assignTo_const, List.count_replicate_self, List.length_take] at hmono
    omega
  · rintro (hall | rfl) w
    · rw [List.drop_eq_nil_of_le hall, minmaxLoop_nil, List.map_nil, List.take_of_length_le hall]
      show (assignTo [] (labels.map fun l => (key, l))).count w = _
      rw [count_assignTo_const]
      exact Nat.zero_add _
    · rw [minmaxLoop, count_assignTo_const, htake, ← List.count_append, List.replicate_append_replicate,
        List.length_take, List.length_drop]
      congr 2
      omega

/-- Minmax puts the whole batch on the top worker exactly when its share, which is
at least one, is the whole batch, or one worker is there. -/
theorem minmax_agrees_iff {α : Type} (S : StdSort) (scoring : Scoring) (labels : List α)
    (workers : List WorkerInfo) (hids : (workers.map (·.id)).Nodup) {top : WorkerInfo}
    {rest : List WorkerInfo} (hscored : scoredWorkers S scoring.profit workers = top :: rest) :
    (∀ w, (minmaxAssign S scoring labels workers).count w =
        (List.replicate labels.length top.id).count w) ↔
      labels.length ≤ 1 ∨ labels.length ≤ topShare scoring workers labels.length ∨ rest = [] := by
  have hprofits : (top :: rest).map scoring.profit =
      ((workers.filter (·.available)).map scoring.profit).mergeSort (fun a b => b ≤ a) := by
    rw [← hscored]
    exact S.map_sortDescending scoring.profit _
  have hshare : scoring.share (scoring.profit top) ((top :: rest).map scoring.profit)
      labels.length = topShare scoring workers labels.length := by
    unfold topShare
    rw [← hprofits]
    rfl
  unfold minmaxAssign
  rw [hscored, workers_ne_nil S workers hscored]
  cases hlabels : labels with
  | nil => simp [AssignmentMap.count]
  | cons l ls =>
      rw [← hlabels]
      have hne : labels.isEmpty = false := by rw [hlabels]; rfl
      have hpos : 0 < labels.length := by rw [hlabels]; exact Nat.succ_pos _
      simp only [hne, Bool.false_eq_true, or_self, if_false]
      rw [minmaxLoop, if_neg (by simp [hne]), hshare]
      refine (minmax_rest_iff _ labels top.id rest _ ?_).trans ?_
      · rintro second more rfl
        exact top_id_ne S scoring.profit workers hids hscored
      · rw [← or_assoc]
        refine or_congr_left ?_
        split
        · omega
        · omega

/-! ## The dispatcher against one call -/

section Agreement

variable {γ : Type} (c : Scheduling γ) (config : ShufflerConfig) (now : UInt64)
  (inboxName : Nat → String) (workers : List WorkerInfo) (fanout : ReplyFanout)

/-- The loop over the labels sends to every worker as many of them as one call of
the solver on the whole list assigns to it. -/
def DispatchAgrees (st : DispatchState (SolverState γ)) (labels : List LabelData)
    (intent : Intent) : Prop :=
  ∀ w, (routeIndependents (c.dispatcher config now inboxName) workers fanout st labels).sentTo w =
    st.sentTo w + (solve c labels workers intent st.solver).1.count w

/-- The list is short enough for one worker, or there is one worker only. -/
structure OneWorkerServes (n : Nat) : Prop where
  constraint : c.policy = "constraint" → n ≤ 50 ∨ (workers.filter (·.available)).length = 1
  minmax : c.policy = "minmax" → n ≤ 1 ∨ n ≤ topShare c.scoring workers n ∨
    (workers.filter (·.available)).length = 1

/-- **Per-label dispatch and batch solving.** Under round-robin they always give
the workers the same numbers; under the scoring policies when one worker serves
the batch. -/
theorem per_label_dispatch_iff (hrandom : c.policy ≠ "random")
    (hids : (workers.map (·.id)).Nodup) (havailable : ∃ w ∈ workers, w.available = true)
    (st : DispatchState (SolverState γ)) (labels : List LabelData) {intent : Intent}
    (hintent : ∀ l ∈ labels, l.intent = intent)
    (hno : NoneLocated (c.dispatcher config now inboxName) workers fanout (st, []) labels) :
    DispatchAgrees c config now inboxName workers fanout st labels intent ↔
      OneWorkerServes c workers labels.length := by
  have hcount : DispatchAgrees c config now inboxName workers fanout st labels intent ↔
      ∀ w, (solve c labels workers intent st.solver).1.count w =
        (solverAnswers (c.dispatcher config now inboxName) workers intent labels.length
          st.solver).count (some w) := by
    unfold DispatchAgrees
    refine forall_congr' fun w => ?_
    rw [sentTo_routeIndependents _ workers fanout st labels hintent hno]
    constructor
    · intro h
      omega
    · intro h
      omega
  rw [hcount]
  by_cases hconstraint : c.policy = "constraint"
  · obtain ⟨top, rest, htop⟩ := exists_scored c.sort (policyScore c intent) havailable
    have hscore : policyScore c intent = c.scoring.score intent := if_pos hconstraint
    have hsolve : (solve c labels workers intent st.solver).1 =
        constraintAssign c.sort (c.scoring.score intent) labels workers := by
      unfold solve
      rw [if_neg hrandom, if_pos hconstraint]
    rw [hsolve]
    simp only [count_answers_scores c config now inboxName workers intent (.inl hconstraint) htop]
    rw [hscore] at htop
    rw [constraint_agrees_iff c.sort _ labels workers hids htop, scored_singleton_iff htop]
    exact ⟨fun h => ⟨fun _ => h, fun hp => absurd (hconstraint.symm.trans hp) (by decide)⟩,
      fun h => h.constraint hconstraint⟩
  · by_cases hminmax : c.policy = "minmax"
    · obtain ⟨top, rest, htop⟩ := exists_scored c.sort (policyScore c intent) havailable
      have hscore : policyScore c intent = c.scoring.profit := if_neg hconstraint
      have hsolve : (solve c labels workers intent st.solver).1 =
          minmaxAssign c.sort c.scoring labels workers := by
        unfold solve
        rw [if_neg hrandom, if_neg hconstraint, if_pos hminmax]
      rw [hsolve]
      simp only [count_answers_scores c config now inboxName workers intent (.inr hminmax) htop]
      rw [hscore] at htop
      rw [minmax_agrees_iff c.sort c.scoring labels workers hids htop, scored_singleton_iff htop]
      exact ⟨fun h => ⟨fun hp => absurd hp hconstraint, fun _ => h⟩, fun h => h.minmax hminmax⟩
    · -- any other policy is round-robin
      have hscores : ¬c.Scores := fun h => h.elim hconstraint hminmax
      have hne : availableIds workers ≠ [] := fun hnil =>
        (noneAvailable_iff workers).mp ((availableIds_eq_nil workers).mp hnil) havailable
      have hsolve : (solve c labels workers intent st.solver).1 =
          (roundRobinLoop (availableIds workers)
            (wrapCursor st.solver.next (availableIds workers).length) labels []).1 := by
        unfold solve roundRobinAssign
        rw [if_neg hrandom, if_neg hconstraint, if_neg hminmax]
        simp [hne]
      refine iff_of_true (fun w => ?_)
        ⟨fun hp => absurd hp hconstraint, fun hp => absurd hp hminmax⟩
      rw [hsolve, count_roundRobinLoop,
        answers_roundRobin c config now inboxName workers intent hrandom hscores hne,
        List.count_map_of_injective _ some (Option.some_injective _)]
      exact Nat.zero_add _

end Agreement

/-! ## Runs -/

/-- Writes to two files. -/
def twoFiles : List LabelData := [writeChunk 1 7 1 0 "a" 0 10, writeChunk 2 7 1 0 "b" 0 10]

theorem per_label_dispatch_oneFile :
    DispatchAgrees (plainScheduling "minmax") {} 1 (fun _ => "") twins (fun _ => none) freshState
        [writeChunk 1 7 1 0 "a" 0 10] .none ↔
      OneWorkerServes (plainScheduling "minmax") twins 1 :=
  per_label_dispatch_iff (plainScheduling "minmax") {} 1 (fun _ => "") twins (fun _ => none) (by decide)
    (by decide) (by decide) freshState [writeChunk 1 7 1 0 "a" 0 10] (by decide)
    (noneLocated_of_distinct _ _ _ _ _ (by decide) (by decide))

/-- The batch call gives each of two equal workers one label, the loop gives the
first worker both. -/
theorem twoFiles_not_agree :
    ¬DispatchAgrees (plainScheduling "minmax") {} 1 (fun _ => "") twins (fun _ => none) freshState
      twoFiles .none := by
  intro h
  exact absurd (h 2) (by decide +kernel)

end Labios
