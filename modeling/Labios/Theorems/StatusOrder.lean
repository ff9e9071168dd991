import Labios.Client.Model
import Labios.Dispatcher.Policy
import Labios.Dispatcher.Program

/-!
# Does a status ever go back

Dispatcher and workers write the status of a label without waiting for one another.
A supertask is scheduled before it is published, so its labels move on in one
direction. A label that goes out alone is published first: its worker may begin
while the dispatcher still has to write `scheduled`. `never_backwards_iff` says
that this is the whole story.
-/

namespace Labios

open Foundation StatusCatalog CatalogCommand

/-- A step back in the life of a label. -/
def Backward (before after : Option LabelStatus) : Prop :=
  ((before = some .complete ∨ before = some .error) ∧
      (after = some .scheduled ∨ after = some .executing)) ∨
    (before = some .executing ∧ after = some .scheduled)

/-! ## Ranks -/

/-- The ranks of the statuses. -/
def statusRanking : Ranking StatusCatalog CatalogCommand UInt64 :=
  { writes := fun c => c.statusOf.map fun s => (s.1, s.2.rank)
    rank := fun catalog x => (catalog x).status.elim 0 LabelStatus.rank }

theorem statusRanking_lawful : statusRanking.Lawful CatalogCommand.apply := by
  intro c catalog x
  have hstatus := apply_status c catalog x
  unfold statusRanking
  dsimp only
  cases hs : c.statusOf with
  | none =>
      rw [hs] at hstatus
      exact congrArg (fun status => status.elim 0 LabelStatus.rank) hstatus
  | some s =>
      rw [hs] at hstatus
      dsimp only [Option.map_some] at hstatus ⊢
      rw [hstatus]
      split
      · rfl
      · rfl

theorem rank_lt_of_backward {before after : Option LabelStatus} (h : Backward before after) :
    after.elim 0 LabelStatus.rank < before.elim 0 LabelStatus.rank := by
  rcases h with ⟨rfl | rfl, rfl | rfl⟩ | ⟨rfl, rfl⟩
  all_goals decide

theorem ranksOf_executing (x : UInt64) (l : LabelData) :
    statusRanking.ranksOf x (executing l) = if l.id = x then [2] else [] := by
  by_cases hx : l.id = x
  · simp [executing, Ranking.ranksOf, Ranking.rankOf, statusRanking, CatalogCommand.statusOf, hx,
      LabelStatus.rank]
  · simp [executing, Ranking.ranksOf, Ranking.rankOf, statusRanking, CatalogCommand.statusOf, hx]

theorem ranksOf_complete (x id : UInt64) :
    statusRanking.ranksOf x [status id .complete] = if id = x then [3] else [] := by
  by_cases hx : id = x
  · simp [Ranking.ranksOf, Ranking.rankOf, statusRanking, CatalogCommand.statusOf, hx, LabelStatus.rank]
  · simp [Ranking.ranksOf, Ranking.rankOf, statusRanking, CatalogCommand.statusOf, hx]

theorem ranksOf_error (x id : UInt64) (text : String) :
    statusRanking.ranksOf x [status id .error, error id text] = if id = x then [3] else [] := by
  by_cases hx : id = x
  · simp [Ranking.ranksOf, Ranking.rankOf, statusRanking, CatalogCommand.statusOf, hx, LabelStatus.rank]
  · simp [Ranking.ranksOf, Ranking.rankOf, statusRanking, CatalogCommand.statusOf, hx]

theorem ranksOf_failed (x id : UInt64) (text : String) :
    statusRanking.ranksOf x (failed id text) = [] ∨
      id = x ∧ statusRanking.ranksOf x (failed id text) = [3] := by
  unfold failed
  split
  · rw [ranksOf_error]
    by_cases hx : id = x
    · exact .inr ⟨hx, if_pos hx⟩
    · exact .inl (if_neg hx)
  · exact .inl rfl

/-- A child that is run executes and ends, once. -/
theorem childrenProgram_ranks {children : List LabelData} {commands : List CatalogCommand}
    {text : Option String} (h : ChildrenProgram children commands text)
    (hids : (children.map (·.id)).Nodup) (x : UInt64) :
    statusRanking.ranksOf x commands = [] ∨
      x ∈ children.map (·.id) ∧ statusRanking.ranksOf x commands = [2, 3] := by
  induction h with
  | nil => exact .inl rfl
  | @complete child rest commands text hrest ih =>
      rw [List.map_cons, List.nodup_cons] at hids
      rw [Ranking.ranksOf_append, Ranking.ranksOf_append, ranksOf_executing, ranksOf_complete]
      by_cases hx : child.id = x
      · -- the rest does not touch this child
        have hnone : statusRanking.ranksOf x commands = [] :=
          (ih hids.2).resolve_right fun hin => hids.1 (hx ▸ hin.1)
        exact .inr ⟨List.mem_cons.mpr (.inl hx.symm), by simp [hx, hnone]⟩
      · rw [if_neg hx, if_neg hx, List.nil_append, List.nil_append]
        rcases ih hids.2 with hnone | ⟨hin, hranks⟩
        · exact .inl hnone
        · exact .inr ⟨List.mem_cons_of_mem _ hin, hranks⟩
  | fail child rest text =>
      rw [Ranking.ranksOf_append, ranksOf_executing, ranksOf_error]
      by_cases hx : child.id = x
      · exact .inr ⟨List.mem_cons.mpr (.inl hx.symm), by simp [hx]⟩
      · exact .inl (by simp [hx])

/-- The handling of a message takes its labels forward. -/
theorem messageProgram_handles {l : LabelData} {children : List LabelData}
    {commands : List CatalogCommand} (h : MessageProgram l children commands)
    (hids : (children.map (·.id)).Nodup) :
    statusRanking.Handles 1 {x | x = l.id ∨ x ∈ children.map (·.id)} commands := by
  -- begin, children, end
  obtain ⟨middle, last, rfl, hmiddle, hlast⟩ : ∃ middle last,
      commands = executing l ++ middle ++ last ∧
      (∀ x, statusRanking.ranksOf x middle = [] ∨
        x ∈ children.map (·.id) ∧ statusRanking.ranksOf x middle = [2, 3]) ∧
      ∀ x, statusRanking.ranksOf x last = [] ∨
        l.id = x ∧ statusRanking.ranksOf x last = [3] := by
    have hcomplete : ∀ x, statusRanking.ranksOf x [status l.id .complete] = [] ∨
        l.id = x ∧ statusRanking.ranksOf x [status l.id .complete] = [3] := by
      intro x
      rw [ranksOf_complete]
      by_cases hx : l.id = x
      · exact .inr ⟨hx, if_pos hx⟩
      · exact .inl (if_neg hx)
    cases h with
    | complete => exact ⟨[], _, by simp, fun _ => .inl rfl, hcomplete⟩
    | fail text => exact ⟨[], _, by simp, fun _ => .inl rfl, fun x => ranksOf_failed x l.id text⟩
    | children hl h => exact ⟨_, _, rfl, childrenProgram_ranks h hids, hcomplete⟩
    | childFails hl h =>
        exact ⟨_, _, rfl, childrenProgram_ranks h hids, fun x => ranksOf_failed x l.id _⟩
  have hranks : ∀ x, statusRanking.ranksOf x (executing l ++ middle ++ last) =
      (if l.id = x then [2] else []) ++ statusRanking.ranksOf x middle ++
        statusRanking.ranksOf x last := by
    intro x
    rw [Ranking.ranksOf_append, Ranking.ranksOf_append, ranksOf_executing]
  refine ⟨fun x hne => ?_, fun x => ?_, fun x => ?_⟩
  · by_contra hnot
    have hl : l.id ≠ x := fun heq => hnot (.inl heq.symm)
    rw [hranks, if_neg hl, (hmiddle x).resolve_right fun hin => hnot (.inr hin.1),
      (hlast x).resolve_right fun hin => hl hin.1] at hne
    exact hne rfl
  · rw [hranks]
    rcases hmiddle x with hm | ⟨-, hm⟩
    all_goals rcases hlast x with he | ⟨-, he⟩
    all_goals rw [hm, he]
    all_goals split
    all_goals decide
  · rw [hranks]
    rcases hmiddle x with hm | ⟨-, hm⟩
    all_goals rcases hlast x with he | ⟨-, he⟩
    all_goals rw [hm, he]
    all_goals split
    all_goals decide

/-! ## Supertasks only -/

section Supertasks

variable {ρ : Type} {d : Dispatcher ρ} {workers : List WorkerInfo}

theorem scheduling_writes {w : Int} {labels : List LabelData} {c : CatalogCommand}
    (hc : c ∈ labels.flatMap fun l => scheduling (scheduleEntry w l)) {x : UInt64} {r : Nat}
    (hw : statusRanking.writes c = some (x, r)) : r = 1 ∧ x ∈ labels.map (·.id) := by
  obtain ⟨l, hl, hin⟩ := List.mem_flatMap.mp hc
  have hcases : c = status l.id .scheduled ∨ c.statusOf = none := by
    rcases List.mem_cons.mp hin with rfl | hin
    · exact .inl rfl
    · rcases List.mem_cons.mp hin with rfl | hin
      · exact .inr rfl
      · rw [List.mem_singleton.mp hin]
        exact .inr rfl
  rcases hcases with rfl | hnone
  · obtain ⟨rfl, rfl⟩ := Prod.mk.inj (Option.some.inj hw)
    exact ⟨rfl, List.mem_map_of_mem hl⟩
  · unfold statusRanking at hw
    dsimp only at hw
    rw [hnone] at hw
    exact absurd hw (by simp)

/-- The keys of a supertask are the ids of its children. -/
def childIds (task : Supertask) : Set UInt64 := {x | x ∈ task.children.map (·.id)}

variable (d workers) in
theorem supertaskProgram_orderly (st : DispatchState ρ) {task : Supertask}
    (hids : (task.children.map (·.id)).Nodup)
    (hhead : task.composite.id ∈ task.children.map (·.id)) :
    statusRanking.Orderly 1 (supertaskProgram d workers st task) (childIds task) := by
  unfold supertaskProgram
  split
  · exact .nil
  · next w _ =>
      have hmarked : (task.children.map (mark d workers w d.policy)).map (·.id) =
          task.children.map (·.id) := by
        rw [List.map_map]
        exact List.map_congr_left fun l _ => id_of_request (request_mark d workers w d.policy l)
      have hcomposite : (mark d workers w d.policy task.composite).id = task.composite.id :=
        id_of_request (request_mark ..)
      refine .owns (fun c hc x r hw => ?_) (.send
        (fun commands hprogram => ?_) (subset_rfl : childIds task ⊆ childIds task) .nil)
      · obtain ⟨rfl, hx⟩ := scheduling_writes hc hw
        refine ⟨rfl, ?_⟩
        rw [List.map_append, hmarked, List.map_singleton, hcomposite] at hx
        rcases List.mem_append.mp hx with hx | hx
        · exact hx
        · exact List.mem_singleton.mp hx ▸ hhead
      · have hhandles := messageProgram_handles hprogram (by rw [hmarked]; exact hids)
        rw [hmarked, hcomposite] at hhandles
        refine ⟨fun x hx => ?_, hhandles.ascending, hhandles.high⟩
        rcases hhandles.keys x hx with rfl | hin
        · exact hhead
        · exact hin

variable (d workers) in
theorem supertasksProgram_orderly {tasks : List Supertask}
    (hids : ((tasks.flatMap (·.children)).map (·.id)).Nodup)
    (hhead : ∀ t ∈ tasks, t.composite.id ∈ t.children.map (·.id)) (st : DispatchState ρ) :
    statusRanking.Orderly 1 (supertasksProgram d workers st tasks)
      {x | x ∈ (tasks.flatMap (·.children)).map (·.id)} := by
  induction tasks generalizing st with
  | nil => exact .nil
  | cons t rest ih =>
      rw [List.flatMap_cons, List.map_append, List.nodup_append] at hids
      obtain ⟨hfirst, hrest, hdisjoint⟩ := hids
      have hboth := (supertaskProgram_orderly d workers st hfirst
        (hhead t List.mem_cons_self)).append
        (ih hrest (fun t' ht' => hhead t' (List.mem_cons_of_mem t ht'))
          (routeSupertask d workers st t))
        (Set.disjoint_left.mpr fun x hx hx' => hdisjoint x hx x hx' rfl)
      refine hboth.mono fun x hx => ?_
      rw [List.flatMap_cons, List.map_append]
      exact List.mem_append.mpr hx

end Supertasks

/-! ## A label alone -/

/-- Every message can be handled. -/
def Handled (program : List (PublisherStep CatalogCommand)) : Prop :=
  ∀ party programs, .send party programs ∈ program → ∃ commands, programs commands

/-- A worker that begins before the dispatcher writes `scheduled` is set back. -/
theorem backward_of_late_schedule (w : Int) (l : LabelData) (children : List LabelData)
    {front middle : List (PublisherStep CatalogCommand)}
    (back : List (PublisherStep CatalogCommand)) (hfront : Handled front)
    (hmiddle : Handled middle) (catalog : StatusCatalog) :
    ∃ s s', PartyRun CatalogCommand.apply
        ⟨front ++ publishTo w l children :: (middle ++ .own (status l.id .scheduled) :: back),
          fun _ => [], catalog⟩ s ∧
      PartyRun CatalogCommand.apply s s' ∧
      Backward (s.store l.id).status (s'.store l.id).status := by
  obtain ⟨queues, store, hpublished, -⟩ := exists_advance CatalogCommand.apply front
    (publishTo w l children :: (middle ++ .own (status l.id .scheduled) :: back)) hfront
    (fun _ => []) catalog
  -- the worker reaches the message and begins
  have hqueue : Function.update queues w (queues w ++ (executing l ++ [status l.id .complete])) w =
      (queues w ++ [status l.id .executing]) ++
        [flags l.id (l.flags ||| LabelFlags.pending), status l.id .complete] := by
    rw [Function.update_self, List.append_assoc]
    rfl
  obtain ⟨queues₁, hbegun⟩ := exists_drain CatalogCommand.apply
    (middle ++ .own (status l.id .scheduled) :: back) w _ _ _ store hqueue
  -- the dispatcher comes to the entry of the label
  obtain ⟨queues₂, store₂, hlate, -⟩ := exists_advance CatalogCommand.apply middle
    (.own (status l.id .scheduled) :: back) hmiddle queues₁
    ((queues w ++ [status l.id .executing]).foldl (fun s c => c.apply s) store)
  refine ⟨_, ⟨back, queues₂, (status l.id .scheduled).apply store₂⟩,
    (hpublished.tail (.send .complete)).trans hbegun, hlate.tail .own, .inr ⟨?_, ?_⟩⟩
  · show (List.foldl _ store (_ ++ [_]) l.id).status = _
    rw [List.foldl_append]
    simp [apply]
  · simp [apply]

theorem aloneProgram_handled (messages : List (Int × LabelData)) :
    Handled (aloneProgram messages) := by
  intro party programs h
  rcases List.mem_append.mp h with h | h
  · obtain ⟨m, -, heq⟩ := List.mem_map.mp h
    obtain ⟨rfl, rfl⟩ := PublisherStep.send.inj heq
    exact ⟨_, .complete⟩
  · obtain ⟨c, -, heq⟩ := List.mem_map.mp h
    exact absurd heq (by simp)

theorem Handled.append {front back : List (PublisherStep CatalogCommand)} (hfront : Handled front)
    (hback : Handled back) : Handled (front ++ back) := by
  intro party programs h
  rcases List.mem_append.mp h with h | h
  · exact hfront party programs h
  · exact hback party programs h

theorem Handled.of_append_left {front back : List (PublisherStep CatalogCommand)}
    (h : Handled (front ++ back)) : Handled front :=
  fun party programs hin => h party programs (List.mem_append_left _ hin)

/-- The first of the labels that go out alone is published before it is scheduled. -/
theorem aloneProgram_cons (m : Int × LabelData) (rest : List (Int × LabelData)) :
    ∃ middle back, aloneProgram (m :: rest) =
        publishTo m.1 m.2 [] :: (middle ++ .own (status m.2.id .scheduled) :: back) ∧
      Handled middle := by
  refine ⟨rest.map fun m => publishTo m.1 m.2 [], _, rfl, ?_⟩
  exact (aloneProgram_handled rest).of_append_left

/-! ## Runs of the batch loop -/

section Runs

variable {γ : Type} (S : StdSort) (c : Scheduling γ) (config : ShufflerConfig) (now : UInt64)
  (inboxName : Nat → String)

/-- A batch that is routed, with the workers and the state it meets. -/
structure Turn (γ : Type) where
  workers : List WorkerInfo
  batch : List LabelData
  state : DispatchState (SolverState γ)

def Turn.result (t : Turn γ) : ShuffleResult :=
  shuffle S config t.batch (some t.state.locations.getLocation)

def Turn.program (t : Turn γ) : List (PublisherStep CatalogCommand) :=
  routeProgram (c.dispatcher config now inboxName) t.workers (t.result S config) t.state

/-- In no run of the dispatcher over these batches, with the workers, does the
status of a label step back. New labels are queued. -/
def NeverBackwards (turns : List (Turn γ)) : Prop :=
  ∀ catalog : StatusCatalog,
    (∀ x, (catalog x).status = none ∨ (catalog x).status = some .queued) →
    ∀ s s', PartyRun CatalogCommand.apply
        ⟨turns.flatMap fun t => t.program S c config now inboxName, fun _ => [], catalog⟩ s →
      PartyRun CatalogCommand.apply s s' →
      ∀ x, ¬Backward (s.store x).status (s'.store x).status

/-- No label of the batch goes out alone: every cluster has a conflict in the batch,
or neither a location nor the policy gives it a worker. -/
def NobodyAlone (t : Turn γ) : Prop :=
  ∀ cl ∈ clusters S config t.batch, EntangledIn S config t.batch (represent cl) ∨
    ¬FindsWorker c t.workers ∧
      readLocation (some t.state.locations.getLocation) (represent cl) = none ∧
      recordedWorker t.state.locations (represent cl) = none

variable {S c config now inboxName}

/-- No message for an independent label: there is none, or none finds a worker. -/
theorem independentMessages_eq_nil (t : Turn γ) (R : ShuffleResult) :
    independentMessages (c.dispatcher config now inboxName) t.workers R t.state = [] ↔
      ∀ l ∈ R.independent, ¬FindsWorker c t.workers ∧
        recordedWorker t.state.locations l = none := by
  obtain ⟨new, hsent, -⟩ := routeIndependents_messages (c.dispatcher config now inboxName)
    t.workers R.replyFanout (afterSupertasks (c.dispatcher config now inboxName) t.workers R t.state)
    (markShuffled now R).independent
  have hnew : independentMessages (c.dispatcher config now inboxName) t.workers R t.state = new :=
    messagesOf_append hsent
  rw [hnew]
  by_cases hfinds : FindsWorker c t.workers
  · -- one message for each
    obtain ⟨hrequests, -, -⟩ := routeIndependents_spec _ _
      (solverFinds_of_findsWorker config now inboxName hfinds)
      R.replyFanout (afterSupertasks (c.dispatcher config now inboxName) t.workers R t.state)
      (markShuffled now R).independent
    have hlength := congrArg List.length hrequests
    rw [hsent] at hlength
    have hwork := congrArg List.length (assembled_work (c.dispatcher config now inboxName)
      R.replyFanout (markShuffled now R).independent (afterSupertasks
        (c.dispatcher config now inboxName) t.workers R t.state).fanouts.length)
    simp only [List.length_map, List.length_append] at hlength hwork
    have hcount : (markShuffled now R).independent.length = R.independent.length :=
      List.length_map ..
    constructor
    · rintro rfl l hl
      have hpos := List.length_pos_of_mem hl
      simp only [List.length_nil] at hlength
      omega
    · intro h
      have hnil : R.independent = [] :=
        List.eq_nil_iff_forall_not_mem.mpr fun l hl => (h l hl).1 hfinds
      rw [hnil, List.length_nil] at hcount
      exact List.length_eq_zero_iff.mp (by omega)
  · have hnone : ∀ intent s, ((c.dispatcher config now inboxName).selectWorker
        t.workers intent s).1 = none := fun intent s =>
      (selectWorker_none_iff c _ intent s).mpr hfinds
    obtain ⟨solver, htask⟩ := routeSupertasks_unanswered hnone (markShuffled now R).supertasks
      (routeDirects (c.dispatcher config now inboxName) t.workers t.state
        (markShuffled now R).directRoute)
    have hlocations : (afterSupertasks (c.dispatcher config now inboxName) t.workers R
        t.state).locations = t.state.locations := by
      refine (congrArg DispatchState.locations htask).trans ?_
      exact (routeDirects_frame _ _ _ _).2.1
    obtain ⟨hnaming, -⟩ := routeIndependents_unanswered hnone R.replyFanout
      (afterSupertasks (c.dispatcher config now inboxName) t.workers R t.state)
      (markShuffled now R).independent
    rw [hsent, List.map_append, hlocations] at hnaming
    have hfilter := List.append_cancel_left hnaming
    rw [← List.map_eq_nil_iff (f := fun m : Int × LabelData => naming m.2), hfilter,
      List.map_eq_nil_iff, List.filter_eq_nil_iff]
    unfold markShuffled
    dsimp only
    rw [List.forall_mem_map]
    refine forall₂_congr fun l _ => ?_
    rw [recordedWorker_markShuffled]
    simp [hfinds]

variable (now inboxName) in
/-- The labels that go out alone, by cluster. -/
theorem nobodyAlone_iff {t : Turn γ} (hids : DistinctIds t.batch) :
    NobodyAlone S c config t ↔
      directMessages (c.dispatcher config now inboxName) t.workers (t.result S config) t.state =
          [] ∧
        independentMessages (c.dispatcher config now inboxName) t.workers (t.result S config)
          t.state = [] := by
  rw [independentMessages_eq_nil, directMessages_eq, List.map_eq_nil_iff]
  have hdirect : (markShuffled now (t.result S config)).directRoute = [] ↔
      ∀ l w, (l, w) ∉ (t.result S config).directRoute := by
    unfold markShuffled
    dsimp only
    rw [List.map_eq_nil_iff, List.eq_nil_iff_forall_not_mem]
    exact Prod.forall
  show _ ↔ (markShuffled now (t.result S config)).directRoute = [] ∧ _
  rw [hdirect]
  unfold Turn.result
  constructor
  · intro h
    refine ⟨fun l w hl => ?_, fun l hl => ?_⟩
    · obtain ⟨hin, hent, hlocation⟩ := (mem_directRoute hids).mp hl
      obtain ⟨cl, hcl, rfl⟩ := mem_aggregated.mp hin
      have hnone := ((h cl hcl).resolve_left hent).2.1
      rw [hlocation] at hnone
      exact absurd hnone (by simp)
    · obtain ⟨hin, hent, -⟩ := (mem_independent hids).mp hl
      obtain ⟨cl, hcl, rfl⟩ := mem_aggregated.mp hin
      obtain ⟨hfinds, -, hrecorded⟩ := (h cl hcl).resolve_left hent
      exact ⟨hfinds, hrecorded⟩
  · rintro ⟨hdirects, hindependents⟩ cl hcl
    have hin := represent_mem_aggregated hcl
    by_cases hent : EntangledIn S config t.batch (represent cl)
    · exact .inl hent
    · have hlocation : readLocation (some t.state.locations.getLocation) (represent cl) = none := by
        cases hloc : readLocation (some t.state.locations.getLocation) (represent cl) with
        | none => rfl
        | some w =>
            exact absurd ((mem_directRoute hids).mpr ⟨hin, hent, hloc⟩) (hdirects _ w)
      obtain ⟨hfinds, hrecorded⟩ := hindependents _
        ((mem_independent hids).mpr ⟨hin, hent, hlocation⟩)
      exact .inr ⟨hfinds, hlocation, hrecorded⟩

variable (now inboxName) in
/-- Without a label alone, a batch is a program over its own ids. -/
theorem turn_orderly {t : Turn γ} (hids : DistinctIds t.batch) (h : NobodyAlone S c config t) :
    statusRanking.Orderly 1 (t.program S c config now inboxName)
      {x | x ∈ t.batch.map (·.id)} := by
  obtain ⟨hdirect, hindependent⟩ :=
    (nobodyAlone_iff now inboxName hids).mp h
  unfold Turn.program routeProgram
  rw [hdirect, hindependent]
  show statusRanking.Orderly 1 ([] ++ (_ ++ [])) _
  rw [List.nil_append, List.append_nil]
  -- the children are labels of the batch
  have hmarked : ((markShuffled now (t.result S config)).supertasks.flatMap
      (·.children)).map (·.id) =
        ((t.result S config).supertasks.flatMap (·.children)).map (·.id) := by
    unfold markShuffled
    dsimp only
    rw [List.flatMap_map, List.map_flatMap, List.map_flatMap]
    congr 1
    funext task
    dsimp only
    rw [List.map_map]
    exact List.map_congr_left fun l _ => id_of_request (request_markLabelShuffled l now)
  have hunits := units_distinctIds S config (some t.state.locations.getLocation) hids
  unfold DistinctIds at hunits
  rw [ShuffleResult.units, List.flatten_append, ← List.flatMap_def, List.map_append] at hunits
  have hprogram := supertasksProgram_orderly (c.dispatcher config now inboxName) t.workers
    (by rw [hmarked]; exact (List.nodup_append.mp hunits).1)
    (fun task htask => by
      unfold markShuffled at htask
      obtain ⟨task', htask', rfl⟩ := List.mem_map.mp htask
      obtain ⟨first, rest, hchildren, hid⟩ := supertask_first hids htask'
      dsimp only
      rw [id_of_request (request_markLabelShuffled ..), hid, hchildren, List.map_cons, List.map_cons,
        id_of_request (request_markLabelShuffled ..)]
      exact List.mem_cons_self)
    (routeDirects (c.dispatcher config now inboxName) t.workers t.state
      (markShuffled now (t.result S config)).directRoute)
  refine hprogram.mono fun x hx => ?_
  change x ∈ _ at hx
  rw [hmarked] at hx
  obtain ⟨child, hchild, rfl⟩ := List.mem_map.mp hx
  obtain ⟨task, htask, hin⟩ := List.mem_flatMap.mp hchild
  obtain ⟨l, hl, hcore⟩ := core_of_mem_unit hids
    (List.mem_append_left _ (List.mem_map_of_mem htask)) hin
  obtain ⟨cl, hcl, rfl⟩ := mem_aggregated.mp hl
  show child.id ∈ t.batch.map (·.id)
  rw [← id_of_core_eq hcore, represent_id]
  exact List.mem_map_of_mem (mem_of_mem_cluster hcl (clusterHead_mem (cluster_ne_nil hcl)))

variable (now inboxName) in
theorem turns_orderly {turns : List (Turn γ)}
    (hids : (turns.flatMap fun t => t.batch.map (·.id)).Nodup)
    (h : ∀ t ∈ turns, NobodyAlone S c config t) :
    statusRanking.Orderly 1 (turns.flatMap fun t => t.program S c config now inboxName)
      {x | x ∈ turns.flatMap fun t => t.batch.map (·.id)} := by
  induction turns with
  | nil => exact .nil
  | cons t rest ih =>
      rw [List.flatMap_cons, List.nodup_append] at hids
      obtain ⟨hfirst, hrest, hdisjoint⟩ := hids
      have hboth := (turn_orderly now inboxName hfirst
        (h t List.mem_cons_self)).append
        (ih hrest fun t' ht' => h t' (List.mem_cons_of_mem t ht'))
        (Set.disjoint_left.mpr fun x hx hx' => hdisjoint x hx x hx' rfl)
      refine hboth.mono fun x hx => ?_
      rw [List.flatMap_cons]
      exact List.mem_append.mpr hx

variable (now inboxName) in
theorem turn_handled (t : Turn γ) : Handled (t.program S c config now inboxName) := by
  have htasks : ∀ tasks st, Handled (supertasksProgram (c.dispatcher config now inboxName)
      t.workers st tasks) := by
    intro tasks
    induction tasks with
    | nil => exact fun _ _ _ h => absurd h List.not_mem_nil
    | cons task rest ih =>
        intro st
        refine Handled.append ?_ (ih _)
        unfold supertaskProgram
        split
        · exact fun _ _ h => absurd h List.not_mem_nil
        · intro party programs h
          rcases List.mem_append.mp h with h | h
          · obtain ⟨c, -, heq⟩ := List.mem_map.mp h
            exact absurd heq (by simp)
          · obtain ⟨rfl, rfl⟩ := PublisherStep.send.inj (List.mem_singleton.mp h)
            exact ⟨_, .complete⟩
  exact (aloneProgram_handled _).append ((htasks _ _).append (aloneProgram_handled _))

theorem turns_handled (turns : List (Turn γ)) :
    Handled (turns.flatMap fun t => t.program S c config now inboxName) := by
  intro party programs h
  obtain ⟨t, -, hin⟩ := List.mem_flatMap.mp h
  exact turn_handled now inboxName t party programs hin

variable (now inboxName) in
/-- A batch with a label alone publishes it before it is scheduled. -/
theorem exists_late_schedule {t : Turn γ} (hids : DistinctIds t.batch)
    (h : ¬NobodyAlone S c config t) :
    ∃ front w l middle back, t.program S c config now inboxName =
        front ++ publishTo w l [] :: (middle ++ .own (status l.id .scheduled) :: back) ∧
      Handled front ∧ Handled middle := by
  rw [nobodyAlone_iff now inboxName hids, not_and_or] at h
  rcases h with hne | hne
  · obtain ⟨m, rest, hmessages⟩ := List.exists_cons_of_ne_nil hne
    obtain ⟨middle, back, hprogram, hmiddle⟩ := aloneProgram_cons m rest
    have hall : t.program S c config now inboxName = aloneProgram _ ++ _ := rfl
    rw [hmessages, hprogram, List.cons_append, List.append_assoc, List.cons_append] at hall
    exact ⟨[], m.1, m.2, middle, _, hall, fun _ _ h => absurd h List.not_mem_nil, hmiddle⟩
  · obtain ⟨m, rest, hmessages⟩ := List.exists_cons_of_ne_nil hne
    obtain ⟨middle, back, hprogram, hmiddle⟩ := aloneProgram_cons m rest
    have hall : t.program S c config now inboxName = _ ++ (_ ++ aloneProgram _) := rfl
    rw [hmessages, hprogram, ← List.append_assoc] at hall
    have hhandled : Handled (t.program S c config now inboxName) := turn_handled now inboxName t
    rw [hall] at hhandled
    exact ⟨_, m.1, m.2, middle, back, hall, hhandled.of_append_left, hmiddle⟩

theorem backwards_of_alone {turns : List (Turn γ)} {t : Turn γ} (ht : t ∈ turns)
    (hids : DistinctIds t.batch) (h : ¬NobodyAlone S c config t) :
    ¬NeverBackwards S c config now inboxName turns := by
  intro hnever
  obtain ⟨front, w, l, middle, back, hprogram, hfront, hmiddle⟩ :=
    exists_late_schedule now inboxName hids h
  obtain ⟨before, after, rfl⟩ := List.append_of_mem ht
  -- the batches before it run first
  have hwhole : ((before ++ t :: after).flatMap fun t => t.program S c config now inboxName) =
      ((before.flatMap fun t => t.program S c config now inboxName) ++ front) ++
        publishTo w l [] :: (middle ++ .own (status l.id .scheduled) ::
          (back ++ after.flatMap fun t => t.program S c config now inboxName)) := by
    rw [List.flatMap_append, List.flatMap_cons, hprogram]
    simp only [List.append_assoc, List.cons_append]
  obtain ⟨s, s', hrun, hlater, hback⟩ := backward_of_late_schedule w l []
    (back ++ after.flatMap fun t => t.program S c config now inboxName)
    ((turns_handled before).append hfront) hmiddle fun _ => {}
  rw [← hwhole] at hrun
  exact hnever (fun _ => {}) (fun _ => .inl rfl) s s' hrun hlater l.id hback

/-- **Status order.** The status of a label never steps back exactly when no batch
sends a label out alone. -/
theorem never_backwards_iff (S : StdSort) (c : Scheduling γ) (config : ShufflerConfig)
    (now : UInt64) (inboxName : Nat → String) (turns : List (Turn γ))
    (hids : (turns.flatMap fun t => t.batch.map (·.id)).Nodup) :
    NeverBackwards S c config now inboxName turns ↔ ∀ t ∈ turns, NobodyAlone S c config t := by
  constructor
  · intro h t ht
    by_contra halone
    exact backwards_of_alone ht ((List.nodup_flatMap.mp hids).1 t ht) halone h
  · intro h catalog hqueued s s' hrun hlater x hback
    have hsettled := Ranking.settled_start
      (turns_orderly now inboxName hids h) catalog fun y _ => by
        show (catalog y).status.elim 0 LabelStatus.rank ≤ 1
        rcases hqueued y with hy | hy
        · rw [hy]
          decide
        · rw [hy]
          decide
    have hle := Ranking.rank_mono statusRanking_lawful hsettled hrun hlater x
    exact absurd hle (Nat.not_le.mpr (rank_lt_of_backward hback))

end Runs

/-! ## Runs on fixed batches -/

def oneWriteTurn : Turn Unit :=
  { workers := [{ id := 1 }], batch := [writeChunk 1 7 1 0 "a" 0 10], state := freshState }

theorem never_backwards_oneWrite :
    NeverBackwards .insertion (plainScheduling "round-robin") {} 1 (fun _ => "") [oneWriteTurn] ↔
      ∀ t ∈ [oneWriteTurn], NobodyAlone .insertion (plainScheduling "round-robin") {} t :=
  never_backwards_iff .insertion (plainScheduling "round-robin") {} 1 (fun _ => "") [oneWriteTurn] (by decide)

/-- The write is published, its worker begins, and then it is scheduled. -/
theorem oneWrite_backwards :
    ¬NeverBackwards .insertion (plainScheduling "round-robin") {} 1 (fun _ => "") [oneWriteTurn] := by
  refine backwards_of_alone List.mem_cons_self (by decide) fun hnobody => ?_
  -- nobody else in the batch, nothing located, and a worker is there
  obtain ⟨-, -, hindependent⟩ := shuffle_singleton
    (some freshState.locations.getLocation) .insertion {} (l := writeChunk 1 7 1 0 "a" 0 10) rfl rfl
  obtain ⟨-, hnone⟩ := (nobodyAlone_iff 1 (fun _ => "") (by decide)).mp hnobody
  have hfinds := ((independentMessages_eq_nil oneWriteTurn _).mp hnone (writeChunk 1 7 1 0 "a" 0 10)
    (by
      show _ ∈ (shuffle _ _ _ _).independent
      exact hindependent ▸ List.mem_cons_self)).1
  exact hfinds (by decide)

end Labios
