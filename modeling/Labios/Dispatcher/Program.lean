import Labios.Dispatcher.Iteration
import Labios.Foundation.Messaging
import Labios.Worker.Program

/-!
# The dispatcher's messages and catalog commands, in program order

A label that goes out alone is published first, and the catalog entries of all
such labels of a path follow in one `schedule_batch`; a supertask is scheduled
before it is published. `routeProgram_status` and `routeProgram_parties` tie the
program to `route`: it leaves the same catalog, and publishes to the same workers
in the same order.
-/

namespace Labios

open Foundation StatusCatalog CatalogCommand

/-- `nats.publish` of a label to a worker; `children` is the pack of a composite. -/
def publishTo (w : Int) (l : LabelData) (children : List LabelData) :
    PublisherStep CatalogCommand :=
  .send w (MessageProgram l children)

/-- Labels that go out alone: all are published, then all are scheduled. -/
def aloneProgram (messages : List (Int × LabelData)) : List (PublisherStep CatalogCommand) :=
  messages.map (fun m => publishTo m.1 m.2 []) ++
    (messages.flatMap fun m => scheduling (scheduleEntry m.1 m.2)).map .own

section Route

variable {ρ : Type} (d : Dispatcher ρ) (workers : List WorkerInfo)

/-- One supertask: children and composite are scheduled, the composite is
published. -/
def supertaskProgram (st : DispatchState ρ) (task : Supertask) :
    List (PublisherStep CatalogCommand) :=
  match (d.selectWorker workers task.composite.intent st.solver).1 with
  | none => []
  | some w =>
      let children := task.children.map (mark d workers w d.policy)
      let composite := mark d workers w d.policy task.composite
      ((children ++ [composite]).flatMap fun l => scheduling (scheduleEntry w l)).map .own ++
        [publishTo w composite children]

def supertasksProgram : DispatchState ρ → List Supertask → List (PublisherStep CatalogCommand)
  | _, [] => []
  | st, task :: rest =>
      supertaskProgram d workers st task ++
        supertasksProgram (routeSupertask d workers st task) rest

/-- The messages that a part of the routing adds. -/
def messagesOf (before after : DispatchState ρ) : List (Int × LabelData) :=
  after.sent.drop before.sent.length

/-- The messages of direct-route labels. -/
def directMessages (R : ShuffleResult) (st : DispatchState ρ) : List (Int × LabelData) :=
  messagesOf st (routeDirects d workers st (markShuffled d.now R).directRoute)

/-- The state once direct routes and supertasks are out. -/
def afterSupertasks (R : ShuffleResult) (st : DispatchState ρ) : DispatchState ρ :=
  (markShuffled d.now R).supertasks.foldl (routeSupertask d workers)
    (routeDirects d workers st (markShuffled d.now R).directRoute)

/-- The messages of independent labels. -/
def independentMessages (R : ShuffleResult) (st : DispatchState ρ) : List (Int × LabelData) :=
  messagesOf (afterSupertasks d workers R st)
    (routeIndependents d workers R.replyFanout (afterSupertasks d workers R st)
      (markShuffled d.now R).independent)

/-- The whole batch. -/
def routeProgram (R : ShuffleResult) (st : DispatchState ρ) : List (PublisherStep CatalogCommand) :=
  aloneProgram (directMessages d workers R st) ++
    (supertasksProgram d workers (routeDirects d workers st (markShuffled d.now R).directRoute)
        (markShuffled d.now R).supertasks ++
      aloneProgram (independentMessages d workers R st))

/-! ## The program and `route` -/

/-- The catalog commands of the dispatcher itself. -/
def ownCommands (program : List (PublisherStep CatalogCommand)) : List CatalogCommand :=
  program.filterMap fun
    | .own c => some c
    | .send _ _ => none

theorem ownCommands_append (front back : List (PublisherStep CatalogCommand)) :
    ownCommands (front ++ back) = ownCommands front ++ ownCommands back :=
  List.filterMap_append ..

theorem ownCommands_own (commands : List CatalogCommand) :
    ownCommands (commands.map .own) = commands := by
  unfold ownCommands
  rw [List.filterMap_map]
  exact List.filterMap_some

theorem ownCommands_alone (messages : List (Int × LabelData)) :
    ownCommands (aloneProgram messages) =
      (messages.map fun m => scheduleEntry m.1 m.2).flatMap scheduling := by
  have hsends : ownCommands (messages.map fun m => publishTo m.1 m.2 []) = [] := by
    unfold ownCommands
    rw [List.filterMap_map]
    exact List.filterMap_eq_nil_iff.mpr fun _ _ => rfl
  rw [aloneProgram, ownCommands_append, hsends, ownCommands_own, List.nil_append,
    List.flatMap_map]

variable {d workers}

theorem messagesOf_append {before after : DispatchState ρ} {new : List (Int × LabelData)}
    (h : after.sent = before.sent ++ new) : messagesOf before after = new := by
  rw [messagesOf, h, List.drop_left]

theorem directMessages_eq (R : ShuffleResult) (st : DispatchState ρ) :
    directMessages d workers R st = (markShuffled d.now R).directRoute.map fun r =>
      (r.2, mark d workers r.2 "read-locality" r.1) :=
  messagesOf_append (routeDirects_frame d workers st _).1

variable (d workers)

/-- Independent labels: one entry for every message. -/
theorem routeIndependents_messages (fanout : ReplyFanout) (st : DispatchState ρ)
    (labels : List LabelData) :
    ∃ new, (routeIndependents d workers fanout st labels).sent = st.sent ++ new ∧
      (routeIndependents d workers fanout st labels).status =
        st.status.scheduleBatch (new.map fun m => scheduleEntry m.1 m.2) := by
  have hfold : ∀ acc : DispatchState ρ × List ScheduleEntry,
      ∃ new, (labels.foldl (routeIndependent d workers fanout) acc).1.sent =
          acc.1.sent ++ new ∧
        (labels.foldl (routeIndependent d workers fanout) acc).2 =
          acc.2 ++ new.map (fun m => scheduleEntry m.1 m.2) ∧
        (labels.foldl (routeIndependent d workers fanout) acc).1.status = acc.1.status := by
    induction labels with
    | nil => exact fun acc => ⟨[], by simp, by simp, rfl⟩
    | cons l rest ih =>
        intro acc
        have hrouted := routeIndependent_alone d workers fanout acc l
        obtain ⟨new, hsent, hentries, hstatus⟩ := ih (routeIndependent d workers fanout acc l)
        rw [List.foldl_cons, hsent, hentries, hstatus, hrouted.sent, hrouted.entries,
          hrouted.status]
        refine ⟨_, List.append_assoc .., ?_, rfl⟩
        rw [List.append_assoc, List.map_append]
        cases (placeIndependent d workers acc.1 l).1 with
        | none => rfl
        | some p => rfl
  obtain ⟨new, hsent, hentries, hstatus⟩ := hfold (st, [])
  refine ⟨new, hsent, ?_⟩
  show StatusCatalog.scheduleBatch _ _ = _
  rw [hentries, hstatus]
  rfl

theorem supertasksProgram_status (tasks : List Supertask) (st : DispatchState ρ) :
    applyAll (ownCommands (supertasksProgram d workers st tasks)) st.status =
      (tasks.foldl (routeSupertask d workers) st).status := by
  induction tasks generalizing st with
  | nil => rfl
  | cons task rest ih =>
      rw [supertasksProgram, ownCommands_append, applyAll_append, List.foldl_cons, ← ih]
      congr 1
      unfold supertaskProgram routeSupertask
      rcases d.selectWorker workers task.composite.intent st.solver with ⟨_ | w, solver⟩
      · rfl
      · dsimp only
        have hentries : ∀ ls : List LabelData,
            ls.flatMap (fun l => scheduling (scheduleEntry w l)) =
              (ls.map (scheduleEntry w)).flatMap scheduling := by
          intro ls
          rw [List.flatMap_map]
        rw [ownCommands_append, ownCommands_own, hentries]
        show applyAll (_ ++ []) st.status = StatusCatalog.scheduleBatch _ _
        rw [List.append_nil, applyAll_schedulings]

/-- The program's own commands leave the catalog that `route` leaves. -/
theorem routeProgram_status (R : ShuffleResult) (st : DispatchState ρ) :
    applyAll (ownCommands (routeProgram d workers R st)) st.status =
      (route d workers R st).status := by
  obtain ⟨new, hsent, hstatus⟩ := routeIndependents_messages d workers
    R.replyFanout (afterSupertasks d workers R st) (markShuffled d.now R).independent
  have hindependent : independentMessages d workers R st = new := messagesOf_append hsent
  have hdirect : applyAll (ownCommands (aloneProgram (directMessages d workers R st))) st.status =
      (routeDirects d workers st (markShuffled d.now R).directRoute).status := by
    rw [ownCommands_alone, applyAll_schedulings, directMessages_eq, List.map_map]
    have hstatus : ∀ routes : List (LabelData × Int),
        (routes.foldl (routeDirect d workers) st).status = st.status := by
      intro routes
      refine foldl_untouched (fun st : DispatchState ρ => st.status) ?_ st
      exact fun _ _ _ => rfl
    show _ = StatusCatalog.scheduleBatch (List.foldl _ st _).status _
    rw [hstatus]
    rfl
  unfold routeProgram
  rw [ownCommands_append, ownCommands_append, applyAll_append, applyAll_append, hdirect,
    supertasksProgram_status, hindependent, ownCommands_alone, applyAll_schedulings]
  exact hstatus.symm

/-- Whom a program publishes to. -/
def parties (program : List (PublisherStep CatalogCommand)) : List Int :=
  program.filterMap fun
    | .own _ => none
    | .send w _ => some w

theorem parties_append (front back : List (PublisherStep CatalogCommand)) :
    parties (front ++ back) = parties front ++ parties back :=
  List.filterMap_append ..

theorem parties_own (commands : List CatalogCommand) : parties (commands.map .own) = [] := by
  unfold parties
  rw [List.filterMap_map]
  exact List.filterMap_eq_nil_iff.mpr fun _ _ => rfl

theorem parties_alone (messages : List (Int × LabelData)) :
    parties (aloneProgram messages) = messages.map (·.1) := by
  have hsends : parties (messages.map fun m => publishTo m.1 m.2 []) = messages.map (·.1) := by
    unfold parties
    rw [List.filterMap_map, ← List.filterMap_eq_map]
    rfl
  rw [aloneProgram, parties_append, parties_own, hsends, List.append_nil]

theorem supertasksProgram_parties (tasks : List Supertask) (st : DispatchState ρ) :
    ∃ new, (tasks.foldl (routeSupertask d workers) st).sent = st.sent ++ new ∧
      parties (supertasksProgram d workers st tasks) = new.map (·.1) := by
  induction tasks generalizing st with
  | nil => exact ⟨[], by simp, rfl⟩
  | cons task rest ih =>
      obtain ⟨new, hsent, hparties⟩ := ih (routeSupertask d workers st task)
      rw [List.foldl_cons, supertasksProgram, parties_append, hsent, hparties]
      unfold supertaskProgram routeSupertask
      rcases d.selectWorker workers task.composite.intent st.solver with ⟨_ | w, solver⟩
      · exact ⟨new, rfl, rfl⟩
      · dsimp only
        rw [parties_append, parties_own]
        exact ⟨(w, mark d workers w d.policy task.composite) :: new,
          by simp [DispatchState.send], rfl⟩

/-- The program publishes what `route` sends. -/
theorem routeProgram_parties (R : ShuffleResult) (st : DispatchState ρ) :
    parties (routeProgram d workers R st) =
      (messagesOf st (route d workers R st)).map (·.1) := by
  obtain ⟨tasks, htasks, hparties⟩ := supertasksProgram_parties d workers
    (markShuffled d.now R).supertasks
    (routeDirects d workers st (markShuffled d.now R).directRoute)
  obtain ⟨new, hsent, -⟩ := routeIndependents_messages d workers
    R.replyFanout (afterSupertasks d workers R st) (markShuffled d.now R).independent
  have hindependent : independentMessages d workers R st = new := messagesOf_append hsent
  have hroute : (route d workers R st).sent =
      st.sent ++ (directMessages d workers R st ++ (tasks ++ new)) := by
    rw [directMessages_eq, ← List.append_assoc, ← (routeDirects_frame d workers st _).1,
      ← List.append_assoc, ← htasks]
    exact hsent
  unfold routeProgram
  rw [messagesOf_append hroute, parties_append, parties_append, parties_alone, parties_alone,
    hparties, hindependent, List.map_append, List.map_append]

end Route
end Labios
