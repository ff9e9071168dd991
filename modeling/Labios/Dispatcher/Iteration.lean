import Labios.Client.Uri
import Labios.Dispatcher.Placement
import Labios.Worker.Messages

/-!
# One iteration of the batch loop

Observe labels are answered on the spot; what remains is shuffled and routed,
after all workers were told to resume when none is available. What the queries
behind `handle_observe` find is a parameter, and so is the label that
`process_continuation` chains.

Without an answer of the solver a batch shrinks to its direct routes and to the
writes whose file has a recorded worker (`route_unanswered`).
-/

namespace Labios

open Foundation StatusCatalog

structure ObserveResult where
  success : Bool := true
  error : String := ""
  jsonData : String := ""
  deriving DecidableEq, Repr

structure Observer where
  handleObserve : Uri → List WorkerInfo → ObserveResult
  processContinuation : LabelData → CompletionData → Option LabelData

/-- What an iteration leaves. -/
structure Iteration (ρ : Type) where
  dispatch : DispatchState ρ
  /-- `labios:observe:<id>`. -/
  observations : List (String × String) := []
  /-- What was published on reply inboxes. -/
  answers : List (String × CompletionData) := []
  /-- What was published on `labios.labels`. -/
  chained : List LabelData := []
  /-- The workers that were sent a resume command. -/
  resumed : List Int := []

section Loop

variable {ρ : Type}

def observeCompletion (label : LabelData) (obs : ObserveResult) : CompletionData :=
  { labelId := label.id
    status := if obs.success then .complete else .error
    error := obs.error
    dataKey := "labios:observe:" ++ toString label.id }

def observeLabel (o : Observer) (obsWorkers : List WorkerInfo) (it : Iteration ρ)
    (label : LabelData) : Iteration ρ :=
  let obs := o.handleObserve (parseUri label.sourceUri) obsWorkers
  let comp := observeCompletion label obs
  { it with
    observations := it.observations ++ [(comp.dataKey, obs.jsonData)]
    answers := publishCompletion it.answers label.replyTo comp
    chained :=
      if label.continuation.kind = .none then it.chained
      else it.chained ++ (o.processContinuation label comp).toList }

/-- What an iteration takes through the shuffler. -/
def remainder (batch : List LabelData) : List LabelData :=
  batch.filter (fun l => l.type ≠ .observe)

def runIteration (S : StdSort) (d : Dispatcher ρ) (o : Observer)
    (obsWorkers cached refreshed : List WorkerInfo) (batch : List LabelData)
    (st : DispatchState ρ) : Iteration ρ :=
  let it := (batch.filter (fun l => l.type = .observe)).foldl (observeLabel o obsWorkers)
    { dispatch := st }
  if (remainder batch).isEmpty then it
  else
    { it with
      dispatch := dispatchBatch S d cached refreshed (remainder batch) st
      resumed := if cached.any (·.available) then [] else cached.map (·.id) }

/-! ## Observe labels -/

theorem publishCompletion_mem (published : List (String × CompletionData)) (replyTo : String)
    (completion : CompletionData) (a : String × CompletionData) :
    a ∈ publishCompletion published replyTo completion ↔
      a ∈ published ∨ replyTo ≠ "" ∧ a = (replyTo, completion) := by
  unfold publishCompletion
  by_cases hempty : replyTo = ""
  · simp [hempty]
  · rw [if_neg (by simpa using hempty)]
    simp [hempty]

/-- The answers of an iteration are one for each Observe label with an inbox. -/
theorem observe_answers (o : Observer) (obsWorkers : List WorkerInfo) (labels : List LabelData)
    (it : Iteration ρ) (a : String × CompletionData) :
    a ∈ (labels.foldl (observeLabel o obsWorkers) it).answers ↔
      a ∈ it.answers ∨ ∃ l ∈ labels, l.replyTo ≠ "" ∧ a = (l.replyTo, observeCompletion l
        (o.handleObserve (parseUri l.sourceUri) obsWorkers)) := by
  induction labels generalizing it with
  | nil => simp
  | cons l rest ih =>
      have hstep : a ∈ (observeLabel o obsWorkers it l).answers ↔
          a ∈ it.answers ∨ l.replyTo ≠ "" ∧ a = (l.replyTo, observeCompletion l
            (o.handleObserve (parseUri l.sourceUri) obsWorkers)) :=
        publishCompletion_mem ..
      rw [List.foldl_cons, ih, hstep, or_assoc]
      simp only [List.mem_cons, exists_eq_or_imp]

end Loop

/-! ## A batch without answers of the solver -/

section Unanswered

variable {ρ : Type} {d : Dispatcher ρ} {workers : List WorkerInfo}

/-- The worker recorded for the file of a write. -/
def recordedWorker (locations : LocationCatalog) (l : LabelData) : Option Int :=
  (writeLocation locations l).filter (fun w => 0 < w)

/-- What names the labels of a message. -/
def naming (l : LabelData) : UInt64 × List UInt64 := (l.id, l.children)

theorem naming_of_request {a b : LabelData} (h : request a = request b) : naming a = naming b := by
  have hfield := congrArg naming h
  exact hfield

theorem routeSupertask_unanswered (hnone : ∀ intent s, (d.selectWorker workers intent s).1 = none)
    (st : DispatchState ρ) (task : Supertask) :
    ∃ solver, routeSupertask d workers st task = { st with solver } := by
  unfold routeSupertask
  have hcall := hnone task.composite.intent st.solver
  rcases hs : d.selectWorker workers task.composite.intent st.solver with ⟨w, solver⟩
  rw [hs] at hcall
  obtain rfl : w = none := hcall
  exact ⟨solver, rfl⟩

theorem routeIndependent_unanswered
    (hnone : ∀ intent s, (d.selectWorker workers intent s).1 = none) (fanout : ReplyFanout)
    (acc : DispatchState ρ × List ScheduleEntry) (l : LabelData) :
    ((routeIndependent d workers fanout acc l).1.sent.map fun m => naming m.2) =
        (acc.1.sent.map fun m => naming m.2) ++
          (if (recordedWorker acc.1.locations l).isSome then [naming l] else []) ∧
      (routeIndependent d workers fanout acc l).1.locations = acc.1.locations ∧
      (routeIndependent d workers fanout acc l).1.supertasks = acc.1.supertasks := by
  have hrouted := routeIndependent_alone d workers fanout acc l
  have hlabel : ∀ workerId policy, naming (mark d workers workerId policy
      (assemble d fanout acc.1 l).1) = naming l := by
    intro workerId policy
    obtain ⟨-, -, -, -, -, inbox, hasm⟩ := assemble_placing d fanout acc.1 l
    rw [naming_of_request (request_mark d workers workerId policy _), hasm]
    rfl
  refine ⟨?_, ?_, hrouted.supertasks⟩
  · rw [hrouted.sent, List.map_append]
    unfold recordedWorker
    cases hwrite : (writeLocation acc.1.locations l).filter (fun w => 0 < w) with
    | some w =>
        rw [placeIndependent_located d workers hwrite]
        simp [hlabel]
    | none =>
        rw [placeIndependent_solved d workers hwrite, hnone]
        simp
  · rw [hrouted.locations, recordPlaced]
    cases hwrite : (writeLocation acc.1.locations l).filter (fun w => 0 < w) with
    | some w =>
        rw [placeIndependent_located d workers hwrite]
        obtain ⟨hloc, hpos⟩ := Option.filter_eq_some_iff.mp hwrite
        dsimp only
        rw [if_pos (by rw [hloc]; exact hpos)]
    | none =>
        rw [placeIndependent_solved d workers hwrite, hnone]
        rfl

theorem routeSupertasks_unanswered
    (hnone : ∀ intent s, (d.selectWorker workers intent s).1 = none) (tasks : List Supertask)
    (st : DispatchState ρ) :
    ∃ solver, tasks.foldl (routeSupertask d workers) st = { st with solver } := by
  induction tasks generalizing st with
  | nil => exact ⟨st.solver, rfl⟩
  | cons t rest ih =>
      obtain ⟨solver, hstep⟩ := routeSupertask_unanswered hnone st t
      obtain ⟨solver', hrest⟩ := ih { st with solver }
      exact ⟨solver', by rw [List.foldl_cons, hstep, hrest]⟩

theorem routeIndependents_unanswered
    (hnone : ∀ intent s, (d.selectWorker workers intent s).1 = none) (fanout : ReplyFanout)
    (st : DispatchState ρ) (labels : List LabelData) :
    ((routeIndependents d workers fanout st labels).sent.map fun m => naming m.2) =
        (st.sent.map fun m => naming m.2) ++
          (labels.filter fun l => (recordedWorker st.locations l).isSome).map naming ∧
      (routeIndependents d workers fanout st labels).supertasks = st.supertasks := by
  have hfold : ∀ acc : DispatchState ρ × List ScheduleEntry,
      ((labels.foldl (routeIndependent d workers fanout) acc).1.sent.map fun m => naming m.2) =
          (acc.1.sent.map fun m => naming m.2) ++
            (labels.filter fun l => (recordedWorker acc.1.locations l).isSome).map naming ∧
        (labels.foldl (routeIndependent d workers fanout) acc).1.supertasks =
          acc.1.supertasks := by
    induction labels with
    | nil => exact fun acc => ⟨by simp, rfl⟩
    | cons l rest ih =>
        intro acc
        obtain ⟨hsent, hloc, hpack⟩ := routeIndependent_unanswered hnone fanout acc l
        obtain ⟨hsent', hpack'⟩ := ih (routeIndependent d workers fanout acc l)
        rw [List.foldl_cons, hsent', hpack', hsent, hpack, hloc]
        refine ⟨?_, rfl⟩
        by_cases hrecorded : (recordedWorker acc.1.locations l).isSome
        · simp [hrecorded]
        · simp [hrecorded]
  exact hfold (st, [])

@[simp] theorem recordedWorker_markShuffled (locations : LocationCatalog) (l : LabelData)
    (ts : UInt64) :
    recordedWorker locations (markLabelShuffled l ts) = recordedWorker locations l := by
  have hfield := congrArg (recordedWorker locations) (request_markLabelShuffled l ts)
  exact hfield

variable (workers) in
/-- A batch none of whose calls of the solver is answered: the direct routes and
the recorded writes are sent, supertasks and other labels are not. -/
theorem route_unanswered (hnone : ∀ intent s, (d.selectWorker workers intent s).1 = none)
    (R : ShuffleResult) (st : DispatchState ρ) :
    ((route d workers R st).sent.map fun m => naming m.2) =
        (st.sent.map fun m => naming m.2) ++ ((R.directRoute.map fun p => naming p.1) ++
          (R.independent.filter fun l => (recordedWorker st.locations l).isSome).map naming) ∧
      (route d workers R st).supertasks = st.supertasks := by
  obtain ⟨hdirect, hlocations, -, hpacked⟩ :=
    routeDirects_frame d workers st (markShuffled d.now R).directRoute
  obtain ⟨solver, htask⟩ := routeSupertasks_unanswered hnone (markShuffled d.now R).supertasks
    (routeDirects d workers st (markShuffled d.now R).directRoute)
  obtain ⟨hsent, hpack⟩ := routeIndependents_unanswered hnone R.replyFanout
    { routeDirects d workers st (markShuffled d.now R).directRoute with solver }
    (markShuffled d.now R).independent
  have hmarked : ∀ l, naming (markLabelShuffled l d.now) = naming l := fun l =>
    naming_of_request (request_markLabelShuffled l d.now)
  have hrouted : route d workers R st = routeIndependents d workers R.replyFanout
      { routeDirects d workers st (markShuffled d.now R).directRoute with solver }
      (markShuffled d.now R).independent := by
    rw [← htask]
    rfl
  refine ⟨?_, ?_⟩
  · rw [hrouted, hsent]
    rw [hdirect, hlocations, List.map_append, List.append_assoc]
    congr 1
    have hd : (((markShuffled d.now R).directRoute.map fun r =>
        (r.2, mark d workers r.2 "read-locality" r.1)).map fun m => naming m.2) =
          R.directRoute.map fun p => naming p.1 := by
      unfold markShuffled
      rw [List.map_map, List.map_map]
      apply List.map_congr_left
      intro p _
      exact (naming_of_request (request_mark d workers _ _ _)).trans (hmarked p.1)
    have hi : (((markShuffled d.now R).independent.filter fun l =>
        (recordedWorker st.locations l).isSome).map naming) =
          (R.independent.filter fun l => (recordedWorker st.locations l).isSome).map naming := by
      unfold markShuffled
      rw [List.filter_map, List.map_map]
      have hfilter : R.independent.filter ((fun l => (recordedWorker st.locations l).isSome) ∘
          (markLabelShuffled · d.now)) =
            R.independent.filter fun l => (recordedWorker st.locations l).isSome :=
        List.filter_congr fun l _ => by
          rw [Function.comp_apply, recordedWorker_markShuffled]
      rw [hfilter]
      exact List.map_congr_left fun l _ => hmarked l
    rw [hd, hi]
  · rw [hrouted, hpack]
    exact hpacked

end Unanswered
end Labios
