import Labios.Dispatcher.Routing
import Labios.Dispatcher.Units

/-!
# Where the dispatcher places labels

A direct-route label goes to the worker the shuffle found. A supertask goes to
the solver's choice. An independent label goes to the worker recorded for its
file, else to the solver's choice (`routeIndependent_sent`).

`route_within` bounds the workers of a batch by these sources: whatever holds of
every recorded worker and of every answer of the solver holds of every worker
that a supertask or an independent label is sent to.
-/

namespace Labios

open Foundation StatusCatalog

variable {ρ : Type} (d : Dispatcher ρ) (workers : List WorkerInfo)

/-! ## Locations -/

/-- The file whose location places a label. -/
def placingFile (l : LabelData) : Option String :=
  match l.type, l.destination with
  | .write, .filePath dst => some dst.path
  | _, _ => none

theorem writeLocation_eq (locations : LocationCatalog) (l : LabelData) :
    writeLocation locations l = (placingFile l).bind locations.whole := by
  unfold writeLocation placingFile
  cases l.type with
  | write =>
      cases l.destination with
      | filePath dst => rfl
      | _ => rfl
  | _ => rfl

/-- Recording a write changes the location of its own file. -/
theorem recordWrite_whole (workerId : Int) (locations : LocationCatalog) (l : LabelData)
    {path : String} (h : placingFile l ≠ some path) :
    (recordWrite workerId locations l).whole path = locations.whole path := by
  unfold recordWrite
  split
  · next dst hw hdst =>
      have hfile : placingFile l = some dst.path := by
        unfold placingFile
        rw [hw, hdst]
      exact (LocationCatalog.setLocation_of_ne fun heq =>
        h (hfile.trans (congrArg some heq.symm))).1
  · rfl

/-! ## Independent labels -/

/-- Assembly and marks leave what placement reads. -/
theorem assemble_placing (fanout : ReplyFanout) (st : DispatchState ρ) (l : LabelData) :
    (assemble d fanout st l).2.sent = st.sent ∧
      (assemble d fanout st l).2.solver = st.solver ∧
      (assemble d fanout st l).2.locations = st.locations ∧
      (assemble d fanout st l).2.status = st.status ∧
      (assemble d fanout st l).2.supertasks = st.supertasks ∧
      ∃ inbox, (assemble d fanout st l).1 = { l with replyTo := inbox } := by
  unfold assemble
  by_cases hc : l.children ≠ [] ∧ l.type = .write
  · rw [if_pos hc]
    dsimp only
    cases fanout l.id with
    | none => exact ⟨rfl, rfl, rfl, rfl, rfl, l.replyTo, rfl⟩
    | some replies => exact ⟨rfl, rfl, rfl, rfl, rfl, _, rfl⟩
  · rw [if_neg hc]
    exact ⟨rfl, rfl, rfl, rfl, rfl, l.replyTo, rfl⟩

theorem recordWrite_mark (w workerId : Int) (policy : String) (locations : LocationCatalog)
    (l : LabelData) :
    recordWrite w locations (mark d workers workerId policy l) = recordWrite w locations l := by
  have hreq : request (mark d workers workerId policy l) = request l :=
    request_markLabelScheduled ..
  have hfield := congrArg (recordWrite w locations) hreq
  exact hfield

/-- A recorded worker gets the label. -/
theorem placeIndependent_located {st : DispatchState ρ} {l : LabelData} {w : Int}
    (h : (writeLocation st.locations l).filter (fun w => 0 < w) = some w) :
    placeIndependent d workers st l = (some (w, "write-locality"), st.solver) := by
  unfold placeIndependent
  rw [h]

/-- Without one the solver decides. -/
theorem placeIndependent_solved {st : DispatchState ρ} {l : LabelData}
    (h : (writeLocation st.locations l).filter (fun w => 0 < w) = none) :
    placeIndependent d workers st l =
      ((d.selectWorker workers l.intent st.solver).1.map fun w => (w, d.policy),
        (d.selectWorker workers l.intent st.solver).2) := by
  unfold placeIndependent
  rw [h]

/-- The location catalog after an independent label: its write is recorded when
the solver placed it. -/
def recordPlaced (st : DispatchState ρ) (l : LabelData) : LocationCatalog :=
  match (placeIndependent d workers st l).1 with
  | none => st.locations
  | some (workerId, _) =>
      if (writeLocation st.locations l).any (fun w => 0 < w) then st.locations
      else recordWrite workerId st.locations l

/-- It changes the location of the label's own file at most. -/
theorem recordPlaced_whole (st : DispatchState ρ) {l : LabelData} {path : String}
    (h : placingFile l ≠ some path) :
    (recordPlaced d workers st l).whole path = st.locations.whole path := by
  unfold recordPlaced
  split
  · rfl
  · next workerId policy hplace =>
      split
      · rfl
      · exact recordWrite_whole workerId st.locations l h

/-- What an independent label changes: placement decides on the state before. -/
structure RoutedAlone (fanout : ReplyFanout) (acc : DispatchState ρ × List ScheduleEntry)
    (l : LabelData) (after : DispatchState ρ × List ScheduleEntry) : Prop where
  sent : after.1.sent = acc.1.sent ++ ((placeIndependent d workers acc.1 l).1.map fun p =>
    (p.1, mark d workers p.1 p.2 (assemble d fanout acc.1 l).1)).toList
  entries : after.2 = acc.2 ++ ((placeIndependent d workers acc.1 l).1.map fun p =>
    scheduleEntry p.1 (mark d workers p.1 p.2 (assemble d fanout acc.1 l).1)).toList
  solver : after.1.solver = (placeIndependent d workers acc.1 l).2
  locations : after.1.locations = recordPlaced d workers acc.1 l
  status : after.1.status = acc.1.status
  supertasks : after.1.supertasks = acc.1.supertasks

/-- With the label assembled, the placement decides. -/
theorem routeIndependent_eq (fanout : ReplyFanout) (acc : DispatchState ρ × List ScheduleEntry)
    {l l' : LabelData} {st : DispatchState ρ} (hasm : assemble d fanout acc.1 l = (l', st)) :
    routeIndependent d workers fanout acc l =
      match placeIndependent d workers acc.1 l with
      | (none, solver) => ({ st with solver }, acc.2)
      | (some (workerId, policy), solver) =>
          (({ st with
              solver
              locations := if (writeLocation acc.1.locations l).any (fun w => 0 < w) then
                  acc.1.locations
                else recordWrite workerId acc.1.locations l } : DispatchState ρ).send workerId
              (mark d workers workerId policy l'),
            acc.2 ++ [scheduleEntry workerId (mark d workers workerId policy l')]) := by
  obtain ⟨-, hsolver, hlocations, -, -, inbox, hlabel⟩ := assemble_placing d fanout acc.1 l
  rw [hasm] at hsolver hlocations hlabel
  dsimp only at hsolver hlocations hlabel
  have hwrite : ∀ locations, writeLocation locations l' = writeLocation locations l := by
    intro locations
    rw [hlabel]
    rfl
  have hrecord : ∀ w locations, recordWrite w locations l' = recordWrite w locations l := by
    intro w locations
    rw [hlabel]
    rfl
  have hplace : placeIndependent d workers st l' = placeIndependent d workers acc.1 l := by
    unfold placeIndependent
    rw [hwrite, hlocations, hsolver, hlabel]
  unfold routeIndependent
  rw [hasm]
  dsimp only
  rw [hplace]
  rcases placeIndependent d workers acc.1 l with ⟨_ | ⟨workerId, policy⟩, solver⟩
  · rfl
  · dsimp only
    rw [hlocations, hwrite, recordWrite_mark, hrecord]

theorem routeIndependent_alone (fanout : ReplyFanout)
    (acc : DispatchState ρ × List ScheduleEntry) (l : LabelData) :
    RoutedAlone d workers fanout acc l (routeIndependent d workers fanout acc l) := by
  obtain ⟨hsent, -, hlocations, hstatus, hpacked, -⟩ := assemble_placing d fanout acc.1 l
  rcases hasm : assemble d fanout acc.1 l with ⟨l', st⟩
  rw [hasm] at hsent hlocations hstatus hpacked
  dsimp only at hsent hlocations hstatus hpacked
  rw [routeIndependent_eq d workers fanout acc hasm]
  rcases hp : placeIndependent d workers acc.1 l with ⟨_ | ⟨workerId, policy⟩, solver⟩
  · exact ⟨by simp [hp, hsent], by simp [hp], by simp [hp], by simp [recordPlaced, hp, hlocations],
      hstatus, hpacked⟩
  · exact ⟨by simp [hp, hasm, hsent, DispatchState.send], by simp [hp, hasm],
      by simp [hp, DispatchState.send], by simp [recordPlaced, hp, DispatchState.send], hstatus,
      hpacked⟩

/-! ## The workers of a batch -/

theorem routeDirects_frame (st : DispatchState ρ) (routes : List (LabelData × Int)) :
    (routeDirects d workers st routes).sent = st.sent ++ (routes.map fun r =>
        (r.2, mark d workers r.2 "read-locality" r.1)) ∧
      (routeDirects d workers st routes).locations = st.locations ∧
      (routeDirects d workers st routes).solver = st.solver ∧
      (routeDirects d workers st routes).supertasks = st.supertasks := by
  have hfold : (routes.foldl (routeDirect d workers) st).sent = st.sent ++ (routes.map fun r =>
        (r.2, mark d workers r.2 "read-locality" r.1)) ∧
      (routes.foldl (routeDirect d workers) st).locations = st.locations ∧
      (routes.foldl (routeDirect d workers) st).solver = st.solver ∧
      (routes.foldl (routeDirect d workers) st).supertasks = st.supertasks := by
    induction routes generalizing st with
    | nil => simp
    | cons r rest ih =>
        obtain ⟨hsent, hlocations, hsolver, hpacked⟩ := ih (routeDirect d workers st r)
        rw [List.foldl_cons, hsent, hlocations, hsolver, hpacked]
        simp [routeDirect, DispatchState.send]
  exact hfold

/-- What holds of every worker recorded for a file. -/
def LocationCatalog.Within (locations : LocationCatalog) (P : Int → Prop) : Prop :=
  ∀ path w, locations.whole path = some w → 0 < w → P w

theorem recordWrite_within {P : Int → Prop} {locations : LocationCatalog}
    (h : locations.Within P) {workerId : Int} (hw : P workerId) (l : LabelData) :
    (recordWrite workerId locations l).Within P := by
  intro path w hpath hpos
  by_cases hfile : placingFile l = some path
  · unfold placingFile at hfile
    unfold recordWrite at hpath
    split at hfile
    · next dst hl hdst =>
        rw [hl, hdst] at hpath
        dsimp only at hpath
        rw [← Option.some.inj hfile] at hpath
        simp only [LocationCatalog.setLocation, Function.update_self, Option.some.injEq] at hpath
        exact hpath ▸ hw
    · exact absurd hfile (by simp)
  · rw [recordWrite_whole workerId locations l hfile] at hpath
    exact h path w hpath hpos

/-- Messages to workers of `P` are added, and locations stay within `P`. -/
structure SentWithin (P : Int → Prop) (before after : DispatchState ρ) : Prop where
  sent : ∃ new, after.sent = before.sent ++ new ∧ ∀ m ∈ new, P m.1
  within : before.locations.Within P → after.locations.Within P

theorem SentWithin.trans {P : Int → Prop} {a b c : DispatchState ρ} (hab : SentWithin P a b)
    (hbc : SentWithin P b c) : SentWithin P a c := by
  obtain ⟨front, hfront, hin⟩ := hab.sent
  obtain ⟨back, hback, hin'⟩ := hbc.sent
  refine ⟨⟨front ++ back, by rw [hback, hfront, List.append_assoc], fun m hm => ?_⟩,
    fun h => hbc.within (hab.within h)⟩
  rcases List.mem_append.mp hm with hm | hm
  · exact hin m hm
  · exact hin' m hm

/-- Every answer of the solver satisfies `P`. -/
def Answers (P : Int → Prop) : Prop :=
  ∀ intent s w, (d.selectWorker workers intent s).1 = some w → P w

variable {d workers}

theorem routeSupertask_within {P : Int → Prop} (hanswers : Answers d workers P)
    (st : DispatchState ρ) (task : Supertask) :
    SentWithin P st (routeSupertask d workers st task) := by
  unfold routeSupertask
  rcases hs : d.selectWorker workers task.composite.intent st.solver with ⟨_ | w, solver⟩
  · exact ⟨⟨[], by simp, by simp⟩, fun h => h⟩
  · have hw : P w := hanswers _ _ _ (by rw [hs])
    refine ⟨⟨_, rfl, by simp [hw]⟩, fun hwithin => ?_⟩
    show LocationCatalog.Within (List.foldl (recordWrite w) st.locations _) P
    generalize task.children.map (mark d workers w d.policy) = children
    induction children generalizing st with
    | nil => exact hwithin
    | cons child rest ih =>
        exact ih { st with locations := recordWrite w st.locations child } hs
          (recordWrite_within hwithin hw child)

theorem routeIndependent_within {P : Int → Prop} (hanswers : Answers d workers P)
    (fanout : ReplyFanout) (acc : DispatchState ρ × List ScheduleEntry)
    (hlocations : acc.1.locations.Within P) (l : LabelData) :
    SentWithin P acc.1 (routeIndependent d workers fanout acc l).1 := by
  have hrouted := routeIndependent_alone d workers fanout acc l
  have hplaced : ∀ w policy solver, placeIndependent d workers acc.1 l =
      (some (w, policy), solver) → P w := by
    intro w policy solver hp
    cases hwrite : (writeLocation acc.1.locations l).filter (fun w => 0 < w) with
    | some w' =>
        rw [placeIndependent_located d workers hwrite] at hp
        have hw' : w' = w := congrArg Prod.fst (Option.some.inj (congrArg Prod.fst hp))
        subst hw'
        obtain ⟨hloc, hpos⟩ := Option.filter_eq_some_iff.mp hwrite
        rw [writeLocation_eq] at hloc
        obtain ⟨path, _, hpath⟩ := Option.bind_eq_some_iff.mp hloc
        exact hlocations path w' hpath (of_decide_eq_true hpos)
    | none =>
        rw [placeIndependent_solved d workers hwrite] at hp
        obtain ⟨w', hw', heq⟩ := Option.map_eq_some_iff.mp (congrArg Prod.fst hp)
        obtain ⟨rfl, -⟩ := Prod.mk.inj heq
        exact hanswers _ _ _ hw'
  refine ⟨⟨_, hrouted.sent, fun m hm => ?_⟩, fun h => ?_⟩
  · obtain ⟨p, hp, rfl⟩ := Option.map_eq_some_iff.mp (Option.mem_toList.mp hm)
    exact hplaced p.1 p.2 _ (Prod.ext hp rfl)
  · rw [hrouted.locations]
    unfold recordPlaced
    split
    · exact h
    · next workerId policy hp =>
        split
        · exact h
        · exact recordWrite_within h (hplaced workerId policy _ (Prod.ext hp rfl)) l

/-- The messages of a batch behind its direct routes. -/
def placedMessages (d : Dispatcher ρ) (workers : List WorkerInfo) (R : ShuffleResult)
    (st : DispatchState ρ) : List (Int × LabelData) :=
  (route d workers R st).sent.drop (st.sent.length + R.directRoute.length)

/-- Behind the direct routes, every message goes to a worker that was recorded for
a file or that the solver named. -/
theorem route_within {P : Int → Prop} (hanswers : Answers d workers P) (R : ShuffleResult)
    (st : DispatchState ρ) (hlocations : st.locations.Within P) :
    ∀ m ∈ placedMessages d workers R st, P m.1 := by
  obtain ⟨hdirect, hsame, -, -⟩ :=
    routeDirects_frame d workers st (markShuffled d.now R).directRoute
  have htasks : ∀ (tasks : List Supertask) (st : DispatchState ρ),
      SentWithin P st (tasks.foldl (routeSupertask d workers) st) := by
    intro tasks
    induction tasks with
    | nil => exact fun st => ⟨⟨[], by simp, by simp⟩, fun h => h⟩
    | cons t rest ih => exact fun st => (routeSupertask_within hanswers st t).trans (ih _)
  have hindependents : ∀ (labels : List LabelData)
      (acc : DispatchState ρ × List ScheduleEntry), acc.1.locations.Within P →
      SentWithin P acc.1 (labels.foldl (routeIndependent d workers R.replyFanout) acc).1 := by
    intro labels
    induction labels with
    | nil => exact fun acc _ => ⟨⟨[], by simp, by simp⟩, fun h => h⟩
    | cons l rest ih =>
        intro acc hacc
        have hone := routeIndependent_within hanswers R.replyFanout acc hacc l
        exact hone.trans (ih _ (hone.within hacc))
  have htask := htasks (markShuffled d.now R).supertasks
    (routeDirects d workers st (markShuffled d.now R).directRoute)
  have hrest := htask.trans (hindependents (markShuffled d.now R).independent
    (_, []) (htask.within (by rw [hsame]; exact hlocations)))
  obtain ⟨new, hnew, hin⟩ := hrest.sent
  have hsent : (route d workers R st).sent =
      (routeDirects d workers st (markShuffled d.now R).directRoute).sent ++ new := hnew
  have hlength : (routeDirects d workers st (markShuffled d.now R).directRoute).sent.length =
      st.sent.length + R.directRoute.length := by
    rw [hdirect]
    simp [markShuffled]
  unfold placedMessages
  rw [hsent, ← hlength, List.drop_left]
  exact hin

end Labios
