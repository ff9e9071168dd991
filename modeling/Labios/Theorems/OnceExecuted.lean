import Labios.Dispatcher.Accounting
import Labios.Theorems.CrossBatchOrder

/-!
# Every label once

Dispatcher and workers move in any order. `handled_once` says that a label is never
in two places: not in two lines, not executed twice, not executed and still in the
hands of the dispatcher, whether it goes alone, merged or in a supertask.
`settles` says that the system comes to rest between two batches however its steps
are ordered, and that by then, if every batch met a worker and nothing threw, every
label was executed, each once.
-/

namespace Labios

open Foundation

variable {ρ σ : Type} {S : StdSort} {d : Dispatcher ρ} {intakes : Nat → Intake}
  {execute : Int → LabelData → σ → Option UInt64 × σ} {start s : LoopState ρ σ}

/-! ## The books of a run -/

/-- Nothing was taken and nobody has work. -/
structure Fresh (s : LoopState ρ σ) : Prop where
  progress : s.progress = {}
  lines : s.lines = {}
  owed : ∀ w, s.owed w = []

theorem Fresh.accounted (h : Fresh s) : Accounted intakes s 0 := by
  refine ⟨?_, 0, h.lines ▸ Lines.waits_empty, ?_⟩
  · rw [h.progress]
    exact ⟨by simp, by simp, by simp, by simp⟩
  · unfold LoopState.held
    rw [h.progress, h.lines]
    rfl

/-- The books are balanced in every run, and where every batch is served nothing is
lost. -/
theorem loopRun_accounted (hsubmitted : ∀ n, Submitted (intakes n)) (hstart : Fresh start)
    (hrun : LoopRun S d intakes execute start s) :
    ∃ lost, Accounted intakes s lost ∧
      ((∀ n, Serving d (intakes n)) → (∀ w l st, ((execute w l st).1).isSome) →
        lost = 0 ∧ Manned d s.progress) := by
  induction hrun with
  | refl =>
      refine ⟨0, hstart.accounted, fun _ _ => ⟨rfl, fun h => ?_⟩⟩
      rw [hstart.progress] at h
      simp at h
  | @tail s s' _ hstep ih =>
      obtain ⟨lost, hbooks, hserved⟩ := ih
      cases hstep with
      | dispatcher s =>
          obtain ⟨gone, hbooks', hkept⟩ := dispatcherStep_accounted (S := S) (d := d) hsubmitted
            hbooks
          refine ⟨gone + lost, hbooks', fun hserving hok => ?_⟩
          obtain ⟨rfl, hmanned⟩ := hserved hserving hok
          exact ⟨by rw [hkept (hserving _) hmanned, add_zero],
            hmanned.dispatcherStep (hserving _)⟩
      | worker hworker =>
          obtain ⟨gone, hbooks', hkept⟩ := workerStep_accounted hworker hbooks
          refine ⟨gone + lost, hbooks', fun hserving hok => ?_⟩
          obtain ⟨rfl, hmanned⟩ := hserved hserving hok
          refine ⟨by rw [hkept hok, add_zero], ?_⟩
          cases workerStep_moves hworker with
          | record _ => exact hmanned
          | finish _ => exact hmanned
          | run _ _ _ => exact hmanned
          | abandon _ _ _ => exact hmanned

/-- **No label twice.** In every run, what was executed, what waits in the lines and
what the dispatcher still holds name labels of the batches taken, each at most once. -/
theorem handled_once (hsubmitted : ∀ n, Submitted (intakes n)) (hstart : Fresh start)
    (hrun : LoopRun S d intakes execute start s) :
    ∃ items, s.lines.Waits items ∧
      (namesOf (s.lines.executed + items) + s.held).Nodup ∧
      namesOf (s.lines.executed + items) + s.held ≤ takenNames intakes s.progress.taken := by
  obtain ⟨lost, hbooks, -⟩ := loopRun_accounted hsubmitted hstart hrun
  obtain ⟨items, hwaits, hbalance⟩ := hbooks.balance
  have hnodup : (takenNames intakes s.progress.taken : Multiset (Nat × UInt64)).Nodup :=
    takenNames_nodup (fun n => (hsubmitted n).ids) _
  rw [← add_assoc] at hbalance
  have hle := hbalance ▸ Multiset.le_add_right _ lost
  exact ⟨items, hwaits, Multiset.nodup_of_le hle hnodup, hle⟩

/-- Again and again two writes that are merged and a read that meets them. -/
def mergedAgain (_ : Nat) : Intake :=
  { batch := [writeChunk 1 7 1 0 "a" 0 10, writeChunk 2 7 1 0 "a" 10 10, readChunk 3 7 1 "a" 5 4]
    cached := [{ id := 1 }, { id := 2 }] }

theorem mergedAgain_submitted (n : Nat) : Submitted (mergedAgain n) :=
  ⟨by unfold mergedAgain DistinctIds; decide, by unfold mergedAgain; decide,
    by unfold mergedAgain; decide⟩

theorem emptyLoop_fresh : Fresh emptyLoop := ⟨rfl, rfl, fun _ => rfl⟩

/-- After six steps of the dispatcher. -/
def sixSteps : LoopState (SolverState Unit) Unit :=
  (dispatcherStep .insertion roundRobinDispatcher mergedAgain)^[6] emptyLoop

theorem handled_once_mergedAgain :
    ∃ items, sixSteps.lines.Waits items ∧
      (namesOf (sixSteps.lines.executed + items) + sixSteps.held).Nodup ∧
      namesOf (sixSteps.lines.executed + items) + sixSteps.held ≤
        takenNames mergedAgain sixSteps.progress.taken :=
  handled_once mergedAgain_submitted emptyLoop_fresh
    (run_of_dispatcherSteps 6 emptyLoop mergedAgain)

/-! ## What is still to be done

Every label in the hands of the dispatcher counts for the accesses that it leads to,
and every label in a line for its execution and the locations that are recorded for
it. The weights are such that each step but an intake lowers the sum.
-/

def DispatchOp.due : DispatchOp → Nat
  | .locate _ => 1
  | .publish _ labels => 3 * labels.length + 2

def Progress.due (p : Progress) : Nat :=
  (p.ops.map DispatchOp.due).sum + 10 * p.looking.length + (!p.missed).toNat +
    6 * p.direct.length + (p.supertasks.map fun t => 5 * t.children.length + 3).sum +
    8 * p.independent.length

/-- What a worker has to do. -/
def dueAt (s : LoopState ρ σ) (w : Int) : Nat :=
  ((s.lines.waiting w).map fun message => 3 * message.length + 1).sum + (s.owed w).length

def Due (s : LoopState ρ σ) (n : Nat) : Prop :=
  ∃ k, HasTotal (dueAt s) k ∧ n = s.progress.due + k

theorem Fresh.due (h : Fresh s) : ∃ n, Due s n := by
  refine ⟨_, 0, hasTotal_zero.congr fun w => ?_, rfl⟩
  unfold dueAt
  rw [h.lines, h.owed]
  rfl

/-- A move within the dispatcher. -/
theorem Due.progress {n : Nat} (h : Due s n) {s' : LoopState ρ σ} (hlines : s'.lines = s.lines)
    (howed : s'.owed = s.owed) (hless : s'.progress.due < s.progress.due) :
    ∃ m, Due s' m ∧ m < n := by
  obtain ⟨k, htotal, rfl⟩ := h
  refine ⟨_, ⟨k, htotal.congr fun w => ?_, rfl⟩, by omega⟩
  unfold dueAt
  rw [hlines, howed]

theorem locating_length (w : Int) (l : LabelData) : (locating w l).length ≤ 2 := by
  unfold locating
  split
  · exact Nat.le_refl 2
  · exact Nat.zero_le 2

theorem finishing_length (w : Int) (l : LabelData) (size : UInt64) :
    (finishing w l size).length ≤ 2 := by
  unfold finishing
  split
  · exact Nat.le_refl 2
  · exact locating_length w l

theorem ops_due (before after : DispatchState ρ) (commands : List LocationCommand) :
    ((opsBetween before after commands).map DispatchOp.due).sum =
      commands.length + ((sentNames before after).map fun message =>
        3 * message.length + 2).sum := by
  unfold opsBetween sentNames
  rw [List.map_append, List.sum_append, List.map_map, List.map_map, List.map_map]
  congr 1
  · induction commands with
    | nil => rfl
    | cons c rest ih =>
        rw [List.map_cons, List.sum_cons, ih, List.length_cons]
        exact Nat.add_comm ..
  · refine congrArg List.sum (List.map_congr_left fun m _ => ?_)
    show 3 * ((unpack after.supertasks m).map _).length + 2 =
      3 * ((unpack after.supertasks m).map _).length + 2
    rw [List.length_map, List.length_map]

theorem taskCommands_length (workers : List WorkerInfo) (st : DispatchState ρ) (t : Supertask) :
    (taskCommands d workers st t).length ≤ 2 * t.children.length := by
  unfold taskCommands
  split
  · exact Nat.zero_le _
  · next w _ =>
      generalize t.children = children
      induction children with
      | nil => exact Nat.le_refl 0
      | cons l rest ih =>
          have hl := locating_length w l
          rw [List.flatMap_cons, List.length_append, List.length_cons]
          omega

theorem aloneCommands_length (workers : List WorkerInfo) (st : DispatchState ρ) (l : LabelData) :
    (aloneCommands d workers st l).length ≤ 2 := by
  unfold aloneCommands
  split
  · exact Nat.zero_le 2
  · split
    · exact Nat.zero_le 2
    · exact locating_length ..

theorem lookUp_due {p : Progress} {l : LabelData} {rest : List LabelData}
    (hlooking : p.looking = l :: rest) (locations : LocationCatalog) :
    (p.lookUp locations l rest).due < p.due := by
  unfold Progress.lookUp
  split
  · dsimp only
    split
    · simp only [Progress.due, hlooking, List.length_cons, List.length_append, List.length_nil,
        Bool.not_false, Bool.toNat_true]
      omega
    · split
      · simp only [Progress.due, hlooking, List.length_cons, List.length_append, List.length_nil,
          Bool.not_false, Bool.toNat_true]
        omega
      · next hmissed =>
          simp only [Progress.due, hlooking, List.length_cons, Bool.eq_false_iff.mpr hmissed,
            Bool.not_false, Bool.not_true, Bool.toNat_true, Bool.toNat_false]
          omega
  · simp only [Progress.due, hlooking, List.length_cons, List.length_append, List.length_nil]
    omega

/-- Routing an item costs what its accesses cost. -/
theorem routed_due {p : Progress} (hops : p.ops = []) (after : DispatchState ρ)
    (commands : List LocationCommand) :
    (s.routed p after commands).progress.due = p.due + (commands.length +
      ((sentNames s.dispatch after).map fun message => 3 * message.length + 2).sum) := by
  have hdue := ops_due s.dispatch after commands
  simp only [Progress.due, LoopState.routed, hops, hdue, List.map_nil, List.sum_nil]
  omega

variable (S d intakes) in
/-- A step of the dispatcher that is no intake lowers what is due. -/
theorem dispatcherStep_due (hkinds : s.progress.Kinds) {n : Nat} (h : Due s n) :
    ∃ m, Due (dispatcherStep S d intakes s) m ∧
      ((dispatcherStep S d intakes s).progress.taken = s.progress.taken → m < n) := by
  have hmove := dispatcherStep_moves S d intakes s
  generalize dispatcherStep S d intakes s = s' at hmove ⊢
  have hless : ∀ {s'' : LoopState ρ σ}, s''.lines = s.lines → s''.owed = s.owed →
      s''.progress.due < s.progress.due →
        ∃ m, Due s'' m ∧ (s''.progress.taken = s.progress.taken → m < n) := by
    intro s'' hlines howed hdue
    obtain ⟨m, hm, hlt⟩ := h.progress hlines howed hdue
    exact ⟨m, hm, fun _ => hlt⟩
  cases hmove with
  | locate hops =>
      refine hless rfl rfl ?_
      simp only [LoopState.performed, Progress.due, hops, List.map_cons, List.sum_cons,
        DispatchOp.due]
      omega
  | @publish w labels rest hops =>
      obtain ⟨k, htotal, rfl⟩ := h
      obtain ⟨others, rfl, hchange⟩ := htotal.split w
      have htotal' := hchange (dueAt (s.performed rest (.publish w labels))) fun v hv => by
        unfold dueAt LoopState.performed Lines.push
        dsimp only
        rw [Function.update_of_ne hv]
      refine ⟨_, ⟨_, htotal', rfl⟩, fun _ => ?_⟩
      have hat : dueAt (s.performed rest (.publish w labels)) w =
          dueAt s w + (3 * labels.length + 1) := by
        unfold dueAt LoopState.performed Lines.push
        dsimp only
        rw [Function.update_self, List.map_append, List.sum_append, List.map_singleton,
          List.sum_singleton, List.length_map]
        omega
      rw [hat]
      simp only [LoopState.performed, Progress.due, hops, List.map_cons, List.sum_cons,
        DispatchOp.due]
      omega
  | look hops hlooking => exact hless rfl rfl (lookUp_due hlooking _)
  | @direct r rest hops hlooking hdirect =>
      refine hless rfl rfl ?_
      rw [routed_due (p := { s.progress with direct := rest }) hops, sentNames_direct _ _
        (hkinds.direct r (by rw [hdirect]; exact List.mem_cons_self))]
      simp only [Progress.due, hdirect, List.length_cons, List.length_nil, List.map_cons,
        List.map_nil, List.sum_cons, List.sum_nil]
      omega
  | @supertask t rest hops hlooking htasks =>
      refine hless rfl rfl ?_
      have hcommands := taskCommands_length (d := d) s.progress.workers s.dispatch
        (shuffledTask d.now t)
      have hchildren : (shuffledTask d.now t).children.length = t.children.length :=
        List.length_map ..
      rw [routed_due (p := { s.progress with supertasks := rest }) hops,
        sentNames_supertask _ _
          (hkinds.supertasks t (by rw [htasks]; exact List.mem_cons_self))]
      have hsent : ((if (d.selectWorker s.progress.workers (shuffledTask d.now t).composite.intent
          s.dispatch.solver).1.isSome then [t.children.map originals] else []).map
            fun message => 3 * message.length + 2).sum ≤ 3 * t.children.length + 2 := by
        split
        · simp
        · exact Nat.zero_le _
      simp only [Progress.due, htasks, List.map_cons, List.sum_cons]
      omega
  | @independent l rest hops hlooking hindependent =>
      refine hless rfl rfl ?_
      have hcommands := aloneCommands_length (d := d) s.progress.workers s.dispatch
        (markLabelShuffled l d.now)
      rw [routed_due (p := { s.progress with independent := rest }) hops,
        sentNames_independent _ _ _
          (hkinds.independent l (by rw [hindependent]; exact List.mem_cons_self))]
      have hsent : ((if (placeIndependent d s.progress.workers s.dispatch
          (markLabelShuffled l d.now)).1.isSome then [[originals l]] else []).map
            fun message => 3 * message.length + 2).sum ≤ 5 := by
        split
        · simp
        · exact Nat.zero_le _
      simp only [Progress.due, hindependent, List.length_cons]
      omega
  | take hops hlooking hdirect htasks hindependent =>
      obtain ⟨k, htotal, rfl⟩ := h
      refine ⟨_, ⟨k, htotal, rfl⟩, fun htaken => ?_⟩
      have hnext : (s.progress.take S d (intakes s.progress.taken)).taken =
          s.progress.taken + 1 := by
        unfold Progress.take
        split
        · rfl
        · rfl
      exact absurd (hnext.symm.trans htaken) (Nat.succ_ne_self _)

/-- Every step of a worker lowers what is due. -/
theorem workerStep_due {w : Int} {s' : LoopState ρ σ} (hstep : workerStep execute w s = some s')
    {n : Nat} (h : Due s n) : ∃ m, Due s' m ∧ m < n := by
  obtain ⟨k, htotal, rfl⟩ := h
  obtain ⟨others, rfl, hchange⟩ := htotal.split w
  have hless : s'.progress = s.progress → (∀ v, v ≠ w → dueAt s' v = dueAt s v) →
      dueAt s' w < dueAt s w → ∃ m, Due s' m ∧ m < s.progress.due + (dueAt s w + others) := by
    intro hprogress hother hlt
    exact ⟨_, ⟨_, hchange _ hother, rfl⟩, by rw [hprogress]; omega⟩
  have hsum : ∀ {messages : List (List Handling)} {owed : List LocationCommand},
      s.lines.waiting w = messages → s.owed w = owed →
        dueAt s w = (messages.map fun message => 3 * message.length + 1).sum + owed.length := by
    rintro messages owed rfl rfl
    rfl
  cases workerStep_moves hstep with
  | @record command rest howed =>
      refine hless rfl (fun v hv => ?_) ?_
      · unfold dueAt
        dsimp only
        rw [Function.update_of_ne hv]
      · rw [hsum rfl howed]
        unfold dueAt
        dsimp only
        rw [Function.update_self, List.length_cons]
        omega
  | @finish messages hwaiting =>
      refine hless rfl (fun v hv => ?_) ?_
      · unfold dueAt Lines.finish
        dsimp only
        rw [Function.update_of_ne hv]
      · rw [hsum hwaiting rfl]
        unfold dueAt Lines.finish
        dsimp only
        rw [Function.update_self, List.map_cons, List.sum_cons]
        omega
  | @run x rest messages size storage howed hwaiting _ =>
      refine hless rfl (fun v hv => ?_) ?_
      · unfold dueAt Lines.run
        dsimp only
        rw [Function.update_of_ne hv, Function.update_of_ne hv]
      · have hfinishing := finishing_length w x.label size
        rw [hsum hwaiting howed]
        unfold dueAt Lines.run
        dsimp only
        rw [Function.update_self, Function.update_self, List.map_cons, List.map_cons,
          List.sum_cons, List.sum_cons, List.length_cons, List.length_nil]
        omega
  | @abandon x rest messages storage howed hwaiting _ =>
      refine hless rfl (fun v hv => ?_) ?_
      · unfold dueAt Lines.run
        dsimp only
        rw [Function.update_of_ne hv]
      · rw [hsum hwaiting howed]
        unfold dueAt Lines.run
        dsimp only
        rw [Function.update_self, howed, List.map_cons, List.sum_cons, List.length_cons]
        omega

theorem loopRun_due (hsubmitted : ∀ n, Submitted (intakes n)) (hstart : Fresh start)
    (hrun : LoopRun S d intakes execute start s) : ∃ n, Due s n := by
  induction hrun with
  | refl => exact hstart.due
  | @tail s s' hrun hstep ih =>
      obtain ⟨n, hdue⟩ := ih
      cases hstep with
      | dispatcher s =>
          obtain ⟨lost, hbooks, -⟩ := loopRun_accounted hsubmitted hstart hrun
          obtain ⟨m, hm, -⟩ := dispatcherStep_due S d intakes hbooks.kinds hdue
          exact ⟨m, hm⟩
      | worker hworker =>
          obtain ⟨m, hm, -⟩ := workerStep_due hworker hdue
          exact ⟨m, hm⟩

/-! ## Coming to rest -/

variable (S d intakes execute) in
/-- A step of anybody that is no intake. -/
def Settling (s s' : LoopState ρ σ) : Prop :=
  LoopStep S d intakes execute s s' ∧ s'.progress.taken = s.progress.taken

theorem Settling.run {s' : LoopState ρ σ}
    (h : Relation.ReflTransGen (Settling S d intakes execute) s s') :
    LoopRun S d intakes execute s s' ∧ s'.progress.taken = s.progress.taken := by
  induction h with
  | refl => exact ⟨.refl, rfl⟩
  | tail _ hstep ih => exact ⟨ih.1.tail hstep.1, hstep.2.trans ih.2⟩

/-- The steps between two intakes come to an end. -/
theorem settling_acc (hsubmitted : ∀ n, Submitted (intakes n)) (hstart : Fresh start) {n : Nat} :
    ∀ s, LoopRun S d intakes execute start s → Due s n →
      Acc (fun t s => Settling S d intakes execute s t) s := by
  induction n using Nat.strong_induction_on with
  | _ n ih =>
      intro s hrun hdue
      refine ⟨s, fun s' ⟨hstep, htaken⟩ => ?_⟩
      have hrun' := hrun.tail hstep
      cases hstep with
      | dispatcher s =>
          obtain ⟨lost, hbooks, -⟩ := loopRun_accounted hsubmitted hstart hrun
          obtain ⟨m, hm, hlt⟩ := dispatcherStep_due S d intakes hbooks.kinds hdue
          exact ih m (hlt htaken) _ hrun' hm
      | worker hworker =>
          obtain ⟨m, hm, hlt⟩ := workerStep_due hworker hdue
          exact ih m hlt _ hrun' hm

/-- Where only an intake is possible, nothing is at hand and nobody has work. -/
theorem atRest (h : ∀ t, ¬Settling S d intakes execute s t) :
    s.progress.atHand = [] ∧ ∀ w, s.lines.line w = [] := by
  constructor
  · have hmove := dispatcherStep_moves S d intakes s
    have hmoved : (dispatcherStep S d intakes s).progress.taken ≠ s.progress.taken :=
      fun htaken => h _ ⟨.dispatcher s, htaken⟩
    generalize dispatcherStep S d intakes s = s' at hmove hmoved
    cases hmove with
    | locate _ => exact absurd rfl hmoved
    | publish _ => exact absurd rfl hmoved
    | look _ _ =>
        refine absurd ?_ hmoved
        show (Progress.lookUp _ _ _ _).taken = s.progress.taken
        unfold Progress.lookUp
        split
        · dsimp only
          split
          · rfl
          · split
            · rfl
            · rfl
        · rfl
    | direct _ _ _ => exact absurd rfl hmoved
    | supertask _ _ _ => exact absurd rfl hmoved
    | independent _ _ _ => exact absurd rfl hmoved
    | take hops hlooking hdirect htasks hindependent =>
        unfold Progress.atHand
        rw [hops, hlooking, hdirect, htasks, hindependent]
        rfl
  · intro w
    cases hstep : workerStep execute w s with
    | some s' =>
        refine absurd ⟨.worker hstep, ?_⟩ (h s')
        cases workerStep_moves hstep with
        | record _ => rfl
        | finish _ => rfl
        | run _ _ _ => rfl
        | abandon _ _ _ => rfl
    | none =>
        unfold workerStep at hstep
        split at hstep
        · exact absurd hstep (by simp)
        · next hwaiting =>
            unfold Lines.line
            rw [hwaiting]
            rfl
        · exact absurd hstep (by simp)
        · split at hstep
          · exact absurd hstep (by simp)
          · exact absurd hstep (by simp)

/-- **Every label once.** However the steps are ordered, the system comes to rest
between two intakes; when it does, every label of every batch taken was executed,
once. -/
theorem settles (hsubmitted : ∀ n, Submitted (intakes n)) (hserving : ∀ n, Serving d (intakes n))
    (hok : ∀ w l st, ((execute w l st).1).isSome) (hstart : Fresh start)
    (hrun : LoopRun S d intakes execute start s) :
    Acc (fun t s => Settling S d intakes execute s t) s ∧
      ∀ s', Relation.ReflTransGen (Settling S d intakes execute) s s' →
        (∀ t, ¬Settling S d intakes execute s' t) →
          (s'.lines.executed.flatMap Handling.names).Perm
            (takenNames intakes s.progress.taken) := by
  obtain ⟨n, hdue⟩ := loopRun_due hsubmitted hstart hrun
  refine ⟨settling_acc hsubmitted hstart s hrun hdue, fun s' hsettling hrest => ?_⟩
  obtain ⟨hmore, htaken⟩ := Settling.run hsettling
  obtain ⟨lost, hbooks, hserved⟩ := loopRun_accounted hsubmitted hstart (hrun.trans hmore)
  obtain ⟨rfl, -⟩ := hserved hserving hok
  obtain ⟨items, hwaits, hbalance⟩ := hbooks.balance
  obtain ⟨hhand, hlines⟩ := atRest hrest
  obtain rfl := hwaits.eq_zero fun w => by rw [hlines w]; rfl
  rw [htaken, LoopState.held, hhand, List.map_nil, Multiset.coe_nil, add_zero, add_zero,
    add_zero, namesOf_coe] at hbalance
  exact (Multiset.coe_eq_coe.mp hbalance).symm

theorem settles_mergedAgain :
    Acc (fun t s => Settling .insertion roundRobinDispatcher mergedAgain executeAll s t)
        (dispatcherStep .insertion roundRobinDispatcher mergedAgain emptyLoop) ∧
      ∀ s', Relation.ReflTransGen
          (Settling .insertion roundRobinDispatcher mergedAgain executeAll)
          (dispatcherStep .insertion roundRobinDispatcher mergedAgain emptyLoop) s' →
        (∀ t, ¬Settling .insertion roundRobinDispatcher mergedAgain executeAll s' t) →
          (s'.lines.executed.flatMap Handling.names).Perm [(0, 1), (0, 2), (0, 3)] :=
  settles mergedAgain_submitted
    (fun _ => ⟨by unfold mergedAgain; decide,
      solverFinds_of_findsWorker {} 1 (fun _ => "") (by unfold mergedAgain; decide)⟩)
    (fun _ _ _ => rfl) emptyLoop_fresh (.single (.dispatcher emptyLoop))

end Labios
