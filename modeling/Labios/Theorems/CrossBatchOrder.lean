import Labios.Client.Access
import Labios.Dispatcher.Policy
import Labios.Dispatcher.Steps

/-!
# Order across batches

Dependencies are detected inside one batch. A conflict with an earlier batch is
kept in order only by the line of a worker: both labels have to stand in the same
one. The dispatcher looks at the lines nowhere; it places a read by the location
of its range, a write by the location of its file, a supertask by the solver.

`cross_batch_order` is the sufficient condition, step by step;
`misplaced_breaks_order` says that a message which does not meet it can overtake.
-/

namespace Labios

open Foundation

/-! ## Conflicts -/

/-- A read or a write of a file through its pointer. -/
def usesPointer (l : LabelData) : Bool :=
  match l.type with
  | .write => l.destUri == ""
  | .read => l.sourceUri == ""
  | _ => false

/-- Two pointer labels that share bytes of one file, one of them a write. -/
def fileConflict (a b : LabelData) : Bool := usesPointer a && usesPointer b && hazardous a b

/-- The handling of a label of batch `i`, on its own, merged or as a child. -/
def Handles (h : Handling) (i : Nat) (l : LabelData) : Prop :=
  h.turn = i ∧ l.id ∈ originals h.label

instance (h : Handling) (i : Nat) (l : LabelData) : Decidable (Handles h i l) :=
  inferInstanceAs (Decidable (_ ∧ _))

section Runs

variable {ρ σ : Type} (S : StdSort) (d : Dispatcher ρ) (intakes : Nat → Intake)
  (execute : Int → LabelData → σ → Option UInt64 × σ)

/-- Whenever a label is executed, every label of an earlier batch that it conflicts
with has been executed. -/
def InProgramOrder (log : List Handling) : Prop :=
  ∀ i j, i < j → ∀ a ∈ (intakes i).batch, ∀ b ∈ (intakes j).batch, fileConflict a b = true →
    ∀ front h back, log = front ++ h :: back → Handles h j b → ∃ g ∈ front, Handles g i a

/-- The worker of a message that is about to be published has in its line every
label of an earlier batch that conflicts with the message, unless it is executed. -/
def Behind (s : LoopState ρ σ) : Prop :=
  match s.progress.ops with
  | .publish w labels :: _ =>
      ∀ i < s.progress.taken - 1, ∀ a ∈ (intakes i).batch,
        ∀ b ∈ (intakes (s.progress.taken - 1)).batch, fileConflict a b = true →
          ∀ l ∈ labels, b.id ∈ originals l →
            ∃ g ∈ s.lines.executed ++ s.lines.line w, Handles g i a
  | _ => True

instance (s : LoopState ρ σ) : Decidable (Behind intakes s) := by
  unfold Behind
  split
  · infer_instance
  · infer_instance

/-- When the label at the head of a worker's line throws, no label that it takes
with it conflicts with a label of a later batch further down the line. -/
def Spared (w : Int) (s : LoopState ρ σ) : Prop :=
  ∀ x rest messages, s.owed w = [] → s.lines.waiting w = (x :: rest) :: messages →
    (execute w x.label s.storage).1 = none →
      ∀ g ∈ rest, ∀ h ∈ messages.flatten, g.turn < h.turn →
        ∀ a ∈ (intakes g.turn).batch, ∀ b ∈ (intakes h.turn).batch,
          a.id ∈ originals g.label → b.id ∈ originals h.label → fileConflict a b = false

/-- A step in a state that meets the condition. -/
inductive GuardedStep : LoopState ρ σ → LoopState ρ σ → Prop
  | dispatcher {s} (h : Behind intakes s) : GuardedStep s (dispatcherStep S d intakes s)
  | worker {w s s'} (h : workerStep execute w s = some s') (hspared : Spared intakes execute w s) :
      GuardedStep s s'

abbrev GuardedRun : LoopState ρ σ → LoopState ρ σ → Prop :=
  Relation.ReflTransGen (GuardedStep S d intakes execute)

/-! ## Demands -/

/-- A label needs the labels of earlier batches that it conflicts with. -/
def orderDemand : Demand Handling (Nat × UInt64) where
  needs h k := k.1 < h.turn ∧ ∃ a ∈ (intakes k.1).batch, ∃ b ∈ (intakes h.turn).batch,
    fileConflict a b = true ∧ a.id = k.2 ∧ b.id ∈ originals h.label
  serves h k := h.turn = k.1 ∧ k.2 ∈ originals h.label

variable {intakes}

theorem inProgramOrder_of_ordered {log : List Handling} (h : (orderDemand intakes).Ordered log) :
    InProgramOrder intakes log := by
  intro i j hij a ha b hb hconflict front x back heq hx
  obtain ⟨rfl, hid⟩ := hx
  exact h front x back heq (i, a.id) ⟨hij, a, ha, b, hb, hconflict, rfl, hid⟩

variable {S d execute} {s : LoopState ρ σ}

/-- A step under the condition keeps the lines in order. -/
theorem guardedStep_inOrder {s' : LoopState ρ σ} (hstep : GuardedStep S d intakes execute s s')
    (h : s.lines.InOrder (orderDemand intakes)) : s'.lines.InOrder (orderDemand intakes) := by
  cases hstep with
  | dispatcher hbehind =>
      have hmove := dispatcherStep_moves S d intakes s
      generalize dispatcherStep S d intakes s = s' at hmove ⊢
      cases hmove with
      | @publish w labels rest hops =>
          refine h.push ?_
          rintro y hy ⟨i, id⟩ ⟨hlt, a, ha, b, hb, hconflict, rfl, hid⟩
          obtain ⟨l, hl, rfl⟩ := List.mem_map.mp hy
          unfold Behind at hbehind
          rw [hops] at hbehind
          exact hbehind i hlt a ha b hb hconflict l hl hid
      | locate _ => exact h
      | look _ _ => exact h
      | direct _ _ _ => exact h
      | supertask _ _ _ => exact h
      | independent _ _ _ => exact h
      | take _ _ _ _ _ => exact h
  | worker hworker hspared =>
      cases workerStep_moves hworker with
      | record _ => exact h
      | finish hwaiting => exact h.finish hwaiting
      | run _ hwaiting _ => exact h.run hwaiting
      | @abandon x rest messages storage howed hwaiting hexec =>
          refine h.abandon hwaiting ?_
          rintro y hy ⟨i, id⟩ ⟨hlt, a, ha, b, hb, hconflict, rfl, hid⟩ ⟨g, hg, rfl, hserves⟩
          have hfree := hspared x rest messages howed hwaiting (by rw [hexec]) g hg y hy hlt
            a ha b hb hserves hid
          rw [hconflict] at hfree
          exact absurd hfree (by decide)

/-- **Order across batches.** In every run whose steps all meet the condition, the
labels of earlier batches are executed first. -/
theorem cross_batch_order (S : StdSort) (d : Dispatcher ρ) (intakes : Nat → Intake)
    (execute : Int → LabelData → σ → Option UInt64 × σ) {start s : LoopState ρ σ}
    (hstart : start.lines = {}) (hrun : GuardedRun S d intakes execute start s) :
    InProgramOrder intakes s.lines.executed := by
  have hinvariant : s.lines.InOrder (orderDemand intakes) := by
    induction hrun with
    | refl =>
        rw [hstart]
        exact fun _ => Demand.ordered_nil
    | tail _ hstep ih => exact guardedStep_inOrder hstep ih
  exact inProgramOrder_of_ordered hinvariant.executed

/-! ## Overtaking -/

variable (S d intakes execute) in
/-- What a worker owes does not keep it from going on. -/
theorem exists_recorded (w : Int) (s : LoopState ρ σ) :
    ∃ s', LoopRun S d intakes execute s s' ∧ s'.owed w = [] ∧ s'.lines = s.lines := by
  obtain ⟨commands, howed⟩ : ∃ commands, s.owed w = commands := ⟨_, rfl⟩
  induction commands generalizing s with
  | nil => exact ⟨s, .refl, howed, rfl⟩
  | cons command rest ih =>
      obtain ⟨s', hrun, hfree, hlines⟩ := ih { s with
        owed := Function.update s.owed w rest
        dispatch := { s.dispatch with locations := command.apply s.dispatch.locations } }
        (Function.update_self ..)
      refine ⟨s', .head (.worker (w := w) ?_) hrun, hfree, hlines⟩
      unfold workerStep
      rw [howed]

variable (S d intakes execute) in
/-- Where nothing throws, a worker can run its whole line. -/
theorem exists_worked_off (hok : ∀ w l st, ((execute w l st).1).isSome) (w : Int)
    (messages : List (List Handling)) (s : LoopState ρ σ) (hwaiting : s.lines.waiting w = messages) :
    ∃ s', LoopRun S d intakes execute s s' ∧
      s'.lines.executed = s.lines.executed ++ messages.flatten := by
  induction messages generalizing s with
  | nil => exact ⟨s, .refl, by simp⟩
  | cons message more ih =>
      induction message generalizing s with
      | nil =>
          obtain ⟨s₁, hrecorded, hfree, hlines⟩ :=
            exists_recorded S d intakes execute w s
          rw [← hlines] at hwaiting ⊢
          obtain ⟨s', hrun, hlog⟩ := ih { s₁ with lines := s₁.lines.finish w more }
            (Function.update_self ..)
          refine ⟨s', hrecorded.trans (.head (.worker (w := w) ?_) hrun), hlog⟩
          unfold workerStep
          rw [hfree, hwaiting]
      | cons x rest ih' =>
          obtain ⟨s₁, hrecorded, hfree, hlines⟩ :=
            exists_recorded S d intakes execute w s
          rw [← hlines] at hwaiting ⊢
          obtain ⟨size, hsize⟩ := Option.isSome_iff_exists.mp (hok w x.label s₁.storage)
          obtain ⟨s', hrun, hlog⟩ := ih' { s₁ with
            lines := s₁.lines.run w x (rest :: more)
            owed := Function.update s₁.owed w (finishing w x.label size)
            storage := (execute w x.label s₁.storage).2 } (Function.update_self ..)
          refine ⟨s', hrecorded.trans (.head (.worker (w := w) ?_) hrun), ?_⟩
          · unfold workerStep
            rw [hfree, hwaiting]
            dsimp only
            rw [show execute w x.label s₁.storage = (some size, (execute w x.label s₁.storage).2)
              from Prod.ext hsize rfl]
          · rw [hlog, Lines.run_executed, List.append_assoc]
            simp

variable (S d execute) in
/-- A message for a line in which a conflicting label is missing can overtake it. -/
theorem misplaced_breaks_order (hok : ∀ w l st, ((execute w l st).1).isSome)
    (h : ¬Behind intakes s) :
    ∃ s', LoopRun S d intakes execute s s' ∧ ¬InProgramOrder intakes s'.lines.executed := by
  unfold Behind at h
  split at h
  · next w labels rest hops =>
      push Not at h
      obtain ⟨i, hi, a, ha, b, hb, hconflict, l, hl, hid, hmissing⟩ := h
      obtain ⟨before, after, rfl⟩ := List.append_of_mem hl
      -- publish, then let the worker go on
      obtain ⟨s', hrun, hlog⟩ := exists_worked_off S d intakes execute
        hok w _ (dispatcherStep S d intakes s) rfl
      refine ⟨s', .head (.dispatcher s) hrun, fun horder => ?_⟩
      rw [dispatcherStep_op hops] at hlog
      set handled : LabelData → Handling := fun label =>
        { turn := s.progress.taken - 1, worker := w, label } with hhandled
      have hwhole : s'.lines.executed =
          (s.lines.executed ++ s.lines.line w ++ before.map handled) ++
            handled l :: after.map handled := by
        rw [hlog]
        show s.lines.executed ++ (s.lines.push w ((before ++ l :: after).map handled)).line w = _
        rw [Lines.push_line, List.map_append, List.map_cons]
        simp only [List.append_assoc]
      obtain ⟨g, hg, hturn, hgid⟩ := horder i _ hi a ha b hb hconflict _ _ _ hwhole ⟨rfl, hid⟩
      rcases List.mem_append.mp hg with hg | hg
      · exact hmissing g hg ⟨hturn, hgid⟩
      · -- the labels of the message belong to the later batch
        obtain ⟨l', -, rfl⟩ := List.mem_map.mp hg
        exact absurd hturn (Nat.ne_of_gt hi)
  · exact absurd trivial h

end Runs

/-! ## Runs on fixed batches -/

/-- Nothing was sent, nothing throws, and nothing is stored. -/
def emptyLoop : LoopState (SolverState Unit) Unit := { dispatch := freshState, storage := () }

def executeAll (_ : Int) (_ : LabelData) (_ : Unit) : Option UInt64 × Unit := (some 10, ())

def roundRobinDispatcher : Dispatcher (SolverState Unit) :=
  (plainScheduling "round-robin").dispatcher {} 1 fun _ => ""

/-- A read of some bytes, and in the next batch a write to them. -/
def readThenWrite (workers : List WorkerInfo) : Nat → Intake
  | 0 => { batch := [readChunk 1 7 1 "a" 0 10], cached := workers }
  | 1 => { batch := [writeChunk 2 7 1 0 "a" 0 10], cached := workers }
  | _ => { batch := [], cached := workers }

theorem run_of_dispatcherSteps (n : Nat) (s : LoopState (SolverState Unit) Unit)
    (intakes : Nat → Intake) :
    LoopRun .insertion roundRobinDispatcher intakes executeAll s
      ((dispatcherStep .insertion roundRobinDispatcher intakes)^[n] s) := by
  induction n generalizing s with
  | zero => exact .refl
  | succ n ih => exact .head (.dispatcher s) (ih _)

theorem guardedRun_of_dispatcherSteps (n : Nat) (s : LoopState (SolverState Unit) Unit)
    (intakes : Nat → Intake)
    (h : ∀ k < n, Behind intakes ((dispatcherStep .insertion roundRobinDispatcher intakes)^[k] s)) :
    GuardedRun .insertion roundRobinDispatcher intakes executeAll s
      ((dispatcherStep .insertion roundRobinDispatcher intakes)^[n] s) := by
  induction n generalizing s with
  | zero => exact .refl
  | succ n ih =>
      exact .head (.dispatcher (h 0 (Nat.succ_pos n)))
        (ih _ fun k hk => h (k + 1) (Nat.succ_lt_succ hk))

/-- Nothing throws, so nothing is taken along. -/
theorem spared_executeAll (intakes : Nat → Intake) (w : Int)
    (s : LoopState (SolverState Unit) Unit) : Spared intakes executeAll w s := by
  intro x rest messages _ _ hnone
  exact absurd hnone (by simp [executeAll])

theorem guardedRun_of_workerSteps (n : Nat) {s s' : LoopState (SolverState Unit) Unit}
    (intakes : Nat → Intake) (w : Int)
    (h : (fun o : Option (LoopState (SolverState Unit) Unit) => o.bind (workerStep executeAll w))^[n]
      (some s) = some s') :
    GuardedRun .insertion roundRobinDispatcher intakes executeAll s s' := by
  induction n generalizing s' with
  | zero => exact Option.some.inj h ▸ .refl
  | succ n ih =>
      rw [Function.iterate_succ_apply'] at h
      obtain ⟨s₁, hrun, hstep⟩ := Option.bind_eq_some_iff.mp h
      exact (ih hrun).tail (.worker hstep (spared_executeAll intakes w s₁))

/-- With one worker both labels stand in one line. -/
theorem cross_batch_order_oneWorker :
    ∃ s : LoopState (SolverState Unit) Unit,
      (s.lines.executed.map fun h => (h.turn, h.label.id)) = [(0, 1), (1, 2)] ∧
        InProgramOrder (readThenWrite [{ id := 1 }]) s.lines.executed := by
  -- eleven steps of the dispatcher, then the worker runs its line
  have hbehind : ∀ k < 11, Behind (readThenWrite [{ id := 1 }])
      ((dispatcherStep .insertion roundRobinDispatcher (readThenWrite [{ id := 1 }]))^[k]
        emptyLoop) := by decide +kernel
  have hlog : (((fun o : Option (LoopState (SolverState Unit) Unit) =>
      o.bind (workerStep executeAll 1))^[3]
        (some ((dispatcherStep .insertion roundRobinDispatcher
          (readThenWrite [{ id := 1 }]))^[11] emptyLoop))).map fun s =>
            s.lines.executed.map fun h => (h.turn, h.label.id)) = some [(0, 1), (1, 2)] := by
    decide +kernel
  obtain ⟨s, hworker, hkeys⟩ := Option.map_eq_some_iff.mp hlog
  exact ⟨s, hkeys, cross_batch_order .insertion roundRobinDispatcher _ executeAll rfl
    ((guardedRun_of_dispatcherSteps 11 emptyLoop _ hbehind).trans
      (guardedRun_of_workerSteps 3 _ 1 hworker))⟩

/-- Round-robin sends the read to the first worker and the write to the second,
which may be faster. -/
theorem readThenWrite_overtaken :
    ¬∀ s, LoopRun .insertion roundRobinDispatcher (readThenWrite twins) executeAll emptyLoop s →
      InProgramOrder (readThenWrite twins) s.lines.executed := by
  intro h
  have hmisplaced : ¬Behind (readThenWrite twins)
      ((dispatcherStep .insertion roundRobinDispatcher (readThenWrite twins))^[10] emptyLoop) := by
    decide +kernel
  obtain ⟨s', hrun, hbroken⟩ := misplaced_breaks_order .insertion roundRobinDispatcher executeAll
    (fun _ _ _ => rfl) hmisplaced
  exact hbroken (h s' ((run_of_dispatcherSteps 10 emptyLoop _).trans hrun))

end Labios
