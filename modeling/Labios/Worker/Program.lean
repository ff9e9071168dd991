import Labios.Catalog.Status
import Labios.Worker.Model

/-!
# The catalog commands of a worker

The commands that the handling of one message sends to the label catalog, in
program order. Which labels fail is left open: `MessageProgram` holds of every
sequence that some outcome of the executions leads to, and
`processLabel_program` says that the handler sends one of them.
-/

namespace Labios

open StatusCatalog CatalogCommand

/-- A label begins. -/
def executing (l : LabelData) : List CatalogCommand :=
  [status l.id .executing, flags l.id (l.flags ||| LabelFlags.pending)]

/-- A label fails in the outer handler, which skips the id 0. -/
def failed (id : UInt64) (text : String) : List CatalogCommand :=
  if id ≠ 0 then [status id .error, error id text] else []

/-- The child loop. It ends with the text of the exception that left it. -/
inductive ChildrenProgram : List LabelData → List CatalogCommand → Option String → Prop
  | nil : ChildrenProgram [] [] none
  | complete {child rest commands text} (h : ChildrenProgram rest commands text) :
      ChildrenProgram (child :: rest)
        (executing child ++ [status child.id .complete] ++ commands) text
  | fail (child rest text) :
      ChildrenProgram (child :: rest)
        (executing child ++ [status child.id .error, error child.id text]) (some text)

/-- The handling of a message; `children` is the pack of a composite. -/
inductive MessageProgram (l : LabelData) (children : List LabelData) :
    List CatalogCommand → Prop
  | complete : MessageProgram l children (executing l ++ [status l.id .complete])
  | fail (text) : MessageProgram l children (executing l ++ failed l.id text)
  | children {commands} (hl : l.type = .composite) (h : ChildrenProgram children commands none) :
      MessageProgram l children (executing l ++ commands ++ [status l.id .complete])
  | childFails {commands text} (hl : l.type = .composite)
      (h : ChildrenProgram children commands (some text)) :
      MessageProgram l children (executing l ++ commands ++ failed l.id text)

section Handler

variable {σ : Type} (w : Worker σ)

theorem applyAll_executing (l : LabelData) (catalog : StatusCatalog) :
    applyAll (executing l) catalog =
      (catalog.setStatus l.id .executing).setFlags l.id
        (markLabelExecuting l w.name w.now).flags := by
  have hflags : (markLabelExecuting l w.name w.now).flags = l.flags ||| LabelFlags.pending := by
    unfold markLabelExecuting appendLabelHop stampCreated
    dsimp only
    split
    · split
      · rfl
      · rfl
    · split
      · rfl
      · rfl
  rw [hflags]
  rfl

theorem applyAll_failed (id : UInt64) (text : String) (catalog : StatusCatalog) :
    applyAll (failed id text) catalog =
      if id ≠ 0 then (catalog.setStatus id .error).setError id text else catalog := by
  unfold failed
  split
  · rfl
  · rfl

/-- The child loop sends the commands of one of its programs. -/
theorem runChildren_program (children : List LabelData) (bytes : UInt64) (st : WorkerState σ) :
    ∃ commands text, ChildrenProgram children commands text ∧
      (runChildren w children bytes st).2.catalog = applyAll commands st.catalog ∧
      (text = none ↔ ∃ total, (runChildren w children bytes st).1 = .ok total) ∧
      ∀ t, (runChildren w children bytes st).1 = .error t → text = some t := by
  induction children generalizing bytes st with
  | nil => exact ⟨[], none, .nil, rfl, ⟨fun _ => ⟨bytes, rfl⟩, fun _ => rfl⟩, by simp [runChildren]⟩
  | cons child rest ih =>
      rw [runChildren]
      have hmark := applyAll_executing w child st.catalog
      rcases hrun : runChild w child st with ⟨outcome, st'⟩
      unfold runChild at hrun
      dsimp only at hrun
      rw [markLabelExecuting_id, ← hmark] at hrun
      rcases hexec : executeChild w (markLabelExecuting child w.name w.now) st.storage with
        ⟨result, storage⟩
      rw [hexec] at hrun
      cases result with
      | ok result =>
          obtain ⟨rfl, rfl⟩ := Prod.mk.inj hrun
          obtain ⟨commands, text, hprogram, hcatalog, hok, herror⟩ :=
            ih (bytes + result.bytesTransferred) _
          refine ⟨_, text, .complete hprogram, ?_, hok, herror⟩
          rw [hcatalog, applyAll_append, applyAll_append, markLabelFinished_id,
            markLabelExecuting_id]
          rfl
      | error text =>
          obtain ⟨rfl, rfl⟩ := Prod.mk.inj hrun
          refine ⟨_, some text, .fail child rest text, ?_, by simp, by simp⟩
          rw [applyAll_append]
          simp only [markLabelFinished_id, markLabelExecuting_id]
          rfl

/-- The handler sends the commands of one of the programs of its message. -/
theorem processLabel_program (l : LabelData) (st : WorkerState σ) {children : List LabelData}
    (hpack : l.type = .composite → st.supertasks l.id = some children) :
    ∃ commands, MessageProgram l children commands ∧
      (processLabel w l st).catalog = applyAll commands st.catalog := by
  -- the outer handler and the common end, from any state the execution leaves
  have hfail : ∀ text (st' : WorkerState σ),
      (failLabel w (markLabelExecuting l w.name w.now) text st').catalog =
        applyAll (failed l.id text) st'.catalog := by
    intro text st'
    rw [applyAll_failed]
    simp [failLabel, errorCompletion]
  have hend : ∀ completion result (st' : WorkerState σ),
      (finishLabel w (markLabelExecuting l w.name w.now) completion result st').catalog =
        applyAll [status l.id .complete] st'.catalog := by
    intro completion result st'
    simp [finishLabel, applyAll, apply, setStatus]
  unfold processLabel
  simp only [markLabelExecuting_id, markLabelExecuting_type]
  rw [← applyAll_executing w l st.catalog]
  cases htype : l.type with
  | write =>
      dsimp only
      split
      · exact ⟨_, .complete, by rw [hend, applyAll_append]⟩
      · next text storage _ => exact ⟨_, .fail text, by rw [hfail, applyAll_append]⟩
  | read =>
      dsimp only
      split
      · exact ⟨_, .complete, by rw [hend, applyAll_append]⟩
      · next text storage _ => exact ⟨_, .fail text, by rw [hfail, applyAll_append]⟩
  | composite =>
      dsimp only
      rw [hpack htype]
      dsimp only
      obtain ⟨commands, text, hprogram, hcatalog, hok, herror⟩ := runChildren_program w children 0
        { st with catalog := applyAll (executing l) st.catalog }
      split
      · next bytes st' hrun =>
          rw [hrun] at hcatalog hok
          rw [hok.mpr ⟨bytes, rfl⟩] at hprogram
          refine ⟨_, .children htype hprogram, ?_⟩
          rw [hend, applyAll_append, applyAll_append]
          exact congrArg (applyAll _) hcatalog
      · next text' st' hrun =>
          rw [hrun] at hcatalog herror
          rw [herror text' rfl] at hprogram
          refine ⟨_, .childFails htype hprogram, ?_⟩
          rw [hfail, applyAll_append, applyAll_append]
          exact congrArg (applyAll _) hcatalog
  | delete => exact ⟨_, .fail _, by rw [hfail, applyAll_append]⟩
  | flush => exact ⟨_, .fail _, by rw [hfail, applyAll_append]⟩
  | observe => exact ⟨_, .fail _, by rw [hfail, applyAll_append]⟩

end Handler
end Labios
