import Labios.Client.Model
import Labios.Shuffler.Supertasks
import Labios.Worker.Model

/-!
# When a child of a supertask fails

The child loop answers and records every child it reaches, the failing one
included (`runChildren_spec`). Two things go wrong around it: children behind
the failing one are neither answered nor recorded, and the outer handler writes
the composite's error status under the id of the first child, which it shares.

`supertask_failure_iff` is the exact condition under which neither shows.
-/

namespace Labios

open StatusCatalog Foundation

variable {σ : Type} (w : Worker σ)

/-! ## What should happen -/

/-- Whether the execution of a child returns, and the storage after it. -/
def childStep (child : LabelData) (s : σ) : Bool × σ :=
  let child := markLabelExecuting child w.name w.now
  match executeChild w child s with
  | (.ok result, s) =>
      let completion := successCompletion child result
      let child := markLabelFinished child completion.status result.resultLocation
        result.bytesTransferred "" w.now
      (true, maybeProcessContinuation w child completion s)
  | (.error text, s) =>
      let completion := errorCompletion child text
      let child := markLabelFinished child completion.status "" 0 text w.now
      (false, maybeProcessContinuation w child completion s)

/-- How each child fares: executed, failed, or never run. -/
def childRuns : List LabelData → σ → List (Option CompletionStatus)
  | [], _ => []
  | child :: rest, s =>
      if (childStep w child s).1 then some .complete :: childRuns rest (childStep w child s).2
      else some .error :: rest.map fun _ => none

/-- The completion each child should get: `Complete` if it was executed, `Error`
otherwise. -/
def childOutcomes (children : List LabelData) (s : σ) : List CompletionStatus :=
  (childRuns w children s).map (·.getD .error)

/-- The statuses of the completions for label `id` on an inbox. -/
def answers (published : List (String × CompletionData)) (inbox : String) (id : UInt64) :
    List CompletionStatus :=
  (published.filter (fun m => m.1 = inbox ∧ m.2.labelId = id)).map (·.2.status)

def statusOf : CompletionStatus → LabelStatus
  | .complete => .complete
  | .error => .error

/-- A supertask as the shuffler builds it. -/
structure SupertaskWF (st : Supertask) : Prop where
  type : st.composite.type = .composite
  replyTo : st.composite.replyTo = ""
  distinct : DistinctIds st.children
  first : ∃ first rest, st.children = first :: rest ∧ st.composite.id = first.id

/-- The worker's state when the composite arrives: the children are packed and
the dispatcher has scheduled the batch. -/
def delivered (storage : σ) (catalog : StatusCatalog) (workerId : Int) (st : Supertask) :
    WorkerState σ :=
  { storage
    catalog := catalog.scheduleBatch ((st.children ++ [st.composite]).map
      fun l => { labelId := l.id, workerId, flags := l.flags })
    supertasks := Function.update (fun _ => none) st.composite.id (some st.children) }

/-- Every child is answered once with its outcome, and recorded with it. -/
def ChildrenAnswered (st : Supertask) (init : WorkerState σ) : Prop :=
  ∀ x ∈ st.children.zip (childOutcomes w st.children init.storage),
    (x.1.replyTo ≠ "" →
      answers (processLabel w st.composite init).published x.1.replyTo x.1.id = [x.2]) ∧
    ((processLabel w st.composite init).catalog x.1.id).status = some (statusOf x.2)

/-! ## One child -/

theorem answers_publishCompletion (published : List (String × CompletionData))
    (replyTo inbox : String) (completion : CompletionData) (id : UInt64) :
    answers (publishCompletion published replyTo completion) inbox id =
      answers published inbox id ++
        if replyTo ≠ "" ∧ replyTo = inbox ∧ completion.labelId = id then [completion.status]
        else [] := by
  unfold publishCompletion answers
  by_cases hr : replyTo = ""
  · simp [hr]
  · rw [if_neg (by simpa using hr), List.filter_append, List.map_append]
    congr 1
    by_cases hm : replyTo = inbox ∧ completion.labelId = id
    · obtain ⟨rfl, rfl⟩ := hm
      simp [hr]
    · simp [hr, hm]

/-- How a child stands after the loop, compared with before it. -/
def Settled (before after : WorkerState σ) (child : LabelData) : Option CompletionStatus → Prop
  | some outcome =>
      (after.catalog child.id).status = some (statusOf outcome) ∧
        (child.replyTo ≠ "" → answers after.published child.replyTo child.id =
          answers before.published child.replyTo child.id ++ [outcome])
  | none =>
      after.catalog child.id = before.catalog child.id ∧
        answers after.published child.replyTo child.id =
          answers before.published child.replyTo child.id

/-- Nothing changes for a label. -/
def Untouched (before after : WorkerState σ) (id : UInt64) : Prop :=
  after.catalog id = before.catalog id ∧
    ∀ inbox, answers after.published inbox id = answers before.published inbox id

theorem Untouched.trans {a b c : WorkerState σ} {id : UInt64} (h : Untouched a b id)
    (h' : Untouched b c id) : Untouched a c id :=
  ⟨h'.1.trans h.1, fun inbox => (h'.2 inbox).trans (h.2 inbox)⟩

theorem executeChild_complete (child : LabelData) (s : σ) (result : CompletionResult)
    (h : (executeChild w child s).1 = .ok result) : result.status = .complete := by
  unfold executeChild at h
  split at h
  · exact w.write_complete _ _ _ h
  · exact w.read_complete _ _ _ h
  · exact absurd h (by simp)

/-- One turn of the loop settles its child and touches no other label. -/
theorem runChild_spec (child : LabelData) (st : WorkerState σ) :
    (runChild w child st).2.storage = (childStep w child st.storage).2 ∧
      Settled st (runChild w child st).2 child
        (some (if (childStep w child st.storage).1 then .complete else .error)) ∧
      (∀ id, id ≠ child.id → Untouched st (runChild w child st).2 id) ∧
      ((∃ bytes, (runChild w child st).1 = .ok bytes) ↔ (childStep w child st.storage).1) := by
  have hcomplete := executeChild_complete w (markLabelExecuting child w.name w.now) st.storage
  rcases hexec : executeChild w (markLabelExecuting child w.name w.now) st.storage with
    ⟨outcome, s⟩
  rw [hexec] at hcomplete
  simp only [runChild, childStep, hexec]
  cases outcome with
  | error text =>
      refine ⟨rfl, ⟨?_, ?_⟩, ?_, by simp⟩
      · simp [statusOf]
      · intro hr
        simp [answers_publishCompletion, errorCompletion, hr]
      · intro id hid
        refine ⟨?_, fun inbox => ?_⟩
        · simp [hid]
        · simp [answers_publishCompletion, errorCompletion, Ne.symm hid]
  | ok result =>
      have hstatus : result.status = .complete := hcomplete result rfl
      refine ⟨rfl, ⟨?_, ?_⟩, ?_, by simp⟩
      · simp [statusOf]
      · intro hr
        simp [answers_publishCompletion, successCompletion, hr, hstatus]
      · intro id hid
        refine ⟨?_, fun inbox => ?_⟩
        · simp [hid]
        · simp [answers_publishCompletion, successCompletion, Ne.symm hid]

/-! ## The loop -/

/-- All children run, or one fails and those behind it never run. -/
theorem childRuns_shape (children : List LabelData) (s : σ) :
    (∀ o ∈ childRuns w children s, o = some .complete) ∨
      ∃ pre c post, children = pre ++ c :: post ∧
        childRuns w children s =
          pre.map (fun _ => some .complete) ++ some .error :: post.map fun _ => none := by
  induction children generalizing s with
  | nil =>
      left
      intro o ho
      exact absurd ho List.not_mem_nil
  | cons child rest ih =>
      rw [childRuns]
      split
      · rcases ih (childStep w child s).2 with hall | ⟨pre, c, post, rfl, hruns⟩
        · left
          intro o ho
          rcases List.mem_cons.mp ho with rfl | ho
          · rfl
          · exact hall o ho
        · right
          exact ⟨child :: pre, c, post, rfl, by rw [hruns]; rfl⟩
      · right
        exact ⟨[], child, rest, rfl, rfl⟩

/-- The loop settles every child as it fared, touches no other label, and
returns normally when every child was executed. -/
theorem runChildren_spec (children : List LabelData) (hids : DistinctIds children)
    (bytes : UInt64) (st : WorkerState σ) :
    (∀ id, id ∉ children.map (·.id) → Untouched st (runChildren w children bytes st).2 id) ∧
      (∀ x ∈ children.zip (childRuns w children st.storage),
        Settled st (runChildren w children bytes st).2 x.1 x.2) ∧
      ((∃ total, (runChildren w children bytes st).1 = .ok total) ↔
        ∀ o ∈ childRuns w children st.storage, o = some .complete) := by
  induction children generalizing bytes st with
  | nil => exact ⟨fun _ _ => ⟨rfl, fun _ => rfl⟩, by simp, by simp [runChildren, childRuns]⟩
  | cons child rest ih =>
      unfold DistinctIds at hids
      rw [List.map_cons, List.nodup_cons] at hids
      obtain ⟨hstorage, hsettled, hother, hok⟩ := runChild_spec w child st
      cases hrun : runChild w child st with
      | mk outcome st' =>
          rw [hrun] at hstorage hsettled hother hok
          cases outcome with
          | ok transferred =>
              have hstep : (childStep w child st.storage).1 = true := hok.mp ⟨_, rfl⟩
              rw [childRuns, if_pos hstep, runChildren, hrun]
              rw [if_pos hstep] at hsettled
              dsimp only at hstorage hsettled hother ⊢
              obtain ⟨huntouched, hrest, hall⟩ := ih hids.2 (bytes + transferred) st'
              rw [hstorage] at hrest hall
              refine ⟨?_, ?_, ?_⟩
              · intro id hid
                rw [List.map_cons, List.mem_cons, not_or] at hid
                exact (hother id hid.1).trans (huntouched id hid.2)
              · intro x hx
                rw [List.zip_cons_cons] at hx
                rcases List.mem_cons.mp hx with rfl | hx
                · -- the rest of the loop leaves this child as it is
                  have hkeep := huntouched child.id hids.1
                  refine ⟨?_, fun hr => ?_⟩
                  · rw [hkeep.1]
                    exact hsettled.1
                  · rw [hkeep.2]
                    exact hsettled.2 hr
                · have hmem : x.1 ∈ rest := (List.of_mem_zip hx).1
                  have hne : x.1.id ≠ child.id :=
                    fun he => hids.1 (he ▸ List.mem_map_of_mem hmem)
                  have hx' := hrest x hx
                  have hkeep := hother x.1.id hne
                  cases ho : x.2 with
                  | none =>
                      rw [ho] at hx'
                      exact ⟨hx'.1.trans hkeep.1, hx'.2.trans (hkeep.2 _)⟩
                  | some o =>
                      rw [ho] at hx'
                      refine ⟨hx'.1, fun hr => ?_⟩
                      rw [hx'.2 hr, hkeep.2]
              · rw [hall]
                simp
          | error text =>
              have hstep : ¬(childStep w child st.storage).1 = true := by
                intro hs
                obtain ⟨b, hb⟩ := hok.mpr hs
                exact absurd hb (by simp)
              rw [childRuns, if_neg hstep, runChildren, hrun]
              rw [if_neg hstep] at hsettled
              dsimp only at hsettled hother ⊢
              refine ⟨?_, ?_, by simp⟩
              · intro id hid
                rw [List.map_cons, List.mem_cons, not_or] at hid
                exact hother id hid.1
              · intro x hx
                rw [List.zip_cons_cons] at hx
                rcases List.mem_cons.mp hx with rfl | hx
                · exact hsettled
                · obtain ⟨hmem, hnone⟩ := List.of_mem_zip hx
                  obtain ⟨_, _, hx2⟩ := List.mem_map.mp hnone
                  have hne : x.1.id ≠ child.id :=
                    fun he => hids.1 (he ▸ List.mem_map_of_mem hmem)
                  have hkeep := hother x.1.id hne
                  rw [← hx2]
                  exact ⟨hkeep.1, hkeep.2 _⟩

/-! ## The composite -/

section Composite

variable (storage : σ) (catalog : StatusCatalog) (workerId : Int) (st : Supertask)

/-- The worker's state when the child loop starts. -/
def loopStart : WorkerState σ :=
  let composite := markLabelExecuting st.composite w.name w.now
  { delivered storage catalog workerId st with
    catalog := ((delivered storage catalog workerId st).catalog.setStatus composite.id
      .executing).setFlags composite.id composite.flags }

/-- The worker's state when the child loop is left. -/
def loopEnd : WorkerState σ :=
  (runChildren w st.children 0 (loopStart w storage catalog workerId st)).2

/-- No child threw. -/
def AllRan : Prop := ∀ o ∈ childRuns w st.children storage, o = some .complete

instance : Decidable (AllRan w storage st) := by
  unfold AllRan
  infer_instance

variable {st}

theorem loopEnd_spec (hwf : SupertaskWF st) :
    (∀ id, id ∉ st.children.map (·.id) →
        Untouched (loopStart w storage catalog workerId st) (loopEnd w storage catalog workerId st)
          id) ∧
      (∀ x ∈ st.children.zip (childRuns w st.children storage),
        Settled (loopStart w storage catalog workerId st)
          (loopEnd w storage catalog workerId st) x.1 x.2) ∧
      ((∃ total, (runChildren w st.children 0 (loopStart w storage catalog workerId st)).1 =
        .ok total) ↔ AllRan w storage st) :=
  runChildren_spec w st.children hwf.distinct 0 (loopStart w storage catalog workerId st)

/-- After the loop the composite answers nobody, and writes the status of the one
label whose id it has. -/
theorem processLabel_composite (hwf : SupertaskWF st) :
    (processLabel w st.composite (delivered storage catalog workerId st)).published =
        (loopEnd w storage catalog workerId st).published ∧
      ∀ id, ((processLabel w st.composite (delivered storage catalog workerId st)).catalog
          id).status =
        if id = st.composite.id ∧ AllRan w storage st then some .complete
        else if id = st.composite.id ∧ id ≠ 0 then some .error
        else ((loopEnd w storage catalog workerId st).catalog id).status := by
  have hok := (loopEnd_spec w storage catalog workerId hwf).2.2
  have hpacked : (delivered storage catalog workerId st).supertasks st.composite.id =
      some st.children := by
    simp [delivered]
  unfold processLabel
  simp only [markLabelExecuting_type, hwf.type, markLabelExecuting_id, hpacked]
  unfold loopEnd
  rcases hrun : runChildren w st.children 0 (loopStart w storage catalog workerId st) with
    ⟨outcome, st'⟩
  rw [hrun] at hok
  simp only [loopStart, markLabelExecuting_id] at hrun
  rw [hrun]
  cases outcome with
  | ok bytes =>
      have hall : AllRan w storage st := hok.mp ⟨bytes, rfl⟩
      refine ⟨by simp [finishLabel, publishCompletion, hwf.replyTo], fun id => ?_⟩
      by_cases hid : id = st.composite.id
      · subst hid
        simp [finishLabel, hall]
      · simp [finishLabel, hid]
  | error text =>
      have hall : ¬AllRan w storage st := by
        intro h
        obtain ⟨_, hbytes⟩ := hok.mpr h
        exact absurd hbytes (by simp)
      refine ⟨by simp [failLabel, publishCompletion, hwf.replyTo], fun id => ?_⟩
      by_cases hid : id = st.composite.id
      · subst hid
        by_cases hzero : st.composite.id = 0
        · simp [failLabel, errorCompletion, hall, hzero]
        · simp [failLabel, errorCompletion, hall, hzero]
      · rw [if_neg fun h => hid h.1, if_neg fun h => hid h.1]
        by_cases hzero : st.composite.id = 0
        · simp [failLabel, errorCompletion, hzero]
        · simp [failLabel, errorCompletion, hid, hzero]

/-- A child other than the first is scheduled when the loop starts. -/
theorem loopStart_status {child : LabelData} (hmem : child ∈ st.children)
    (hne : child.id ≠ st.composite.id) :
    ((loopStart w storage catalog workerId st).catalog child.id).status = some .scheduled := by
  simp only [loopStart, markLabelExecuting_id, setFlags_status, setStatus_of_ne _ _ _ _ hne,
    delivered]
  apply scheduleBatch_status
  rw [List.map_map, List.map_append]
  exact List.mem_append_left _ (List.mem_map.mpr ⟨child, hmem, rfl⟩)

/-! ## The result -/

/-- `c` is the first child to throw: the children `pre` were executed, those of
`post` never run. -/
def FirstThrow (pre : List LabelData) (c : LabelData) (post : List LabelData) : Prop :=
  childRuns w (pre ++ c :: post) storage =
    pre.map (fun _ => some .complete) ++ some .error :: post.map fun _ => none

/-- A child that was reached is answered with its outcome. -/
theorem answers_of_reached (hwf : SupertaskWF st) {child : LabelData}
    {outcome : CompletionStatus}
    (hx : (child, some outcome) ∈ st.children.zip (childRuns w st.children storage))
    (hr : child.replyTo ≠ "") :
    answers (processLabel w st.composite (delivered storage catalog workerId st)).published
      child.replyTo child.id = [outcome] := by
  rw [(processLabel_composite w storage catalog workerId hwf).1]
  have hsettled := (loopEnd_spec w storage catalog workerId hwf).2.1 _ hx
  exact (hsettled.2 hr).trans rfl

/-- Its status is that outcome too, unless the composite overwrites it. -/
theorem status_of_reached (hwf : SupertaskWF st) {child : LabelData}
    {outcome : CompletionStatus}
    (hx : (child, some outcome) ∈ st.children.zip (childRuns w st.children storage)) :
    ((processLabel w st.composite (delivered storage catalog workerId st)).catalog
        child.id).status =
      if child.id = st.composite.id ∧ AllRan w storage st then some .complete
      else if child.id = st.composite.id ∧ child.id ≠ 0 then some .error
      else some (statusOf outcome) := by
  rw [(processLabel_composite w storage catalog workerId hwf).2,
    ((loopEnd_spec w storage catalog workerId hwf).2.1 _ hx).1]

/-- The children beside what became of them, when `c` throws first. -/
theorem zip_of_firstThrow {pre : List LabelData} {c : LabelData} {post : List LabelData}
    (hch : st.children = pre ++ c :: post) (h : FirstThrow w storage pre c post) :
    st.children.zip (childRuns w st.children storage) =
      pre.map (fun x => (x, some .complete)) ++
        (c, some .error) :: post.map fun x => (x, none) := by
  have hself : ∀ (l : List LabelData) (o : Option CompletionStatus),
      l.zip (l.map fun _ => o) = l.map fun x => (x, o) := by
    intro l o
    induction l with
    | nil => rfl
    | cons x l ih => rw [List.map_cons, List.zip_cons_cons, ih, List.map_cons]
  rw [hch, h, List.zip_append (List.length_map _).symm, List.zip_cons_cons, hself, hself]

theorem not_allRan_of_firstThrow {pre : List LabelData} {c : LabelData} {post : List LabelData}
    (hch : st.children = pre ++ c :: post) (h : FirstThrow w storage pre c post) :
    ¬AllRan w storage st := by
  intro hall
  unfold AllRan at hall
  rw [hch, h] at hall
  exact absurd (hall (some .error) (by simp)) (by simp)

theorem childrenAnswered_iff :
    ChildrenAnswered w st (delivered storage catalog workerId st) ↔
      ∀ x ∈ st.children.zip (childRuns w st.children storage),
        (x.1.replyTo ≠ "" →
          answers (processLabel w st.composite (delivered storage catalog workerId st)).published
            x.1.replyTo x.1.id = [x.2.getD .error]) ∧
        ((processLabel w st.composite (delivered storage catalog workerId st)).catalog
          x.1.id).status = some (statusOf (x.2.getD .error)) := by
  unfold ChildrenAnswered childOutcomes
  rw [List.zip_map_right]
  exact List.forall_mem_map

/-- A throwing child with children behind it, or behind an executed child whose
id is not 0, shows. -/
theorem late_throw_of_answered (hwf : SupertaskWF st)
    (hans : ChildrenAnswered w st (delivered storage catalog workerId st))
    {pre : List LabelData} {c : LabelData} {post : List LabelData}
    (hch : st.children = pre ++ c :: post) (hthrow : FirstThrow w storage pre c post) :
    post = [] ∧ (pre = [] ∨ st.composite.id = 0) := by
  rw [childrenAnswered_iff, zip_of_firstThrow w storage hch hthrow] at hans
  have hzip := zip_of_firstThrow w storage hch hthrow
  have hall := not_allRan_of_firstThrow w storage hch hthrow
  obtain ⟨first, rest, hfirst, hid⟩ := hwf.first
  constructor
  · cases post with
    | nil => rfl
    | cons d post =>
        -- `d` is not the first child, and the loop never reached it
        have hd : d ∈ st.children := by simp [hch]
        have hne : d.id ≠ st.composite.id := by
          have hnodup := hwf.distinct
          unfold DistinctIds at hnodup
          rw [hid]
          intro heq
          cases pre with
          | nil =>
              obtain ⟨rfl, rfl⟩ := List.cons.inj (hch.symm.trans hfirst)
              rw [hfirst, List.map_cons, List.map_cons, List.nodup_cons] at hnodup
              exact hnodup.1 (heq ▸ List.mem_cons_self)
          | cons a pre =>
              obtain ⟨rfl, rfl⟩ := List.cons.inj (hch.symm.trans hfirst)
              rw [hfirst, List.map_cons, List.nodup_cons] at hnodup
              exact hnodup.1 (heq ▸ List.mem_map_of_mem (by simp))
        have hstatus := (hans (d, none) (by simp)).2
        have hnever := ((loopEnd_spec w storage catalog workerId hwf).2.1 (d, none)
          (by rw [hzip]; simp)).1
        rw [(processLabel_composite w storage catalog workerId hwf).2,
          if_neg fun h => hne h.1, if_neg fun h => hne h.1, hnever,
          loopStart_status w storage catalog workerId hd hne] at hstatus
        exact absurd hstatus (by simp [statusOf])
  · cases pre with
    | nil => exact .inl rfl
    | cons a pre =>
        -- the composite's error status lands on the first child
        right
        obtain ⟨rfl, rfl⟩ := List.cons.inj (hch.symm.trans hfirst)
        by_contra hzero
        have hstatus := (hans (a, some .complete) (by simp)).2
        have hrun : (a, some .complete) ∈ st.children.zip (childRuns w st.children storage) := by
          rw [hzip]
          simp
        rw [status_of_reached w storage catalog workerId hwf hrun, if_neg fun h => hall h.2,
          if_pos ⟨hid.symm, hid ▸ hzero⟩] at hstatus
        exact absurd hstatus (by simp [statusOf])

/-- **Supertask failure.** Every child is answered and recorded exactly when no
child throws, or the one that throws is the last and the composite's error
status meets no executed child. -/
theorem supertask_failure_iff (hwf : SupertaskWF st) :
    ChildrenAnswered w st (delivered storage catalog workerId st) ↔
      ∀ pre c post, st.children = pre ++ c :: post → FirstThrow w storage pre c post →
        post = [] ∧ (pre = [] ∨ st.composite.id = 0) := by
  refine ⟨fun hans pre c post => late_throw_of_answered w storage catalog workerId hwf hans, ?_⟩
  intro hlate
  rw [childrenAnswered_iff]
  rcases childRuns_shape w st.children storage with hall | ⟨pre, c, post, hch, hruns⟩
  · rintro ⟨child, o⟩ hx
    obtain rfl := hall o (List.of_mem_zip hx).2
    refine ⟨answers_of_reached w storage catalog workerId hwf hx, ?_⟩
    rw [status_of_reached w storage catalog workerId hwf hx]
    by_cases hid : child.id = st.composite.id
    · exact if_pos ⟨hid, hall⟩
    · rw [if_neg fun h => hid h.1, if_neg fun h => hid h.1]
      rfl
  · have hthrow : FirstThrow w storage pre c post := by
      unfold FirstThrow
      rw [← hch, hruns]
    obtain ⟨rfl, hpre⟩ := hlate pre c post hch hthrow
    have hall := not_allRan_of_firstThrow w storage hch hthrow
    have hzip := zip_of_firstThrow w storage hch hthrow
    rintro ⟨child, o⟩ hx
    obtain ⟨outcome, rfl⟩ : ∃ outcome, o = some outcome := by
      rw [hzip] at hx
      rcases List.mem_append.mp hx with hx | hx
      · obtain ⟨_, _, hx⟩ := List.mem_map.mp hx
        exact ⟨_, (congrArg Prod.snd hx).symm⟩
      · exact ⟨_, congrArg Prod.snd (List.mem_singleton.mp hx)⟩
    refine ⟨answers_of_reached w storage catalog workerId hwf hx, ?_⟩
    rw [status_of_reached w storage catalog workerId hwf hx, if_neg fun h => hall h.2]
    by_cases hid : child.id = st.composite.id ∧ child.id ≠ 0
    · -- only the throwing child can carry the composite's id
      obtain rfl := hpre.resolve_right (hid.1 ▸ hid.2)
      rw [hzip] at hx
      obtain ⟨rfl, ho⟩ := Prod.mk.inj (List.mem_singleton.mp hx)
      obtain rfl := Option.some.inj ho
      exact if_pos hid
    · rw [if_neg hid]
      rfl

end Composite

/-- Every supertask of a shuffle is one. -/
theorem shuffle_supertaskWF {S : StdSort} {config : ShufflerConfig} {batch : List LabelData}
    {lookup : Option LocationLookup} (h : DistinctIds batch) {st : Supertask}
    (hst : st ∈ (shuffle S config batch lookup).supertasks) : SupertaskWF st := by
  have hsorted := unit_sorted h (List.mem_append_left _ (List.mem_map_of_mem hst))
  have hfirst := supertask_first h hst
  obtain ⟨key, first, rest, _, rfl⟩ := (mem_supertasks h).mp hst
  refine ⟨rfl, rfl, ?_, hfirst⟩
  unfold DistinctIds
  rw [List.nodup_iff_pairwise_ne, List.pairwise_map]
  refine hsorted.imp fun hlt heq => ?_
  rw [heq, UInt64.lt_iff_toNat_lt] at hlt
  exact Nat.lt_irrefl _ hlt

/-- A worker whose writes succeed and whose reads throw. -/
def readsFail : Worker Unit :=
  { name := "worker-1"
    now := 1
    executeWrite := fun _ s => (.ok {}, s)
    executeRead := fun _ s => (.error "could not open file for reading", s)
    processContinuation := fun _ _ s => s
    write_complete := by
      intro l s r h
      obtain rfl := Except.ok.inj h
      rfl
    read_complete := fun _ _ _ h => nomatch h }

/-- One application writes file "a", reads a file "b" that does not exist, and
writes "a" again. -/
def readBetweenWrites : List LabelData :=
  [receive "_INBOX.1" 1 (writeChunk 5 7 1 0 "a" 0 10),
    receive "_INBOX.2" 1 (readChunk 6 7 1 "b" 0 10),
    receive "_INBOX.3" 1 (writeChunk 7 7 1 0 "a" 0 10)]

/-- The supertask over the three. -/
def readBetweenWritesTask : Supertask :=
  (shuffle .insertion { depGranularity := "per-application" } readBetweenWrites
    none).supertasks.head (by decide)

theorem supertask_failure_readBetweenWrites :
    ChildrenAnswered readsFail readBetweenWritesTask
        (delivered () (fun _ => {}) 1 readBetweenWritesTask) ↔
      ∀ pre c post, readBetweenWritesTask.children = pre ++ c :: post →
        FirstThrow readsFail () pre c post →
          post = [] ∧ (pre = [] ∨ readBetweenWritesTask.composite.id = 0) :=
  supertask_failure_iff readsFail () (fun _ => {}) 1
    (shuffle_supertaskWF (by decide) (List.head_mem _))

/-- The first write is recorded as failed, and the second is never answered. -/
theorem readBetweenWrites_not_answered :
    ¬ChildrenAnswered readsFail readBetweenWritesTask
      (delivered () (fun _ => {}) 1 readBetweenWritesTask) := by
  unfold ChildrenAnswered
  decide

end Labios
