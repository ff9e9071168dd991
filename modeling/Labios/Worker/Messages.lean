import Labios.Worker.Model

/-!
# Working through a list of messages

Workers take the messages of `labios.worker.<id>` one at a time; `processMessages`
is their run in one order. When every execution succeeds, what is published goes
to the addressees of the messages and to no one else
(`processMessages_inboxes`).
-/

namespace Labios

variable {σ : Type} (w : Int → Worker σ)

/-- The messages, each processed by the worker it was sent to. -/
def processMessages (messages : List (Int × LabelData)) (st : WorkerState σ) : WorkerState σ :=
  messages.foldl (fun st m => processLabel (w m.1) m.2 st) st

/-- The execution of a label, or of every child of a composite, succeeds. -/
def Succeeds (w : Worker σ) (label : LabelData) (st : WorkerState σ) : Prop :=
  match label.type with
  | .write => ∃ r, (w.executeWrite (markLabelExecuting label w.name w.now) st.storage).1 = .ok r
  | .read => ∃ r, (w.executeRead (markLabelExecuting label w.name w.now) st.storage).1 = .ok r
  | .composite => ∃ children bytes, st.supertasks label.id = some children ∧
      (runChildren w children 0 { st with
        catalog := (st.catalog.setStatus label.id .executing).setFlags label.id
          (markLabelExecuting label w.name w.now).flags }).1 = .ok bytes
  | _ => False

/-- Every message of the run succeeds. -/
def AllSucceed : List (Int × LabelData) → WorkerState σ → Prop
  | [], _ => True
  | m :: rest, st => Succeeds (w m.1) m.2 st ∧ AllSucceed rest (processLabel (w m.1) m.2 st)

/-- The addresses that are not empty. -/
def nonEmpty (inboxes : List String) : List String := inboxes.filter (fun r => r ≠ "")

/-- Who is to be answered when a label is executed. -/
def addressees (supertasks : UInt64 → Option (List LabelData)) (label : LabelData) :
    List String :=
  if label.type = .composite then
    nonEmpty (((supertasks label.id).getD []).map (·.replyTo) ++ [label.replyTo])
  else nonEmpty [label.replyTo]

theorem nonEmpty_append (a b : List String) : nonEmpty (a ++ b) = nonEmpty a ++ nonEmpty b :=
  List.filter_append ..

theorem publishCompletion_inboxes (published : List (String × CompletionData)) (replyTo : String)
    (completion : CompletionData) :
    (publishCompletion published replyTo completion).map (·.1) =
      published.map (·.1) ++ nonEmpty [replyTo] := by
  unfold publishCompletion nonEmpty
  by_cases hr : replyTo = ""
  · simp [hr]
  · simp [hr]

/-- The loop answers the children it reaches, and only the loop's end matters:
with success these are all of them. -/
theorem runChildren_inboxes (w : Worker σ) (children : List LabelData) (bytes : UInt64)
    (st : WorkerState σ) {total : UInt64} (h : (runChildren w children bytes st).1 = .ok total) :
    (runChildren w children bytes st).2.published.map (·.1) =
        st.published.map (·.1) ++ nonEmpty (children.map (·.replyTo)) ∧
      (runChildren w children bytes st).2.supertasks = st.supertasks := by
  induction children generalizing bytes st with
  | nil => exact ⟨by simp [runChildren, nonEmpty], rfl⟩
  | cons child rest ih =>
      have hone : (runChild w child st).2.published.map (·.1) =
            st.published.map (·.1) ++ nonEmpty [child.replyTo] ∧
          (runChild w child st).2.supertasks = st.supertasks := by
        simp only [runChild]
        rcases executeChild w (markLabelExecuting child w.name w.now) st.storage with ⟨outcome, s⟩
        cases outcome with
        | ok result => simp [publishCompletion_inboxes]
        | error text => simp [publishCompletion_inboxes]
      rw [runChildren] at h ⊢
      rcases hrun : runChild w child st with ⟨outcome, st'⟩
      rw [hrun] at h hone
      cases outcome with
      | error text => exact absurd h (by simp)
      | ok transferred =>
          obtain ⟨hinboxes, hsupertasks⟩ := ih (bytes + transferred) st' h
          refine ⟨?_, hsupertasks.trans hone.2⟩
          dsimp only
          rw [hinboxes, hone.1, List.append_assoc, ← nonEmpty_append, List.map_cons,
            List.singleton_append]

/-- One message that succeeds: its addressees are answered, and only its own
supertask is unpacked. -/
theorem processLabel_inboxes (w : Worker σ) (label : LabelData) (st : WorkerState σ)
    (h : Succeeds w label st) :
    (processLabel w label st).published.map (·.1) =
        st.published.map (·.1) ++ addressees st.supertasks label ∧
      ∀ id, id ≠ label.id → (processLabel w label st).supertasks id = st.supertasks id := by
  unfold Succeeds at h
  unfold processLabel addressees
  simp only [markLabelExecuting_type, markLabelExecuting_id]
  cases htype : label.type with
  | write =>
      simp only [htype] at h
      obtain ⟨r, hr⟩ := h
      rcases hexec : w.executeWrite (markLabelExecuting label w.name w.now) st.storage with
        ⟨outcome, s⟩
      rw [hexec] at hr
      obtain rfl : outcome = .ok r := hr
      simp [finishLabel, publishCompletion_inboxes]
  | read =>
      simp only [htype] at h
      obtain ⟨r, hr⟩ := h
      rcases hexec : w.executeRead (markLabelExecuting label w.name w.now) st.storage with
        ⟨outcome, s⟩
      rw [hexec] at hr
      obtain rfl : outcome = .ok r := hr
      simp [finishLabel, publishCompletion_inboxes]
  | composite =>
      simp only [htype] at h
      obtain ⟨children, bytes, hpacked, hrun⟩ := h
      obtain ⟨hinboxes, hsupertasks⟩ := runChildren_inboxes w children 0 _ hrun
      simp only [hpacked]
      rcases hloop : runChildren w children 0 { st with
        catalog := (st.catalog.setStatus label.id .executing).setFlags label.id
          (markLabelExecuting label w.name w.now).flags } with ⟨outcome, st'⟩
      rw [hloop] at hrun hinboxes hsupertasks
      obtain rfl : outcome = .ok bytes := hrun
      dsimp only at hinboxes hsupertasks
      refine ⟨?_, fun id hid => ?_⟩
      · simp [finishLabel, publishCompletion_inboxes, hinboxes, nonEmpty_append]
      · show Function.update st'.supertasks label.id none id = _
        rw [Function.update_of_ne hid, hsupertasks]
  | delete => simp [htype] at h
  | flush => simp [htype] at h
  | observe => simp [htype] at h

/-- A run that succeeds answers the addressees of its messages, in run order. -/
theorem processMessages_inboxes (messages : List (Int × LabelData)) (st : WorkerState σ)
    (hids : (messages.map (·.2.id)).Nodup) (hok : AllSucceed w messages st) :
    (processMessages w messages st).published.map (·.1) =
      st.published.map (·.1) ++ messages.flatMap fun m => addressees st.supertasks m.2 := by
  induction messages generalizing st with
  | nil => simp [processMessages]
  | cons m rest ih =>
      rw [List.map_cons, List.nodup_cons] at hids
      obtain ⟨hone, hother⟩ := processLabel_inboxes (w m.1) m.2 st hok.1
      have hsame : rest.flatMap (fun m' => addressees (processLabel (w m.1) m.2 st).supertasks m'.2) =
          rest.flatMap fun m' => addressees st.supertasks m'.2 := by
        apply List.flatMap_congr
        intro m' hm'
        have hne : m'.2.id ≠ m.2.id := fun he => hids.1 (he ▸ List.mem_map_of_mem hm')
        unfold addressees
        rw [hother _ hne]
      have hrest := ih (processLabel (w m.1) m.2 st) hids.2 hok.2
      unfold processMessages at hrest ⊢
      rw [List.foldl_cons, hrest, hone, hsame, List.flatMap_cons, List.append_assoc]

end Labios
