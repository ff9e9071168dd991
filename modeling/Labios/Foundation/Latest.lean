import Mathlib.Data.List.Basic

/-!
# The latest answer of a history

Some events of a history answer a question, and a later answer replaces an earlier one.
`latest_eq_some_iff` says which event gave the answer that holds at the end.
-/

namespace Foundation

variable {α β : Type} {f : α → Option β} {history front back : List α} {e : α} {b : β}

def latest (f : α → Option β) (history : List α) : Option β := history.reverse.findSome? f

@[simp] theorem latest_nil (f : α → Option β) : latest f [] = none := rfl

theorem latest_append (f : α → Option β) (front back : List α) :
    latest f (front ++ back) = (latest f back).or (latest f front) := by
  unfold latest
  rw [List.reverse_append, List.findSome?_append]

theorem latest_concat (f : α → Option β) (history : List α) (e : α) :
    latest f (history ++ [e]) = (f e).or (latest f history) := by
  rw [latest_append]
  congr 1
  unfold latest
  rw [List.reverse_singleton, List.findSome?_singleton]

theorem latest_eq_none_iff : latest f history = none ↔ ∀ e ∈ history, f e = none := by
  unfold latest
  rw [List.findSome?_eq_none_iff]
  simp only [List.mem_reverse]

theorem latest_eq_some_iff :
    latest f history = some b ↔
      ∃ front e back, history = front ++ e :: back ∧ f e = some b ∧ ∀ e' ∈ back, f e' = none := by
  unfold latest
  rw [List.findSome?_eq_some_iff]
  constructor
  · rintro ⟨back, e, front, hhistory, he, hback⟩
    refine ⟨front.reverse, e, back.reverse, ?_, he, fun e' he' => hback e' (List.mem_reverse.mp he')⟩
    rw [List.reverse_eq_iff.mp hhistory, List.reverse_append, List.reverse_cons, List.append_assoc,
      List.singleton_append]
  · rintro ⟨front, e, back, rfl, he, hback⟩
    refine ⟨back.reverse, e, front.reverse, ?_, he, fun e' he' => hback e' (List.mem_reverse.mp he')⟩
    rw [List.reverse_append, List.reverse_cons, List.append_assoc, List.singleton_append]

/-- Nothing stands between an event after which nobody answers and a later answer. -/
theorem latest_unmoved {between back' : List α} {e' : α} {b' : β} (hback : ∀ x ∈ back, f x = none)
    (he' : f e' = some b') (heq : e :: back = between ++ e' :: back') :
    between = [] ∧ e = e' ∧ back = back' := by
  cases between with
  | nil =>
      obtain ⟨rfl, rfl⟩ := List.cons.inj heq
      exact ⟨rfl, rfl, rfl⟩
  | cons x between =>
      obtain ⟨rfl, rfl⟩ := List.cons.inj heq
      have hnone := hback e' (List.mem_append_right _ List.mem_cons_self)
      rw [he'] at hnone
      cases hnone

/-- There is only one event that gave the latest answer. -/
theorem latest_split_unique {front' back' : List α} {e' : α} {b' : β} (he : f e = some b)
    (hback : ∀ x ∈ back, f x = none) (he' : f e' = some b') (hback' : ∀ x ∈ back', f x = none)
    (heq : front ++ e :: back = front' ++ e' :: back') :
    front = front' ∧ e = e' ∧ back = back' := by
  rcases List.append_eq_append_iff.mp heq with ⟨between, hfront, hrest⟩ | ⟨between, hfront, hrest⟩
  · obtain ⟨rfl, rfl, rfl⟩ := latest_unmoved hback he' hrest
    exact ⟨by rw [hfront, List.append_nil], rfl, rfl⟩
  · obtain ⟨rfl, rfl, rfl⟩ := latest_unmoved hback' he hrest
    exact ⟨by rw [hfront, List.append_nil], rfl, rfl⟩

end Foundation
