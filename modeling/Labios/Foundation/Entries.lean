import Mathlib.Data.List.AList
import Mathlib.Data.List.Basic

/-!
# Entries of changed lists and tables

What is in a list after one entry was replaced or one more was added. The calls of a
machine are such a list: a step replaces the entry of its call. And what a table holds
after a key was set or erased.
-/

namespace Foundation

variable {α : Type} {l : List α} {i j : Nat} {a x : α} {P : α → Prop}

theorem getElem?_set_cases (h : (l.set i a)[j]? = some x) :
    j = i ∧ x = a ∨ j ≠ i ∧ l[j]? = some x := by
  rw [List.getElem?_set] at h
  split at h
  · next heq =>
      split at h
      · exact .inl ⟨heq.symm, (Option.some.inj h).symm⟩
      · cases h
  · next hne => exact .inr ⟨fun heq => hne heq.symm, h⟩

theorem getElem?_snoc_cases (h : (l ++ [a])[i]? = some x) :
    l[i]? = some x ∨ i = l.length ∧ x = a := by
  rcases Nat.lt_trichotomy i l.length with hlt | rfl | hgt
  · rw [List.getElem?_append_left hlt] at h
    exact .inl h
  · rw [List.getElem?_append_right (Nat.le_refl _), Nat.sub_self] at h
    exact .inr ⟨rfl, (Option.some.inj h).symm⟩
  · have hlength := (List.getElem?_eq_some_iff.mp h).1
    rw [List.length_append, List.length_singleton] at hlength
    omega

theorem mem_set_self (hx : l[i]? = some x) : a ∈ l.set i a :=
  List.mem_set (List.getElem?_eq_some_iff.mp hx).1 a

theorem mem_set_of_ne (hx : l[j]? = some x) (hne : j ≠ i) : x ∈ l.set i a := by
  refine List.mem_of_getElem? (i := j) ?_
  rw [List.getElem?_set_ne hne.symm]
  exact hx

/-- An entry of some kind is the one that changes, or stays in the list. -/
theorem exists_set (hx : l[i]? = some x) (h : ∃ c ∈ l, P c) : P x ∨ ∃ c ∈ l.set i a, P c := by
  obtain ⟨c, hc, hP⟩ := h
  obtain ⟨j, hj⟩ := List.mem_iff_getElem?.mp hc
  by_cases hji : j = i
  · subst hji
    obtain rfl := Option.some.inj (hj.symm.trans hx)
    exact .inl hP
  · exact .inr ⟨c, mem_set_of_ne hj hji, hP⟩

theorem forall_set (h : ∀ c ∈ l, P c) (hnew : P a) : ∀ c ∈ l.set i a, P c := by
  intro c hc
  rcases List.mem_or_eq_of_mem_set hc with hold | rfl
  · exact h c hold
  · exact hnew

theorem forall_snoc (h : ∀ c ∈ l, P c) (hnew : P a) : ∀ c ∈ l ++ [a], P c := by
  intro c hc
  rcases List.mem_append.mp hc with hold | hlast
  · exact h c hold
  · rw [List.mem_singleton.mp hlast]
    exact hnew

section Tables

variable {κ ν : Type} [DecidableEq κ] {t : AList fun _ : κ => ν} {k k' : κ} {v x : ν}

theorem lookup_insert_cases (h : (t.insert k v).lookup k' = some x) :
    k' = k ∧ x = v ∨ k' ≠ k ∧ t.lookup k' = some x := by
  by_cases hk : k' = k
  · rw [hk, AList.lookup_insert] at h
    exact .inl ⟨hk, (Option.some.inj h).symm⟩
  · rw [AList.lookup_insert_ne hk] at h
    exact .inr ⟨hk, h⟩

theorem lookup_of_erase (h : (t.erase k).lookup k' = some x) : k' ≠ k ∧ t.lookup k' = some x := by
  by_cases hk : k' = k
  · rw [hk, AList.lookup_erase] at h
    cases h
  · rw [AList.lookup_erase_ne hk] at h
    exact ⟨hk, h⟩

end Tables

end Foundation
