import Mathlib.Algebra.GroupWithZero.Nat
import Mathlib.Algebra.Order.BigOperators.Group.List
import Mathlib.Algebra.Order.Group.Nat
import Mathlib.Data.List.AList

/-!
# How many entries of a table

The number of entries of a table that meet a condition, and how an insertion and a removal
change it. At the end, lists whose elements have a positive weight.
-/

namespace Foundation

variable {κ β : Type} [DecidableEq κ] {m : AList fun _ : κ => β} {k : κ} {v w : β}
  {p : κ → β → Bool}

def countOf (m : AList fun _ : κ => β) (p : κ → β → Bool) : Nat :=
  m.entries.countP fun e => p e.1 e.2

theorem countOf_erase_le (m : AList fun _ : κ => β) (k : κ) (p : κ → β → Bool) :
    countOf (m.erase k) p ≤ countOf m p :=
  (List.kerase_sublist k m.entries).countP_le

theorem countOf_insert (m : AList fun _ : κ => β) (k : κ) (v : β) (p : κ → β → Bool) :
    countOf (m.insert k v) p = countOf (m.erase k) p + if p k v then 1 else 0 := by
  unfold countOf
  rw [AList.entries_insert, List.countP_cons]
  rfl

theorem countOf_of_lookup (h : m.lookup k = some v) (p : κ → β → Bool) :
    countOf m p = countOf (m.erase k) p + if p k v then 1 else 0 := by
  have hkey : k ∈ m.entries.keys := AList.lookup_isSome.mp (Option.isSome_of_mem h)
  obtain ⟨v', front, back, -, hentries, herase⟩ := List.exists_of_kerase hkey
  have hmem : (⟨k, v'⟩ : Sigma fun _ : κ => β) ∈ m.entries := by
    rw [hentries]
    exact List.mem_append_right _ List.mem_cons_self
  obtain rfl := Option.some.inj (h.symm.trans (AList.mem_lookup_iff.mpr hmem))
  unfold countOf
  show m.entries.countP _ = (m.entries.kerase k).countP _ + _
  rw [herase, hentries, List.countP_append, List.countP_append, List.countP_cons]
  exact (Nat.add_assoc _ _ _).symm

/-- A new entry is counted besides the others. -/
theorem countOf_insert_new (h : m.lookup k = none) (v : β) (p : κ → β → Bool) :
    countOf (m.insert k v) p = countOf m p + if p k v then 1 else 0 := by
  have hkey : k ∉ m.entries.keys := fun hmem => AList.lookup_eq_none.mp h hmem
  have herase : (m.erase k).entries = m.entries := List.kerase_of_notMem_keys hkey
  rw [countOf_insert]
  unfold countOf
  rw [herase]

theorem countOf_eq_zero_iff :
    countOf m p = 0 ↔ ∀ k v, m.lookup k = some v → p k v = false := by
  unfold countOf
  rw [List.countP_eq_zero]
  constructor
  · intro h k v hlookup
    exact Bool.eq_false_iff.mpr (h ⟨k, v⟩ (AList.mem_lookup_iff.mp hlookup))
  · rintro h ⟨k, v⟩ hmem
    exact Bool.eq_false_iff.mp (h k v (AList.mem_lookup_iff.mpr hmem))

/-- An entry that is replaced by one that counts alike. -/
theorem countOf_insert_same (h : m.lookup k = some v) (hp : p k w = p k v) :
    countOf (m.insert k w) p = countOf m p := by
  rw [countOf_insert, countOf_of_lookup h, hp]

theorem countOf_insert_le (m : AList fun _ : κ => β) (k : κ) (v : β) (p : κ → β → Bool) :
    countOf (m.insert k v) p ≤ countOf m p + 1 := by
  rw [countOf_insert]
  have := countOf_erase_le m k p
  split <;> omega

/-- An entry that does not count, or that counted before, adds nothing. -/
theorem countOf_insert_le_of (h : p k v = true → ∃ w, m.lookup k = some w ∧ p k w = true) :
    countOf (m.insert k v) p ≤ countOf m p := by
  rw [countOf_insert]
  by_cases hv : p k v = true
  · obtain ⟨w, hlookup, hw⟩ := h hv
    rw [countOf_of_lookup hlookup, if_pos hv, if_pos hw]
  · rw [if_neg hv]
    exact countOf_erase_le m k p

/-- An element that is filtered out is counted no longer. -/
theorem countP_filter_lt {α : Type} {l : List α} {p q : α → Bool}
    (h : ∃ a ∈ l, p a = true ∧ q a = false) : (l.filter q).countP p < l.countP p := by
  obtain ⟨a, ha, hp, hq⟩ := h
  obtain ⟨front, back, rfl⟩ := List.append_of_mem ha
  have hfront : (front.filter q).countP p ≤ front.countP p := List.filter_sublist.countP_le
  have hback : (back.filter q).countP p ≤ back.countP p := List.filter_sublist.countP_le
  rw [List.filter_append, List.filter_cons_of_neg (by simp [hq]), List.countP_append,
    List.countP_append, List.countP_cons_of_pos hp]
  omega

/-! ## Weights -/

section Weights

variable {α : Type} {xs ys : List α} {weight : α → Nat}

end Weights

end Foundation
