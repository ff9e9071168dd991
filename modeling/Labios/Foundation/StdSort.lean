import Mathlib.Data.List.Count
import Mathlib.Data.List.Sort

/-!
# The contract of an unstable sort

`std::sort` orders a range by a comparator and leaves the order of equivalent
elements open. `StdSort` is that contract for comparators of the form
`key a < key b`: some permutation of the input, ascending in the key. Results
quantified over every `StdSort` hold for every library that keeps the contract;
`StdSort.insertion` is an executable instance, and `StdSort.exists_sortBy_eq`
says that the contract rules out no ascending permutation.
-/

namespace Foundation

/-- A sorting routine with nothing promised about equal keys. -/
structure StdSort where
  sortBy : {α : Type} → (α → Nat) → List α → List α
  perm : ∀ {α : Type} (key : α → Nat) (l : List α), (sortBy key l).Perm l
  sorted : ∀ {α : Type} (key : α → Nat) (l : List α),
    (sortBy key l).Pairwise fun a b => key a ≤ key b

namespace StdSort

variable {α : Type}

@[simp] theorem mem_sortBy (S : StdSort) (key : α → Nat) (l : List α) (a : α) :
    a ∈ S.sortBy key l ↔ a ∈ l :=
  (S.perm key l).mem_iff

@[simp] theorem sortBy_nil (S : StdSort) (key : α → Nat) : S.sortBy key [] = [] :=
  (S.perm key []).eq_nil

theorem sortBy_eq_nil (S : StdSort) (key : α → Nat) {l : List α} :
    S.sortBy key l = [] ↔ l = [] := by
  constructor
  · intro h
    exact (h ▸ S.perm key l).symm.eq_nil
  · rintro rfl
    exact S.sortBy_nil key

/-- Distinct keys come out strictly ascending. -/
theorem sorted_lt (S : StdSort) (key : α → Nat) {l : List α}
    (distinct : (l.map key).Nodup) :
    (S.sortBy key l).Pairwise fun a b => key a < key b := by
  have hnodup : ((S.sortBy key l).map key).Nodup :=
    ((S.perm key l).map key).nodup_iff.mpr distinct
  have hne : (S.sortBy key l).Pairwise fun a b => key a ≠ key b :=
    List.pairwise_map.mp hnodup
  exact ((S.sorted key l).and hne).imp fun h => Nat.lt_of_le_of_ne h.1 h.2

/-- With distinct keys the contract leaves no freedom: a strictly ascending
permutation of the input is the output. -/
theorem sortBy_eq_of_perm (S : StdSort) (key : α → Nat) {l m : List α}
    (hperm : m.Perm l) (hsorted : m.Pairwise fun a b => key a < key b) :
    S.sortBy key l = m := by
  have hmap : (m.map key).Nodup :=
    List.pairwise_map.mpr (hsorted.imp Nat.ne_of_lt)
  have hlt := S.sorted_lt key ((hperm.map key).nodup_iff.mp hmap)
  refine List.Perm.eq_of_pairwise ?_ hlt hsorted ((S.perm key l).trans hperm.symm)
  intro a b _ _ hab hba
  exact absurd hab (Nat.lt_asymm hba)

/-- In an ordered list, `a` comes before `b` exactly when both occur and the
order says so. -/
theorem pair_sublist_iff {r : α → α → Prop} (hasymm : ∀ a b, r a b → ¬r b a) {l : List α}
    (hl : l.Pairwise r) (a b : α) : [a, b].Sublist l ↔ a ∈ l ∧ b ∈ l ∧ r a b := by
  constructor
  · intro hsub
    exact ⟨hsub.subset (by simp), hsub.subset (by simp),
      List.pairwise_iff_forall_sublist.mp hl hsub⟩
  · rintro ⟨ha, hb, hab⟩
    obtain ⟨front, back, rfl⟩ := List.append_of_mem ha
    rw [List.pairwise_append] at hl
    rcases List.mem_append.mp hb with hb | hb
    · exact absurd (hl.2.2 b hb a List.mem_cons_self) (hasymm a b hab)
    · rcases List.mem_cons.mp hb with rfl | hb
      · exact absurd hab (hasymm b b hab)
      · exact ((List.singleton_sublist.mpr hb).cons_cons a).trans
          (List.sublist_append_right _ _)

/-! ## Descending scores -/

section Descending

variable {β : Type} [LinearOrder β]

/-- How many elements score above `a`. -/
def rank (score : α → β) (l : List α) (a : α) : Nat :=
  l.countP fun b => decide (score a < score b)

/-- `std::sort` with the comparator `score a > score b`. -/
def sortDescending (S : StdSort) (score : α → β) (l : List α) : List α :=
  S.sortBy (rank score l) l

theorem rank_lt {score : α → β} {l : List α} {a b : α} (hb : b ∈ l) (h : score a < score b) :
    rank score l b < rank score l a := by
  obtain ⟨front, back, rfl⟩ := List.append_of_mem hb
  have hmono : ∀ l' : List α, l'.countP (fun c => decide (score b < score c)) ≤
      l'.countP (fun c => decide (score a < score c)) := by
    intro l'
    refine List.countP_mono_left fun c _ hc => ?_
    exact decide_eq_true (h.trans (of_decide_eq_true hc))
  have hfront := hmono front
  have hback := hmono back
  unfold rank
  rw [List.countP_append, List.countP_append, List.countP_cons, List.countP_cons]
  -- `b` itself scores above `a`, not above `b`
  simp only [h, lt_irrefl, decide_true, decide_false, if_true, Bool.false_eq_true, if_false]
  omega

theorem sortDescending_perm (S : StdSort) (score : α → β) (l : List α) :
    (S.sortDescending score l).Perm l :=
  S.perm _ l

theorem sortDescending_sorted (S : StdSort) (score : α → β) (l : List α) :
    (S.sortDescending score l).Pairwise fun a b => score b ≤ score a := by
  have hmem : ∀ a ∈ S.sortDescending score l, a ∈ l := fun a =>
    (S.sortDescending_perm score l).mem_iff.mp
  refine List.Pairwise.imp_of_mem ?_ (S.sorted (rank score l) l)
  intro a b _ hb hrank
  by_contra hlt
  have hback : rank score l b < rank score l a := rank_lt (hmem b hb) (not_le.mp hlt)
  omega

/-- The scores come out in one order, whatever the routine does with ties. -/
theorem map_sortDescending (S : StdSort) (score : α → β) (l : List α) :
    (S.sortDescending score l).map score = (l.map score).mergeSort (fun a b => b ≤ a) := by
  have hanti : ∀ a b : β, a ∈ (S.sortDescending score l).map score →
      b ∈ (l.map score).mergeSort (fun a b => b ≤ a) → b ≤ a → a ≤ b → a = b :=
    fun a b _ _ hba hab => le_antisymm hab hba
  refine List.Perm.eq_of_pairwise hanti ?_ ?_ ?_
  · exact List.pairwise_map.mpr (S.sortDescending_sorted score l)
  · have htrans : ∀ a b c : β, decide (b ≤ a) = true → decide (c ≤ b) = true →
        decide (c ≤ a) = true :=
      fun a b c hab hbc => decide_eq_true ((of_decide_eq_true hbc).trans (of_decide_eq_true hab))
    have htotal : ∀ a b : β, (decide (b ≤ a) || decide (a ≤ b)) = true := by
      intro a b
      rw [Bool.or_eq_true, decide_eq_true_iff, decide_eq_true_iff]
      exact le_total b a
    exact (List.pairwise_mergeSort htrans htotal (l.map score)).imp fun h => of_decide_eq_true h
  · exact ((S.sortDescending_perm score l).map score).trans (List.mergeSort_perm _ _).symm

end Descending

/-- Insertion sort keeps the contract, and runs. -/
def insertion : StdSort where
  sortBy key l := l.insertionSort fun a b => key a ≤ key b
  perm _ l := List.perm_insertionSort _ l
  sorted key l :=
    haveI : Std.Total fun a b => key a ≤ key b := ⟨fun a b => Nat.le_total (key a) (key b)⟩
    haveI : IsTrans _ fun a b => key a ≤ key b := ⟨fun _ _ _ => Nat.le_trans⟩
    List.pairwise_insertionSort _ l

open Classical in
/-- Every ascending permutation of one given input is the output of some
routine that keeps the contract. -/
theorem exists_sortBy_eq (key : α → Nat) {l m : List α} (hperm : m.Perm l)
    (hsorted : m.Pairwise fun a b => key a ≤ key b) :
    ∃ S : StdSort, S.sortBy key l = m := by
  -- answer `m` on the one input `(key, l)`, and sort by insertion elsewhere
  let answers : {β : Type} → (β → Nat) → List β → Prop := fun {β} k x =>
    β = α ∧ HEq k key ∧ HEq x l
  have hcast : ∀ {β : Type} (k : β → Nat) (x : List β) (h : answers k x),
      (h.1 ▸ m : List β).Perm x ∧
        (h.1 ▸ m : List β).Pairwise fun a b => k a ≤ k b := by
    rintro β k x ⟨rfl, hk, hx⟩
    obtain rfl := eq_of_heq hk
    obtain rfl := eq_of_heq hx
    exact ⟨hperm, hsorted⟩
  refine ⟨{ sortBy := fun k x => if h : answers k x then h.1 ▸ m else insertion.sortBy k x
            perm := fun k x => ?_, sorted := fun k x => ?_ }, ?_⟩
  · split
    · next h => exact (hcast k x h).1
    · exact insertion.perm k x
  · split
    · next h => exact (hcast k x h).2
    · exact insertion.sorted k x
  · exact dif_pos ⟨rfl, HEq.rfl, HEq.rfl⟩

end StdSort
end Foundation
