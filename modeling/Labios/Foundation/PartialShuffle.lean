import Mathlib.Data.List.Induction
import Mathlib.Data.List.Nodup
import Mathlib.Logic.Function.Basic

/-!
# The partial Fisher–Yates shuffle

The first `n` rounds of the shuffle, with the random draw of every round as a
parameter: round `i` swaps entry `i` with entry `draw i`. Any draws permute the
array (`partialShuffle_perm`), and every list of distinct entries is brought to
the front by some draws that a fair generator can make (`exists_draws`).
-/

namespace Foundation

variable {α : Type}

/-- The rounds `0, …, n - 1`. -/
def partialShuffle (draw : Nat → Nat) : Nat → Array α → Array α
  | 0, xs => xs
  | n + 1, xs => (partialShuffle draw n xs).swapIfInBounds n (draw n)

@[simp] theorem size_partialShuffle (draw : Nat → Nat) (n : Nat) (xs : Array α) :
    (partialShuffle draw n xs).size = xs.size := by
  induction n with
  | zero => rfl
  | succ n ih => rw [partialShuffle, Array.size_swapIfInBounds, ih]

theorem swapIfInBounds_perm (xs : Array α) (i j : Nat) : (xs.swapIfInBounds i j).Perm xs := by
  rw [Array.swapIfInBounds_def]
  split
  · split
    · exact Array.swap_perm _ _
    · exact Array.Perm.refl _
  · exact Array.Perm.refl _

theorem partialShuffle_perm (draw : Nat → Nat) (n : Nat) (xs : Array α) :
    (partialShuffle draw n xs).Perm xs := by
  induction n with
  | zero => exact Array.Perm.refl _
  | succ n ih => exact (swapIfInBounds_perm _ _ _).trans ih

/-- Only the draws of the rounds count. -/
theorem partialShuffle_congr {draw draw' : Nat → Nat} {n : Nat}
    (h : ∀ i < n, draw i = draw' i) (xs : Array α) :
    partialShuffle draw n xs = partialShuffle draw' n xs := by
  induction n with
  | zero => rfl
  | succ n ih =>
    rw [partialShuffle, partialShuffle, ih fun i hi => h i (Nat.lt_succ_of_lt hi),
      h n (Nat.lt_succ_self n)]

/-- A swap with a later entry leaves the entries in front and brings the other
entry to its place. -/
theorem take_swapIfInBounds {xs : Array α} {n j : Nat} {a : α} (hle : n ≤ j)
    (hj : xs[j]? = some a) :
    (xs.swapIfInBounds n j).toList.take (n + 1) = xs.toList.take n ++ [a] := by
  obtain ⟨hlt, rfl⟩ := Array.getElem?_eq_some_iff.mp hj
  have hn : n < xs.size := by omega
  have hplace : (xs.swapIfInBounds n j).toList[n]? = some xs[j] := by
    rw [Array.getElem?_toList,
      Array.getElem?_eq_getElem (by rw [Array.size_swapIfInBounds]; exact hn),
      Array.getElem_swapIfInBounds_left hlt]
  have hfront : (xs.swapIfInBounds n j).toList.take n = xs.toList.take n := by
    apply List.ext_getElem
    · simp
    · intro k hk hk'
      rw [List.length_take] at hk
      rw [List.getElem_take, List.getElem_take, Array.getElem_toList, Array.getElem_toList]
      exact Array.getElem_swapIfInBounds_of_ne_of_ne (by omega) (by omega) _
  rw [List.take_add_one, hplace, hfront]
  rfl

/-- Some draws put the distinct entries `target` in front, in this order. -/
theorem exists_draws {xs : Array α} {target : List α} (hnodup : target.Nodup)
    (hmem : ∀ a ∈ target, a ∈ xs) :
    ∃ draw : Nat → Nat, (∀ i < target.length, i ≤ draw i ∧ draw i < xs.size) ∧
      (partialShuffle draw target.length xs).toList.take target.length = target := by
  induction target using List.reverseRecOn with
  | nil => exact ⟨id, by simp, rfl⟩
  | append_singleton front a ih =>
    rw [List.nodup_append] at hnodup
    obtain ⟨draw, hdraws, hfront⟩ := ih hnodup.1 fun b hb => hmem b (List.mem_append_left _ hb)
    -- where the rounds so far have left `a`
    have ha : a ∈ partialShuffle draw front.length xs :=
      (partialShuffle_perm draw _ xs).mem_iff.mpr (hmem a (List.mem_append_right _ (by simp)))
    obtain ⟨j, hj⟩ := Array.mem_iff_getElem?.mp ha
    have hlt : j < xs.size := by
      obtain ⟨hlt, -⟩ := Array.getElem?_eq_some_iff.mp hj
      rwa [size_partialShuffle] at hlt
    have hle : front.length ≤ j := by
      by_contra hbefore
      have hin : a ∈ (partialShuffle draw front.length xs).toList.take front.length := by
        apply List.mem_iff_getElem?.mpr
        refine ⟨j, ?_⟩
        rw [List.getElem?_take_of_lt (Nat.lt_of_not_le hbefore), Array.getElem?_toList, hj]
      rw [hfront] at hin
      exact hnodup.2.2 a hin a (by simp) rfl
    have hsame : ∀ i < front.length, Function.update draw front.length j i = draw i :=
      fun i hi => Function.update_of_ne (Nat.ne_of_lt hi) _ _
    refine ⟨Function.update draw front.length j, ?_, ?_⟩
    · intro i hi
      rw [List.length_append, List.length_singleton] at hi
      by_cases hlast : i = front.length
      · subst hlast
        rw [Function.update_self]
        exact ⟨hle, hlt⟩
      · rw [hsame i (by omega)]
        exact hdraws i (by omega)
    · rw [List.length_append, List.length_singleton, partialShuffle, Function.update_self,
        partialShuffle_congr hsame, take_swapIfInBounds hle hj, hfront]

end Foundation
