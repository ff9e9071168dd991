import Mathlib.Data.Int.CardIntervalMod

/-!
# Going round

A walk round `size` places, from a start on. Its visits to two places differ by at most one
(`count_cyclicWalk_le_succ`), wherever it starts and however long it is.
-/

namespace Foundation

variable {size start steps i j : Nat}

def cyclicWalk (size start steps : Nat) : List Nat :=
  (List.range steps).map fun i => (start + i) % size

@[simp] theorem cyclicWalk_zero (size start : Nat) : cyclicWalk size start 0 = [] := rfl

theorem cyclicWalk_succ (size start steps : Nat) :
    cyclicWalk size start (steps + 1) = start % size :: cyclicWalk size (start + 1) steps := by
  unfold cyclicWalk
  rw [List.range_succ_eq_map, List.map_cons, List.map_map]
  refine congrArg _ (List.map_congr_left fun i _ => ?_)
  show (start + (i + 1)) % size = (start + 1 + i) % size
  rw [Nat.add_assoc, Nat.add_comm 1 i]

theorem cyclicWalk_mod (size start steps : Nat) :
    cyclicWalk size (start % size) steps = cyclicWalk size start steps :=
  List.map_congr_left fun i _ => Nat.mod_add_mod start size i

theorem cyclicWalk_add (size start steps more : Nat) :
    cyclicWalk size start (steps + more) =
      cyclicWalk size start steps ++ cyclicWalk size (start + steps) more := by
  unfold cyclicWalk
  rw [List.range_add, List.map_append, List.map_map]
  refine congrArg _ (List.map_congr_left fun i _ => ?_)
  show (start + (steps + i)) % size = (start + steps + i) % size
  rw [Nat.add_assoc]

theorem lt_of_mem_cyclicWalk (hsize : 0 < size) (h : i ∈ cyclicWalk size start steps) :
    i < size := by
  obtain ⟨_, -, rfl⟩ := List.mem_map.mp h
  exact Nat.mod_lt _ hsize

theorem countP_range (p : Nat → Prop) [DecidablePred p] (n : Nat) :
    (List.range n).countP (fun i => p i) = n.count p := by
  induction n with
  | zero => rfl
  | succ n ih =>
      rw [List.range_succ, List.countP_append, ih, Nat.count_succ, List.countP_singleton]
      simp only [decide_eq_true_eq]

/-- The walk is at a place in every round, and once more if it gets there in the last one. -/
theorem count_cyclicWalk (hj : j < size) (start steps : Nat) :
    (cyclicWalk size start steps).count j =
      steps / size + if (j + (size - start % size)) % size < steps % size then 1 else 0 := by
  have hsize : 0 < size := Nat.zero_lt_of_lt hj
  have hstart : start % size < size := Nat.mod_lt start hsize
  have hplace : ∀ i, (start + i) % size = j ↔ i ≡ j + (size - start % size) [MOD size] := by
    intro i
    rw [← Nat.mod_eq_of_lt hj]
    show start + i ≡ j [MOD size] ↔ _
    have hround : start + (size - start % size) ≡ 0 [MOD size] := by
      have hdiv := Nat.div_add_mod start size
      refine (Nat.modEq_zero_iff_dvd).mpr ⟨start / size + 1, ?_⟩
      rw [Nat.mul_add]
      omega
    rw [Nat.mod_eq_of_lt hj]
    constructor
    · intro h
      have hboth := h.add_right (size - start % size)
      have hcancel : start + i + (size - start % size) ≡ i [MOD size] := by
        have h' := hround.add_right i
        rw [Nat.zero_add] at h'
        rwa [Nat.add_right_comm] at h'
      exact hcancel.symm.trans hboth
    · intro h
      have hboth := h.add_left start
      have hcancel : start + (j + (size - start % size)) ≡ j [MOD size] := by
        have h' := hround.add_right j
        rw [Nat.zero_add] at h'
        rwa [Nat.add_assoc, Nat.add_comm _ j] at h'
      exact hboth.trans hcancel
  rw [← Nat.count_modEq_card steps hsize, ← countP_range]
  unfold cyclicWalk List.count
  rw [List.countP_map]
  refine List.countP_congr fun i _ => ?_
  show ((start + i) % size == j) = true ↔ _
  rw [beq_iff_eq, decide_eq_true_iff]
  exact hplace i

/-- No place is visited two times more often than another. -/
theorem count_cyclicWalk_le_succ (hi : i < size) (hj : j < size) (start steps : Nat) :
    (cyclicWalk size start steps).count i ≤ (cyclicWalk size start steps).count j + 1 := by
  rw [count_cyclicWalk hi, count_cyclicWalk hj]
  split <;> omega

theorem count_cyclicWalk_le (hj : j < size) (start steps : Nat) :
    (cyclicWalk size start steps).count j ≤ (steps + (size - 1)) / size := by
  have hsize : 0 < size := Nat.zero_lt_of_lt hj
  have hdiv := Nat.div_add_mod steps size
  rw [count_cyclicWalk hj]
  split
  · next hlast =>
      rw [Nat.le_div_iff_mul_le hsize, Nat.add_mul, Nat.mul_comm (steps / size) size]
      omega
  · exact Nat.div_le_div_right (Nat.le_add_right steps (size - 1))

theorem mem_cyclicWalk (hj : j < size) (hround : size ≤ steps) :
    j ∈ cyclicWalk size start steps := by
  have hdiv := Nat.div_pos hround (Nat.zero_lt_of_lt hj)
  rw [← List.count_pos_iff, count_cyclicWalk hj]
  omega

end Foundation
