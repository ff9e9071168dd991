import Mathlib.Algebra.GroupWithZero.Nat
import Mathlib.Data.List.Basic

/-!
# Ranges that lie one after the other

`Tiles lo ranges hi`: the ranges, each a start and a length, follow each other from `lo`
to `hi` without gap or overlap, and none is empty. What the ranges cut out of a list
concatenates to the part of it between the two bounds.
-/

namespace Foundation

/-- The ranges cover `lo` to `hi`, in order. -/
def Tiles : Nat → List (Nat × Nat) → Nat → Prop
  | lo, [], hi => lo = hi
  | lo, r :: ranges, hi => r.1 = lo ∧ 0 < r.2 ∧ Tiles (lo + r.2) ranges hi

instance Tiles.decidable : (lo : Nat) → (ranges : List (Nat × Nat)) → (hi : Nat) →
    Decidable (Tiles lo ranges hi)
  | lo, [], hi => inferInstanceAs (Decidable (lo = hi))
  | lo, r :: ranges, hi =>
      have := Tiles.decidable (lo + r.2) ranges hi
      inferInstanceAs (Decidable (r.1 = lo ∧ 0 < r.2 ∧ Tiles (lo + r.2) ranges hi))

namespace Tiles

variable {α : Type} {lo hi : Nat} {ranges : List (Nat × Nat)}

theorem le (h : Tiles lo ranges hi) : lo ≤ hi := by
  induction ranges generalizing lo with
  | nil => exact Nat.le_of_eq h
  | cons r ranges ih =>
      obtain ⟨-, -, hrest⟩ := h
      exact Nat.le_of_add_right_le (ih hrest)

theorem bounds (h : Tiles lo ranges hi) :
    ∀ r ∈ ranges, lo ≤ r.1 ∧ 0 < r.2 ∧ r.1 + r.2 ≤ hi := by
  induction ranges generalizing lo with
  | nil => intro r hr; cases hr
  | cons r ranges ih =>
      obtain ⟨rfl, hpos, hrest⟩ := h
      intro s hs
      rcases List.mem_cons.mp hs with rfl | hs
      · exact ⟨Nat.le_refl _, hpos, hrest.le⟩
      · obtain ⟨h1, h2⟩ := ih hrest s hs
        exact ⟨by omega, h2⟩

/-- All ranges moved by one distance. -/
theorem shift (h : Tiles lo ranges hi) (d : Nat) :
    Tiles (d + lo) (ranges.map fun r => (d + r.1, r.2)) (d + hi) := by
  induction ranges generalizing lo with
  | nil => exact congrArg (d + ·) h
  | cons r ranges ih =>
      obtain ⟨rfl, hpos, hrest⟩ := h
      refine ⟨rfl, hpos, ?_⟩
      rw [Nat.add_assoc]
      exact ih hrest

/-- A range starts where the lengths before it end. -/
theorem start_eq {front back : List (Nat × Nat)} {r : Nat × Nat}
    (h : Tiles lo (front ++ r :: back) hi) : r.1 = lo + (front.map (·.2)).sum := by
  induction front generalizing lo with
  | nil => exact h.1
  | cons s front ih =>
      rw [ih h.2.2, List.map_cons, List.sum_cons, Nat.add_assoc]

/-- What the ranges cut out of a list is what the list has between the bounds. -/
theorem flatMap_slices (h : Tiles lo ranges hi) (l : List α) :
    (ranges.flatMap fun r => (l.drop r.1).take r.2) = (l.drop lo).take (hi - lo) := by
  induction ranges generalizing lo with
  | nil =>
      obtain rfl : lo = hi := h
      simp
  | cons r ranges ih =>
      obtain ⟨rfl, -, hrest⟩ := h
      have hle := hrest.le
      rw [List.flatMap_cons, ih hrest, show hi - r.1 = r.2 + (hi - (r.1 + r.2)) by omega,
        List.take_add, List.drop_drop]

end Tiles
end Foundation
