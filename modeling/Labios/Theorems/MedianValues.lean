import Labios.Sds.Numeric
import Mathlib.Data.List.GetD

/-!
# The median of `uint64` values

`fn_median_uint64` adds the two middle values in 64 bits before it halves the sum.
`median_iff`: its result is the middle of the sorted values if and only if their
number is odd or that sum does not wrap.
-/

namespace Labios

open Foundation

/-- The two middle values of an even number of values in ascending order. -/
def middleLow (sorted : List UInt64) : UInt64 := sorted.getD (sorted.length / 2 - 1) 0

/-- The middle value, or the greater one of two. -/
def middleHigh (sorted : List UInt64) : UInt64 := sorted.getD (sorted.length / 2) 0

/-- `m` is the middle of values in ascending order: the middle value of an odd
number, else the floor of the exact mean of the two middle values. -/
def IsMiddle (sorted : List UInt64) (m : UInt64) : Prop :=
  (sorted.length % 2 = 1 → m = middleHigh sorted) ∧
    (sorted.length % 2 = 0 →
      m.toNat = ((middleLow sorted).toNat + (middleHigh sorted).toNat) / 2 ∧
        middleLow sorted ≤ m ∧ m ≤ middleHigh sorted)

/-- The sum of the two middle values is of 64 bits. -/
def MiddlesFit (sorted : List UInt64) : Prop :=
  (middleLow sorted).toNat + (middleHigh sorted).toNat < 2 ^ 64

instance middlesFit_decidable (sorted : List UInt64) : Decidable (MiddlesFit sorted) :=
  inferInstanceAs (Decidable (_ < _))

/-- Values have one ascending order. -/
theorem sortBy_eq_sorted (S : StdSort) {values sorted : List UInt64}
    (hperm : sorted.Perm values) (hsorted : sorted.Pairwise (· ≤ ·)) :
    S.sortBy UInt64.toNat values = sorted := by
  have hmine : (S.sortBy UInt64.toNat values).Pairwise (· ≤ ·) :=
    (S.sorted UInt64.toNat values).imp fun h => UInt64.le_iff_toNat_le.mpr h
  refine List.Perm.eq_of_pairwise ?_ hmine hsorted ((S.perm _ _).trans hperm.symm)
  intro a b _ _ hab hba
  exact UInt64.le_antisymm hab hba

theorem leBytes_inj {m m' : UInt64} (h : leBytes 8 m.toNat = leBytes 8 m'.toNat) : m = m' := by
  have hread := congrArg ofLeBytes h
  have hm : m.toNat < 256 ^ 8 := m.toNat_lt
  have hm' : m'.toNat < 256 ^ 8 := m'.toNat_lt
  rw [ofLeBytes_leBytes, ofLeBytes_leBytes, Nat.mod_eq_of_lt hm, Nat.mod_eq_of_lt hm'] at hread
  exact UInt64.toNat_inj.mp hread

theorem middleLow_le_middleHigh {sorted : List UInt64} (hsorted : sorted.Pairwise (· ≤ ·))
    (hne : 0 < sorted.length) : middleLow sorted ≤ middleHigh sorted := by
  have hhigh : sorted.length / 2 < sorted.length := by omega
  have hlow : sorted.length / 2 - 1 < sorted.length := by omega
  rw [middleLow, middleHigh, List.getD_eq_getElem _ _ hlow, List.getD_eq_getElem _ _ hhigh]
  by_cases heq : sorted.length / 2 = 0
  · simp only [heq]
    exact UInt64.le_refl _
  · exact List.pairwise_iff_getElem.mp hsorted _ _ hlow hhigh (by omega)

/-- The mean that the code computes, over the numbers. -/
theorem toNat_mean (a b : UInt64) : ((a + b) / 2).toNat = (a.toNat + b.toNat) % 2 ^ 64 / 2 := by
  rw [UInt64.toNat_div, UInt64.toNat_add]
  rfl

/-- The wrapped mean is the mean only if nothing wrapped. -/
theorem mean_eq_iff (a b : UInt64) :
    ((a + b) / 2).toNat = (a.toNat + b.toNat) / 2 ↔ a.toNat + b.toNat < 2 ^ 64 := by
  have ha := a.toNat_lt
  have hb := b.toNat_lt
  rw [toNat_mean]
  constructor
  · intro h
    by_contra hwrap
    omega
  · intro h
    rw [Nat.mod_eq_of_lt h]

theorem isMiddle_medianOf_iff {sorted : List UInt64} (hsorted : sorted.Pairwise (· ≤ ·))
    (hne : 0 < sorted.length) :
    IsMiddle sorted (medianOf sorted) ↔ sorted.length % 2 = 1 ∨ MiddlesFit sorted := by
  have hmiddle := UInt64.le_iff_toNat_le.mp (middleLow_le_middleHigh hsorted hne)
  by_cases heven : sorted.length % 2 = 0
  · have hmedian : medianOf sorted = (middleLow sorted + middleHigh sorted) / 2 :=
      if_pos ⟨heven, by omega⟩
    rw [hmedian]
    constructor
    · intro h
      exact Or.inr ((mean_eq_iff _ _).mp (h.2 heven).1)
    · intro h
      have hfit : MiddlesFit sorted := h.resolve_left (by omega)
      have hmean := (mean_eq_iff _ _).mpr hfit
      refine ⟨fun hodd => absurd heven (by omega), fun _ => ⟨hmean, ?_, ?_⟩⟩
      · rw [UInt64.le_iff_toNat_le, hmean]
        omega
      · rw [UInt64.le_iff_toNat_le, hmean]
        omega
  · -- nothing is added
    have hmedian : medianOf sorted = middleHigh sorted := if_neg fun h => heven h.1
    rw [hmedian]
    exact iff_of_true ⟨fun _ => rfl, fun h => absurd h heven⟩ (Or.inl (by omega))

/-- For every input of at least one value, the result is the middle of the sorted
values if and only if their number is odd or the sum of the two middle values does
not wrap. -/
theorem median_iff (S : StdSort) (input : List UInt8) (args : String)
    (hvalue : 8 ≤ input.length) (sorted : List UInt64)
    (hperm : sorted.Perm (readU64s input (input.length / 8)))
    (hsorted : sorted.Pairwise (· ≤ ·)) :
    (∃ m, fnMedianUint64 S input args = .ok (leBytes 8 m.toNat) ∧ IsMiddle sorted m) ↔
      sorted.length % 2 = 1 ∨ MiddlesFit sorted := by
  have hlength : sorted.length = input.length / 8 := by
    rw [hperm.length_eq, readU64s, List.length_map, List.length_range]
  have hresult : fnMedianUint64 S input args = .ok (leBytes 8 (medianOf sorted).toNat) := by
    rw [fnMedianUint64, if_neg (by omega), sortBy_eq_sorted S hperm hsorted]
  rw [← isMiddle_medianOf_iff hsorted (by omega)]
  constructor
  · rintro ⟨m, hm, hmiddle⟩
    rw [hresult] at hm
    rwa [leBytes_inj (Except.ok.inj hm)]
  · intro hmiddle
    exact ⟨_, hresult, hmiddle⟩

/-- The values 3, 1 and 2. -/
theorem median_iff_three :
    ∃ m, fnMedianUint64 StdSort.insertion (leBytes 8 3 ++ leBytes 8 1 ++ leBytes 8 2) "" =
      .ok (leBytes 8 m.toNat) ∧ IsMiddle [1, 2, 3] m :=
  (median_iff StdSort.insertion (leBytes 8 3 ++ leBytes 8 1 ++ leBytes 8 2) "" (by decide)
    [1, 2, 3] (by decide) (by decide)).mpr (Or.inl (by decide))

/-- Twice the value `2 ^ 63`: the code answers zero. -/
theorem median_wraps :
    readU64s (leBytes 8 (2 ^ 63) ++ leBytes 8 (2 ^ 63)) 2 =
        [9223372036854775808, 9223372036854775808] ∧
      fnMedianUint64 StdSort.insertion (leBytes 8 (2 ^ 63) ++ leBytes 8 (2 ^ 63)) "" =
        .ok (leBytes 8 0) ∧
      ¬IsMiddle [9223372036854775808, 9223372036854775808] 0 := by
  refine ⟨by decide, by decide, ?_⟩
  intro h
  exact absurd (h.2 rfl).1 (by decide)

end Labios
