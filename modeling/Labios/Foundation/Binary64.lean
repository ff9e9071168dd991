import Mathlib.Algebra.Order.Field.Power
import Mathlib.Data.Int.Log
import Mathlib.Data.Rat.Floor
import Mathlib.Tactic.Linarith
import Mathlib.Tactic.NormNum
import Mathlib.Tactic.Ring

/-!
# Rounding to binary64

The double nearest to a positive rational, even at a tie, as an exact rational: 53 bits
of precision and a last place of at least `2 ^ -1074`. The exponent is not bounded above; a
result from `2 ^ 1024` on is an overflow.

`two_zpow_le_roundBinary64` says from where on a number is rounded up to a power of two.
-/

namespace Foundation

/-- The nearest integer, even at a tie. -/
def roundHalfEven (x : ℚ) : ℤ :=
  if x - ⌊x⌋ < 1 / 2 then ⌊x⌋
  else if 1 / 2 < x - ⌊x⌋ then ⌊x⌋ + 1
  else if ⌊x⌋ % 2 = 0 then ⌊x⌋
  else ⌊x⌋ + 1

/-- The exponent of the last place. -/
def ulpExponent (q : ℚ) : ℤ := max (Int.log 2 q - 52) (-1074)

/-- The double nearest to a number that is not negative. -/
def roundBinary64 (q : ℚ) : ℚ := roundHalfEven (q / 2 ^ ulpExponent q) * 2 ^ ulpExponent q

/-! ## The nearest integer -/

theorem floor_le_roundHalfEven (x : ℚ) : ⌊x⌋ ≤ roundHalfEven x := by
  unfold roundHalfEven
  split
  · exact le_refl _
  · split
    · omega
    · split
      · exact le_refl _
      · omega

theorem roundHalfEven_le_floor (x : ℚ) : roundHalfEven x ≤ ⌊x⌋ + 1 := by
  unfold roundHalfEven
  split
  · omega
  · split
    · exact le_refl _
    · split
      · omega
      · exact le_refl _

/-- An odd integer is exceeded from the tie on. -/
theorem lt_roundHalfEven_iff {n : ℤ} (hodd : n % 2 = 1) (x : ℚ) :
    n < roundHalfEven x ↔ (n : ℚ) + 1 / 2 ≤ x := by
  rcases lt_trichotomy ⌊x⌋ n with hlt | heq | hgt
  · have hround := roundHalfEven_le_floor x
    have hx : x < n := Int.floor_lt.mp hlt
    exact ⟨fun h => by omega, fun h => by linarith⟩
  · unfold roundHalfEven
    rw [heq]
    split
    next hlow => exact ⟨fun h => absurd h (lt_irrefl n), fun h => by linarith⟩
    next hlow =>
        rw [not_lt] at hlow
        split
        next => exact ⟨fun _ => by linarith, fun _ => by omega⟩
        next =>
            rw [if_neg (by omega)]
            exact ⟨fun _ => by linarith, fun _ => by omega⟩
  · have hround := floor_le_roundHalfEven x
    have hx : ((n + 1 : ℤ) : ℚ) ≤ x := Int.le_floor.mp hgt
    push_cast at hx
    exact ⟨fun _ => by linarith, fun _ => by omega⟩

/-! ## The nearest double -/

theorem roundBinary64_nonneg {q : ℚ} (hq : 0 ≤ q) : 0 ≤ roundBinary64 q := by
  have hpos : (0 : ℚ) < 2 ^ ulpExponent q := zpow_pos (by norm_num) _
  have hfloor : 0 ≤ ⌊q / 2 ^ ulpExponent q⌋ := Int.floor_nonneg.mpr (div_nonneg hq hpos.le)
  have hround : (0 : ℚ) ≤ roundHalfEven (q / 2 ^ ulpExponent q) :=
    Int.cast_nonneg (hfloor.trans (floor_le_roundHalfEven _))
  exact mul_nonneg hround hpos.le

@[simp] theorem roundBinary64_zero : roundBinary64 0 = 0 := by
  have hzero : roundHalfEven 0 = 0 := by
    unfold roundHalfEven
    norm_num
  rw [roundBinary64, zero_div, hzero, Int.cast_zero, zero_mul]

/-- Rounding goes up by less than the next place. -/
theorem roundBinary64_le_add (q : ℚ) : roundBinary64 q ≤ q + 2 ^ ulpExponent q := by
  have hulp : (0 : ℚ) < 2 ^ ulpExponent q := zpow_pos (by norm_num) _
  have hround : (roundHalfEven (q / 2 ^ ulpExponent q) : ℚ) ≤ q / 2 ^ ulpExponent q + 1 := by
    have hcast : (roundHalfEven (q / 2 ^ ulpExponent q) : ℚ) ≤ ⌊q / 2 ^ ulpExponent q⌋ + 1 := by
      exact_mod_cast roundHalfEven_le_floor (q / 2 ^ ulpExponent q)
    exact hcast.trans (by linarith [Int.floor_le (q / 2 ^ ulpExponent q)])
  calc roundBinary64 q ≤ (q / 2 ^ ulpExponent q + 1) * 2 ^ ulpExponent q :=
        mul_le_mul_of_nonneg_right hround hulp.le
    _ = q + 2 ^ ulpExponent q := by rw [add_mul, div_mul_cancel₀ _ hulp.ne', one_mul]

section Thresholds

variable {q : ℚ} {j : ℤ}

theorem two_zpow_add (a b : ℤ) : (2 : ℚ) ^ (a + b) = 2 ^ a * 2 ^ b := zpow_add₀ (by norm_num) a b

theorem two_zpow_le {a b : ℤ} (h : a ≤ b) : (2 : ℚ) ^ a ≤ 2 ^ b :=
  zpow_le_zpow_right₀ (by norm_num) h

/-- A power of two in places that are 54 exponents below it. -/
theorem two_zpow_eq_places (j : ℤ) : (2 : ℚ) ^ j = 2 ^ (j - 54) * 2 ^ 54 := by
  rw [show j = j - 54 + 54 by omega, two_zpow_add]
  norm_num

/-- Far below a power, not even the next place reaches it. -/
theorem threshold_far_below (hbelow : q < (2 : ℚ) ^ (j - 1)) (hexp : ulpExponent q ≤ j - 54) :
    (2 : ℚ) ^ j ≤ roundBinary64 q ↔ (2 : ℚ) ^ j - 2 ^ (j - 54) ≤ q := by
  have hround := roundBinary64_le_add q
  have hsmall := two_zpow_le hexp
  have hunit : (0 : ℚ) < 2 ^ (j - 54) := zpow_pos (by norm_num) _
  have hpower := two_zpow_eq_places j
  have hhalf : (2 : ℚ) ^ (j - 1) = 2 ^ (j - 54) * 2 ^ 53 := by
    rw [show j - 1 = j - 54 + 53 by omega, two_zpow_add]
    norm_num
  exact ⟨fun h => by linarith, fun h => by linarith⟩

/-- Just below a power, the significand has to be rounded up to `2 ^ 53`. -/
theorem threshold_just_below (hexp : ulpExponent q = j - 53) :
    (2 : ℚ) ^ j ≤ roundBinary64 q ↔ (2 : ℚ) ^ j - 2 ^ (j - 54) ≤ q := by
  have hplace : (2 : ℚ) ^ (j - 53) = 2 ^ (j - 54) * 2 := by
    rw [show j - 53 = j - 54 + 1 by omega, two_zpow_add]
    norm_num
  have hplace_pos : (0 : ℚ) < 2 ^ (j - 53) := zpow_pos (by norm_num) _
  have htop : (2 : ℚ) ^ j = ((2 ^ 53 : ℤ) : ℚ) * 2 ^ (j - 53) := by
    rw [two_zpow_eq_places, hplace]
    push_cast
    ring
  unfold roundBinary64
  rw [hexp, htop, mul_le_mul_iff_left₀ hplace_pos, Int.cast_le,
    show ((2 : ℤ) ^ 53 ≤ roundHalfEven (q / 2 ^ (j - 53)) ↔
      (2 : ℤ) ^ 53 - 1 < roundHalfEven (q / 2 ^ (j - 53))) by omega,
    lt_roundHalfEven_iff (by norm_num), le_div_iff₀ hplace_pos, hplace]
  push_cast
  constructor
  · intro h
    linarith
  · intro h
    linarith

/-- A normal number keeps the power of two that it has reached. -/
theorem two_zpow_log_le_roundBinary64 (hlow : (2 : ℚ) ^ Int.log 2 q ≤ q)
    (hexp : ulpExponent q = Int.log 2 q - 52) : (2 : ℚ) ^ Int.log 2 q ≤ roundBinary64 q := by
  have hulp : (0 : ℚ) < 2 ^ ulpExponent q := zpow_pos (by norm_num) _
  have hsplit : (2 : ℚ) ^ Int.log 2 q = ((2 ^ 52 : ℤ) : ℚ) * 2 ^ ulpExponent q := by
    rw [hexp, show Int.log 2 q = 52 + (Int.log 2 q - 52) by omega, two_zpow_add]
    norm_num
  have hfloor : (2 : ℤ) ^ 52 ≤ ⌊q / 2 ^ ulpExponent q⌋ := by
    rw [Int.le_floor, le_div_iff₀ hulp, ← hsplit]
    exact hlow
  have hround : ((2 ^ 52 : ℤ) : ℚ) ≤ roundHalfEven (q / 2 ^ ulpExponent q) :=
    Int.cast_le.mpr (hfloor.trans (floor_le_roundHalfEven _))
  calc (2 : ℚ) ^ Int.log 2 q = ((2 ^ 52 : ℤ) : ℚ) * 2 ^ ulpExponent q := hsplit
    _ ≤ roundBinary64 q := mul_le_mul_of_nonneg_right hround hulp.le

/-- **Thresholds.** A number is rounded to a power of two or above exactly from the middle
between that power and the double below it. -/
theorem two_zpow_le_roundBinary64 (hq : 0 < q) (hj : -1020 ≤ j) :
    (2 : ℚ) ^ j ≤ roundBinary64 q ↔ (2 : ℚ) ^ j - 2 ^ (j - 54) ≤ q := by
  have hlow : (2 : ℚ) ^ Int.log 2 q ≤ q := by
    simpa using Int.zpow_log_le_self (b := 2) (by norm_num) hq
  have hhigh : q < (2 : ℚ) ^ (Int.log 2 q + 1) := by
    simpa using Int.lt_zpow_succ_log_self (b := 2) (by norm_num) q
  have hulp : ulpExponent q = max (Int.log 2 q - 52) (-1074) := rfl
  rcases lt_trichotomy (Int.log 2 q) (j - 1) with hlt | heq | hgt
  · exact threshold_far_below (hhigh.trans_le (two_zpow_le (by omega))) (by omega)
  · exact threshold_just_below (by omega)
  · have hreached : (2 : ℚ) ^ j ≤ 2 ^ Int.log 2 q := two_zpow_le (by omega)
    have hunit : (0 : ℚ) < 2 ^ (j - 54) := zpow_pos (by norm_num) _
    have hround := two_zpow_log_le_roundBinary64 hlow (by omega)
    exact iff_of_true (hreached.trans hround) (by linarith)

end Thresholds

end Foundation

/-!
## Doubles with few decimals

A double may be written with a fixed number of decimals and read again. The double that is nearest
to a number with so few decimals comes back (`roundBinary64_rewritten`): either the decimals are
fine enough to name the number itself, or a last place is coarser than the decimals, and then the
double is the nearest one to whatever they say.

`scale` is the power of ten of the decimals; the argument only asks that it is no power of two.
-/

namespace Foundation

variable {x q : ℚ} {n e : ℤ}

/-! ## The nearest integer -/

theorem abs_roundHalfEven_sub_le (x : ℚ) : |(roundHalfEven x : ℚ) - x| ≤ 1 / 2 := by
  have hlow := Int.floor_le x
  have hhigh := Int.lt_floor_add_one x
  unfold roundHalfEven
  rw [abs_le]
  split
  · constructor <;> linarith
  · split
    · push_cast
      constructor <;> linarith
    · split
      · constructor <;> linarith
      · push_cast
        constructor <;> linarith

theorem roundHalfEven_of_near (h : |x - n| < 1 / 2) : roundHalfEven x = n := by
  have hround := abs_le.mp (abs_roundHalfEven_sub_le x)
  have hnear := abs_lt.mp h
  have hless : ((roundHalfEven x - n : ℤ) : ℚ) < 1 := by
    push_cast
    linarith
  have hmore : (-1 : ℚ) < ((roundHalfEven x - n : ℤ) : ℚ) := by
    push_cast
    linarith
  have hless' : roundHalfEven x - n < 1 := by exact_mod_cast hless
  have hmore' : -1 < roundHalfEven x - n := by exact_mod_cast hmore
  omega

@[simp] theorem roundHalfEven_intCast (n : ℤ) : roundHalfEven (n : ℚ) = n :=
  roundHalfEven_of_near (by norm_num)

/-! ## The nearest double -/

theorem two_zpow_pos (e : ℤ) : (0 : ℚ) < 2 ^ e := zpow_pos (by norm_num) e

theorem two_zpow_sub_one (e : ℤ) : (2 : ℚ) ^ (e - 1) = 2 ^ e / 2 := zpow_sub_one₀ (by norm_num) e

/-- A double is not further from the number than half a place. -/
theorem abs_roundBinary64_sub_le (q : ℚ) : |roundBinary64 q - q| ≤ 2 ^ (ulpExponent q - 1) := by
  have hulp := two_zpow_pos (ulpExponent q)
  have hround := abs_roundHalfEven_sub_le (q / 2 ^ ulpExponent q)
  have hsplit : roundBinary64 q - q =
      ((roundHalfEven (q / 2 ^ ulpExponent q) : ℚ) - q / 2 ^ ulpExponent q) *
        2 ^ ulpExponent q := by
    rw [sub_mul, div_mul_cancel₀ _ hulp.ne', roundBinary64]
  rw [hsplit, abs_mul, abs_of_pos hulp, two_zpow_sub_one]
  calc _ ≤ 1 / 2 * (2 : ℚ) ^ ulpExponent q := mul_le_mul_of_nonneg_right hround hulp.le
    _ = 2 ^ ulpExponent q / 2 := by ring

/-- The place of a number between two powers. -/
theorem ulpExponent_eq (he : -1074 ≤ e) (hlow : (2 : ℚ) ^ (e + 52) ≤ q)
    (hhigh : q < (2 : ℚ) ^ (e + 53)) : ulpExponent q = e := by
  have hpos : 0 < q := (two_zpow_pos _).trans_le hlow
  have hle : e + 52 ≤ Int.log 2 q := by
    rw [← Int.zpow_le_iff_le_log (by norm_num) hpos]
    exact_mod_cast hlow
  have hlt : Int.log 2 q < e + 53 := by
    rw [← Int.lt_zpow_iff_log_lt (by norm_num) hpos]
    exact_mod_cast hhigh
  unfold ulpExponent
  omega

theorem roundBinary64_two_zpow {j : ℤ} (hj : -1022 ≤ j) :
    roundBinary64 ((2 : ℚ) ^ j) = 2 ^ j := by
  have hulp : ulpExponent ((2 : ℚ) ^ j) = j - 52 := by
    refine ulpExponent_eq (by omega) ?_ ?_
    · rw [sub_add_cancel]
    · exact zpow_lt_zpow_right₀ (by norm_num) (by omega)
  have hquotient : (2 : ℚ) ^ j / 2 ^ (j - 52) = ((2 ^ 52 : ℤ) : ℚ) := by
    rw [← zpow_sub₀ (by norm_num), show j - (j - 52) = 52 by omega]
    norm_num
  rw [roundBinary64, hulp, hquotient, roundHalfEven_intCast, ← hquotient,
    div_mul_cancel₀ _ (two_zpow_pos _).ne']

/-- Small whole numbers are doubles. -/
theorem roundBinary64_natCast {k : ℕ} (hk : k < 2 ^ 53) : roundBinary64 (k : ℚ) = k := by
  rcases Nat.eq_zero_or_pos k with rfl | hpos
  · rw [Nat.cast_zero, roundBinary64_zero]
  · have hlog : Int.log 2 (k : ℚ) < 53 := by
      rw [← Int.lt_zpow_iff_log_lt (by norm_num) (Nat.cast_pos.mpr hpos)]
      exact_mod_cast hk
    obtain ⟨m, hm⟩ : ∃ m : ℕ, ulpExponent (k : ℚ) = -m := by
      refine ⟨(-ulpExponent (k : ℚ)).toNat, ?_⟩
      have hle : ulpExponent (k : ℚ) ≤ 0 := by
        unfold ulpExponent
        omega
      omega
    have hquotient : (k : ℚ) / 2 ^ ulpExponent (k : ℚ) = ((k * 2 ^ m : ℤ) : ℚ) := by
      rw [hm, zpow_neg, zpow_natCast, div_inv_eq_mul]
      push_cast
      rfl
    rw [roundBinary64, hquotient, roundHalfEven_intCast, ← hquotient,
      div_mul_cancel₀ _ (two_zpow_pos _).ne']

/-- A number near a double whose neighbours are a place away. -/
theorem roundBinary64_of_near (he : -1074 ≤ e) (hlow : 2 ^ 52 < n) (hhigh : n < 2 ^ 53)
    (hq : |q - n * 2 ^ e| < 2 ^ (e - 1)) : roundBinary64 q = n * 2 ^ e := by
  have hplace := two_zpow_pos e
  rw [two_zpow_sub_one, abs_lt] at hq
  have hn : ((2 ^ 52 + 1 : ℤ) : ℚ) ≤ n := Int.cast_le.mpr hlow
  have hn' : (n : ℚ) ≤ ((2 ^ 53 - 1 : ℤ) : ℚ) := Int.cast_le.mpr (by omega)
  push_cast at hn hn'
  have hlower := mul_le_mul_of_nonneg_right hn hplace.le
  have hupper := mul_le_mul_of_nonneg_right hn' hplace.le
  have hulp : ulpExponent q = e := by
    refine ulpExponent_eq he ?_ ?_
    · rw [two_zpow_add, show (2 : ℚ) ^ (52 : ℤ) = 2 ^ 52 from zpow_ofNat 2 52]
      linarith
    · rw [two_zpow_add, show (2 : ℚ) ^ (53 : ℤ) = 2 ^ 53 from zpow_ofNat 2 53]
      linarith
  have hround : roundHalfEven (q / 2 ^ e) = n := by
    refine roundHalfEven_of_near ?_
    have hsplit : q / 2 ^ e - n = (q - n * 2 ^ e) / 2 ^ e := by
      rw [sub_div, mul_div_cancel_right₀ _ hplace.ne']
    rw [hsplit, abs_div, abs_of_pos hplace, div_lt_iff₀ hplace, abs_lt]
    constructor <;> linarith
  rw [roundBinary64, hulp, hround]

/-- The significand of a double has 53 bits, or is the next power of two. -/
theorem significand_bounds (hq : 0 < q) (he : -1074 < ulpExponent q) :
    2 ^ 52 ≤ roundHalfEven (q / 2 ^ ulpExponent q) ∧
      roundHalfEven (q / 2 ^ ulpExponent q) ≤ 2 ^ 53 := by
  have hulp := two_zpow_pos (ulpExponent q)
  have hlog : Int.log 2 q = ulpExponent q + 52 := by
    unfold ulpExponent at he ⊢
    omega
  have hlow : (2 : ℚ) ^ Int.log 2 q ≤ q := by
    simpa using Int.zpow_log_le_self (b := 2) (by norm_num) hq
  have hhigh : q < (2 : ℚ) ^ (Int.log 2 q + 1) := by
    simpa using Int.lt_zpow_succ_log_self (b := 2) (by norm_num) q
  rw [hlog, two_zpow_add] at hlow
  rw [hlog, show ulpExponent q + 52 + 1 = ulpExponent q + 53 by omega, two_zpow_add] at hhigh
  have hlower : (2 : ℚ) ^ 52 ≤ q / 2 ^ ulpExponent q := by
    rw [le_div_iff₀ hulp, mul_comm]
    exact hlow
  have hupper : q / 2 ^ ulpExponent q < (2 : ℚ) ^ 53 := by
    rw [div_lt_iff₀ hulp, mul_comm]
    exact hhigh
  have hround := abs_le.mp (abs_roundHalfEven_sub_le (q / 2 ^ ulpExponent q))
  constructor
  · have hmore : ((2 ^ 52 - 1 : ℤ) : ℚ) < roundHalfEven (q / 2 ^ ulpExponent q) := by
      push_cast
      linarith
    have hmore' := Int.cast_lt.mp hmore
    omega
  · have hless : (roundHalfEven (q / 2 ^ ulpExponent q) : ℚ) < ((2 ^ 53 + 1 : ℤ) : ℚ) := by
      push_cast
      linarith
    have hless' := Int.cast_lt.mp hless
    omega

/-! ## Written and read again -/

section Written

variable {scale b : ℕ} {x : ℚ}

/-- Where a place of the double is finer than the decimals, its decimals are those of the number. -/
theorem roundHalfEven_of_fine (hscale : (0 : ℚ) < scale) (hhigh : (scale : ℚ) < 2 ^ ((b : ℤ) + 1))
    {k : ℕ} (hkx : (k : ℚ) = x * scale) (hfine : ulpExponent x ≤ -(b + 1)) :
    roundHalfEven (roundBinary64 x * scale) = (k : ℤ) := by
  have herror := abs_roundBinary64_sub_le x
  refine roundHalfEven_of_near ?_
  rw [Int.cast_natCast, hkx, ← sub_mul, abs_mul, abs_of_pos hscale]
  calc |roundBinary64 x - x| * scale ≤ 2 ^ (ulpExponent x - 1) * scale :=
        mul_le_mul_of_nonneg_right herror hscale.le
    _ < 2 ^ (ulpExponent x - 1) * 2 ^ ((b : ℤ) + 1) :=
        mul_lt_mul_of_pos_left hhigh (two_zpow_pos _)
    _ = 2 ^ (ulpExponent x - 1 + (b + 1)) := (two_zpow_add _ _).symm
    _ ≤ 2 ^ (-1 : ℤ) := two_zpow_le (by omega)
    _ = 1 / 2 := by norm_num

/-- Where it is coarser, the decimals are off by less than half a place. -/
theorem abs_written_sub_lt (hscale : (0 : ℚ) < scale) (hlow : (2 : ℚ) ^ (b : ℤ) < scale) {e : ℤ}
    (hcoarse : -(b : ℤ) ≤ e) (y : ℚ) :
    |(roundHalfEven (y * scale) : ℚ) / scale - y| < 2 ^ (e - 1) := by
  have hround := abs_roundHalfEven_sub_le (y * scale)
  have hsplit : (roundHalfEven (y * scale) : ℚ) / scale - y =
      ((roundHalfEven (y * scale) : ℚ) - y * scale) / scale := by
    rw [sub_div, mul_div_cancel_right₀ _ hscale.ne']
  rw [hsplit, abs_div, abs_of_pos hscale, div_lt_iff₀ hscale]
  calc _ ≤ (1 : ℚ) / 2 := hround
    _ = 2 ^ (-(b : ℤ) - 1) * 2 ^ (b : ℤ) := by
        rw [← two_zpow_add, show -(b : ℤ) - 1 + b = -1 by omega]
        norm_num
    _ < 2 ^ (-(b : ℤ) - 1) * scale := mul_lt_mul_of_pos_left hlow (two_zpow_pos _)
    _ ≤ 2 ^ (e - 1) * scale := mul_le_mul_of_nonneg_right (two_zpow_le (by omega)) hscale.le

/-- A power of two from one on has no decimals. -/
theorem roundBinary64_written_power (hscale : (0 : ℚ) < scale) {j : ℤ} (hj : 0 ≤ j) :
    roundBinary64 ((roundHalfEven (2 ^ j * scale) : ℚ) / scale) = 2 ^ j := by
  have hint : (2 : ℚ) ^ j * scale = ((2 ^ j.toNat * scale : ℤ) : ℚ) := by
    push_cast
    rw [← zpow_natCast, Int.toNat_of_nonneg hj]
  rw [hint, roundHalfEven_intCast, ← hint, mul_div_cancel_right₀ _ hscale.ne']
  exact roundBinary64_two_zpow (by omega)

end Written

/-- **Decimals.** The double nearest to a number of the scale is the one nearest to the number of
the scale that is nearest to it. -/
theorem roundBinary64_rewritten {scale b : ℕ} (hb : b ≤ 52) (hlow : 2 ^ b < scale)
    (hhigh : scale < 2 ^ (b + 1)) (k : ℕ) :
    roundBinary64 ((roundHalfEven (roundBinary64 (k / scale) * scale) : ℚ) / scale) =
      roundBinary64 (k / scale) := by
  have hscale : (0 : ℚ) < scale := Nat.cast_pos.mpr (Nat.zero_lt_of_lt hlow)
  rcases Nat.eq_zero_or_pos k with rfl | hk
  · have hzero : roundHalfEven 0 = 0 := roundHalfEven_intCast 0
    rw [Nat.cast_zero, zero_div, roundBinary64_zero, zero_mul, hzero, Int.cast_zero, zero_div,
      roundBinary64_zero]
  · have hx : (0 : ℚ) < k / scale := div_pos (Nat.cast_pos.mpr hk) hscale
    have hlow' : (2 : ℚ) ^ (b : ℤ) < scale := by exact_mod_cast hlow
    have hhigh' : (scale : ℚ) < 2 ^ ((b : ℤ) + 1) := by exact_mod_cast hhigh
    generalize hxdef : (k : ℚ) / scale = x at hx ⊢
    have hkx : (k : ℚ) = x * scale := by rw [← hxdef, div_mul_cancel₀ _ hscale.ne']
    by_cases hfine : ulpExponent x ≤ -(b + 1)
    · rw [roundHalfEven_of_fine hscale hhigh' hkx hfine, Int.cast_natCast, hkx,
        mul_div_cancel_right₀ _ hscale.ne']
    · obtain ⟨hbelow, habove⟩ := significand_bounds hx (by omega)
      have hdouble : roundBinary64 x =
          roundHalfEven (x / 2 ^ ulpExponent x) * 2 ^ ulpExponent x := rfl
      -- at the ends of the binade the place on the other side is another one
      rcases eq_or_lt_of_le hbelow with heq | hgt
      · have hpower : roundBinary64 x = 2 ^ (ulpExponent x + 52) := by
          rw [hdouble, ← heq, two_zpow_add, mul_comm]
          norm_num
        rw [hpower]
        exact roundBinary64_written_power hscale (by omega)
      · rcases eq_or_lt_of_le habove with heq | hlt
        · have hpower : roundBinary64 x = 2 ^ (ulpExponent x + 53) := by
            rw [hdouble, heq, two_zpow_add, mul_comm]
            norm_num
          rw [hpower]
          exact roundBinary64_written_power hscale (by omega)
        · refine roundBinary64_of_near (by omega) hgt hlt ?_
          rw [← hdouble]
          exact abs_written_sub_lt hscale hlow' (by omega) _

end Foundation

/-!
## Rounding is monotone

A number that is no smaller is rounded to a double that is no smaller, across the places of two
binades as well.
-/

namespace Foundation

theorem roundHalfEven_mono {x y : ℚ} (h : x ≤ y) : roundHalfEven x ≤ roundHalfEven y := by
  rcases (Int.floor_mono h).lt_or_eq with hlt | heq
  · have hlow := roundHalfEven_le_floor x
    have hhigh := floor_le_roundHalfEven y
    omega
  · unfold roundHalfEven
    rw [heq]
    split
    · split
      · exact le_refl _
      · split
        · omega
        · split <;> omega
    · next hhalf =>
        have hy : ¬y - ⌊y⌋ < 1 / 2 := fun hlt => hhalf (by linarith)
        rw [if_neg hy]
        by_cases hx : 1 / 2 < x - ⌊y⌋
        · rw [if_pos hx, if_pos (by linarith)]
        · rw [if_neg hx]
          by_cases heven : ⌊y⌋ % 2 = 0
          · rw [if_pos heven]
            split
            · omega
            · exact le_refl _
          · rw [if_neg heven]
            split
            · exact le_refl _
            · exact le_refl _

/-- A number below a power of two is not rounded beyond it. -/
theorem roundBinary64_le_two_zpow {q : ℚ} {j : ℤ} (hq : q < 2 ^ j) (hj : ulpExponent q ≤ j) :
    roundBinary64 q ≤ 2 ^ j := by
  have hulp := two_zpow_pos (ulpExponent q)
  obtain ⟨m, hm⟩ : ∃ m : ℕ, j = m + ulpExponent q := ⟨(j - ulpExponent q).toNat, by omega⟩
  have hpower : (2 : ℚ) ^ j = ((2 ^ m : ℤ) : ℚ) * 2 ^ ulpExponent q := by
    rw [hm, two_zpow_add, zpow_natCast]
    push_cast
    rfl
  have hfloor : ⌊q / 2 ^ ulpExponent q⌋ < 2 ^ m := by
    rw [Int.floor_lt, div_lt_iff₀ hulp, ← hpower]
    exact hq
  have hround := roundHalfEven_le_floor (q / 2 ^ ulpExponent q)
  have hcast : (roundHalfEven (q / 2 ^ ulpExponent q) : ℚ) ≤ ((2 ^ m : ℤ) : ℚ) :=
    Int.cast_le.mpr (by omega)
  rw [hpower]
  exact mul_le_mul_of_nonneg_right hcast hulp.le

theorem roundBinary64_mono {q r : ℚ} (hq : 0 ≤ q) (h : q ≤ r) :
    roundBinary64 q ≤ roundBinary64 r := by
  rcases hq.eq_or_lt with rfl | hpos
  · rw [roundBinary64_zero]
    exact roundBinary64_nonneg h
  · have hlog : Int.log 2 q ≤ Int.log 2 r := Int.log_mono_right hpos h
    rcases lt_or_ge (ulpExponent q) (ulpExponent r) with hlt | hge
    · -- a power of two lies between the two
      have hexp : ulpExponent r = Int.log 2 r - 52 := by
        unfold ulpExponent at hlt ⊢
        omega
      have hbelow : q < (2 : ℚ) ^ Int.log 2 r := by
        have hnext : q < (2 : ℚ) ^ (Int.log 2 q + 1) := by
          simpa using Int.lt_zpow_succ_log_self (b := 2) (by norm_num) q
        refine hnext.trans_le (two_zpow_le ?_)
        unfold ulpExponent at hlt
        omega
      have hreached : (2 : ℚ) ^ Int.log 2 r ≤ r := by
        simpa using Int.zpow_log_le_self (b := 2) (by norm_num) (hpos.trans_le h)
      exact (roundBinary64_le_two_zpow hbelow (by omega)).trans
        (two_zpow_log_le_roundBinary64 hreached hexp)
    · have hsame : ulpExponent q = ulpExponent r := by
        unfold ulpExponent at hge ⊢
        omega
      unfold roundBinary64
      rw [hsame]
      have hulp := two_zpow_pos (ulpExponent r)
      refine mul_le_mul_of_nonneg_right (Int.cast_le.mpr (roundHalfEven_mono ?_)) hulp.le
      exact div_le_div_of_nonneg_right h hulp.le

/-- The relative error of a normal double. -/
theorem roundBinary64_le_mul {q : ℚ} (hq : (2 : ℚ) ^ (-1022 : ℤ) ≤ q) :
    roundBinary64 q ≤ q * (1 + 1 / 2 ^ 53) := by
  have hpos : 0 < q := (two_zpow_pos _).trans_le hq
  have hlog : -1022 ≤ Int.log 2 q := by
    rw [← Int.zpow_le_iff_le_log (by norm_num) hpos]
    exact_mod_cast hq
  have hexp : ulpExponent q - 1 = Int.log 2 q + -53 := by
    unfold ulpExponent
    omega
  have hreached : (2 : ℚ) ^ Int.log 2 q ≤ q := by
    simpa using Int.zpow_log_le_self (b := 2) (by norm_num) hpos
  have herror := (abs_le.mp (abs_roundBinary64_sub_le q)).2
  rw [hexp, two_zpow_add] at herror
  have hplace : (2 : ℚ) ^ (-53 : ℤ) = 1 / 2 ^ 53 := by norm_num
  rw [hplace] at herror
  have hbound : (2 : ℚ) ^ Int.log 2 q * (1 / 2 ^ 53) ≤ q * (1 / 2 ^ 53) :=
    mul_le_mul_of_nonneg_right hreached (by norm_num)
  linarith

theorem roundBinary64_half {k : ℕ} (hk : k < 2 ^ 53) :
    roundBinary64 (1 / 2 * (k : ℚ)) = 1 / 2 * k := by
  rcases Nat.eq_zero_or_pos k with rfl | hpos
  · rw [Nat.cast_zero, mul_zero, roundBinary64_zero]
  · have hpos : (0 : ℚ) < 1 / 2 * k := by positivity
    have hlog : Int.log 2 (1 / 2 * (k : ℚ)) < 52 := by
      rw [← Int.lt_zpow_iff_log_lt (by norm_num) hpos]
      have hcast : (k : ℚ) < 2 ^ 53 := by exact_mod_cast hk
      calc 1 / 2 * (k : ℚ) < 1 / 2 * 2 ^ 53 := by linarith
        _ = ((2 : ℕ) : ℚ) ^ (52 : ℤ) := by norm_num
    obtain ⟨m, hm⟩ : ∃ m : ℕ, ulpExponent (1 / 2 * (k : ℚ)) = -(m + 1 : ℕ) := by
      refine ⟨(-ulpExponent (1 / 2 * (k : ℚ)) - 1).toNat, ?_⟩
      have hle : ulpExponent (1 / 2 * (k : ℚ)) ≤ -1 := by
        unfold ulpExponent
        omega
      omega
    have hquotient : 1 / 2 * (k : ℚ) / 2 ^ ulpExponent (1 / 2 * (k : ℚ)) =
        ((k * 2 ^ m : ℤ) : ℚ) := by
      rw [hm, zpow_neg, zpow_natCast, div_inv_eq_mul, pow_succ]
      push_cast
      ring
    rw [roundBinary64, hquotient, roundHalfEven_intCast, ← hquotient,
      div_mul_cancel₀ _ (two_zpow_pos _).ne']

@[simp] theorem roundBinary64_one : roundBinary64 1 = 1 := by
  simpa using roundBinary64_natCast (k := 1) (by norm_num)

/-! ### The greatest double -/

def greatestDouble : ℚ := (2 ^ 53 - 1) * 2 ^ (971 : ℤ)

theorem overflow_eq : (2 : ℚ) ^ 1024 = 2 ^ 53 * 2 ^ (971 : ℤ) := by
  have hsplit := two_zpow_add 53 971
  have hleft : (2 : ℚ) ^ (53 + 971 : ℤ) = 2 ^ 1024 := zpow_ofNat 2 1024
  have hright : (2 : ℚ) ^ (53 : ℤ) = 2 ^ 53 := zpow_ofNat 2 53
  rw [hleft, hright] at hsplit
  exact hsplit

theorem greatestDouble_lt : greatestDouble < 2 ^ 1024 := by
  rw [overflow_eq, greatestDouble]
  exact mul_lt_mul_of_pos_right (by norm_num) (two_zpow_pos _)

theorem roundBinary64_greatestDouble : roundBinary64 greatestDouble = greatestDouble := by
  have hcast : greatestDouble = ((2 ^ 53 - 1 : ℤ) : ℚ) * 2 ^ (971 : ℤ) := by
    have hsignificand : ((2 ^ 53 - 1 : ℤ) : ℚ) = 2 ^ 53 - 1 := by norm_num
    rw [greatestDouble, hsignificand]
  rw [hcast]
  refine roundBinary64_of_near (by norm_num) (by norm_num) (by norm_num) ?_
  rw [sub_self, abs_zero]
  exact two_zpow_pos _

theorem two_zpow_le_greatestDouble {j : ℤ} (hj : j ≤ 1023) : (2 : ℚ) ^ j ≤ greatestDouble := by
  calc (2 : ℚ) ^ j ≤ 2 ^ (52 + 971 : ℤ) := two_zpow_le hj
    _ = 2 ^ (52 : ℤ) * 2 ^ (971 : ℤ) := two_zpow_add _ _
    _ ≤ greatestDouble := mul_le_mul_of_nonneg_right (by norm_num) (two_zpow_pos _).le

theorem roundBinary64_le_greatestDouble {q : ℚ} (hq : 0 ≤ q) (h : roundBinary64 q < 2 ^ 1024) :
    roundBinary64 q ≤ greatestDouble := by
  rcases hq.eq_or_lt with rfl | hpos
  · rw [roundBinary64_zero]
    exact mul_nonneg (by norm_num) (two_zpow_pos _).le
  · by_cases hsmall : ulpExponent q = -1074
    · have hlog : Int.log 2 q + 1 ≤ 1023 := by
        unfold ulpExponent at hsmall
        omega
      have hnext : q < (2 : ℚ) ^ (Int.log 2 q + 1) := by
        simpa using Int.lt_zpow_succ_log_self (b := 2) (by norm_num) q
      have hbelow : q < (2 : ℚ) ^ (1023 : ℤ) := hnext.trans_le (two_zpow_le hlog)
      exact (roundBinary64_le_two_zpow hbelow (by omega)).trans
        (two_zpow_le_greatestDouble (le_refl _))
    · have hnormal : -1074 < ulpExponent q := by
        unfold ulpExponent at hsmall ⊢
        omega
      obtain ⟨hlow, hhigh⟩ := significand_bounds hpos hnormal
      set m := roundHalfEven (q / 2 ^ ulpExponent q) with hm
      have hdouble : roundBinary64 q = m * 2 ^ ulpExponent q := rfl
      have hulp := two_zpow_pos (ulpExponent q)
      rcases lt_trichotomy (ulpExponent q) 971 with hless | htop | hmore
      · have hle : (m : ℚ) ≤ 2 ^ (53 : ℤ) := by exact_mod_cast hhigh
        calc roundBinary64 q = m * 2 ^ ulpExponent q := hdouble
          _ ≤ 2 ^ (53 : ℤ) * 2 ^ ulpExponent q := mul_le_mul_of_nonneg_right hle hulp.le
          _ = 2 ^ (53 + ulpExponent q) := (two_zpow_add _ _).symm
          _ ≤ greatestDouble := two_zpow_le_greatestDouble (by omega)
      · rw [hdouble, htop, overflow_eq] at h
        have hm' : m < 2 ^ 53 := by exact_mod_cast lt_of_mul_lt_mul_right h (two_zpow_pos _).le
        have hle : (m : ℚ) ≤ 2 ^ 53 - 1 := by exact_mod_cast Int.le_sub_one_of_lt hm'
        rw [hdouble, htop]
        exact mul_le_mul_of_nonneg_right hle (two_zpow_pos _).le
      · -- the next binade overflows
        have hle : (2 : ℚ) ^ (52 : ℤ) ≤ m := by exact_mod_cast hlow
        have hreached : (2 : ℚ) ^ (1024 : ℤ) ≤ roundBinary64 q := by
          calc (2 : ℚ) ^ (1024 : ℤ) ≤ 2 ^ (52 + ulpExponent q) := two_zpow_le (by omega)
            _ = 2 ^ (52 : ℤ) * 2 ^ ulpExponent q := two_zpow_add _ _
            _ ≤ m * 2 ^ ulpExponent q := mul_le_mul_of_nonneg_right hle hulp.le
        exact absurd h (not_lt.mpr ((zpow_ofNat (2 : ℚ) 1024).symm.trans_le hreached))

/-- Decimals of a double do not lead beyond the greatest one. -/
theorem roundBinary64_written_lt {scale : ℕ} (hscale : 0 < scale) {y q : ℚ} (hq : 0 ≤ q)
    (hy : y = roundBinary64 q) (hfinite : y < 2 ^ 1024) :
    roundBinary64 ((roundHalfEven (y * scale) : ℚ) / scale) < 2 ^ 1024 := by
  have hscale' : (0 : ℚ) < scale := Nat.cast_pos.mpr hscale
  have hmax : y ≤ greatestDouble := hy ▸ roundBinary64_le_greatestDouble hq (hy ▸ hfinite)
  have hwhole : greatestDouble * scale = (((2 ^ 53 - 1) * 2 ^ 971 * scale : ℤ) : ℚ) := by
    have hpower : (2 : ℚ) ^ (971 : ℤ) = 2 ^ 971 := zpow_ofNat 2 971
    rw [greatestDouble, hpower]
    simp only [Int.cast_mul, Int.cast_pow, Int.cast_sub, Int.cast_ofNat, Int.cast_one,
      Int.cast_natCast]
  have hround : (roundHalfEven (y * scale) : ℚ) ≤ greatestDouble * scale := by
    rw [hwhole, ← roundHalfEven_intCast ((2 ^ 53 - 1) * 2 ^ 971 * scale), ← hwhole]
    exact Int.cast_le.mpr (roundHalfEven_mono (mul_le_mul_of_nonneg_right hmax hscale'.le))
  have hnonneg : (0 : ℚ) ≤ (roundHalfEven (y * scale) : ℚ) / scale := by
    have hy' : 0 ≤ y * scale := mul_nonneg (hy ▸ roundBinary64_nonneg hq) hscale'.le
    have hfloor : 0 ≤ ⌊y * scale⌋ := Int.floor_nonneg.mpr hy'
    exact div_nonneg (Int.cast_nonneg (hfloor.trans (floor_le_roundHalfEven _))) hscale'.le
  calc _ ≤ roundBinary64 greatestDouble :=
        roundBinary64_mono hnonneg ((div_le_iff₀ hscale').mpr hround)
    _ = greatestDouble := roundBinary64_greatestDouble
    _ < 2 ^ 1024 := greatestDouble_lt

end Foundation
