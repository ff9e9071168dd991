import Labios.Foundation.Decimal
import Mathlib.Data.List.TakeWhile

/-!
# Texts of an `int`

What `std::to_string` writes for an `int`, and `std::stoi`, which reads it back
(`stoi_toString`).
-/

namespace Labios

open Foundation

/-- A value of the C++ type `int`. -/
def IsInt (z : Int) : Prop := -2147483648 ≤ z ∧ z ≤ 2147483647

instance isInt_decidable (z : Int) : Decidable (IsInt z) := inferInstanceAs (Decidable (_ ∧ _))

theorem takeWhile_toDigits (n : Nat) :
    (Nat.toDigits 10 n).takeWhile Char.isDigit = Nat.toDigits 10 n :=
  List.takeWhile_eq_self_iff.mpr fun _ hc => isDigit_of_mem hc

/-- Digits begin with no other character. -/
theorem toDigits_ne_cons {c : Char} (hc : c.isDigit = false) (n : Nat) (rest : List Char) :
    Nat.toDigits 10 n ≠ c :: rest := by
  intro hcons
  have hmem : c ∈ Nat.toDigits 10 n := hcons ▸ List.mem_cons_self
  exact notMem_toDigits hc n hmem

theorem foldl_toDigits (n : Nat) :
    (Nat.toDigits 10 n).foldl (fun (m : Int) c => 10 * m + (c.toNat - 48 : Nat)) 0 = n := by
  rw [← Nat.cast_zero, foldl_digits, Nat.ofDigitChars_ten_toDigits]

/-- What the readers of an `int` refuse does not occur. -/
theorem IsInt.accepted {z : Int} (hz : IsInt z) :
    ¬(Nat.toDigits 10 z.natAbs = [] ∨ z < -2147483648 ∨ 2147483647 < z) := by
  obtain ⟨hlow, hhigh⟩ := hz
  rintro (h | h | h)
  · exact Nat.toDigits_ne_nil h
  · omega
  · omega

theorem notMem_toString_int {c : Char} (hdigit : c.isDigit = false) (hsign : c ≠ '-') (z : Int) :
    c ∉ (toString z).toList := by
  rw [toList_toString_int]
  split
  · intro hmem
    rcases List.mem_cons.mp hmem with heq | hmem
    · exact hsign heq
    · exact notMem_toDigits hdigit _ hmem
  · exact notMem_toDigits hdigit _

namespace Elastic

/-- `std::stoi`: blanks, a sign, at least one digit, and a value of type `int`. -/
def stoi (cs : List Char) : Option Int :=
  let cs := cs.dropWhile fun c => c = ' ' ∨ 9 ≤ c.toNat ∧ c.toNat ≤ 13
  let (negative, rest) := match cs with
    | '-' :: rest => (true, rest)
    | '+' :: rest => (false, rest)
    | _ => (false, cs)
  let digits := rest.takeWhile Char.isDigit
  let magnitude : Int := digits.foldl (fun n c => 10 * n + (c.toNat - 48 : Nat)) 0
  let value := if negative then -magnitude else magnitude
  if digits = [] ∨ value < -2147483648 ∨ 2147483647 < value then none else some value

/-- Neither a sign nor a digit is a blank. -/
theorem dropWhile_toString_int (z : Int) : (toString z).toList.dropWhile
    (fun c => c = ' ' ∨ 9 ≤ c.toNat ∧ c.toNat ≤ 13) = (toString z).toList := by
  rw [toList_toString_int]
  split
  · rfl
  · cases hdigits : Nat.toDigits 10 z.natAbs with
    | nil => rfl
    | cons c rest =>
        have hdigit : c.isDigit := isDigit_of_mem (hdigits ▸ List.mem_cons_self)
        refine List.dropWhile_cons_of_neg ?_
        rw [decide_eq_true_iff]
        rintro (rfl | hblank)
        · cases hdigit
        · have hzero : 48 ≤ c.toNat := (Char.isDigit_iff_toNat.mp hdigit).1
          omega

theorem stoi_toString {z : Int} (hz : IsInt z) : stoi (toString z).toList = some z := by
  unfold stoi
  rw [dropWhile_toString_int, toList_toString_int]
  by_cases hneg : z < 0
  · have habs : -(z.natAbs : Int) = z := by omega
    rw [if_pos hneg]
    simp only [takeWhile_toDigits, foldl_toDigits, if_true, habs]
    exact if_neg hz.accepted
  · have habs : (z.natAbs : Int) = z := by omega
    rw [if_neg hneg]
    dsimp only
    split
    -- digits do not begin with a sign
    · next rest hcons => exact absurd hcons (toDigits_ne_cons rfl _ rest)
    · next rest hcons => exact absurd hcons (toDigits_ne_cons rfl _ rest)
    · simp only [takeWhile_toDigits, foldl_toDigits, Bool.false_eq_true, if_false, habs]
      exact if_neg hz.accepted

end Elastic
end Labios
