import Mathlib.Data.Nat.Digits.Defs

/-!
# Decimal texts

The decimal text of a number consists of digits, is not empty, and names the number.
-/

namespace Foundation

theorem toList_toString (n : Nat) : (toString n).toList = Nat.toDigits 10 n :=
  Nat.toList_repr

theorem isDigit_of_mem {n : Nat} {c : Char} (h : c ∈ Nat.toDigits 10 n) : c.isDigit :=
  Nat.isDigit_of_mem_toDigits (by decide) (by decide) h

theorem notMem_toDigits {c : Char} (hc : c.isDigit = false) (n : Nat) : c ∉ Nat.toDigits 10 n := by
  intro h
  rw [isDigit_of_mem h] at hc
  cases hc

theorem toDigits_inj {m n : Nat} (h : Nat.toDigits 10 m = Nat.toDigits 10 n) : m = n := by
  rw [← Nat.ofDigitChars_ten_toDigits (n := m), h, Nat.ofDigitChars_ten_toDigits]

/-- The digits of a number, read into an integer. -/
theorem foldl_digits (digits : List Char) (start : Nat) :
    digits.foldl (fun (n : Int) c => 10 * n + (c.toNat - 48 : Nat)) start =
      (Nat.ofDigitChars 10 digits start : Nat) := by
  induction digits generalizing start with
  | nil => rfl
  | cons c rest ih =>
      rw [List.foldl_cons, Nat.ofDigitChars_cons, ← ih]
      rfl

/-- An integer is written as its digits, behind a sign if it is negative. -/
theorem toList_toString_int (z : Int) :
    (toString z).toList =
      if z < 0 then '-' :: Nat.toDigits 10 z.natAbs else Nat.toDigits 10 z.natAbs := by
  cases z with
  | ofNat n => exact toList_toString n
  | negSucc n =>
      have hneg : Int.negSucc n < 0 := Int.negSucc_lt_zero n
      rw [if_pos hneg]
      show ("-" ++ Nat.repr (n + 1)).toList = _
      rw [String.toList_append, Nat.toList_repr]
      rfl

end Foundation
