import Mathlib.Data.List.Basic
import Mathlib.Tactic.Ring

/-!
# Words and byte buffers

Little-endian words, and reads and writes of a buffer that answer `none` when
they would leave it.
-/

namespace Foundation

/-! ## Little-endian words -/

/-- The `width` low bytes of `x`, least significant first. -/
def leBytes : Nat → Nat → List UInt8
  | 0, _ => []
  | width + 1, x => UInt8.ofNat x :: leBytes width (x / 256)

/-- The number that little-endian bytes spell. -/
def ofLeBytes : List UInt8 → Nat
  | [] => 0
  | b :: bs => b.toNat + 256 * ofLeBytes bs

@[simp] theorem length_leBytes (width x : Nat) : (leBytes width x).length = width := by
  induction width generalizing x with
  | zero => rfl
  | succ width ih => simp [leBytes, ih]

theorem ofLeBytes_leBytes (width x : Nat) : ofLeBytes (leBytes width x) = x % 256 ^ width := by
  induction width generalizing x with
  | zero => simp [leBytes, ofLeBytes, Nat.mod_one]
  | succ width ih =>
    have hlow : (UInt8.ofNat x).toNat = x % 256 := UInt8.toNat_ofNat'
    rw [leBytes, ofLeBytes, ih, hlow, Nat.pow_succ', Nat.mod_mul]

/-! ## Checked reads and writes -/

section
variable {α : Type}

/-- `length` entries from `pos` on; `none` when they leave the buffer. -/
def readAt (buf : List α) (pos length : Nat) : Option (List α) :=
  if pos + length ≤ buf.length then some ((buf.drop pos).take length) else none

/-- `memcpy` to `pos`; `none` when the data leaves the buffer. -/
def writeAt (buf : List α) (pos : Nat) (data : List α) : Option (List α) :=
  if pos + data.length ≤ buf.length then
    some (buf.take pos ++ data ++ buf.drop (pos + data.length))
  else none

theorem readAt_of_le {buf : List α} {pos length : Nat} (h : pos + length ≤ buf.length) :
    readAt buf pos length = some ((buf.drop pos).take length) := if_pos h

/-- A text that is cut behind its first part. -/
theorem exists_of_prefix_append {front rest cut : List α} (hcut : cut <+: front ++ rest)
    (hlen : front.length ≤ cut.length) : ∃ more, cut = front ++ more ∧ more <+: rest := by
  obtain ⟨more, rfl⟩ :=
    List.prefix_of_prefix_length_le (List.prefix_append front rest) hcut hlen
  exact ⟨more, rfl, (List.prefix_append_right_inj front).mp hcut⟩

/-- A write over the entries between `front` and `back`. -/
theorem writeAt_append (front back : List α) {old data : List α}
    (h : old.length = data.length) :
    writeAt (front ++ old ++ back) front.length data = some (front ++ data ++ back) := by
  unfold writeAt
  rw [if_pos (by simp only [List.length_append]; omega)]
  have hdrop : (front ++ old ++ back).drop (front.length + data.length) = back := by
    rw [← h, ← List.length_append, List.drop_left]
  rw [hdrop, List.append_assoc front old back, List.take_left]

end

end Foundation
