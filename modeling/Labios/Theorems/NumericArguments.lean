import Labios.Label.ConditionValues
import Labios.Sds.Numeric
import Labios.Theorems.PipelineText

/-!
# Numeric arguments

`fn_filter_bytes`, `fn_sample` and `fn_truncate` take the numeral that
`std::from_chars` finds in front of their argument and ignore what follows it;
`fn_filter_bytes` also narrows the number to a byte. `arguments_strict_iff` says for
which arguments they are strict all the same.
-/

namespace Labios

open Foundation

/-- `front` is cut off the text where its digits end. -/
def NumeralInFront (text front rest : List Char) : Prop :=
  text = front ++ rest ∧ ∀ c ∈ rest.head?, c.isDigit = false

/-! ## What is strict -/

/-- `filter_bytes` fails or keeps the bytes of the number that the argument spells. -/
def FilterStrict (input : List UInt8) (args : String) : Prop :=
  (∃ text, fnFilterBytes input args = .error text) ∨
    ∃ v, spelledInt args.toList = some v ∧ 0 ≤ v ∧ v ≤ 255 ∧
      fnFilterBytes input args = .ok (input.filter fun b => decide ((b.toNat : Int) = v))

/-- `f` fails or does what `behaviour` says for the number that the argument spells. -/
def SizeStrict (f : SdsFunction) (behaviour : Nat → List UInt8 → List UInt8)
    (input : List UInt8) (args : String) : Prop :=
  (∃ text, f input args = .error text) ∨
    ∃ n, spelledNat args.toList = some n ∧ f input args = .ok (behaviour n input)

/-- An `int` in front of the argument is all of it, and a byte. -/
def ByteAlone (args : String) : Prop :=
  ∀ front rest v, NumeralInFront args.toList front rest → spelledInt front = some v → IsInt v →
    rest = [] ∧ 0 ≤ v ∧ v ≤ 255

/-- A `size_t` in front of the argument is all of it. -/
def SizeAlone (args : String) : Prop :=
  ∀ front rest n, NumeralInFront args.toList front rest → spelledNat front = some n →
    n < 2 ^ 64 → rest = []

/-! ## Numerals in front of a text -/

variable {text front rest : List Char} {n : Nat} {v : Int}

theorem spelledNat_of_digits (hne : text ≠ []) (hdigits : ∀ c ∈ text, c.isDigit = true) :
    spelledNat text = some (Nat.ofDigitChars 10 text 0) :=
  if_pos ⟨hne, List.all_eq_true.mpr hdigits⟩

theorem takeWhile_of_front (hfront : NumeralInFront text front rest)
    (hspelled : spelledNat front = some n) : text.takeWhile Char.isDigit = front := by
  obtain ⟨rfl, hstop⟩ := hfront
  obtain ⟨-, hdigits, -⟩ := spelledNat_eq_some hspelled
  rw [takeWhile_append_stop hstop, List.takeWhile_eq_self_iff.mpr hdigits]

/-- The digits in front of a text that has some. -/
theorem numeralInFront_takeWhile (hne : text.takeWhile Char.isDigit ≠ []) :
    NumeralInFront text (text.takeWhile Char.isDigit) (text.dropWhile Char.isDigit) ∧
      spelledNat (text.takeWhile Char.isDigit) =
        some (Nat.ofDigitChars 10 (text.takeWhile Char.isDigit) 0) := by
  refine ⟨⟨List.takeWhile_append_dropWhile.symm, ?_⟩, ?_⟩
  · intro c hc
    have hstop := List.head?_dropWhile_not Char.isDigit text
    rw [Option.mem_def.mp hc] at hstop
    simpa using hstop
  · exact spelledNat_of_digits hne fun c hc => List.mem_takeWhile_imp hc

/-- What follows a whole numeral is nothing. -/
theorem rest_eq_nil_of_nat (hfront : NumeralInFront text front rest)
    (hspelled : spelledNat front = some n) {m : Nat} (hall : spelledNat text = some m) :
    rest = [] := by
  have htake := takeWhile_of_front hfront hspelled
  obtain ⟨-, hdigits, -⟩ := spelledNat_eq_some hall
  rw [List.takeWhile_eq_self_iff.mpr hdigits] at htake
  have hlength := congrArg List.length hfront.1
  rw [List.length_append, htake] at hlength
  exact List.length_eq_zero_iff.mp (by omega)

theorem fromCharsSize_eq_some : fromCharsSize text = some n ↔
    ∃ front rest, NumeralInFront text front rest ∧ spelledNat front = some n ∧ n < 2 ^ 64 := by
  unfold fromCharsSize
  constructor
  · intro h
    dsimp only at h
    split at h
    · cases h
    · next hgood =>
        rw [not_or] at hgood
        obtain ⟨hfront, hspelled⟩ := numeralInFront_takeWhile hgood.1
        obtain rfl := Option.some.inj h
        exact ⟨_, _, hfront, hspelled, Nat.lt_of_not_le hgood.2⟩
  · rintro ⟨front, rest, hfront, hspelled, hfits⟩
    obtain ⟨hne, -, hvalue⟩ := spelledNat_eq_some hspelled
    rw [takeWhile_of_front hfront hspelled]
    dsimp only
    rw [hvalue, if_neg (not_or.mpr ⟨hne, Nat.not_le_of_lt hfits⟩)]

/-- The digits behind a sign. -/
def signedDigits (negative : Bool) (cs : List Char) : Option Int :=
  let digits := cs.takeWhile Char.isDigit
  let magnitude : Int := Nat.ofDigitChars 10 digits 0
  let value := if negative then -magnitude else magnitude
  if digits = [] ∨ value < -2147483648 ∨ 2147483647 < value then none else some value

theorem fromCharsInt_minus (cs : List Char) :
    fromCharsInt ('-' :: cs) = signedDigits true cs := rfl

theorem fromCharsInt_unsigned (hsign : ∀ digits, text ≠ '-' :: digits) :
    fromCharsInt text = signedDigits false text := by
  have hcut : cutSign text = (false, text) := by
    unfold cutSign
    split
    · next digits => exact absurd rfl (hsign digits)
    · rfl
  exact congrArg (fun cut : Bool × List Char => signedDigits cut.1 cut.2) hcut

theorem signedDigits_eq_some {negative : Bool} : signedDigits negative text = some v ↔
    ∃ front rest n, NumeralInFront text front rest ∧ spelledNat front = some n ∧
      v = (if negative then -(n : Int) else n) ∧ IsInt v := by
  unfold signedDigits
  constructor
  · intro h
    dsimp only at h
    generalize hvalue : (if negative = true then
        -(Nat.ofDigitChars 10 (text.takeWhile Char.isDigit) 0 : Int)
      else Nat.ofDigitChars 10 (text.takeWhile Char.isDigit) 0) = value at h
    split at h
    · cases h
    · next hgood =>
        rw [not_or, not_or] at hgood
        obtain ⟨hfront, hspelled⟩ := numeralInFront_takeWhile hgood.1
        obtain rfl := Option.some.inj h
        exact ⟨_, _, _, hfront, hspelled, hvalue.symm, Int.not_lt.mp hgood.2.1,
          Int.not_lt.mp hgood.2.2⟩
  · rintro ⟨front, rest, n, hfront, hspelled, rfl, hlow, hhigh⟩
    obtain ⟨hne, -, hvalue⟩ := spelledNat_eq_some hspelled
    rw [takeWhile_of_front hfront hspelled]
    dsimp only
    rw [hvalue, if_neg (not_or.mpr ⟨hne, not_or.mpr ⟨Int.not_lt.mpr hlow, Int.not_lt.mpr hhigh⟩⟩)]

/-- A reader of the pipeline numbers keeps their old value where this one fails. -/
theorem fromChars_eq (text : List Char) (old : Int) :
    fromChars text old = (fromCharsInt text).getD old := by
  have hdigits : ∀ negative cs,
      fromDigits negative cs old = (signedDigits negative cs).getD old := by
    intro negative cs
    have hread := foldl_digits (cs.takeWhile Char.isDigit) 0
    rw [Nat.cast_zero] at hread
    unfold fromDigits signedDigits
    simp only [hread]
    generalize (if negative = true then _ else _ : Int) = value
    split
    · rfl
    · rfl
  by_cases hsign : ∃ digits, text = '-' :: digits
  · obtain ⟨digits, rfl⟩ := hsign
    rw [fromChars_minus, fromCharsInt_minus, hdigits]
  · rw [fromChars_unsigned (not_exists.mp hsign), fromCharsInt_unsigned (not_exists.mp hsign),
      hdigits]

theorem spelledInt_minus (digits : List Char) :
    spelledInt ('-' :: digits) = (spelledNat digits).map fun n : Nat => -(n : Int) := rfl

theorem not_minus_of_digits {digits : List Char} (h : ∀ c ∈ text, c.isDigit = true) :
    text ≠ '-' :: digits := by
  rintro rfl
  cases h '-' List.mem_cons_self

/-- The reader of an `int` takes the numeral in front. -/
theorem fromCharsInt_eq_some : fromCharsInt text = some v ↔
    ∃ front rest, NumeralInFront text front rest ∧ spelledInt front = some v ∧ IsInt v := by
  by_cases hsign : ∃ digits, text = '-' :: digits
  · obtain ⟨digits, rfl⟩ := hsign
    rw [fromCharsInt_minus, signedDigits_eq_some]
    constructor
    · rintro ⟨front, rest, n, ⟨rfl, hstop⟩, hspelled, rfl, hint⟩
      refine ⟨'-' :: front, rest, ⟨rfl, hstop⟩, ?_, hint⟩
      rw [spelledInt_minus, hspelled]
      rfl
    · rintro ⟨front, rest, ⟨hcut, hstop⟩, hspelled, hint⟩
      cases front with
      | nil => cases hspelled
      | cons c front =>
        obtain ⟨rfl, rfl⟩ := List.cons.inj hcut
        rw [spelledInt_minus] at hspelled
        obtain ⟨n, hnat, hvalue⟩ := Option.map_eq_some_iff.mp hspelled
        exact ⟨front, rest, n, ⟨rfl, hstop⟩, hnat, hvalue.symm, hint⟩
  · have hunsigned := not_exists.mp hsign
    rw [fromCharsInt_unsigned hunsigned, signedDigits_eq_some]
    constructor
    · rintro ⟨front, rest, n, hfront, hspelled, rfl, hint⟩
      refine ⟨front, rest, hfront, ?_, hint⟩
      have hdigits := (spelledNat_eq_some hspelled).2.1
      rw [spelledInt_unsigned fun _ => not_minus_of_digits hdigits, hspelled]
      rfl
    · rintro ⟨front, rest, hfront, hspelled, hint⟩
      have hfrontSign : ∀ digits, front ≠ '-' :: digits := by
        rintro digits rfl
        exact hunsigned _ hfront.1
      rw [spelledInt_unsigned hfrontSign] at hspelled
      obtain ⟨n, hnat, rfl⟩ := Option.map_eq_some_iff.mp hspelled
      exact ⟨front, rest, n, hfront, hnat, rfl, hint⟩

theorem rest_eq_nil_of_int (hfront : NumeralInFront text front rest)
    (hspelled : spelledInt front = some v) {w : Int} (hall : spelledInt text = some w) :
    rest = [] := by
  by_cases hsign : ∃ digits, text = '-' :: digits
  · obtain ⟨digits, rfl⟩ := hsign
    obtain ⟨hcut, hstop⟩ := hfront
    cases front with
    | nil => cases hspelled
    | cons c front =>
      obtain ⟨rfl, rfl⟩ := List.cons.inj hcut
      obtain ⟨n, hnat, -⟩ := Option.map_eq_some_iff.mp hspelled
      obtain ⟨m, hallNat, -⟩ := Option.map_eq_some_iff.mp hall
      exact rest_eq_nil_of_nat ⟨rfl, hstop⟩ hnat hallNat
  · have hunsigned := not_exists.mp hsign
    have hfrontSign : ∀ digits, front ≠ '-' :: digits := by
      rintro digits rfl
      exact hunsigned _ hfront.1
    rw [spelledInt_unsigned hfrontSign] at hspelled
    rw [spelledInt_unsigned hunsigned] at hall
    obtain ⟨n, hnat, -⟩ := Option.map_eq_some_iff.mp hspelled
    obtain ⟨m, hallNat, -⟩ := Option.map_eq_some_iff.mp hall
    exact rest_eq_nil_of_nat hfront hnat hallNat

/-! ## The functions -/

variable {input : List UInt8} {args : String}

/-- The bytes of a number from 0 to 255, kept by its narrowed value. -/
theorem filter_ofInt (input : List UInt8) (hlow : 0 ≤ v) (hhigh : v ≤ 255) :
    input.filter (· == UInt8.ofInt v) = input.filter fun b => decide ((b.toNat : Int) = v) := by
  have hbyte : (UInt8.ofInt v).toNat = v.toNat := by
    rw [UInt8.ofInt, UInt8.toNat_ofNat']
    omega
  apply List.filter_congr
  intro b _
  rw [Bool.eq_iff_iff, beq_iff_eq, decide_eq_true_iff, ← UInt8.toNat_inj, hbyte]
  omega

theorem fnFilterBytes_cases (input : List UInt8) (args : String) :
    (fromCharsInt args.toList = none ∧ ∃ text, fnFilterBytes input args = .error text) ∨
      ∃ v, fromCharsInt args.toList = some v ∧
        fnFilterBytes input args = .ok (input.filter (· == UInt8.ofInt v)) := by
  unfold fnFilterBytes
  by_cases hempty : args.isEmpty = true
  · rw [if_pos hempty, String.isEmpty_iff.mp hempty]
    exact Or.inl ⟨rfl, _, rfl⟩
  · rw [if_neg hempty]
    cases hread : fromCharsInt args.toList with
    | none => exact Or.inl ⟨rfl, _, rfl⟩
    | some v => exact Or.inr ⟨v, rfl, rfl⟩

theorem filterStrict_iff (input : List UInt8) (args : String) :
    FilterStrict input args ↔ ByteAlone args := by
  unfold FilterStrict ByteAlone
  rcases fnFilterBytes_cases input args with ⟨hnone, herror⟩ | ⟨v, hsome, hok⟩
  · refine iff_of_true (Or.inl herror) ?_
    intro front rest w hfront hspelled hint
    rw [fromCharsInt_eq_some.mpr ⟨front, rest, hfront, hspelled, hint⟩] at hnone
    cases hnone
  · rw [hok]
    constructor
    · -- the function does not fail, so the argument spells its number
      rintro (⟨text, htext⟩ | ⟨w, hall, hlow, hhigh, -⟩) front rest u hfront hspelled hint
      · cases htext
      · obtain rfl := rest_eq_nil_of_int hfront hspelled hall
        rw [hfront.1, List.append_nil, hspelled] at hall
        obtain rfl := Option.some.inj hall
        exact ⟨rfl, hlow, hhigh⟩
    · intro halone
      obtain ⟨front, rest, hfront, hspelled, hint⟩ := fromCharsInt_eq_some.mp hsome
      obtain ⟨rfl, hlow, hhigh⟩ := halone front rest v hfront hspelled hint
      have hall : spelledInt args.toList = some v := by
        rw [hfront.1, List.append_nil, hspelled]
      exact Or.inr ⟨v, hall, hlow, hhigh, congrArg Except.ok (filter_ofInt input hlow hhigh)⟩

/-- A function that reads a `size_t` is strict for the arguments that hold nothing
else. -/
theorem sizeStrict_iff {f : SdsFunction} {behaviour : Nat → List UInt8 → List UInt8}
    (hnone : fromCharsSize args.toList = none → ∃ text, f input args = .error text)
    (hsome : ∀ n, fromCharsSize args.toList = some n → f input args = .ok (behaviour n input)) :
    SizeStrict f behaviour input args ↔ SizeAlone args := by
  unfold SizeStrict SizeAlone
  cases hread : fromCharsSize args.toList with
  | none =>
    refine iff_of_true (Or.inl (hnone hread)) ?_
    intro front rest n hfront hspelled hfits
    rw [fromCharsSize_eq_some.mpr ⟨front, rest, hfront, hspelled, hfits⟩] at hread
    cases hread
  | some n =>
    rw [hsome n hread]
    constructor
    · rintro (⟨text, htext⟩ | ⟨m, hall, -⟩) front rest k hfront hspelled hfits
      · cases htext
      · exact rest_eq_nil_of_nat hfront hspelled hall
    · intro halone
      obtain ⟨front, rest, hfront, hspelled, hfits⟩ := fromCharsSize_eq_some.mp hread
      obtain rfl := halone front rest n hfront hspelled hfits
      refine Or.inr ⟨n, ?_, rfl⟩
      rw [hfront.1, List.append_nil, hspelled]

theorem truncateStrict_iff (input : List UInt8) (args : String) :
    SizeStrict fnTruncate (fun n input => input.take n) input args ↔ SizeAlone args := by
  have htake : ∀ n, input.take (min n input.length) = input.take n := fun n => by
    rw [← List.take_take, List.take_length]
  apply sizeStrict_iff
  · intro hnone
    unfold fnTruncate
    split
    · exact ⟨_, rfl⟩
    · rw [hnone]
      exact ⟨_, rfl⟩
  · intro n hsome
    rw [fnTruncate, if_neg (not_isEmpty_of_fromCharsSize hsome), hsome]
    exact congrArg Except.ok (htake n)

theorem sampleStrict_iff (S : StdSort) (draw : Nat → Nat) (input : List UInt8) (args : String) :
    SizeStrict (fnSample S draw) (sampleBytes S draw) input args ↔ SizeAlone args := by
  apply sizeStrict_iff
  · intro hnone
    unfold fnSample
    split
    · exact ⟨_, rfl⟩
    · rw [hnone]
      exact ⟨_, rfl⟩
  · exact fun n hsome => fnSample_eq S draw input hsome

/-- For every argument and input, the three functions are strict exactly when no
number stands in front of the argument, or nothing follows it and, for
`filter_bytes`, it is a byte. -/
theorem arguments_strict_iff (S : StdSort) (draw : Nat → Nat) (input : List UInt8)
    (args : String) :
    (FilterStrict input args ↔ ByteAlone args) ∧
      (SizeStrict fnTruncate (fun n input => input.take n) input args ↔ SizeAlone args) ∧
      (SizeStrict (fnSample S draw) (sampleBytes S draw) input args ↔ SizeAlone args) :=
  ⟨filterStrict_iff input args, truncateStrict_iff input args,
    sampleStrict_iff S draw input args⟩

/-- `filter_bytes` takes 300 for 44, and `truncate` takes `2x` for 2. -/
theorem arguments_not_strict :
    fnFilterBytes [44, 45] "300" = .ok [44] ∧ ¬FilterStrict [44, 45] "300" ∧
      fnTruncate [7, 8, 9] "2x" = .ok [7, 8] ∧
      ¬SizeStrict fnTruncate (fun n input => input.take n) [7, 8, 9] "2x" := by
  refine ⟨by decide, ?_, by decide, ?_⟩
  · rw [filterStrict_iff]
    intro h
    have hbyte := h ['3', '0', '0'] [] 300 ⟨rfl, by simp⟩ (by decide) (by decide)
    omega
  · rw [truncateStrict_iff]
    intro h
    have hrest := h ['2'] ['x'] 2 ⟨rfl, by simp⟩ (by decide) (by decide)
    cases hrest

end Labios
