import Labios.Client.SizeText
import Mathlib.Data.List.TakeWhile

/-!
# Documented size strings

The documentation of the size fields lists `64KB`, `1MB`, `2GB` and `10TB`.
`parse_size` has no case for `TB`, and a suffix that it does not know leaves the number
as it is. `documented_iff` says for which strings it does what is documented all the
same.
-/

namespace Labios

open Foundation

/-! ## The documented strings -/

/-- The power of 1024 that a documented suffix stands for, in any letter case. -/
def documentedPower (suffix : List Char) : Option Nat :=
  let suffixUpper := suffix.map Char.toUpper
  if suffixUpper = [] ∨ suffixUpper = "B".toList then some 0
  else if suffixUpper = "KB".toList then some 1
  else if suffixUpper = "MB".toList then some 2
  else if suffixUpper = "GB".toList then some 3
  else if suffixUpper = "TB".toList then some 4
  else none

/-- The string is `n` in decimal digits and a documented suffix, with any blanks around
both. -/
def WritesSize (s : String) (n k : Nat) : Prop :=
  ∃ before digits between suffix after,
    s.toList = before ++ (digits ++ (between ++ (suffix ++ after))) ∧
      (∀ c ∈ before, isspace c = true) ∧ (∀ c ∈ between, isspace c = true) ∧
      (∀ c ∈ after, isspace c = true) ∧ digits ≠ [] ∧ (∀ c ∈ digits, c.isDigit = true) ∧
      Nat.ofDigitChars 10 digits 0 = n ∧ documentedPower suffix = some k

/-- What follows the number in the string is no documented suffix. -/
def OtherSuffix (s : String) : Prop :=
  ∃ negative numeral suffix, scannedSize s = some (negative, numeral, suffix) ∧
    documentedPower (trimAscii suffix) = none

/-- A documented string has its size, and one with another suffix is refused, which is
the size 0. -/
def ParsesAsDocumented (s : String) : Prop :=
  (∀ n k, WritesSize s n k → n * 1024 ^ k < 2 ^ 53 →
    parseSize s = some (UInt64.ofNat (n * 1024 ^ k))) ∧
  (OtherSuffix s → parseSize s = some 0)

/-! ## Characters -/

theorem toUpper_cases (c : Char) :
    c.toUpper = c ∨ (97 ≤ c.toNat ∧ c.toNat ≤ 122 ∧ c.toUpper.toNat + 32 = c.toNat) := by
  unfold Char.toUpper
  split
  next h =>
    right
    have hlow : 97 ≤ c.val.toNat := UInt32.le_iff_toNat_le.mp h.1
    have hhigh : c.val.toNat ≤ 122 := UInt32.le_iff_toNat_le.mp h.2
    refine ⟨hlow, hhigh, ?_⟩
    show (c.val + ('A'.val - 'a'.val)).toNat + 32 = c.val.toNat
    rw [UInt32.toNat_add]
    have hshift : ('A'.val - 'a'.val).toNat = 2 ^ 32 - 32 := by decide
    rw [hshift]
    omega
  next => exact Or.inl rfl

/-- The letters of the suffixes. -/
def suffixLetters : List Char := ['B', 'K', 'M', 'G', 'T', 'b', 'k', 'm', 'g', 't']

theorem mem_suffixLetters {c : Char} (h : c.toUpper ∈ ['B', 'K', 'M', 'G', 'T']) :
    c ∈ suffixLetters := by
  rcases toUpper_cases c with heq | ⟨-, -, hnat⟩
  · rw [heq] at h
    exact List.mem_append_left ['b', 'k', 'm', 'g', 't'] h
  · have hchar : c = Char.ofNat (c.toUpper.toNat + 32) := by rw [hnat, Char.ofNat_toNat]
    rw [hchar]
    simp only [List.mem_cons, List.not_mem_nil, or_false] at h
    rcases h with h | h | h | h | h <;> rw [h] <;> decide

theorem mem_blanks {c : Char} (h : isspace c = true) :
    c ∈ [' ', '\t', '\n', '\x0b', '\x0c', '\r'] := by
  unfold isspace at h
  rw [Bool.or_eq_true, beq_iff_eq, decide_eq_true_iff] at h
  rcases h with rfl | ⟨hlow, hhigh⟩
  · decide
  · have hall : ∀ n, n < 14 → 9 ≤ n →
        Char.ofNat n ∈ [' ', '\t', '\n', '\x0b', '\x0c', '\r'] := by decide
    have hblank := hall c.toNat (by omega) hlow
    rwa [Char.ofNat_toNat] at hblank

/-- Neither goes on with the number of `strtod` nor ends the string for it. -/
def EndsNumber (c : Char) : Prop :=
  c.isDigit = false ∧ c ≠ '.' ∧ c.toLower ≠ 'e' ∧ c.toLower ≠ 'x' ∧ c ≠ '\x00'

instance (c : Char) : Decidable (EndsNumber c) := inferInstanceAs (Decidable (_ ∧ _))

theorem endsNumber_of_blank {c : Char} (h : isspace c = true) : EndsNumber c := by
  have hmem := mem_blanks h
  simp only [List.mem_cons, List.not_mem_nil, or_false] at hmem
  rcases hmem with rfl | rfl | rfl | rfl | rfl | rfl <;> decide

theorem endsNumber_of_letter {c : Char} (h : c ∈ suffixLetters) :
    EndsNumber c ∧ isspace c = false := by
  simp only [suffixLetters, List.mem_cons, List.not_mem_nil, or_false] at h
  rcases h with rfl | rfl | rfl | rfl | rfl | rfl | rfl | rfl | rfl | rfl <;> decide

theorem digit_plain {c : Char} (h : c.isDigit = true) :
    isspace c = false ∧ c ≠ '-' ∧ c ≠ '+' ∧ c.toLower = c ∧ c ≠ '\x00' := by
  have hall : ∀ n, n < 58 → 48 ≤ n → isspace (Char.ofNat n) = false ∧ Char.ofNat n ≠ '-' ∧
      Char.ofNat n ≠ '+' ∧ (Char.ofNat n).toLower = Char.ofNat n ∧ Char.ofNat n ≠ '\x00' := by
    decide
  obtain ⟨hlow, hhigh⟩ := Char.isDigit_iff_toNat.mp h
  have hdigit := hall c.toNat (Nat.lt_succ_of_le hhigh) hlow
  rwa [Char.ofNat_toNat] at hdigit

/-- The characters of a documented suffix are letters of it. -/
theorem mem_of_documented {suffix : List Char} {k : Nat} (h : documentedPower suffix = some k) :
    ∀ c ∈ suffix, c ∈ suffixLetters := by
  intro c hc
  have hupper : c.toUpper ∈ suffix.map Char.toUpper := List.mem_map_of_mem hc
  apply mem_suffixLetters
  have hall : ∀ text ∈ [[], "B".toList, "KB".toList, "MB".toList, "GB".toList, "TB".toList],
      text.all (· ∈ ['B', 'K', 'M', 'G', 'T']) = true := by decide
  refine of_decide_eq_true (List.all_eq_true.mp (hall (suffix.map Char.toUpper) ?_) _ hupper)
  unfold documentedPower at h
  dsimp only at h
  split_ifs at h with hbytes hkilo hmega hgiga htera
  · rcases hbytes with hnone | hbytes
    · exact hnone ▸ by simp
    · exact hbytes ▸ by simp
  · exact hkilo ▸ by simp
  · exact hmega ▸ by simp
  · exact hgiga ▸ by simp
  · exact htera ▸ by simp

/-! ## Reading a documented string -/

theorem dropWhile_isspace {blanks core : List Char} (hblanks : ∀ c ∈ blanks, isspace c = true)
    (hcore : ∀ c ∈ core.head?, isspace c = false) :
    (blanks ++ core).dropWhile isspace = core := by
  rw [List.dropWhile_append_of_pos hblanks]
  cases core with
  | nil => rfl
  | cons c core => exact List.dropWhile_cons_of_neg (by simp [hcore c rfl])

theorem trimAscii_core {before core after : List Char} (hbefore : ∀ c ∈ before, isspace c = true)
    (hafter : ∀ c ∈ after, isspace c = true) (hfirst : ∀ c ∈ core.head?, isspace c = false)
    (hlast : ∀ c ∈ core.getLast?, isspace c = false) (hne : core ≠ []) :
    trimAscii (before ++ (core ++ after)) = core := by
  have hhead : ∀ c ∈ (core ++ after).head?, isspace c = false := by
    rw [List.head?_append_of_ne_nil _ hne]
    exact hfirst
  have hback : ∀ c ∈ core.reverse.head?, isspace c = false := by
    rw [List.head?_reverse]
    exact hlast
  have hafter' : ∀ c ∈ after.reverse, isspace c = true := fun c hc =>
    hafter c (List.mem_reverse.mp hc)
  rw [trimAscii, dropWhile_isspace hbefore hhead, List.reverse_append,
    dropWhile_isspace hafter' hback, List.reverse_reverse]

section Scan

variable {digits rest : List Char}

theorem foldl_digitValue (hdigits : ∀ c ∈ digits, c.isDigit = true) :
    ofDigits 10 digits = Nat.ofDigitChars 10 digits 0 := by
  have hstart : ∀ start : Nat,
      digits.foldl (fun n c => 10 * n + digitValue c) start =
        Nat.ofDigitChars 10 digits start := by
    induction digits with
    | nil => exact fun _ => rfl
    | cons c digits ih =>
      intro start
      have hc : digitValue c = c.toNat - 48 := if_pos (hdigits c List.mem_cons_self)
      rw [List.foldl_cons, Nat.ofDigitChars_cons, hc]
      exact ih (fun c' hc' => hdigits c' (List.mem_cons_of_mem _ hc')) _
  exact hstart 0

/-- The decimal reader stops behind the digits. -/
theorem scanNumeral_digits (hdigits : ∀ c ∈ digits, c.isDigit = true) (hne : digits ≠ [])
    (hrest : ∀ c ∈ rest.head?, EndsNumber c) :
    scanNumeral 10 Char.isDigit 'e' 10 (digits ++ rest) =
      some ((Nat.ofDigitChars 10 digits 0 : ℚ), rest) := by
  have hstop : rest.takeWhile Char.isDigit = [] ∧ rest.dropWhile Char.isDigit = rest := by
    cases rest with
    | nil => exact ⟨rfl, rfl⟩
    | cons c rest =>
      have hc : ¬c.isDigit = true := by simp [(hrest c rfl).1]
      exact ⟨List.takeWhile_cons_of_neg hc, List.dropWhile_cons_of_neg hc⟩
  have htake : (digits ++ rest).takeWhile Char.isDigit = digits := by
    rw [List.takeWhile_append_of_pos hdigits, hstop.1, List.append_nil]
  have hdrop : (digits ++ rest).dropWhile Char.isDigit = rest := by
    rw [List.dropWhile_append_of_pos hdigits, hstop.2]
  have hfraction : scanFraction Char.isDigit rest = ([], rest) := by
    unfold scanFraction
    split
    · exact absurd rfl (hrest '.' rfl).2.1
    · rfl
  have hexponent : scanExponent 'e' rest = (0, rest) := by
    unfold scanExponent
    split
    · next c rest' => exact if_neg fun h => (hrest c rfl).2.2.1 h.1
    · rfl
  unfold scanNumeral
  rw [htake, hdrop, hfraction]
  simp only [hexponent]
  rw [if_neg fun h => hne h.1, List.append_nil, foldl_digitValue hdigits]
  simp

/-- A digit starts neither an infinity nor `nan`. -/
theorem not_prefix_of_digit {p d : Char} {ps more : List Char} (hp : p.isDigit = false)
    (hd : d.isDigit = true) : (p :: ps).isPrefixOf (d :: more) = false := by
  have hne : (p == d) = false := by
    rw [beq_eq_false_iff_ne]
    rintro rfl
    rw [hd] at hp
    cases hp
  rw [List.isPrefixOf_cons_cons, hne, Bool.false_and]

theorem not_hexPrefix {d : Char} {more : List Char} (hmore : ∀ c ∈ more.head?, c ≠ 'x') :
    "0x".toList.isPrefixOf (d :: more) = false := by
  show ['0', 'x'].isPrefixOf (d :: more) = false
  cases more with
  | nil => simp [List.isPrefixOf]
  | cons c more =>
    have hc : ('x' == c) = false := beq_eq_false_iff_ne.mpr (hmore c rfl).symm
    simp [List.isPrefixOf, hc]

/-- `strtod` reads the digits of a documented string and stops at what follows. -/
theorem scanNumber_digits (hdigits : ∀ c ∈ digits, c.isDigit = true) (hne : digits ≠ [])
    (hrest : ∀ c ∈ rest.head?, EndsNumber c) :
    scanNumber (digits ++ rest) =
      some (false, .exact (Nat.ofDigitChars 10 digits 0 : ℚ), rest) := by
  have hscan := scanNumeral_digits hdigits hne hrest
  cases digits with
  | nil => exact absurd rfl hne
  | cons d ds =>
    have hd := hdigits d List.mem_cons_self
    obtain ⟨hblank, hminus, hplus, hlower, -⟩ := digit_plain hd
    have hspace : (d :: ds ++ rest).dropWhile isspace = d :: (ds ++ rest) :=
      List.dropWhile_cons_of_neg (by simp [hblank])
    have hsign : scanSign (d :: (ds ++ rest)) = (false, d :: (ds ++ rest)) := by
      unfold scanSign
      split
      · next heq => exact absurd (List.cons.inj heq).1 hminus
      · next heq => exact absurd (List.cons.inj heq).1 hplus
      · rfl
    -- another digit follows, or what ends the number: the text is not hexadecimal
    have hmore : ∀ c ∈ ((ds ++ rest).map Char.toLower).head?, c ≠ 'x' := by
      rintro c hc rfl
      rw [List.head?_map] at hc
      obtain ⟨c', hc', hx⟩ := Option.map_eq_some_iff.mp (Option.mem_def.mp hc)
      cases ds with
      | nil => exact (hrest c' hc').2.2.2.1 hx
      | cons d' ds =>
        obtain rfl := Option.some.inj hc'
        have hd' := hdigits d' (List.mem_cons_of_mem _ List.mem_cons_self)
        rw [(digit_plain hd').2.2.2.1] at hx
        rw [hx] at hd'
        cases hd'
    have hinfinity : "infinity".toList.isPrefixOf (d :: (ds ++ rest).map Char.toLower) = false :=
      not_prefix_of_digit (by decide) hd
    have hinf : "inf".toList.isPrefixOf (d :: (ds ++ rest).map Char.toLower) = false :=
      not_prefix_of_digit (by decide) hd
    have hnan : "nan".toList.isPrefixOf (d :: (ds ++ rest).map Char.toLower) = false :=
      not_prefix_of_digit (by decide) hd
    rw [List.cons_append] at hscan
    unfold scanNumber
    rw [hspace, hsign]
    simp only [scanUnsigned, List.map_cons, hlower, hinfinity, hinf, hnan, not_hexPrefix hmore,
      Bool.false_eq_true, if_false, hscan, Option.map_some]

end Scan

theorem cString_plain {text : List Char} (h : ∀ c ∈ text, c ≠ '\x00') : cString text = text :=
  List.takeWhile_eq_self_iff.mpr fun c hc => decide_eq_true (h c hc)

/-- What `strtod` makes of a documented string. -/
theorem scannedSize_of_writes {s : String} {n k : Nat} (h : WritesSize s n k) :
    ∃ suffix, scannedSize s = some (false, .exact (n : ℚ), suffix) ∧
      documentedPower (trimAscii suffix) = some k := by
  obtain ⟨before, digits, between, suffix, after, htext, hbefore, hbetween, hafter, hne, hdigits,
    rfl, hpower⟩ := h
  have hletters := mem_of_documented hpower
  have hfirst : ∀ more : List Char, ∀ c ∈ (digits ++ more).head?, isspace c = false := by
    intro more c hc
    rw [List.head?_append_of_ne_nil _ hne] at hc
    exact (digit_plain (hdigits c (List.mem_of_mem_head? hc))).1
  by_cases hsuffix : suffix = []
  · -- the blanks behind the digits are trimmed
    subst hsuffix
    have hblanks : ∀ c ∈ between ++ after, isspace c = true := fun c hc =>
      (List.mem_append.mp hc).elim (hbetween c) (hafter c)
    have hlast : ∀ c ∈ digits.getLast?, isspace c = false := fun c hc =>
      (digit_plain (hdigits c (List.mem_of_getLast? hc))).1
    have htrim : trimAscii s.toList = digits := by
      rw [htext, List.nil_append]
      refine trimAscii_core hbefore hblanks ?_ hlast hne
      have := hfirst []
      rwa [List.append_nil] at this
    have hread : scanNumber (digits ++ []) =
        some (false, .exact (Nat.ofDigitChars 10 digits 0 : ℚ), []) :=
      scanNumber_digits hdigits hne (by simp)
    rw [List.append_nil] at hread
    refine ⟨[], ?_, hpower⟩
    rw [scannedSize, htrim, cString_plain fun c hc => (digit_plain (hdigits c hc)).2.2.2.2, hread]
  · -- blanks and letters stay behind the number
    have hplain : ∀ c ∈ between ++ suffix, EndsNumber c := fun c hc =>
      (List.mem_append.mp hc).elim (fun h => endsNumber_of_blank (hbetween c h))
        fun h => (endsNumber_of_letter (hletters c h)).1
    have hlastSuffix : ∀ c ∈ suffix.getLast?, isspace c = false := fun c hc =>
      (endsNumber_of_letter (hletters c (List.mem_of_getLast? hc))).2
    have hlast : ∀ c ∈ (digits ++ (between ++ suffix)).getLast?, isspace c = false := by
      rw [← List.append_assoc, List.getLast?_append_of_ne_nil _ hsuffix]
      exact hlastSuffix
    have htrim : trimAscii s.toList = digits ++ (between ++ suffix) := by
      have hcore := trimAscii_core hbefore hafter (hfirst (between ++ suffix)) hlast (by simp [hne])
      rw [htext, ← hcore, List.append_assoc, List.append_assoc]
    have hnul : ∀ c ∈ digits ++ (between ++ suffix), c ≠ '\x00' := fun c hc =>
      (List.mem_append.mp hc).elim (fun h => (digit_plain (hdigits c h)).2.2.2.2)
        fun h => (hplain c h).2.2.2.2
    have hfirstSuffix : ∀ c ∈ suffix.head?, isspace c = false := fun c hc =>
      (endsNumber_of_letter (hletters c (List.mem_of_mem_head? hc))).2
    refine ⟨between ++ suffix, ?_, ?_⟩
    · rw [scannedSize, htrim, cString_plain hnul]
      exact scanNumber_digits hdigits hne fun c hc => hplain c (List.mem_of_mem_head? hc)
    · have hcore : trimAscii (between ++ (suffix ++ [])) = suffix :=
        trimAscii_core hbetween (by simp) hfirstSuffix hlastSuffix hsuffix
      rw [List.append_nil] at hcore
      rw [hcore, hpower]

/-- The code knows the documented suffixes but the last. -/
theorem unitPower_of_documented {suffix : List Char} {k : Nat}
    (h : documentedPower (trimAscii suffix) = some k) :
    unitPower suffix = if k = 4 then 0 else k := by
  unfold documentedPower at h
  unfold unitPower
  dsimp only at h ⊢
  generalize (trimAscii suffix).map Char.toUpper = upper at h ⊢
  -- in the order of the documentation; the code tests the same texts up to `GB`
  split_ifs at h with hplain hkilo hmega hgiga htera
  · obtain rfl := Option.some.inj h
    rcases hplain with rfl | rfl <;> decide
  all_goals obtain rfl := Option.some.inj h
  · rw [if_pos hkilo]
    rfl
  · rw [if_neg hkilo, if_pos hmega]
    rfl
  · rw [if_neg hkilo, if_neg hmega, if_pos hgiga]
    rfl
  · rw [if_neg hkilo, if_neg hmega, if_neg hgiga]
    rfl

/-- A small number of a unit is its product. -/
theorem sizeOfNumber_natCast {n : Nat} {suffix : List Char}
    (h : n * 1024 ^ unitPower suffix < 2 ^ 53) :
    sizeOfNumber false (.exact (n : ℚ)) suffix =
      some (UInt64.ofNat (n * 1024 ^ unitPower suffix)) := by
  have hn : n < 2 ^ 53 :=
    Nat.lt_of_le_of_lt (Nat.le_mul_of_pos_right n (Nat.pow_pos (by decide))) h
  have hround := roundBinary64_natCast hn
  have hcast : (n : ℚ) * 1024 ^ unitPower suffix = ((n * 1024 ^ unitPower suffix : ℕ) : ℚ) := by
    push_cast
    rfl
  have hfits : (n : ℚ) * 1024 ^ unitPower suffix < 2 ^ 64 := by
    rw [hcast]
    exact_mod_cast h.trans (by decide : 2 ^ 53 < 2 ^ 64)
  have hover : ¬(2 : ℚ) ^ 1024 ≤ roundBinary64 (n : ℚ) :=
    not_overflow (Nat.cast_nonneg n) (hround.symm ▸ hfits)
  rw [sizeOfNumber_exact (Nat.cast_nonneg n), if_neg hover, hround, if_pos hfits, hcast,
    Int.floor_natCast, Int.toNat_natCast]

/-- A documented string has its size, but for `TB`, which is read as bytes. -/
theorem parseSize_of_writes {s : String} {n k : Nat} (h : WritesSize s n k)
    (hfits : n * 1024 ^ k < 2 ^ 53) :
    parseSize s = some (UInt64.ofNat (n * 1024 ^ (if k = 4 then 0 else k))) := by
  obtain ⟨suffix, hscan, hpower⟩ := scannedSize_of_writes h
  have hunit := unitPower_of_documented hpower
  have hsmall : n * 1024 ^ unitPower suffix < 2 ^ 53 := by
    rw [hunit]
    split
    · rw [pow_zero, mul_one]
      exact Nat.lt_of_le_of_lt (Nat.le_mul_of_pos_right n (Nat.pow_pos (by decide))) hfits
    · exact hfits
  rw [parseSize_of_some hscan, sizeOfNumber_natCast hsmall, hunit]

/-! ## When the documentation holds -/

theorem parseSize_zero_iff (s : String) :
    parseSize s = some 0 ↔ ¬(StatesSize s ∨ Overlong s) := by
  rw [← parseSize_pos_iff, ← parseSize_none_iff]
  cases parseSize s with
  | none => simp
  | some n => simp

/-- For every string, `parse_size` does what is documented if and only if the string
is no positive number of `TB`, and no number that is worth a byte stands in front of a
suffix that is not documented. -/
theorem documented_iff (s : String) :
    ParsesAsDocumented s ↔
      (¬∃ n, 0 < n ∧ WritesSize s n 4 ∧ n * 1024 ^ 4 < 2 ^ 53) ∧
        ¬(OtherSuffix s ∧ (StatesSize s ∨ Overlong s)) := by
  unfold ParsesAsDocumented
  rw [parseSize_zero_iff, not_and]
  refine and_congr ⟨?_, ?_⟩ Iff.rfl
  · -- the number and the product are both below `2 ^ 64`, so they differ as sizes
    rintro hall ⟨n, hpos, hwrites, hfits⟩
    have hplain := (parseSize_of_writes hwrites hfits).symm.trans (hall n 4 hwrites hfits)
    have hnat := congrArg UInt64.toNat (Option.some.inj hplain)
    have hword : 2 ^ 53 < 2 ^ 64 := by decide
    have hless : n < n * 1024 ^ 4 := lt_mul_of_one_lt_right hpos (by decide)
    rw [if_pos rfl, pow_zero, mul_one,
      UInt64.toNat_ofNat_of_lt' (hless.trans (hfits.trans hword)),
      UInt64.toNat_ofNat_of_lt' (hfits.trans hword)] at hnat
    exact absurd hnat hless.ne
  · intro hnone n k hwrites hfits
    rw [parseSize_of_writes hwrites hfits]
    split
    next hk =>
      subst hk
      have hzero : n = 0 := by
        by_contra hpos
        exact hnone ⟨n, Nat.pos_of_ne_zero hpos, hwrites, hfits⟩
      rw [hzero, zero_mul, zero_mul]
    next => rfl

/-- The last example of the documentation is ten bytes. -/
theorem ten_tb_bytes : parseSize "10TB" = some 10 ∧ ¬ParsesAsDocumented "10TB" := by
  have hwrites : WritesSize "10TB" 10 4 :=
    ⟨[], ['1', '0'], [], ['T', 'B'], [], rfl, by simp, by simp, by simp, by simp, by simp,
      by decide, by decide⟩
  refine ⟨parseSize_of_writes hwrites (by decide), ?_⟩
  rw [documented_iff]
  exact fun h => h.1 ⟨10, by decide, hwrites, by decide⟩

end Labios
