import Labios.Client.SizeText
import Labios.Foundation.Binary64
import Labios.Foundation.Decimal
import Labios.Foundation.Separators

/-!
# Texts of a double

What `std::to_string` writes for a finite double, and `std::stod`. A double that is nearest to a
number with six decimals comes back (`stod_fixedText`).

Whether `strtod` reports a value below the normal doubles is left to the C library (`tiny`). A
zero has no sign here.
-/

namespace Labios

open Foundation

/-- Such a number is converted, but `errno` may be set. -/
def Numeral.underflows (tiny : ℚ → Bool) : Numeral → Bool
  | .exact q => decide (0 < q ∧ q < 2 ^ (-1022 : ℤ)) && tiny q
  | .infinity => false
  | .nan => false

/-- `std::stod`: it throws where nothing is converted, and where `strtod` sets `errno`. -/
def stod (tiny : ℚ → Bool) (text : List Char) : Option Double :=
  match scanNumber (cString text) with
  | none => none
  | some (negative, numeral, _) =>
      if (numeral.toDouble negative).2 || numeral.underflows tiny then none
      else some (numeral.toDouble negative).1

/-- The millionths of a double, as `%f` rounds them. -/
def millionths (d : ℚ) : Nat := (roundHalfEven (|d| * (1000000 : ℕ))).toNat

/-- `std::to_string(double)`. -/
def fixedText (d : ℚ) : List Char :=
  (if d < 0 then ['-'] else []) ++ Nat.toDigits 10 (millionths d / 1000000) ++
    '.' :: (Nat.toDigits 10 (millionths d % 1000000)).leftpad 6 '0'

/-- A finite double that is nearest to a number with six decimals. -/
def SixDecimals (d : ℚ) : Prop :=
  (∃ k : ℕ, |d| = roundBinary64 (k / (1000000 : ℕ))) ∧ |d| < 2 ^ 1024

/-! ## The characters -/

/-- The text without its sign. -/
def fixedBody (m : Nat) : List Char :=
  Nat.toDigits 10 (m / 1000000) ++ '.' :: (Nat.toDigits 10 (m % 1000000)).leftpad 6 '0'

theorem fixedText_eq (d : ℚ) :
    fixedText d = (if d < 0 then ['-'] else []) ++ fixedBody (millionths d) := by
  unfold fixedText fixedBody
  rw [List.append_assoc]

theorem isDigit_of_mem_leftpad {n k : Nat} {c : Char}
    (h : c ∈ (Nat.toDigits 10 n).leftpad k '0') : c.isDigit = true := by
  rcases List.mem_append.mp h with h | h
  · rw [List.eq_of_mem_replicate h]
    rfl
  · exact isDigit_of_mem h

theorem mem_fixedBody {m : Nat} {c : Char} (h : c ∈ fixedBody m) : c.isDigit = true ∨ c = '.' := by
  rcases List.mem_append.mp h with h | h
  · exact .inl (isDigit_of_mem h)
  · rcases List.mem_cons.mp h with rfl | h
    · exact .inr rfl
    · exact .inl (isDigit_of_mem_leftpad h)

theorem notMem_fixedBody {c : Char} (hdigit : c.isDigit = false) (hpoint : c ≠ '.') (m : Nat) :
    c ∉ fixedBody m := by
  intro h
  rcases mem_fixedBody h with h | h
  · rw [hdigit] at h
    cases h
  · exact hpoint h

theorem notMem_fixedText {c : Char} (hdigit : c.isDigit = false) (hpoint : c ≠ '.')
    (hsign : c ≠ '-') (d : ℚ) : c ∉ fixedText d := by
  rw [fixedText_eq, List.mem_append, not_or]
  refine ⟨fun h => ?_, notMem_fixedBody hdigit hpoint _⟩
  split at h
  · exact hsign (List.mem_singleton.mp h)
  · exact absurd h List.not_mem_nil

/-! ## Reading the text -/

theorem ofDigits_eq {digits : List Char} (h : ∀ c ∈ digits, c.isDigit = true) :
    ofDigits 10 digits = Nat.ofDigitChars 10 digits 0 := by
  rw [ofDigits, Nat.ofDigitChars_eq_foldl]
  refine List.foldl_ext _ _ 0 fun n c hc => ?_
  rw [digitValue, if_pos (h c hc)]
  rfl

/-- The digits before and behind the point name the millionths. -/
theorem ofDigits_fixed (m : Nat) :
    ofDigits 10 (Nat.toDigits 10 (m / 1000000) ++
      (Nat.toDigits 10 (m % 1000000)).leftpad 6 '0') = m := by
  have hlength : (Nat.toDigits 10 (m % 1000000)).length ≤ 6 :=
    Nat.toDigits_length 10 _ 6 (by omega) (Nat.mod_lt _ (by omega))
  rw [ofDigits_eq fun c hc => (List.mem_append.mp hc).elim isDigit_of_mem isDigit_of_mem_leftpad,
    Nat.ofDigitChars_append, List.leftpad, Nat.ofDigitChars_append, Nat.ofDigitChars_ten_toDigits,
    Nat.ofDigitChars_replicate_zero, Nat.ofDigitChars_eq_ofDigitChars_zero,
    Nat.ofDigitChars_ten_toDigits, ← Nat.mul_assoc, ← Nat.pow_add, Nat.add_sub_cancel' hlength]
  exact Nat.div_add_mod m 1000000

theorem scanNumeral_fixedBody (m : Nat) :
    scanNumeral 10 Char.isDigit 'e' 10 (fixedBody m) = some ((m : ℚ) / 1000000, []) := by
  have hwhole : ∀ c ∈ Nat.toDigits 10 (m / 1000000), c.isDigit = true := fun c => isDigit_of_mem
  have hfraction : ∀ c ∈ (Nat.toDigits 10 (m % 1000000)).leftpad 6 '0', c.isDigit = true :=
    fun c => isDigit_of_mem_leftpad
  have hdigits : (Nat.toDigits 10 (m % 1000000)).length ≤ 6 :=
    Nat.toDigits_length 10 _ 6 (by omega) (Nat.mod_lt _ (by omega))
  have hlength : ((Nat.toDigits 10 (m % 1000000)).leftpad 6 '0').length = 6 := by
    rw [List.leftpad, List.length_append, List.length_replicate]
    omega
  have htake : (fixedBody m).takeWhile Char.isDigit = Nat.toDigits 10 (m / 1000000) := by
    rw [fixedBody, List.takeWhile_append_of_pos hwhole, List.takeWhile_cons_of_neg (by decide),
      List.append_nil]
  have hdrop : (fixedBody m).dropWhile Char.isDigit =
      '.' :: (Nat.toDigits 10 (m % 1000000)).leftpad 6 '0' := by
    rw [fixedBody, List.dropWhile_append_of_pos hwhole, List.dropWhile_cons_of_neg (by decide)]
  have hpoint : scanFraction Char.isDigit ('.' :: (Nat.toDigits 10 (m % 1000000)).leftpad 6 '0') =
      ((Nat.toDigits 10 (m % 1000000)).leftpad 6 '0', []) := by
    rw [scanFraction, List.takeWhile_eq_self_iff.mpr hfraction, List.dropWhile_eq_nil_iff.mpr hfraction]
  unfold scanNumeral
  rw [htake, hdrop, hpoint]
  dsimp only
  rw [if_neg fun h => Nat.toDigits_ne_nil h.1, ofDigits_fixed, hlength]
  dsimp only [scanExponent]
  norm_num

/-- Letters begin no such text. -/
theorem isPrefixOf_fixedBody {pattern : List Char} {c : Char} (hc : c ∈ pattern)
    (hdigit : c.isDigit = false) (hpoint : c ≠ '.') (m : Nat) :
    pattern.isPrefixOf ((fixedBody m).map Char.toLower) = false := by
  have hlower : (fixedBody m).map Char.toLower = fixedBody m := by
    refine (List.map_congr_left fun c hc => ?_).trans (List.map_id _)
    rcases mem_fixedBody hc with hdigit | rfl
    · have hle : c.toNat ≤ 57 := (Char.isDigit_iff_toNat.mp hdigit).2
      refine dif_neg fun hupper => ?_
      have hless : 65 ≤ c.toNat := hupper.1
      omega
    · rfl
  rw [hlower, Bool.eq_false_iff]
  intro hprefix
  exact notMem_fixedBody hdigit hpoint m ((List.isPrefixOf_iff_prefix.mp hprefix).subset hc)

theorem scanUnsigned_fixedBody (m : Nat) :
    scanUnsigned (fixedBody m) = some (.exact ((m : ℚ) / 1000000), []) := by
  unfold scanUnsigned
  dsimp only
  rw [isPrefixOf_fixedBody (c := 'i') (by decide) (by decide) (by decide),
    isPrefixOf_fixedBody (c := 'i') (by decide) (by decide) (by decide),
    isPrefixOf_fixedBody (c := 'a') (by decide) (by decide) (by decide),
    isPrefixOf_fixedBody (c := 'x') (by decide) (by decide) (by decide),
    scanNumeral_fixedBody]
  rfl

theorem cString_fixedText (d : ℚ) : cString (fixedText d) = fixedText d := by
  refine List.takeWhile_eq_self_iff.mpr fun c hc => decide_eq_true ?_
  rintro rfl
  exact notMem_fixedText (by decide) (by decide) (by decide) d hc

/-- A digit is neither a blank nor a sign. -/
theorem isspace_of_isDigit {c : Char} (h : c.isDigit = true) :
    isspace c = false ∧ c ≠ '-' ∧ c ≠ '+' := by
  have hzero : 48 ≤ c.toNat := (Char.isDigit_iff_toNat.mp h).1
  refine ⟨?_, ?_, ?_⟩
  · unfold isspace
    rw [Bool.or_eq_false_iff, beq_eq_false_iff_ne, decide_eq_false_iff_not]
    refine ⟨?_, by omega⟩
    rintro rfl
    cases h
  · rintro rfl
    cases h
  · rintro rfl
    cases h

theorem fixedBody_eq_cons (m : Nat) : ∃ c rest, fixedBody m = c :: rest ∧ c.isDigit = true := by
  unfold fixedBody
  cases hdigits : Nat.toDigits 10 (m / 1000000) with
  | nil => exact absurd hdigits Nat.toDigits_ne_nil
  | cons c rest => exact ⟨c, _, rfl, isDigit_of_mem (hdigits ▸ List.mem_cons_self)⟩

theorem scanSign_fixedText (d : ℚ) :
    scanSign ((fixedText d).dropWhile isspace) = (decide (d < 0), fixedBody (millionths d)) := by
  obtain ⟨c, rest, hbody, hc⟩ := fixedBody_eq_cons (millionths d)
  obtain ⟨hspace, hminus, hplus⟩ := isspace_of_isDigit hc
  rw [fixedText_eq]
  by_cases hneg : d < 0
  · rw [if_pos hneg, decide_eq_true hneg]
    rfl
  · rw [if_neg hneg, decide_eq_false hneg, List.nil_append, hbody,
      List.dropWhile_cons_of_neg (by rw [hspace]; decide)]
    unfold scanSign
    split
    · next heq => exact absurd (List.cons.inj heq).1 hminus
    · next heq => exact absurd (List.cons.inj heq).1 hplus
    · rfl

theorem scanNumber_fixedText (d : ℚ) :
    scanNumber (cString (fixedText d)) =
      some (decide (d < 0), .exact ((millionths d : ℚ) / 1000000), []) := by
  unfold scanNumber
  rw [cString_fixedText, scanSign_fixedText]
  dsimp only
  rw [scanUnsigned_fixedBody]
  rfl

theorem cast_millionths (d : ℚ) :
    ((millionths d : ℕ) : ℚ) = (roundHalfEven (|d| * (1000000 : ℕ)) : ℚ) := by
  have hnonneg : 0 ≤ roundHalfEven (|d| * (1000000 : ℕ)) := by
    refine le_trans ?_ (floor_le_roundHalfEven _)
    positivity
  rw [millionths, ← Int.cast_natCast, Int.toNat_of_nonneg hnonneg]

/-- A millionth is a normal double. -/
theorem not_underflows_millionths (tiny : ℚ → Bool) (m : Nat) :
    (Numeral.exact ((m : ℚ) / 1000000)).underflows tiny = false := by
  unfold Numeral.underflows
  rw [Bool.and_eq_false_iff]
  refine .inl (decide_eq_false ?_)
  rintro ⟨hpos, hlt⟩
  have hone : (1 : ℚ) ≤ m := by
    have hm : 0 < m := by
      by_contra hzero
      rw [Nat.eq_zero_of_not_pos hzero, Nat.cast_zero, zero_div] at hpos
      exact lt_irrefl _ hpos
    exact_mod_cast hm
  have htwenty : (2 : ℚ) ^ (-1022 : ℤ) ≤ 2 ^ (-20 : ℤ) := two_zpow_le (by omega)
  have hsmall : (2 : ℚ) ^ (-20 : ℤ) < 1 / 1000000 := by norm_num
  have hleast : (1 : ℚ) / 1000000 ≤ (m : ℚ) / 1000000 :=
    div_le_div_of_nonneg_right hone (by norm_num)
  exact absurd (hlt.trans_le htwenty) (not_lt.mpr (hsmall.le.trans hleast))

/-- The double that is nearest to the millionths. -/
def rewritten (d : ℚ) : ℚ :=
  if d < 0 then -roundBinary64 (millionths d / 1000000)
  else roundBinary64 (millionths d / 1000000)

theorem stod_fixedText_rewritten {d : ℚ}
    (hfinite : roundBinary64 ((millionths d : ℚ) / 1000000) < 2 ^ 1024) (tiny : ℚ → Bool) :
    stod tiny (fixedText d) = some (.finite (rewritten d)) := by
  unfold stod
  rw [scanNumber_fixedText]
  dsimp only
  rw [not_underflows_millionths, toDouble_exact, if_neg (not_le.mpr hfinite)]
  rw [if_neg (by simp)]
  unfold rewritten
  by_cases hneg : d < 0
  · simp [hneg]
  · simp [hneg]

/-- A double with six decimals is the one nearest to its millionths. -/
theorem SixDecimals.round {d : ℚ} (h : SixDecimals d) :
    roundBinary64 ((millionths d : ℚ) / 1000000) = |d| := by
  obtain ⟨⟨k, hk⟩, -⟩ := h
  rw [cast_millionths, hk]
  exact_mod_cast @roundBinary64_rewritten 1000000 19 (by omega) (by norm_num) (by norm_num) k

theorem SixDecimals.rewritten_eq {d : ℚ} (h : SixDecimals d) : rewritten d = d := by
  unfold rewritten
  rw [h.round]
  by_cases hneg : d < 0
  · rw [if_pos hneg, abs_of_neg hneg, neg_neg]
  · rw [if_neg hneg, abs_of_nonneg (not_lt.mp hneg)]

/-- **Six decimals.** Such a double is read back from its text. -/
theorem stod_fixedText {d : ℚ} (h : SixDecimals d) (tiny : ℚ → Bool) :
    stod tiny (fixedText d) = some (.finite d) := by
  rw [stod_fixedText_rewritten (h.round.trans_lt h.2), h.rewritten_eq]

/-! ## Any double -/

/-- A finite double is nearest to some number. -/
structure FiniteDouble (d : ℚ) : Prop where
  nearest : ∃ q : ℚ, 0 ≤ q ∧ |d| = roundBinary64 q
  bounded : |d| < 2 ^ 1024

theorem FiniteDouble.round_lt {d : ℚ} (h : FiniteDouble d) :
    roundBinary64 ((millionths d : ℚ) / 1000000) < 2 ^ 1024 := by
  obtain ⟨q, hq, hd⟩ := h.nearest
  rw [cast_millionths]
  exact_mod_cast roundBinary64_written_lt (by norm_num) hq hd h.bounded

theorem FiniteDouble.sixDecimals {d : ℚ} (h : FiniteDouble d) : SixDecimals (rewritten d) := by
  have habs : |rewritten d| = roundBinary64 ((millionths d : ℚ) / 1000000) := by
    have hnonneg : 0 ≤ roundBinary64 ((millionths d : ℚ) / 1000000) :=
      roundBinary64_nonneg (by positivity)
    unfold rewritten
    split
    · rw [abs_neg, abs_of_nonneg hnonneg]
    · rw [abs_of_nonneg hnonneg]
  refine ⟨⟨millionths d, ?_⟩, ?_⟩
  · rw [habs]
    norm_num
  · rw [habs]
    exact h.round_lt

theorem SixDecimals.finiteDouble {d : ℚ} (h : SixDecimals d) : FiniteDouble d := by
  obtain ⟨⟨k, hk⟩, hbounded⟩ := h
  exact ⟨⟨_, div_nonneg (Nat.cast_nonneg _) (Nat.cast_nonneg _), hk⟩, hbounded⟩

/-- The text is off by half a millionth. -/
theorem abs_millionths_sub_le (d : ℚ) : |(millionths d : ℚ) / 1000000 - (|d|)| ≤ 1 / 2000000 := by
  have hround := abs_roundHalfEven_sub_le (|d| * (1000000 : ℕ))
  rw [← cast_millionths, abs_le] at hround
  push_cast at hround
  rw [abs_le]
  constructor <;> linarith

namespace Double

/-- `std::to_string`; a NaN may have a sign, which no other value shows. -/
def text (minus : Bool) : Double → List Char
  | finite d => fixedText d
  | infinity negative => (if negative then ['-'] else []) ++ "inf".toList
  | nan => (if minus then ['-'] else []) ++ "nan".toList

def rewritten : Double → Double
  | finite d => finite (Labios.rewritten d)
  | d => d

def Proper (d : Double) : Prop := ∀ x, d = finite x → FiniteDouble x

theorem stod_text {d : Double} (h : d.Proper) (tiny : ℚ → Bool) (minus : Bool) :
    stod tiny (d.text minus) = some d.rewritten := by
  cases d with
  | finite x => exact stod_fixedText_rewritten (h x rfl).round_lt tiny
  | infinity negative =>
      cases negative with
      | false => rfl
      | true => rfl
  | nan =>
      cases minus with
      | false => rfl
      | true => rfl

theorem Proper.rewritten {d : Double} (h : d.Proper) : d.rewritten.Proper := by
  cases d with
  | finite x =>
      rintro y hy
      exact Double.finite.inj hy ▸ (h x rfl).sixDecimals.finiteDouble
  | infinity negative =>
      rintro y hy
      cases hy
  | nan =>
      rintro y hy
      cases hy

/-- The second text says the same. -/
theorem rewritten_rewritten {d : Double} (h : d.Proper) : d.rewritten.rewritten = d.rewritten := by
  cases d with
  | finite x => exact congrArg finite (h x rfl).sixDecimals.rewritten_eq
  | infinity negative => rfl
  | nan => rfl

/-- The characters of a text that is not a numeral. -/
theorem notMem_text {c : Char} (hdigit : c.isDigit = false)
    (hletter : c ∉ ['.', '-', 'i', 'n', 'f', 'a']) (minus : Bool) (d : Double) :
    c ∉ d.text minus := by
  simp only [List.mem_cons, List.not_mem_nil, or_false, not_or] at hletter
  obtain ⟨hpoint, hminus, hi, hn, hf, ha⟩ := hletter
  cases d with
  | finite x => exact notMem_fixedText hdigit hpoint hminus x
  | infinity negative =>
      cases negative with
      | false => simp [text, hi, hn, hf]
      | true => simp [text, hminus, hi, hn, hf]
  | nan =>
      cases minus with
      | false => simp [text, hn, ha]
      | true => simp [text, hminus, hn, ha]

end Double

/-- What `stod` gives is a double. -/
theorem stod_proper {tiny : ℚ → Bool} {text : List Char} {d : Double}
    (h : stod tiny text = some d) : d.Proper := by
  unfold stod at h
  split at h
  · cases h
  · next negative numeral rest hscan =>
      split at h
      · cases h
      · rintro x rfl
        obtain ⟨⟨numeral', rest'⟩, hunsigned, hpair⟩ := Option.map_eq_some_iff.mp hscan
        obtain ⟨-, rfl, rfl⟩ : _ ∧ _ ∧ _ := by simpa using hpair
        have hx := Option.some.inj h
        cases numeral' with
        | infinity => cases hx
        | nan => cases hx
        | exact q =>
            have hq := scanUnsigned_nonneg hunsigned
            have hround := roundBinary64_nonneg hq
            rw [toDouble_exact] at hx
            by_cases hover : 2 ^ 1024 ≤ roundBinary64 q
            · rw [if_pos hover] at hx
              cases hx
            · rw [if_neg hover] at hx
              have habs : |x| = roundBinary64 q := by
                rw [← Double.finite.inj hx]
                split
                · rw [abs_neg, abs_of_nonneg hround]
                · rw [abs_of_nonneg hround]
              exact ⟨⟨q, hq, habs⟩, habs.trans_lt (not_le.mp hover)⟩

end Labios
