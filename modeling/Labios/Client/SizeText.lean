import Labios.Foundation.Binary64

/-!
# Size strings

`parse_size` of `labios/config.cpp` and the label limit that `load_config` makes of it,
with the `strtod` and the conversion to `uint64_t` it rests on. A double is an exact
rational, an infinity or no number; `strtod` reads decimal and hexadecimal numerals, `inf`
and `nan`, in the C locale, and rounds to the nearest double.

`static_cast<uint64_t>` of a value that does not fit is undefined and has no result here.
Whether a result below the normal doubles sets `errno` is left to the C library; every unit
leaves such a value below one, so both ways give the size 0.
-/

namespace Labios

open Foundation

/-! ## Text -/

/-- `std::isspace` in the C locale. -/
def isspace (c : Char) : Bool := c == ' ' || decide (9 ≤ c.toNat ∧ c.toNat ≤ 13)

def trimAscii (sv : List Char) : List Char :=
  ((sv.dropWhile isspace).reverse.dropWhile isspace).reverse

/-- What `c_str()` shows of a string: it ends at the first null byte. -/
def cString (text : List Char) : List Char := text.takeWhile (· ≠ '\x00')

/-- The value of a digit, up to base 16. -/
def digitValue (c : Char) : Nat :=
  if c.isDigit then c.toNat - 48 else c.toLower.toNat - 87

def isHexDigit (c : Char) : Bool :=
  c.isDigit || ['a', 'b', 'c', 'd', 'e', 'f'].contains c.toLower

def ofDigits (base : Nat) (digits : List Char) : Nat :=
  digits.foldl (fun n c => base * n + digitValue c) 0

/-- A sign, and what follows it. -/
def scanSign : List Char → Bool × List Char
  | '-' :: rest => (true, rest)
  | '+' :: rest => (false, rest)
  | text => (false, text)

/-- An exponent after its letter; without digits there is none. -/
def scanExponent (letter : Char) (text : List Char) : Int × List Char :=
  match text with
  | c :: rest =>
      let (negative, digits) := scanSign rest
      if c.toLower = letter ∧ digits.takeWhile Char.isDigit ≠ [] then
        let magnitude : Int := ofDigits 10 (digits.takeWhile Char.isDigit)
        (if negative then -magnitude else magnitude, digits.dropWhile Char.isDigit)
      else (0, text)
  | [] => (0, text)

/-- The digits after a point, if there is one. -/
def scanFraction (isDigit : Char → Bool) : List Char → List Char × List Char
  | '.' :: rest => (rest.takeWhile isDigit, rest.dropWhile isDigit)
  | text => ([], text)

/-- A numeral of the base, and the text after it. -/
def scanNumeral (base : Nat) (isDigit : Char → Bool) (letter : Char) (exponentBase : ℚ)
    (text : List Char) : Option (ℚ × List Char) :=
  let whole := text.takeWhile isDigit
  let (fraction, rest) := scanFraction isDigit (text.dropWhile isDigit)
  if whole = [] ∧ fraction = [] then none
  else
    let (exponent, rest) := scanExponent letter rest
    some ((ofDigits base (whole ++ fraction) : ℚ) / (base : ℚ) ^ fraction.length *
      exponentBase ^ exponent, rest)

/-- A number without its sign. -/
inductive Numeral
  | exact (q : ℚ)
  | infinity
  | nan
  deriving DecidableEq

/-- `nan(...)` is read as a whole if the parenthesis is closed after letters, digits and
underscores. -/
def afterNan (rest : List Char) : List Char :=
  match rest with
  | '(' :: inner =>
      match inner.dropWhile fun c => c.isAlphanum || c == '_' with
      | ')' :: after => after
      | _ => rest
  | _ => rest

/-- The subject sequence of `strtod` after the sign. -/
def scanUnsigned (text : List Char) : Option (Numeral × List Char) :=
  let lower := text.map Char.toLower
  if "infinity".toList.isPrefixOf lower then some (.infinity, text.drop 8)
  else if "inf".toList.isPrefixOf lower then some (.infinity, text.drop 3)
  else if "nan".toList.isPrefixOf lower then some (.nan, afterNan (text.drop 3))
  else
    match if "0x".toList.isPrefixOf lower then scanNumeral 16 isHexDigit 'p' 2 (text.drop 2)
        else none with
    | some (q, rest) => some (.exact q, rest)
    | none => (scanNumeral 10 Char.isDigit 'e' 10 text).map fun (q, rest) => (.exact q, rest)

/-! ## Doubles -/

inductive Double
  | finite (x : ℚ)
  | infinity (negative : Bool)
  | nan
  deriving DecidableEq

namespace Double

/-- `val < 0.0`. -/
def isNegative : Double → Bool
  | finite x => decide (x < 0)
  | infinity negative => negative
  | nan => false

/-- The product with a power of two from one on: exact, or an overflow. -/
def times (val : Double) (factor : ℚ) : Double :=
  match val with
  | finite x => if 2 ^ 1024 ≤ |x * factor| then infinity (decide (x < 0)) else finite (x * factor)
  | infinity negative => infinity negative
  | nan => nan

/-- `static_cast<uint64_t>`: the fraction is cut off; undefined where the rest does not
fit. -/
def toUint64 : Double → Option UInt64
  | finite x => if -1 < x ∧ x < 2 ^ 64 then some (UInt64.ofNat ⌊x⌋.toNat) else none
  | infinity _ => none
  | nan => none

end Double

/-- `strtod`: the value, whether it overflowed (`ERANGE`), and the text at `end`; none when
nothing was converted. -/
structure Converted where
  value : Double
  erange : Bool := false
  rest : List Char

/-- The double that a numeral stands for. -/
def Numeral.toDouble (negative : Bool) : Numeral → Double × Bool
  | .exact q =>
      if 2 ^ 1024 ≤ roundBinary64 q then (.infinity negative, true)
      else (.finite (if negative then -roundBinary64 q else roundBinary64 q), false)
  | .infinity => (.infinity negative, false)
  | .nan => (.nan, false)

/-- The sign and the number that `strtod` reads, before any rounding. -/
def scanNumber (text : List Char) : Option (Bool × Numeral × List Char) :=
  let (negative, text) := scanSign (text.dropWhile isspace)
  (scanUnsigned text).map fun (numeral, rest) => (negative, numeral, rest)

def strtod (text : List Char) : Option Converted :=
  (scanNumber text).map fun (negative, numeral, rest) =>
    { value := (numeral.toDouble negative).1, erange := (numeral.toDouble negative).2, rest }

/-! ## Sizes -/

/-- How often the suffix multiplies by 1024; a suffix that is not known does not. -/
def unitPower (suffix : List Char) : Nat :=
  let suffixUpper := (trimAscii suffix).map Char.toUpper
  if suffixUpper = "KB".toList then 1
  else if suffixUpper = "MB".toList then 2
  else if suffixUpper = "GB".toList then 3
  else 0

/-- `val * 1024 * ...`. -/
def timesKilo (val : Double) : Nat → Double
  | 0 => val
  | power + 1 => (timesKilo val power).times 1024

def parseSize (s : String) : Option UInt64 :=
  let text := trimAscii s.toList
  if text = [] then some 0
  else
    match strtod (cString text) with
    | none => some 0
    | some val =>
        if val.erange || val.value.isNegative then some 0
        else (timesKilo val.value (unitPower val.rest)).toUint64

/-- `label_max_size` of a `Config` that nothing sets. -/
def defaultLabelMaxSize : UInt64 := 1024 * 1024

/-- `label_max_size` after `load_config`: the string `label.max_size` of the file, if it is
there, and then `LABIOS_LABEL_MAX_SIZE`, if it is set and not empty. -/
def loadLabelMaxSize (file env : Option String) : Option UInt64 :=
  (file.elim (some defaultLabelMaxSize) parseSize).bind fun labelMaxSize =>
    env.elim (some labelMaxSize) fun val =>
      if val = "" then some labelMaxSize else parseSize val

/-! ## What a text states -/

/-- The sign, the number and the suffix of a size string. -/
def scannedSize (s : String) : Option (Bool × Numeral × List Char) :=
  scanNumber (cString (trimAscii s.toList))

/-- The string starts with a number that, times its unit, is rounded to at least one and
to less than `2 ^ 64`. -/
def StatesSize (s : String) : Prop :=
  ∃ q suffix, scannedSize s = some (false, .exact q, suffix) ∧
    1 - (2 : ℚ) ^ (-54 : ℤ) ≤ q * 1024 ^ unitPower suffix ∧
    q * 1024 ^ unitPower suffix < 2 ^ 64 - 2 ^ 10

/-- The string states no number, or one that a double has but no `uint64_t`. -/
inductive Overlong (s : String) : Prop
  | nan (negative : Bool) (suffix : List Char) (h : scannedSize s = some (negative, .nan, suffix))
  | infinity (suffix : List Char) (h : scannedSize s = some (false, .infinity, suffix))
  | exact (q : ℚ) (suffix : List Char) (h : scannedSize s = some (false, .exact q, suffix))
      (hlow : 2 ^ 64 - 2 ^ 10 ≤ q * 1024 ^ unitPower suffix) (hhigh : q < 2 ^ 1024 - 2 ^ 970)

/-- The size of a number and its unit. -/
def sizeOfNumber (negative : Bool) (numeral : Numeral) (suffix : List Char) : Option UInt64 :=
  if (numeral.toDouble negative).2 || (numeral.toDouble negative).1.isNegative then some 0
  else (timesKilo (numeral.toDouble negative).1 (unitPower suffix)).toUint64

theorem parseSize_of_none {s : String} (h : scannedSize s = none) : parseSize s = some 0 := by
  have hconvert : strtod (cString (trimAscii s.toList)) = none := by
    rw [strtod]
    exact Option.map_eq_none_iff.mpr h
  unfold parseSize
  dsimp only
  split
  · rfl
  · rw [hconvert]

theorem parseSize_of_some {s : String} {negative : Bool} {numeral : Numeral} {suffix : List Char}
    (h : scannedSize s = some (negative, numeral, suffix)) :
    parseSize s = sizeOfNumber negative numeral suffix := by
  have hconvert : strtod (cString (trimAscii s.toList)) =
      some
        { value := (numeral.toDouble negative).1
          erange := (numeral.toDouble negative).2
          rest := suffix } := by
    rw [strtod]
    exact Option.map_eq_some_iff.mpr ⟨_, h, rfl⟩
  unfold parseSize
  rw [if_neg, hconvert]
  · rfl
  · intro hempty
    rw [scannedSize, hempty] at h
    cases h

/-! ## The numbers that are read -/

theorem scanNumeral_nonneg {base : Nat} {isDigit : Char → Bool} {letter : Char}
    {exponentBase q : ℚ} {text rest : List Char} (hbase : 0 ≤ exponentBase)
    (h : scanNumeral base isDigit letter exponentBase text = some (q, rest)) : 0 ≤ q := by
  unfold scanNumeral at h
  dsimp only at h
  split at h
  · cases h
  · obtain ⟨rfl, -⟩ := Prod.mk.inj (Option.some.inj h)
    positivity

theorem scanUnsigned_nonneg {text rest : List Char} {q : ℚ}
    (h : scanUnsigned text = some (.exact q, rest)) : 0 ≤ q := by
  unfold scanUnsigned at h
  dsimp only at h
  split at h
  · cases h
  · split at h
    · cases h
    · split at h
      · cases h
      · split at h
        next hex =>
            obtain ⟨rfl, rfl⟩ : _ ∧ _ := by simpa using h
            split at hex
            · exact scanNumeral_nonneg (by norm_num) hex
            · cases hex
        next =>
            obtain ⟨⟨value, rest'⟩, hscan, hpair⟩ := Option.map_eq_some_iff.mp h
            obtain ⟨rfl, rfl⟩ : _ ∧ _ := by simpa using hpair
            exact scanNumeral_nonneg (by norm_num) hscan

theorem scannedSize_nonneg {s : String} {negative : Bool} {q : ℚ} {suffix : List Char}
    (h : scannedSize s = some (negative, .exact q, suffix)) : 0 ≤ q := by
  obtain ⟨⟨numeral, rest⟩, hscan, hpair⟩ := Option.map_eq_some_iff.mp h
  obtain ⟨-, rfl, -⟩ : _ ∧ _ ∧ _ := by simpa using hpair
  exact scanUnsigned_nonneg hscan

/-! ## Its size -/

theorem unitPower_le (suffix : List Char) : unitPower suffix ≤ 3 := by
  unfold unitPower
  dsimp only
  split
  · omega
  · split
    · omega
    · split
      · omega
      · omega

/-- From where on a number times its unit is rounded to a power of two. -/
theorem le_round_times {q : ℚ} (hq : 0 < q) {j : ℤ} {k : Nat} (hj : -1020 ≤ j - 10 * k) :
    (2 : ℚ) ^ j ≤ roundBinary64 q * 1024 ^ k ↔ (2 : ℚ) ^ j - 2 ^ (j - 54) ≤ q * 1024 ^ k := by
  have hpos : (0 : ℚ) < 1024 ^ k := by positivity
  have hscale : ∀ i : ℤ, (2 : ℚ) ^ (i - 10 * k) * 1024 ^ k = 2 ^ i := by
    intro i
    have hkilo : (1024 : ℚ) ^ k = 2 ^ (10 * (k : ℤ)) := by
      rw [zpow_mul, zpow_natCast]
      norm_num
    rw [hkilo, ← zpow_add₀ (by norm_num)]
    congr 1
    omega
  rw [← hscale j, ← hscale (j - 54), ← sub_mul, mul_le_mul_iff_left₀ hpos,
    mul_le_mul_iff_left₀ hpos, two_zpow_le_roundBinary64 hq hj,
    show j - 10 * (k : ℤ) - 54 = j - 54 - 10 * k by omega]

/-- The product that `timesKilo` stands for, as long as it is a double. -/
theorem timesKilo_finite {r : ℚ} (hr : 0 ≤ r) (k : Nat) :
    timesKilo (.finite r) k = .finite (r * 1024 ^ k) ∨
      (∃ negative, timesKilo (.finite r) k = .infinity negative) ∧ 2 ^ 1024 ≤ r * 1024 ^ k := by
  induction k with
  | zero => exact .inl (by rw [pow_zero, mul_one]; rfl)
  | succ k ih =>
      have hnonneg : 0 ≤ r * 1024 ^ k := mul_nonneg hr (by positivity)
      rcases ih with hfinite | ⟨⟨negative, hinfinity⟩, hover⟩
      · rw [timesKilo, hfinite, Double.times, abs_of_nonneg (mul_nonneg hnonneg (by norm_num)),
          pow_succ (1024 : ℚ) k, ← mul_assoc]
        split
        next h => exact .inr ⟨⟨_, rfl⟩, h⟩
        next => exact .inl rfl
      · refine .inr ⟨⟨negative, by rw [timesKilo, hinfinity, Double.times]⟩, ?_⟩
        rw [pow_succ (1024 : ℚ) k, ← mul_assoc]
        exact hover.trans (le_mul_of_one_le_right hnonneg (by norm_num))

/-- The conversion of a product that is not negative. -/
theorem toUint64_timesKilo {r : ℚ} (hr : 0 ≤ r) (k : Nat) :
    (timesKilo (.finite r) k).toUint64 =
      if r * 1024 ^ k < 2 ^ 64 then some (UInt64.ofNat ⌊r * 1024 ^ k⌋.toNat) else none := by
  have hnonneg : 0 ≤ r * 1024 ^ k := mul_nonneg hr (by positivity)
  rcases timesKilo_finite hr k with hfinite | ⟨⟨negative, hinfinity⟩, hover⟩
  · rw [hfinite, Double.toUint64]
    have hneg : (-1 : ℚ) < r * 1024 ^ k := by linarith
    simp only [hneg, true_and]
  · have hbig : ¬r * 1024 ^ k < 2 ^ 64 := by
      have hpow : (2 : ℚ) ^ 64 ≤ 2 ^ 1024 := pow_le_pow_right₀ (by norm_num) (by norm_num)
      exact not_lt.mpr (hpow.trans hover)
    rw [hinfinity, if_neg hbig]
    rfl

/-- A whole number that fits is zero below one. -/
theorem ofNat_floor_ne_zero {x : ℚ} (hx : 0 ≤ x) (hfits : x < 2 ^ 64) :
    UInt64.ofNat ⌊x⌋.toNat ≠ 0 ↔ 1 ≤ x := by
  have hfloor : 0 ≤ ⌊x⌋ := Int.floor_nonneg.mpr hx
  have hlt : ⌊x⌋ < 2 ^ 64 := Int.floor_lt.mpr (by push_cast; exact hfits)
  have hnat : (UInt64.ofNat ⌊x⌋.toNat).toNat = ⌊x⌋.toNat := by
    rw [UInt64.toNat_ofNat', Nat.mod_eq_of_lt (by omega)]
  have hone : 1 ≤ x ↔ 1 ≤ ⌊x⌋ := by
    rw [Int.le_floor]
    norm_num
  rw [hone, ne_eq, ← UInt64.toNat_inj, hnat, UInt64.toNat_zero]
  omega

theorem sizeOfNumber_nan (negative : Bool) (suffix : List Char) :
    sizeOfNumber negative .nan suffix = none := by
  have hpower : ∀ k, timesKilo .nan k = .nan := by
    intro k
    induction k with
    | zero => rfl
    | succ k ih => rw [timesKilo, ih, Double.times]
  show (timesKilo .nan (unitPower suffix)).toUint64 = none
  rw [hpower]
  rfl

theorem sizeOfNumber_infinity (negative : Bool) (suffix : List Char) :
    sizeOfNumber negative .infinity suffix = if negative then some 0 else none := by
  have hpower : ∀ k, timesKilo (.infinity negative) k = .infinity negative := by
    intro k
    induction k with
    | zero => rfl
    | succ k ih => rw [timesKilo, ih, Double.times]
  show (if negative then some 0
    else (timesKilo (.infinity negative) (unitPower suffix)).toUint64) = _
  rw [hpower]
  rfl

theorem toDouble_exact (negative : Bool) (q : ℚ) :
    (Numeral.exact q).toDouble negative =
      if 2 ^ 1024 ≤ roundBinary64 q then (.infinity negative, true)
      else (.finite (if negative then -roundBinary64 q else roundBinary64 q), false) := rfl

/-- A negative number has the size 0, whether it is rounded to zero or not. -/
theorem sizeOfNumber_negative {q : ℚ} (hq : 0 ≤ q) (suffix : List Char) :
    sizeOfNumber true (.exact q) suffix = some 0 := by
  have hround := roundBinary64_nonneg hq
  rw [sizeOfNumber, toDouble_exact, if_pos rfl]
  by_cases hover : 2 ^ 1024 ≤ roundBinary64 q
  · rw [if_pos hover]
    rfl
  · rw [if_neg hover]
    rcases hround.eq_or_lt with hzero | hpos
    · rw [← hzero, neg_zero, toUint64_timesKilo (le_refl 0), zero_mul]
      simp [Double.isNegative]
    · simp [Double.isNegative, hpos]

/-- The size of a number that is not negative. -/
theorem sizeOfNumber_exact {q : ℚ} (hq : 0 ≤ q) (suffix : List Char) :
    sizeOfNumber false (.exact q) suffix =
      if 2 ^ 1024 ≤ roundBinary64 q then some 0
      else if roundBinary64 q * 1024 ^ unitPower suffix < 2 ^ 64 then
        some (UInt64.ofNat ⌊roundBinary64 q * 1024 ^ unitPower suffix⌋.toNat)
      else none := by
  have hround := roundBinary64_nonneg hq
  rw [sizeOfNumber, toDouble_exact, if_neg Bool.false_ne_true]
  by_cases hover : 2 ^ 1024 ≤ roundBinary64 q
  · rw [if_pos hover, if_pos hover]
    rfl
  · rw [if_neg hover, if_neg hover, ← toUint64_timesKilo hround, if_neg]
    simp [Double.isNegative, hround]

/-! ## What a size string is worth -/

section Worth

variable {q : ℚ} {k : Nat}

theorem unit_pos (k : Nat) : (0 : ℚ) < 1024 ^ k := by positivity

/-- The least number that is rounded to one. -/
theorem one_le_round_iff (hq : 0 ≤ q) (hk : k ≤ 3) :
    1 ≤ roundBinary64 q * 1024 ^ k ↔ 1 - (2 : ℚ) ^ (-54 : ℤ) ≤ q * 1024 ^ k := by
  rcases hq.eq_or_lt with rfl | hpos
  · rw [roundBinary64_zero, zero_mul]
    norm_num
  · have h := le_round_times hpos (show -1020 ≤ (0 : ℤ) - 10 * k by omega)
    rwa [zpow_zero, zero_sub] at h

/-- The least number that is rounded to `2 ^ 64`. -/
theorem max_le_round_iff (hq : 0 ≤ q) (hk : k ≤ 3) :
    2 ^ 64 ≤ roundBinary64 q * 1024 ^ k ↔ 2 ^ 64 - 2 ^ 10 ≤ q * 1024 ^ k := by
  rcases hq.eq_or_lt with rfl | hpos
  · rw [roundBinary64_zero, zero_mul]
    norm_num
  · have h := le_round_times hpos (show -1020 ≤ (64 : ℤ) - 10 * k by omega)
    rwa [show (64 : ℤ) - 54 = 10 by omega, zpow_ofNat, zpow_ofNat] at h

/-- The least number that overflows. -/
theorem overflow_le_round_iff (hq : 0 ≤ q) :
    2 ^ 1024 ≤ roundBinary64 q ↔ 2 ^ 1024 - 2 ^ 970 ≤ q := by
  rcases hq.eq_or_lt with rfl | hpos
  · have hless : (2 : ℚ) ^ 970 < 2 ^ 1024 := pow_lt_pow_right₀ (by norm_num) (by norm_num)
    rw [roundBinary64_zero]
    exact iff_of_false (not_le.mpr (pow_pos (by norm_num) _)) (not_le.mpr (sub_pos.mpr hless))
  · have h := two_zpow_le_roundBinary64 hpos (show -1020 ≤ (1024 : ℤ) by omega)
    rwa [show (1024 : ℤ) - 54 = 970 by omega, zpow_ofNat, zpow_ofNat] at h

end Worth

/-- A number whose product with its unit fits does not overflow. -/
theorem not_overflow {q : ℚ} {k : Nat} (hq : 0 ≤ q) (h : roundBinary64 q * 1024 ^ k < 2 ^ 64) :
    ¬2 ^ 1024 ≤ roundBinary64 q := by
  intro hover
  have hone : (1 : ℚ) ≤ 1024 ^ k := one_le_pow₀ (by norm_num)
  have hround := le_mul_of_one_le_right (roundBinary64_nonneg hq) hone
  have hpow : (2 : ℚ) ^ 64 ≤ 2 ^ 1024 := pow_le_pow_right₀ (by norm_num) (by norm_num)
  exact absurd h (not_lt.mpr (hpow.trans (hover.trans hround)))

theorem sizeOfNumber_pos_iff {q : ℚ} (hq : 0 ≤ q) (suffix : List Char) :
    (∃ n, sizeOfNumber false (.exact q) suffix = some n ∧ n ≠ 0) ↔
      1 - (2 : ℚ) ^ (-54 : ℤ) ≤ q * 1024 ^ unitPower suffix ∧
        q * 1024 ^ unitPower suffix < 2 ^ 64 - 2 ^ 10 := by
  have hk := unitPower_le suffix
  have hnonneg := mul_nonneg (roundBinary64_nonneg hq) (unit_pos (unitPower suffix)).le
  have hmax : q * 1024 ^ unitPower suffix < 2 ^ 64 - 2 ^ 10 ↔
      roundBinary64 q * 1024 ^ unitPower suffix < 2 ^ 64 := by
    rw [← not_le, ← max_le_round_iff hq hk, not_le]
  rw [sizeOfNumber_exact hq, ← one_le_round_iff hq hk, hmax]
  by_cases hfits : roundBinary64 q * 1024 ^ unitPower suffix < 2 ^ 64
  · rw [if_neg (not_overflow hq hfits), if_pos hfits, ← ofNat_floor_ne_zero hnonneg hfits]
    constructor
    · rintro ⟨n, hn, hne⟩
      obtain rfl := Option.some.inj hn
      exact ⟨hne, hfits⟩
    · rintro ⟨hne, -⟩
      exact ⟨_, rfl, hne⟩
  · rw [if_neg hfits]
    constructor
    · rintro ⟨n, hn, hne⟩
      split at hn
      · exact absurd (Option.some.inj hn).symm hne
      · cases hn
    · rintro ⟨-, hlt⟩
      exact absurd hlt hfits

theorem sizeOfNumber_none_iff {q : ℚ} (hq : 0 ≤ q) (suffix : List Char) :
    sizeOfNumber false (.exact q) suffix = none ↔
      2 ^ 64 - 2 ^ 10 ≤ q * 1024 ^ unitPower suffix ∧ q < 2 ^ 1024 - 2 ^ 970 := by
  have hover : q < 2 ^ 1024 - 2 ^ 970 ↔ ¬2 ^ 1024 ≤ roundBinary64 q := by
    rw [overflow_le_round_iff hq, not_le]
  rw [sizeOfNumber_exact hq, ← max_le_round_iff hq (unitPower_le suffix), hover]
  by_cases hover : 2 ^ 1024 ≤ roundBinary64 q
  · rw [if_pos hover]
    exact iff_of_false (by simp) fun h => h.2 hover
  · rw [if_neg hover]
    by_cases hfits : roundBinary64 q * 1024 ^ unitPower suffix < 2 ^ 64
    · rw [if_pos hfits]
      exact iff_of_false (by simp) fun h => absurd hfits (not_lt.mpr h.1)
    · rw [if_neg hfits]
      exact iff_of_true rfl ⟨not_lt.mp hfits, hover⟩

/-- **Positive sizes.** A size string gives a size above zero exactly when it states one. -/
theorem parseSize_pos_iff (s : String) :
    (∃ n, parseSize s = some n ∧ n ≠ 0) ↔ StatesSize s := by
  have hzero : ¬∃ n : UInt64, some 0 = some n ∧ n ≠ 0 :=
    fun ⟨n, hn, hne⟩ => hne (Option.some.inj hn).symm
  have hnone : ¬∃ n : UInt64, none = some n ∧ n ≠ 0 := fun ⟨n, hn, _⟩ => (by cases hn)
  constructor
  · intro h
    cases hscan : scannedSize s with
    | none =>
        rw [parseSize_of_none hscan] at h
        exact absurd h hzero
    | some scanned =>
        obtain ⟨negative, numeral, suffix⟩ := scanned
        rw [parseSize_of_some hscan] at h
        cases numeral with
        | exact q =>
            have hq := scannedSize_nonneg hscan
            cases negative with
            | true =>
                rw [sizeOfNumber_negative hq] at h
                exact absurd h hzero
            | false => exact ⟨q, suffix, hscan, (sizeOfNumber_pos_iff hq suffix).mp h⟩
        | infinity =>
            rw [sizeOfNumber_infinity] at h
            cases negative with
            | true => exact absurd h hzero
            | false => exact absurd h hnone
        | nan =>
            rw [sizeOfNumber_nan] at h
            exact absurd h hnone
  · rintro ⟨q, suffix, hscan, hsize⟩
    rw [parseSize_of_some hscan]
    exact (sizeOfNumber_pos_iff (scannedSize_nonneg hscan) suffix).mpr hsize

/-- **Undefined sizes.** A size string is converted to no defined value exactly when it is
overlong. -/
theorem parseSize_none_iff (s : String) : parseSize s = none ↔ Overlong s := by
  constructor
  · intro h
    cases hscan : scannedSize s with
    | none =>
        rw [parseSize_of_none hscan] at h
        cases h
    | some scanned =>
        obtain ⟨negative, numeral, suffix⟩ := scanned
        rw [parseSize_of_some hscan] at h
        cases numeral with
        | exact q =>
            have hq := scannedSize_nonneg hscan
            cases negative with
            | true =>
                rw [sizeOfNumber_negative hq] at h
                cases h
            | false =>
                obtain ⟨hlow, hhigh⟩ := (sizeOfNumber_none_iff hq suffix).mp h
                exact .exact q suffix hscan hlow hhigh
        | infinity =>
            cases negative with
            | true =>
                rw [sizeOfNumber_infinity] at h
                cases h
            | false => exact .infinity suffix hscan
        | nan => exact .nan negative suffix hscan
  · rintro (⟨negative, suffix, hscan⟩ | ⟨suffix, hscan⟩ | ⟨q, suffix, hscan, hlow, hhigh⟩)
    · rw [parseSize_of_some hscan, sizeOfNumber_nan]
    · rw [parseSize_of_some hscan, sizeOfNumber_infinity]
      rfl
    · rw [parseSize_of_some hscan]
      exact (sizeOfNumber_none_iff (scannedSize_nonneg hscan) suffix).mpr ⟨hlow, hhigh⟩

end Labios
