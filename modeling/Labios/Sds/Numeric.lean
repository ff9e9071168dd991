import Labios.Foundation.Buffers
import Labios.Foundation.Decimal
import Labios.Foundation.PartialShuffle
import Labios.Foundation.StdSort
import Labios.Sds.Codec
import Labios.Sds.Executor

/-!
# Built-in functions on numbers

`fn_filter_bytes`, `fn_sample`, `fn_truncate` and `fn_median_uint64` of
`labios/sds/builtins.cpp`. The draws of `fn_sample` are a parameter: the index that
`dist(rng)` gives in every round.
-/

namespace Labios

open Foundation

/-! ## Numerals -/

/-- `std::from_chars` on a `size_t`, which takes no sign; `none` stands for an `ec`
that is set. -/
def fromCharsSize (cs : List Char) : Option Nat :=
  let digits := cs.takeWhile Char.isDigit
  let value := Nat.ofDigitChars 10 digits 0
  if digits = [] ∨ 2 ^ 64 ≤ value then none else some value

/-- A minus sign and what stands behind it. -/
def cutSign : List Char → Bool × List Char
  | '-' :: rest => (true, rest)
  | cs => (false, cs)

/-- `std::from_chars` on an `int`; `none` stands for an `ec` that is set. -/
def fromCharsInt (cs : List Char) : Option Int :=
  let (negative, rest) := cutSign cs
  let digits := rest.takeWhile Char.isDigit
  let magnitude : Int := Nat.ofDigitChars 10 digits 0
  let value := if negative then -magnitude else magnitude
  if digits = [] ∨ value < -2147483648 ∨ 2147483647 < value then none else some value

/-! ## The functions -/

/-- `builtin://filter_bytes`. -/
def fnFilterBytes : SdsFunction := fun input args =>
  if args.isEmpty then .error "filter_bytes requires a pattern byte (decimal value)"
  else
    match fromCharsInt args.toList with
    | none => .error "filter_bytes: invalid pattern byte"
    | some val => .ok (input.filter (· == UInt8.ofInt val))

/-- The bytes that `fn_sample` takes for `n`. -/
def sampleBytes (S : StdSort) (draw : Nat → Nat) (n : Nat) (input : List UInt8) : List UInt8 :=
  if n ≥ input.length then input
  else
    let indices := partialShuffle draw n (Array.range input.length)
    (S.sortBy id (indices.toList.take n)).map fun idx => input.getD idx 0

/-- `builtin://sample`. -/
def fnSample (S : StdSort) (draw : Nat → Nat) : SdsFunction := fun input args =>
  if args.isEmpty then .error "sample requires N (number of bytes)"
  else
    match fromCharsSize args.toList with
    | none => .error "sample: invalid N"
    | some n => .ok (sampleBytes S draw n input)

theorem not_isEmpty_of_fromCharsSize {args : String} {n : Nat}
    (h : fromCharsSize args.toList = some n) : ¬args.isEmpty = true := by
  intro hempty
  rw [String.isEmpty_iff.mp hempty] at h
  cases h

theorem fnSample_eq (S : StdSort) (draw : Nat → Nat) (input : List UInt8) {args : String}
    {n : Nat} (hargs : fromCharsSize args.toList = some n) :
    fnSample S draw input args = .ok (sampleBytes S draw n input) := by
  rw [fnSample, if_neg (not_isEmpty_of_fromCharsSize hargs), hargs]

/-- `builtin://truncate`. -/
def fnTruncate : SdsFunction := fun input args =>
  if args.isEmpty then .error "truncate requires N (number of bytes)"
  else
    match fromCharsSize args.toList with
    | none => .error "truncate: invalid N"
    | some n => .ok (input.take (min n input.length))

/-- `count` values of type `uint64_t` copied out of the input. -/
def readU64s (input : List UInt8) (count : Nat) : List UInt64 :=
  (List.range count).map fun i => UInt64.ofNat (ofLeBytes ((input.drop (8 * i)).take 8))

/-- The median of values in ascending order. -/
def medianOf (values : List UInt64) : UInt64 :=
  let count := values.length
  if count % 2 = 0 ∧ count > 1 then
    (values.getD (count / 2 - 1) 0 + values.getD (count / 2) 0) / 2
  else values.getD (count / 2) 0

/-- `builtin://median_uint64`. -/
def fnMedianUint64 (S : StdSort) : SdsFunction := fun input _args =>
  if input.length < 8 then .error "median requires at least one uint64"
  else
    let values := S.sortBy UInt64.toNat (readU64s input (input.length / 8))
    .ok (leBytes 8 (medianOf values).toNat)

end Labios
