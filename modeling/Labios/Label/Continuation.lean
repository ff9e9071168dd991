import Labios.Label.Basic
import Labios.Label.Codec

/-!
# Continuations

`labios/continuation.cpp`: the hexadecimal text that carries the label of a chain, the
conditions, and `process_continuation`. What a `Notify` continuation publishes is left
out; it never yields a label. Reading and writing FlatBuffers is a parameter.
-/

namespace Labios

/-! ## Hexadecimal texts -/

def hexChar (nibble : UInt8) : Char :=
  if nibble < 10 then Char.ofNat (48 + nibble.toNat) else Char.ofNat (87 + nibble.toNat)

def toHex (bytes : List UInt8) : List Char :=
  bytes.flatMap fun (b : UInt8) => [hexChar (b >>> 4), hexChar (b &&& 15)]

def nibble (c : Char) : Except String UInt8 :=
  if '0' ≤ c ∧ c ≤ '9' then .ok (UInt8.ofNat (c.toNat - 48))
  else if 'a' ≤ c ∧ c ≤ 'f' then .ok (UInt8.ofNat (c.toNat - 97 + 10))
  else if 'A' ≤ c ∧ c ≤ 'F' then .ok (UInt8.ofNat (c.toNat - 65 + 10))
  else .error "invalid hex character"

/-- The loop over pairs of characters. -/
def hexBytes : List Char → Except String (List UInt8)
  | high :: low :: rest => do
      let h ← nibble high
      let l ← nibble low
      let bytes ← hexBytes rest
      return ((h <<< 4) ||| l) :: bytes
  | _ => .ok []

def fromHex (hex : List Char) : Except String (List UInt8) :=
  if hex.length % 2 ≠ 0 then .error "invalid hex string length" else hexBytes hex

/-! ## Chained labels -/

/-- Writing a table to a buffer, and the root table of a buffer; there may be none. -/
structure FlatBuffers where
  finish : Schema.Label → List UInt8
  getRoot : List UInt8 → Except String Schema.Label

namespace FlatBuffers

def serializeLabel (fb : FlatBuffers) (label : LabelData) : List UInt8 :=
  fb.finish (Labios.serializeLabel label)

def deserializeLabel (fb : FlatBuffers) (buf : List UInt8) : Except String LabelData :=
  (fb.getRoot buf).bind Labios.deserializeLabel

def encodeChainParams (fb : FlatBuffers) (labelTemplate : LabelData) : String :=
  String.ofList (toHex (fb.serializeLabel labelTemplate))

def decodeChainParams (fb : FlatBuffers) (encoded : String) : Except String LabelData :=
  (fromHex encoded.toList).bind fb.deserializeLabel

end FlatBuffers

/-! ## Conditions -/

def trim (sv : List Char) : List Char :=
  let blank : Char → Bool := fun c => c = ' ' || c = '\t'
  ((sv.dropWhile blank).reverse.dropWhile blank).reverse

/-- `find` of a text: the first position where it stands. -/
def findText (text expr : List Char) : Option Nat :=
  (List.range (expr.length + 1)).find? fun i => text.isPrefixOf (expr.drop i)

/-- The operators of two characters are looked for first. -/
def findOperator (expr : List Char) : Option (Nat × Nat) :=
  match findText "==".toList expr with
  | some start => some (start, 2)
  | none =>
      match findText "!=".toList expr with
      | some start => some (start, 2)
      | none =>
          match findText ">".toList expr with
          | some start => some (start, 1)
          | none => (findText "<".toList expr).map (·, 1)

def statusString : CompletionStatus → String
  | .complete => "Complete"
  | .error => "Error"

/-- Quotes around the value are dropped. -/
def unquote (value : List Char) : List Char :=
  if 2 ≤ value.length ∧ value.head? = some '"' ∧ value.getLast? = some '"' then
    (value.drop 1).dropLast
  else value

def compareString (field op value : List Char) (actual : String) : Except String Bool :=
  if op = "==".toList then .ok (actual.toList = value)
  else if op = "!=".toList then .ok (actual.toList ≠ value)
  else .error ("operator " ++ String.ofList op ++ " not supported for string field " ++
    String.ofList field)

/-- The longest numeral in front counts. -/
def compareNumeric (op value : List Char) (actual : UInt64) : Except String Bool :=
  let digits := value.takeWhile Char.isDigit
  let rhs := Nat.ofDigitChars 10 digits 0
  if digits = [] ∨ 2 ^ 64 ≤ rhs then .error ("invalid numeric value: " ++ String.ofList value)
  else if op = "==".toList then .ok (actual.toNat = rhs)
  else if op = "!=".toList then .ok (actual.toNat ≠ rhs)
  else if op = ">".toList then .ok (rhs < actual.toNat)
  else if op = "<".toList then .ok (actual.toNat < rhs)
  else .ok false

def evaluateCondition (condition : String) (completedLabel : LabelData)
    (completion : CompletionData) : Except String Bool :=
  let trimmed := trim condition.toList
  match findOperator trimmed with
  | none => .error ("invalid condition: no operator found in '" ++ condition ++ "'")
  | some (start, len) =>
      let field := trim (trimmed.take start)
      let op := (trimmed.drop start).take len
      let value := unquote (trim (trimmed.drop (start + len)))
      if field = "status".toList then
        compareString field op value (statusString completion.status)
      else if field = "error".toList then compareString field op value completion.error
      else if field = "data_size".toList then compareNumeric op value completedLabel.dataSize
      else if field = "label_id".toList then compareNumeric op value completion.labelId
      else .error ("unknown condition field: " ++ String.ofList field)

/-! ## Processing -/

/-- The label that is chained, with the id that `generate_label_id` returns. -/
def chainedLabel (fb : FlatBuffers) (newId : UInt64) (completedLabel : LabelData) :
    Except String LabelData :=
  (fb.decodeChainParams completedLabel.continuation.chainParams).map fun chained =>
    { chained with
      id := newId
      appId := completedLabel.appId
      status := .created }

def processContinuation (fb : FlatBuffers) (newId : UInt64) (completedLabel : LabelData)
    (completion : CompletionData) : Except String (Option LabelData) :=
  match completedLabel.continuation.kind with
  | .none => .ok none
  | .notify => .ok none
  | .chain => (chainedLabel fb newId completedLabel).map some
  | .conditional =>
      match evaluateCondition completedLabel.continuation.condition completedLabel completion with
      | .error text => .error text
      | .ok false => .ok none
      | .ok true => (chainedLabel fb newId completedLabel).map some

/-- The label that the worker publishes after it has executed one: an exception is only
logged. -/
def FlatBuffers.maybeProcessContinuation (fb : FlatBuffers) (newId : UInt64) (label : LabelData)
    (completion : CompletionData) : Option LabelData :=
  if label.continuation.kind = .none then none
  else
    match processContinuation fb newId label completion with
    | .ok chained => chained
    | .error _ => none

/-! ## Round trip of hexadecimal texts -/

theorem nibble_hexChar {n : UInt8} (h : n < 16) : nibble (hexChar n) = .ok n := by
  have hall : ∀ n : Fin 16, nibble (hexChar (UInt8.ofNat n.val)) = .ok (UInt8.ofNat n.val) := by
    decide
  have hn := hall ⟨n.toNat, h⟩
  rwa [UInt8.ofNat_toNat] at hn

theorem nibbles_join (b : UInt8) : ((b >>> 4) <<< 4) ||| (b &&& 15) = b := by
  have hall : ∀ n : Fin 256, ((UInt8.ofNat n.val >>> 4) <<< 4) ||| (UInt8.ofNat n.val &&& 15) =
      UInt8.ofNat n.val := by decide +kernel
  have hb := hall ⟨b.toNat, UInt8.toNat_lt b⟩
  rwa [UInt8.ofNat_toNat] at hb

theorem nibbles_lt (b : UInt8) : b >>> 4 < 16 ∧ b &&& 15 < 16 := by
  have hall : ∀ n : Fin 256, UInt8.ofNat n.val >>> 4 < 16 ∧ UInt8.ofNat n.val &&& 15 < 16 := by
    decide +kernel
  have hb := hall ⟨b.toNat, UInt8.toNat_lt b⟩
  rwa [UInt8.ofNat_toNat] at hb

theorem length_toHex (bytes : List UInt8) : (toHex bytes).length = 2 * bytes.length := by
  induction bytes with
  | nil => rfl
  | cons b rest ih =>
      show (toHex rest).length + 2 = _
      rw [ih, List.length_cons]
      omega

theorem hexBytes_toHex (bytes : List UInt8) : hexBytes (toHex bytes) = .ok bytes := by
  induction bytes with
  | nil => rfl
  | cons b rest ih =>
      obtain ⟨hhigh, hlow⟩ := nibbles_lt b
      show (do
        let h ← nibble (hexChar (b >>> 4))
        let l ← nibble (hexChar (b &&& 15))
        let bytes ← hexBytes (toHex rest)
        return ((h <<< 4) ||| l) :: bytes : Except String (List UInt8)) = _
      rw [nibble_hexChar hhigh, nibble_hexChar hlow, ih]
      show Except.ok ((((b >>> 4) <<< 4) ||| (b &&& 15)) :: rest) = _
      rw [nibbles_join]

theorem fromHex_toHex (bytes : List UInt8) : fromHex (toHex bytes) = .ok bytes := by
  unfold fromHex
  rw [length_toHex, if_neg (by omega), hexBytes_toHex]

/-- A label that is encoded comes out of the text as from its own buffer. -/
theorem decodeChainParams_encodeChainParams (fb : FlatBuffers) (label : LabelData) :
    fb.decodeChainParams (fb.encodeChainParams label) =
      fb.deserializeLabel (fb.serializeLabel label) := by
  unfold FlatBuffers.decodeChainParams FlatBuffers.encodeChainParams
  rw [String.toList_ofList, fromHex_toHex]
  rfl

/-- Two characters make one byte. -/
theorem length_hexBytes {hex : List Char} {bytes : List UInt8} (h : hexBytes hex = .ok bytes) :
    2 * bytes.length ≤ hex.length := by
  fun_induction hexBytes hex generalizing bytes with
  | case1 high low rest ih =>
      cases hhigh : nibble high with
      | error text =>
          rw [hhigh] at h
          cases h
      | ok a =>
          cases hlow : nibble low with
          | error text =>
              rw [hhigh, hlow] at h
              cases h
          | ok b =>
              cases hrest : hexBytes rest with
              | error text =>
                  rw [hhigh, hlow, hrest] at h
                  cases h
              | ok tail =>
                  rw [hhigh, hlow, hrest] at h
                  obtain rfl := Except.ok.inj h
                  have htail := ih hrest
                  simp only [List.length_cons]
                  omega
  | case2 hex hshort =>
      obtain rfl := Except.ok.inj h
      exact Nat.zero_le _

theorem length_fromHex {hex : List Char} {bytes : List UInt8} (h : fromHex hex = .ok bytes) :
    2 * bytes.length ≤ hex.length := by
  unfold fromHex at h
  split at h
  · cases h
  · exact length_hexBytes h

end Labios
