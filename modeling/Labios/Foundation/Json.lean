import Labios.Foundation.Counts
import Labios.Foundation.Decimal
import Mathlib.Data.List.Basic
import Mathlib.Data.List.Count
import Mathlib.Data.List.Induction

/-!
# JSON texts

The grammar of JSON as relations between texts and values. `StringBody` relates what
stands between two quotes to the string that it spells; `Reads`, `Items` and `Members`
are values, the items of an array and the members of an object; `Document` is a value
with white space around it.

`pastedItems` is an array of strings as a program writes it that forgets to escape.
Reading takes characters away and hides quotes (`StringBody.length_le`,
`StringBody.count_le`), so such a text lists its own strings only where each of them is
`Verbatim`.
-/

namespace Foundation

inductive Json
  | null
  | bool (b : Bool)
  | num (lexeme : List Char)
  | str (text : List Char)
  | arr (items : List Json)
  | obj (members : List (List Char × Json))

namespace Json

/-! ## Strings -/

/-- A character that stands for itself in a string. -/
def Unescaped (c : Char) : Prop := c ≠ '"' ∧ c ≠ '\\' ∧ 32 ≤ c.toNat

instance (c : Char) : Decidable (Unescaped c) := inferInstanceAs (Decidable (_ ∧ _))

/-- A text without quotes, backslashes and control characters. -/
def Verbatim (text : List Char) : Prop := ∀ c ∈ text, Unescaped c

-- over the characters of the text, not over all characters
instance (text : List Char) : Decidable (Verbatim text) := List.decidableBAll _ _

/-- The letters behind a backslash and what they stand for. -/
def letterEscapes : List (Char × Char) :=
  [('"', '"'), ('\\', '\\'), ('/', '/'), ('b', '\x08'), ('f', '\x0c'), ('n', '\n'), ('r', '\r'),
    ('t', '\t')]

def hexDigit? (c : Char) : Option Nat :=
  if c.isDigit then some (c.toNat - 48)
  else if 97 ≤ c.toLower.toNat ∧ c.toLower.toNat ≤ 102 then some (c.toLower.toNat - 87)
  else none

/-- Four hexadecimal digits that spell `n`. -/
def Quad (digits : List Char) (n : Nat) : Prop :=
  ∃ a b c d w x y z, digits = [a, b, c, d] ∧ hexDigit? a = some w ∧ hexDigit? b = some x ∧
    hexDigit? c = some y ∧ hexDigit? d = some z ∧ n = ((w * 16 + x) * 16 + y) * 16 + z

/-- One character of a string and a way to write it. -/
inductive StringChar : List Char → Char → Prop
  | unescaped {c : Char} : Unescaped c → StringChar [c] c
  | letter {e c : Char} : (e, c) ∈ letterEscapes → StringChar ['\\', e] c
  | unicode {digits : List Char} {n : Nat} : Quad digits n → n < 0xD800 ∨ 0xDFFF < n →
      StringChar ('\\' :: 'u' :: digits) (Char.ofNat n)
  | surrogates {high low : List Char} {h l : Nat} : Quad high h → 0xD800 ≤ h → h ≤ 0xDBFF →
      Quad low l → 0xDC00 ≤ l → l ≤ 0xDFFF →
      StringChar ('\\' :: 'u' :: (high ++ '\\' :: 'u' :: low))
        (Char.ofNat (0x10000 + (h - 0xD800) * 0x400 + (l - 0xDC00)))

/-- What stands between the quotes of a string, and the string. -/
inductive StringBody : List Char → List Char → Prop
  | nil : StringBody [] []
  | cons {piece enc dec : List Char} {c : Char} : StringChar piece c → StringBody enc dec →
      StringBody (piece ++ enc) (c :: dec)

theorem hexDigit?_letters {c : Char} {n : Nat} (h : hexDigit? c = some n) :
    c ≠ '"' ∧ c ≠ ',' := by
  constructor
  · rintro rfl
    cases h
  · rintro rfl
    cases h

theorem Quad.length {digits : List Char} {n : Nat} (h : Quad digits n) : digits.length = 4 := by
  obtain ⟨a, b, c, d, w, x, y, z, rfl, -⟩ := h
  rfl

theorem Quad.notMem {digits : List Char} {n : Nat} (h : Quad digits n) :
    '"' ∉ digits ∧ ',' ∉ digits := by
  obtain ⟨a, b, c, d, w, x, y, z, rfl, ha, hb, hc, hd, -⟩ := h
  have ha := hexDigit?_letters ha
  have hb := hexDigit?_letters hb
  have hc := hexDigit?_letters hc
  have hd := hexDigit?_letters hd
  simp only [List.mem_cons, List.not_mem_nil, or_false, not_or]
  exact ⟨⟨ha.1.symm, hb.1.symm, hc.1.symm, hd.1.symm⟩, ha.2.symm, hb.2.symm, hc.2.symm, hd.2.symm⟩

section Piece

variable {piece enc dec front back : List Char} {c : Char}

theorem StringChar.length_pos (h : StringChar piece c) : 1 ≤ piece.length := by
  cases h with
  | _ => exact Nat.le_add_left 1 _

/-- A character that is written as one is written as itself. -/
theorem StringChar.eq_of_length (h : StringChar piece c) (hone : piece.length = 1) :
    piece = [c] ∧ Unescaped c := by
  cases h with
  | unescaped hc => exact ⟨rfl, hc⟩
  | letter _ => cases hone
  | unicode _ _ => simp at hone
  | surrogates _ _ _ _ _ _ => simp at hone

/-- A quote inside a string stands behind a backslash. -/
theorem StringChar.quote (h : StringChar piece c) (hmem : '"' ∈ piece) :
    piece = ['\\', '"'] ∧ c = '"' := by
  cases h with
  | unescaped hc => exact absurd (List.mem_singleton.mp hmem).symm hc.1
  | @letter e c he =>
    have hquote : e = '"' := by
      rcases List.mem_cons.mp hmem with hback | hmem
      · cases hback
      · exact (List.mem_singleton.mp hmem).symm
    subst hquote
    refine ⟨rfl, ?_⟩
    have hall : ∀ p ∈ letterEscapes, p.1 = '"' → p.2 = '"' := by decide
    exact hall _ he rfl
  | unicode hquad _ => simp [hquad.notMem.1] at hmem
  | surrogates hhigh _ _ hlow _ _ => simp [hhigh.notMem.1, hlow.notMem.1] at hmem

theorem StringChar.count_le (h : StringChar piece c) : piece.count '"' ≤ [c].count '"' := by
  by_cases hmem : '"' ∈ piece
  · obtain ⟨rfl, rfl⟩ := h.quote hmem
    decide
  · rw [List.count_eq_zero.mpr hmem]
    exact Nat.zero_le _

theorem stringBody_of_verbatim (h : Verbatim dec) : StringBody dec dec := by
  induction dec with
  | nil => exact .nil
  | cons c dec ih =>
    obtain ⟨hc, hrest⟩ := List.forall_mem_cons.mp h
    exact .cons (.unescaped hc) (ih hrest)

theorem StringBody.length_le (h : StringBody enc dec) : dec.length ≤ enc.length := by
  induction h with
  | nil => exact Nat.le_refl _
  | cons hpiece _ ih =>
    have := hpiece.length_pos
    rw [List.length_cons, List.length_append]
    omega

/-- A string that is as long as its text needs no escapes. -/
theorem StringBody.verbatim_of_length (h : StringBody enc dec) (heq : dec.length = enc.length) :
    Verbatim dec := by
  induction h with
  | nil => exact fun _ hc => by cases hc
  | cons hpiece hbody ih =>
    have hpos := hpiece.length_pos
    have hle := hbody.length_le
    rw [List.length_cons, List.length_append] at heq
    have hc := (hpiece.eq_of_length (by omega)).2
    exact List.forall_mem_cons.mpr ⟨hc, ih (by omega)⟩

theorem StringBody.count_le (h : StringBody enc dec) : enc.count '"' ≤ dec.count '"' := by
  induction h with
  | nil => exact Nat.le_refl _
  | @cons piece enc dec c hpiece _ ih =>
    have hcons : c :: dec = [c] ++ dec := rfl
    rw [hcons, List.count_append, List.count_append]
    exact Nat.add_le_add hpiece.count_le ih

end Piece

/-! ## Numbers -/

def Digits (ds : List Char) : Prop := ds ≠ [] ∧ ∀ c ∈ ds, c.isDigit = true

/-- A number: a sign, digits without a leading zero, a fraction and an exponent. -/
def IsNumber (t : List Char) : Prop :=
  ∃ sign whole fraction exponent, t = sign ++ (whole ++ (fraction ++ exponent)) ∧
    (sign = [] ∨ sign = ['-']) ∧
    (Digits whole ∧ (whole.head? = some '0' → whole = ['0'])) ∧
    (fraction = [] ∨ ∃ ds, fraction = '.' :: ds ∧ Digits ds) ∧
    (exponent = [] ∨ ∃ e esign ds, exponent = e :: (esign ++ ds) ∧ (e = 'e' ∨ e = 'E') ∧
      (esign = [] ∨ esign = ['+'] ∨ esign = ['-']) ∧ Digits ds)

/-- White space. -/
def Blank (t : List Char) : Prop := ∀ c ∈ t, c ∈ [' ', '\t', '\n', '\r']

def enclosed (text : List Char) : List Char := '"' :: (text ++ ['"'])

mutual

/-- The text is the value, without white space around it. -/
inductive Reads : List Char → Json → Prop
  | null : Reads "null".toList .null
  | bool (b : Bool) : Reads (if b then "true".toList else "false".toList) (.bool b)
  | num {t : List Char} : IsNumber t → Reads t (.num t)
  | str {enc dec : List Char} : StringBody enc dec → Reads (enclosed enc) (.str dec)
  | emptyArr {w : List Char} : Blank w → Reads ('[' :: (w ++ [']'])) (.arr [])
  | arr {t : List Char} {vs : List Json} : Items t vs → Reads ('[' :: (t ++ [']'])) (.arr vs)
  | emptyObj {w : List Char} : Blank w → Reads ('\x7b' :: (w ++ ['\x7d'])) (.obj [])
  | obj {t : List Char} {ms : List (List Char × Json)} : Members t ms →
      Reads ('\x7b' :: (t ++ ['\x7d'])) (.obj ms)

/-- The items of an array, at least one. -/
inductive Items : List Char → List Json → Prop
  | one {before t after : List Char} {v : Json} : Blank before → Reads t v → Blank after →
      Items (before ++ (t ++ after)) [v]
  | more {before t after rest : List Char} {v : Json} {vs : List Json} : Blank before →
      Reads t v → Blank after → Items rest vs →
      Items (before ++ (t ++ (after ++ ',' :: rest))) (v :: vs)

/-- The members of an object, at least one. -/
inductive Members : List Char → List (List Char × Json) → Prop
  | one {before enc mid gap t after dec : List Char} {v : Json} : Blank before →
      StringBody enc dec → Blank mid → Blank gap → Reads t v → Blank after →
      Members (before ++ (enclosed enc ++ (mid ++ ':' :: (gap ++ (t ++ after))))) [(dec, v)]
  | more {before enc mid gap t after rest dec : List Char} {v : Json}
      {ms : List (List Char × Json)} : Blank before →
      StringBody enc dec → Blank mid → Blank gap → Reads t v → Blank after → Members rest ms →
      Members (before ++ (enclosed enc ++ (mid ++ ':' :: (gap ++ (t ++ (after ++ ',' :: rest))))))
        ((dec, v) :: ms)

end

/-- A text with one value, and white space around it. -/
def Document (text : List Char) (v : Json) : Prop :=
  ∃ before t after, text = before ++ (t ++ after) ∧ Blank before ∧ Reads t v ∧ Blank after

theorem blank_nil : Blank [] := fun _ hc => by cases hc

theorem Blank.count {w : List Char} (h : Blank w) : w.count '"' = 0 :=
  List.count_eq_zero.mpr fun hmem => absurd (h _ hmem) (by decide)

/-- The strings between quotes, with commas between them. -/
def pastedItems (names : List (List Char)) : List Char := [','].intercalate (names.map enclosed)

def pastedArray (names : List (List Char)) : List Char := '[' :: (pastedItems names ++ [']'])

/-- An object whose only member is an array of strings. -/
def pastedListing (member : List Char) (names : List (List Char)) : List Char :=
  '\x7b' :: (enclosed member ++ ':' :: (pastedArray names ++ ['\x7d']))

@[simp] theorem pastedItems_singleton (name : List Char) : pastedItems [name] = enclosed name := by
  simp [pastedItems, List.intercalate]

theorem pastedItems_cons_cons (name next : List Char) (rest : List (List Char)) :
    pastedItems (name :: next :: rest) = enclosed name ++ ',' :: pastedItems (next :: rest) := by
  simp [pastedItems, List.intercalate]

/-- The text is no shorter than the pasted one and has no more quotes, and `P` holds
where they are of one length. -/
structure Covers (t pasted : List Char) (P : Prop) : Prop where
  length : pasted.length ≤ t.length
  quotes : t.count '"' ≤ pasted.count '"'
  exact : pasted.length = t.length → P

section Covers

variable {t t' pasted pasted' enc dec : List Char} {P P' : Prop}

theorem Covers.refl (t : List Char) : Covers t t True :=
  ⟨Nat.le_refl _, Nat.le_refl _, fun _ => trivial⟩

theorem Covers.append (h : Covers t pasted P) (h' : Covers t' pasted' P') :
    Covers (t ++ t') (pasted ++ pasted') (P ∧ P') where
  length := by
    rw [List.length_append, List.length_append]
    exact Nat.add_le_add h.length h'.length
  quotes := by
    rw [List.count_append, List.count_append]
    exact Nat.add_le_add h.quotes h'.quotes
  exact heq := by
    have hle := h.length
    have hle' := h'.length
    rw [List.length_append, List.length_append] at heq
    exact ⟨h.exact (by omega), h'.exact (by omega)⟩

theorem Covers.cons (c : Char) (h : Covers t pasted P) : Covers (c :: t) (c :: pasted) P :=
  have happend := (Covers.refl [c]).append h
  ⟨happend.length, happend.quotes, fun heq => (happend.exact heq).2⟩

theorem Covers.imp (h : Covers t pasted P) (himp : P → P') : Covers t pasted P' :=
  ⟨h.length, h.quotes, fun heq => himp (h.exact heq)⟩

theorem Blank.covers {w : List Char} (h : Blank w) : Covers w [] True :=
  ⟨Nat.zero_le _, Nat.le_of_eq h.count, fun _ => trivial⟩

/-- White space around a text. -/
theorem Covers.padded (h : Covers t pasted P) {before after : List Char} (hbefore : Blank before)
    (hafter : Blank after) : Covers (before ++ (t ++ after)) pasted P := by
  have hall := hbefore.covers.append (h.append hafter.covers)
  rw [List.nil_append, List.append_nil] at hall
  exact hall.imp fun hboth => hboth.2.1

theorem StringBody.covers (h : StringBody enc dec) :
    Covers (enclosed enc) (enclosed dec) (Verbatim dec) := by
  have hbody : Covers enc dec (Verbatim dec) := ⟨h.length_le, h.count_le, h.verbatim_of_length⟩
  exact ((hbody.append (Covers.refl ['"'])).imp And.left).cons '"'

theorem Reads.covers_str {name : List Char} (h : Reads t (.str name)) :
    Covers t (enclosed name) (Verbatim name) := by
  cases h with
  | str hbody => exact hbody.covers

/-- Items that are strings. -/
theorem Items.covers {names : List (List Char)} (h : Items t (names.map .str)) :
    Covers t (pastedItems names) (∀ name ∈ names, Verbatim name) := by
  induction names generalizing t with
  | nil => cases h
  | cons name names ih =>
    rw [List.map_cons] at h
    generalize hvs : names.map Json.str = vs at h
    cases h with
    | one hbefore hread hafter =>
      obtain rfl := List.map_eq_nil_iff.mp hvs
      rw [pastedItems_singleton]
      refine (hread.covers_str.padded hbefore hafter).imp fun hverbatim => ?_
      exact List.forall_mem_cons.mpr ⟨hverbatim, fun _ hmem => by cases hmem⟩
    | @more before t after rest _ _ hbefore hread hafter hrest =>
      rw [← hvs] at hrest
      have hnext := ih hrest
      -- a comma stands in front of another item
      cases names with
      | nil => cases hrest
      | cons next names =>
        have hall := (hread.covers_str.padded hbefore hafter).append (hnext.cons ',')
        rw [List.append_assoc, List.append_assoc] at hall
        rw [pastedItems_cons_cons]
        exact hall.imp List.forall_mem_cons.mpr

theorem Reads.covers_arr {names : List (List Char)} (h : Reads t (.arr (names.map .str))) :
    Covers t (pastedArray names) (∀ name ∈ names, Verbatim name) := by
  generalize hvs : names.map Json.str = vs at h
  cases h with
  | emptyArr hw =>
    obtain rfl := List.map_eq_nil_iff.mp hvs
    refine (((hw.covers.append (Covers.refl [']'])).cons '[')).imp fun _ => ?_
    exact fun _ hmem => by cases hmem
  | arr hitems =>
    rw [← hvs] at hitems
    exact ((hitems.covers.append (Covers.refl [']'])).imp And.left).cons '['

/-- A text that is read as a listing is at least as long as the pasted listing and has
at most its quotes. -/
theorem Document.covers {text member : List Char} {names : List (List Char)}
    (h : Document text (.obj [(member, .arr (names.map .str))])) :
    Covers text (pastedListing member names) (∀ name ∈ names, Verbatim name) := by
  obtain ⟨before, t, after, rfl, hbefore, hread, hafter⟩ := h
  refine Covers.padded ?_ hbefore hafter
  generalize hms : [(member, Json.arr (names.map .str))] = ms at hread
  cases hread with
  | emptyObj _ => cases hms
  | obj hmembers =>
    subst hms
    refine Covers.cons _ ?_
    cases hmembers with
    | @one front enc mid gap t back _ _ hfront hkey hmid hgap hvalue hback =>
      have hhead := (hkey.covers.append hmid.covers)
      have harray := (hvalue.covers_arr.padded hgap hback).cons ':'
      have hall := (hfront.covers.append (hhead.append harray)).append (Covers.refl ['\x7d'])
      simp only [List.append_assoc, List.cons_append, List.nil_append] at hall ⊢
      exact hall.imp fun hboth => hboth.1.2.2
    | more _ _ _ _ _ _ hrest => cases hrest

end Covers

/-! ## Verbatim texts are read back -/

theorem items_pasted {names : List (List Char)} (hne : names ≠ [])
    (hverbatim : ∀ name ∈ names, Verbatim name) : Items (pastedItems names) (names.map .str) := by
  induction names with
  | nil => exact absurd rfl hne
  | cons name names ih =>
    obtain ⟨hname, hrest⟩ := List.forall_mem_cons.mp hverbatim
    have hread : Reads (enclosed name) (.str name) := .str (stringBody_of_verbatim hname)
    cases names with
    | nil =>
      have hone := Items.one blank_nil hread blank_nil
      rw [List.nil_append, List.append_nil] at hone
      rwa [pastedItems_singleton]
    | cons next names =>
      rw [pastedItems_cons_cons]
      exact Items.more blank_nil hread blank_nil (ih (by simp) hrest)

theorem reads_pastedArray {names : List (List Char)} (hverbatim : ∀ name ∈ names, Verbatim name) :
    Reads (pastedArray names) (.arr (names.map .str)) := by
  by_cases hne : names = []
  · subst hne
    exact .emptyArr blank_nil
  · exact .arr (items_pasted hne hverbatim)

section Listing

variable {member : List Char} {names listed : List (List Char)}

end Listing

/-! ## Compact objects -/

section Compact

variable {key t rest : List Char} {v : Json} {ms : List (List Char × Json)}

theorem members_one (hkey : Verbatim key) (hread : Reads t v) :
    Members (enclosed key ++ ':' :: t) [(key, v)] := by
  have hone := Members.one blank_nil (stringBody_of_verbatim hkey) blank_nil blank_nil hread
    blank_nil
  simpa using hone

theorem members_more (hkey : Verbatim key) (hread : Reads t v) (hrest : Members rest ms) :
    Members (enclosed key ++ ':' :: (t ++ ',' :: rest)) ((key, v) :: ms) := by
  have hmore := Members.more blank_nil (stringBody_of_verbatim hkey) blank_nil blank_nil hread
    blank_nil hrest
  simpa using hmore

end Compact

/-! ## The first member of an object -/

section First

variable {w x y t enc dec key rest : List Char} {c : Char}

theorem Blank.eq_nil (h : Blank w) (heq : w ++ x = c :: y) (hc : c ∉ [' ', '\t', '\n', '\r']) :
    w = [] := by
  cases w with
  | nil => rfl
  | cons b w =>
    obtain ⟨rfl, -⟩ := List.cons.inj heq
    exact absurd (h b List.mem_cons_self) hc

theorem IsNumber.head (h : IsNumber t) : ∃ c ∈ t.head?, c = '-' ∨ c.isDigit = true := by
  obtain ⟨sign, whole, fraction, exponent, rfl, hsign, ⟨hwhole, -⟩, -⟩ := h
  rcases hsign with rfl | rfl
  · obtain ⟨hne, hdigits⟩ := hwhole
    cases whole with
    | nil => exact absurd rfl hne
    | cons d whole => exact ⟨d, rfl, Or.inr (hdigits d List.mem_cons_self)⟩
  · exact ⟨'-', rfl, Or.inl rfl⟩

/-- A value in front of a quote is a string. -/
theorem Reads.quote {v : Json} (h : Reads t v) (heq : t ++ x = '"' :: y) :
    ∃ enc dec, t = enclosed enc ∧ v = .str dec ∧ StringBody enc dec := by
  have hhead : ∀ c ∈ t.head?, c = '"' := by
    intro c hc
    cases t with
    | nil => cases hc
    | cons d t =>
      obtain rfl := Option.some.inj hc
      exact (List.cons.inj heq).1
  cases h with
  | null => exact absurd (hhead 'n' rfl) (by decide)
  | bool b =>
    cases b with
    | true => exact absurd (hhead 't' rfl) (by decide)
    | false => exact absurd (hhead 'f' rfl) (by decide)
  | num hnumber =>
    obtain ⟨c, hc, hsign⟩ := hnumber.head
    obtain rfl := hhead c hc
    rcases hsign with hsign | hsign
    · cases hsign
    · cases hsign
  | str hbody => exact ⟨_, _, rfl, rfl, hbody⟩
  | emptyArr _ => exact absurd (hhead '[' rfl) (by decide)
  | arr _ => exact absurd (hhead '[' rfl) (by decide)
  | emptyObj _ => exact absurd (hhead '\x7b' rfl) (by decide)
  | obj _ => exact absurd (hhead '\x7b' rfl) (by decide)

end First

end Json
end Foundation
