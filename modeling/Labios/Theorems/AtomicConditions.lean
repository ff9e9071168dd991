import Labios.Label.ConditionValues

/-!
# Atomic conditions

An atomic condition is a field, an operator and a value, with blanks anywhere between them. It
says what its operator says of the field and the value; a number with characters behind it, or
out of range, says nothing. The operator is looked for in the value too: a text that has `==`
cannot be asked to differ, and what stands behind a numeral is not looked at.
-/

namespace Labios

open Foundation

/-- The operators on texts. -/
inductive Equality
  | eq | ne
  deriving DecidableEq, Repr

def Equality.operator : Equality → Operator
  | .eq => .eq
  | .ne => .ne

inductive TextField
  | status | error
  deriving DecidableEq, Repr

inductive NumberField
  | dataSize | labelId
  deriving DecidableEq, Repr

namespace TextField

def field : TextField → Field
  | .status => .status
  | .error => .error

def actual (field : TextField) (completion : CompletionData) : List Char :=
  match field with
  | .status => (statusString completion.status).toList
  | .error => completion.error.toList

end TextField

namespace NumberField

def field : NumberField → Field
  | .dataSize => .dataSize
  | .labelId => .labelId

def actual (field : NumberField) (completedLabel : LabelData) (completion : CompletionData) : Nat :=
  match field with
  | .dataSize => completedLabel.dataSize.toNat
  | .labelId => completion.labelId.toNat

end NumberField

structure DigitString where
  digits : List Char
  nonempty : digits ≠ []
  decimal : ∀ c ∈ digits, c.isDigit = true

def DigitString.value (numeral : DigitString) : Nat := Nat.ofDigitChars 10 numeral.digits 0

/-- Characters that can neither belong to the numeral in front nor be trimmed off. -/
structure Junk where
  chars : List Char
  nonempty : chars ≠ []
  head : ∀ c ∈ chars.head?, c.isDigit = false
  last : ∀ c ∈ chars.getLast?, blank c = false

inductive Atomic
  /-- A status as it is. -/
  | status (equality : Equality) (v : List Char)
  /-- A text in quotes. -/
  | quoted (field : TextField) (equality : Equality) (v : List Char)
  | number (field : NumberField) (op : Operator) (numeral : DigitString)
  | trailing (field : NumberField) (op : Operator) (numeral : DigitString) (junk : Junk)

/-- Blanks in front, around the operator and at the end. -/
structure Spacing where
  lead : List Char
  gap : List Char
  pad : List Char
  tail : List Char
  lead_blanks : Blanks lead
  gap_blanks : Blanks gap
  pad_blanks : Blanks pad
  tail_blanks : Blanks tail

namespace Atomic

def field : Atomic → Field
  | .status _ _ => .status
  | .quoted field _ _ => field.field
  | .number field _ _ => field.field
  | .trailing field _ _ _ => field.field

def operator : Atomic → Operator
  | .status equality _ => equality.operator
  | .quoted _ equality _ => equality.operator
  | .number _ op _ => op
  | .trailing _ op _ _ => op

/-- The value as it stands behind the operator. -/
def written : Atomic → List Char
  | .status _ v => v
  | .quoted _ _ v => Labios.quoted v
  | .number _ _ numeral => numeral.digits
  | .trailing _ _ numeral junk => numeral.digits ++ junk.chars

def text (c : Atomic) (s : Spacing) : String :=
  String.ofList
    (s.lead ++ (c.field.text ++ s.gap ++ (c.operator.text ++ (s.pad ++ c.written ++ s.tail))))

/-- What the condition says; nothing, if its value is to be rejected. -/
def meant (c : Atomic) (completedLabel : LabelData) (completion : CompletionData) : Option Bool :=
  match c with
  | .status equality v =>
      equality.operator.ofTexts (statusString completion.status).toList v
  | .quoted field equality v => equality.operator.ofTexts (field.actual completion) v
  | .number field op numeral =>
      (inRange numeral.value).map (op.ofNumbers (field.actual completedLabel completion))
  | .trailing _ _ _ _ => none

/-- The condition under which the code answers as meant. -/
def Readable (c : Atomic) (s : Spacing) (completion : CompletionData) : Prop :=
  match c with
  | .status equality v =>
      -- No `==` behind the `!` of `!=`, and no other way to write the status.
      FoundFirst equality.operator (s.pad ++ v) ∧
        (Writes v (statusString completion.status).toList →
          v = (statusString completion.status).toList)
  | .quoted _ equality v => equality = .ne → ¬Operator.eq.text <:+: v
  | .number _ _ _ => True
  | .trailing _ op numeral junk =>
      2 ^ 64 ≤ numeral.value ∨ ∃ other ∈ op.earlier, other.text <:+: junk.chars

end Atomic

variable {completedLabel : LabelData} {completion : CompletionData}

/-! ## Numerals -/

theorem not_blank_of_isDigit {c : Char} (h : c.isDigit = true) : blank c = false := by
  unfold blank
  rw [Bool.or_eq_false_iff, decide_eq_false_iff_not, decide_eq_false_iff_not]
  constructor
  · rintro rfl
    exact absurd h (by decide)
  · rintro rfl
    exact absurd h (by decide)

theorem not_operator_of_isDigit {c : Char} (h : c.isDigit = true) : c ∉ operatorChars := by
  have hall : ∀ c ∈ operatorChars, c.isDigit = false := by simp [operatorChars]
  intro hmem
  rw [hall c hmem] at h
  cases h

namespace DigitString

theorem noOperator (numeral : DigitString) : NoOperator numeral.digits :=
  fun c hc => not_operator_of_isDigit (numeral.decimal c hc)

variable {junk : List Char}

theorem exists_head (numeral : DigitString) (junk : List Char) :
    ∃ c, (numeral.digits ++ junk).head? = some c ∧ c.isDigit = true := by
  obtain ⟨c, digits, hdigits⟩ := List.exists_cons_of_ne_nil numeral.nonempty
  refine ⟨c, by rw [hdigits]; rfl, numeral.decimal c ?_⟩
  rw [hdigits]
  exact List.mem_cons_self

theorem trimmed (numeral : DigitString) (hlast : ∀ c ∈ junk.getLast?, blank c = false) :
    Trimmed (numeral.digits ++ junk) := by
  constructor
  · intro c hc
    obtain ⟨d, hhead, hdigit⟩ := numeral.exists_head junk
    rw [Option.mem_def, hhead] at hc
    obtain rfl := Option.some.inj hc
    exact not_blank_of_isDigit hdigit
  · intro c hc
    by_cases hnil : junk = []
    · rw [hnil, List.append_nil] at hc
      exact not_blank_of_isDigit (numeral.decimal c (List.mem_of_getLast? hc))
    · rw [List.getLast?_append_of_ne_nil _ hnil] at hc
      exact hlast c hc

theorem not_quoted (numeral : DigitString) (junk : List Char) :
    ¬Quoted (numeral.digits ++ junk) := by
  rintro ⟨-, hquote, -⟩
  obtain ⟨c, hhead, hdigit⟩ := numeral.exists_head junk
  rw [hhead] at hquote
  obtain rfl := Option.some.inj hquote
  exact absurd hdigit (by decide)

/-- The digits in front are read, whatever stands behind them. -/
theorem numberAt_append (numeral : DigitString) (hhead : ∀ c ∈ junk.head?, c.isDigit = false) :
    numberAt (numeral.digits ++ junk) = inRange numeral.value := by
  have hdigits : (numeral.digits ++ junk).takeWhile Char.isDigit = numeral.digits := by
    rw [takeWhile_append_stop hhead]
    exact List.takeWhile_eq_self_iff.mpr numeral.decimal
  unfold numberAt
  rw [hdigits, if_neg numeral.nonempty]
  rfl

end DigitString

theorem verdict_number (field : NumberField) (op : Operator) (value : List Char) :
    field.field.verdict op value completedLabel completion =
      (numberAt value).map (op.ofNumbers (field.actual completedLabel completion)) := by
  cases field with
  | _ => rfl

theorem verdict_text (field : TextField) (op : Operator) (value : List Char) :
    field.field.verdict op value completedLabel completion =
      op.ofTexts (field.actual completion) value := by
  cases field with
  | _ => rfl

/-! ## AnswersAsMeant -/

/-- The condition is evaluated as it is meant. -/
def AnswersAsMeant (c : Atomic) (s : Spacing) (completedLabel : LabelData)
    (completion : CompletionData) : Prop :=
  (evaluateCondition (c.text s) completedLabel completion).toOption =
    c.meant completedLabel completion

/-- If its operator is found, the code answers what it says of the value that is read. -/
theorem answers_of_foundFirst (c : Atomic) (s : Spacing)
    (h : FoundFirst c.operator (s.pad ++ c.written)) :
    AnswersAsMeant c s completedLabel completion ↔
      c.field.verdict c.operator (unquote (trim c.written)) completedLabel completion =
        c.meant completedLabel completion := by
  unfold AnswersAsMeant Atomic.text
  rw [evaluate_verdict c.field s.lead_blanks s.gap_blanks
    ((foundFirst_append_iff s.tail_blanks).mpr h),
    trim_blanks s.pad_blanks s.tail_blanks]

/-- If it is not found, the code refuses the condition. -/
theorem answers_of_not_foundFirst (c : Atomic) (s : Spacing)
    (h : ¬FoundFirst c.operator (s.pad ++ c.written)) :
    AnswersAsMeant c s completedLabel completion ↔ c.meant completedLabel completion = none := by
  unfold AnswersAsMeant Atomic.text
  rw [evaluate_refused c.field s.lead_blanks s.gap_blanks
    (mt (foundFirst_append_iff s.tail_blanks).mp h)]
  exact eq_comm

theorem Equality.ofTexts_ne_none (equality : Equality) (actual value : List Char) :
    equality.operator.ofTexts actual value ≠ none := by
  cases equality with
  | _ => exact Option.some_ne_none _

/-- Two values compare alike with a text if neither or both are the text. -/
theorem Equality.ofTexts_eq_iff (equality : Equality) (actual value other : List Char) :
    equality.operator.ofTexts actual value = equality.operator.ofTexts actual other ↔
      (value = actual ↔ other = actual) := by
  rw [eq_comm (a := value), eq_comm (a := other)]
  cases equality with
  | eq =>
      show some (decide _) = some (decide _) ↔ _
      rw [Option.some_inj, decide_eq_decide]
  | ne =>
      show some (decide _) = some (decide _) ↔ _
      rw [Option.some_inj, decide_eq_decide, not_iff_not]

theorem answers_status (equality : Equality) (v : List Char) (s : Spacing) :
    AnswersAsMeant (.status equality v) s completedLabel completion ↔
      (Atomic.status equality v).Readable s completion := by
  show _ ↔ FoundFirst equality.operator (s.pad ++ v) ∧ _
  by_cases hfirst : FoundFirst equality.operator (s.pad ++ v)
  · rw [answers_of_foundFirst (.status equality v) s hfirst, and_iff_right hfirst]
    show equality.operator.ofTexts _ (unquote (trim v)) = equality.operator.ofTexts _ v ↔ _
    rw [equality.ofTexts_eq_iff, unquote_trim_iff]
    -- the status itself is one way to write it, so only one direction is left
    refine ⟨Iff.mp, fun hwrites => ⟨hwrites, fun hv => ?_⟩⟩
    rw [hv]
    exact writes_plain (plain_statusString completion.status)
  · rw [answers_of_not_foundFirst (.status equality v) s hfirst]
    exact iff_of_false (equality.ofTexts_ne_none _ _) fun hboth => hfirst hboth.1

/-- In quotes, only the value itself can have the earlier operator. -/
theorem foundFirst_quoted_iff {pad : List Char} (hpad : Blanks pad) (equality : Equality)
    (v : List Char) :
    FoundFirst equality.operator (pad ++ quoted v) ↔
      (equality = .ne → ¬Operator.eq.text <:+: v) := by
  have hquote : NoOperator ['"'] := by decide
  -- pad and opening quote keep the operator apart from the value
  have hsplit : pad ++ quoted v = (pad ++ ['"']) ++ (v ++ ['"']) := by
    rw [List.append_assoc]
    rfl
  have hvalue : Operator.eq.text <:+: v ++ ['"'] ↔ Operator.eq.text <:+: v :=
    infix_append_iff (by decide) (by simp [Operator.text])
  rw [hsplit, foundFirst_iff (noOperator_append (noOperator_blanks hpad) hquote) (by simp)]
  cases equality with
  | eq => exact iff_of_true (fun _ hother => absurd hother List.not_mem_nil) fun h => by cases h
  | ne =>
      rw [← hvalue]
      constructor
      · exact fun h _ => h .eq List.mem_cons_self
      · intro h other hother
        obtain rfl := List.mem_singleton.mp hother
        exact h rfl

theorem answers_quoted (field : TextField) (equality : Equality) (v : List Char) (s : Spacing) :
    AnswersAsMeant (.quoted field equality v) s completedLabel completion ↔
      (Atomic.quoted field equality v).Readable s completion := by
  show _ ↔ (equality = .ne → ¬Operator.eq.text <:+: v)
  rw [← foundFirst_quoted_iff s.pad_blanks]
  by_cases hfirst : FoundFirst equality.operator (s.pad ++ quoted v)
  · rw [answers_of_foundFirst (.quoted field equality v) s hfirst]
    refine iff_of_true ?_ hfirst
    show field.field.verdict _ (unquote (trim (quoted v))) _ _ = _
    rw [trim_of_trimmed (trimmed_quoted v), unquote_quoted]
    exact verdict_text field equality.operator v
  · rw [answers_of_not_foundFirst (.quoted field equality v) s hfirst]
    exact iff_of_false (equality.ofTexts_ne_none _ _) hfirst

theorem answers_number (field : NumberField) (op : Operator) (numeral : DigitString) (s : Spacing) :
    AnswersAsMeant (.number field op numeral) s completedLabel completion := by
  have hdigits : NoOperator (s.pad ++ numeral.digits) :=
    noOperator_append (noOperator_blanks s.pad_blanks) numeral.noOperator
  refine (answers_of_foundFirst (.number field op numeral) s (foundFirst_alone hdigits op)).mpr ?_
  show field.field.verdict op (unquote (trim numeral.digits)) _ _ = _
  have hread : unquote (trim (numeral.digits ++ [])) = numeral.digits ++ [] := by
    rw [trim_of_trimmed (numeral.trimmed (by simp)),
      unquote_of_not_quoted (numeral.not_quoted [])]
  have hnumber : numberAt (numeral.digits ++ []) = inRange numeral.value :=
    numeral.numberAt_append (by simp)
  rw [List.append_nil] at hread hnumber
  rw [hread, verdict_number, hnumber]
  rfl

/-- Behind a numeral nothing is rejected but an operator that is looked for earlier. -/
theorem answers_trailing (field : NumberField) (op : Operator) (numeral : DigitString) (junk : Junk)
    (s : Spacing) :
    AnswersAsMeant (.trailing field op numeral junk) s completedLabel completion ↔
      (Atomic.trailing field op numeral junk).Readable s completion := by
  show _ ↔ 2 ^ 64 ≤ numeral.value ∨ ∃ other ∈ op.earlier, other.text <:+: junk.chars
  have hdigits : NoOperator (s.pad ++ numeral.digits) :=
    noOperator_append (noOperator_blanks s.pad_blanks) numeral.noOperator
  have hfirst : FoundFirst op (s.pad ++ (numeral.digits ++ junk.chars)) ↔
      ¬∃ other ∈ op.earlier, other.text <:+: junk.chars := by
    rw [← List.append_assoc, foundFirst_iff hdigits (List.append_ne_nil_of_right_ne_nil _
      numeral.nonempty)]
    push Not
    rfl
  by_cases hfound : FoundFirst op (s.pad ++ (numeral.digits ++ junk.chars))
  -- the numeral is read, and what stands behind it is dropped: only the range can refuse it
  · rw [or_iff_left (hfirst.mp hfound),
      answers_of_foundFirst (.trailing field op numeral junk) s hfound]
    show field.field.verdict op (unquote (trim (numeral.digits ++ junk.chars))) _ _ = none ↔ _
    rw [trim_of_trimmed (numeral.trimmed junk.last),
      unquote_of_not_quoted (numeral.not_quoted junk.chars), verdict_number,
      numeral.numberAt_append junk.head, Option.map_eq_none_iff]
    unfold inRange
    rw [ite_eq_right_iff, ← Nat.not_lt]
    exact ⟨fun h hlt => absurd (h hlt) (Option.some_ne_none _), fun h hlt => absurd hlt h⟩
  · rw [answers_of_not_foundFirst (.trailing field op numeral junk) s hfound]
    exact iff_of_true rfl (.inr (not_not.mp fun hnone => hfound (hfirst.mpr hnone)))

/-- An atomic condition is evaluated as it is meant exactly if it is readable. -/
theorem atomic_meant_iff (c : Atomic) (s : Spacing) (completedLabel : LabelData)
    (completion : CompletionData) :
    AnswersAsMeant c s completedLabel completion ↔ c.Readable s completion := by
  cases c with
  | status equality v => exact answers_status equality v s
  | quoted field equality v => exact answers_quoted field equality v s
  | number field op numeral => exact iff_of_true (answers_number field op numeral s) trivial
  | trailing field op numeral junk => exact answers_trailing field op numeral junk s

/-! ## Two that are misjudged -/

def tight : Spacing where
  lead := []
  gap := []
  pad := []
  tail := []
  lead_blanks := blanks_nil
  gap_blanks := blanks_nil
  pad_blanks := blanks_nil
  tail_blanks := blanks_nil

def five : DigitString := ⟨['5'], by simp, by simp⟩

def letter : Junk := ⟨['x'], by simp, by simp, by simp [blank]⟩

/-- `data_size==5x` is true of a label of five bytes, and `error!="a==b"` is refused. -/
theorem unreadable_misjudged :
    ¬AnswersAsMeant (.trailing .dataSize .eq five letter) tight { dataSize := 5 } {} ∧
      ¬AnswersAsMeant (.quoted .error .ne "a==b".toList) tight {} {} := by
  constructor
  · rw [answers_trailing]
    show ¬(2 ^ 64 ≤ five.value ∨ ∃ other ∈ Operator.eq.earlier, other.text <:+: letter.chars)
    decide
  · rw [answers_quoted]
    show ¬(Equality.ne = .ne → ¬Operator.eq.text <:+: "a==b".toList)
    decide

example : evaluateCondition "data_size==5x" { dataSize := 5 } {} = .ok true := by decide

end Labios
