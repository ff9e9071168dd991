import Labios.Label.Conditions

/-!
# What a condition says

The values that stand behind the operator of a condition (`Writes`, `numberAt`), and what a field,
an operator and a value say of a label and its completion (`Field.verdict`). `evaluate_condition`
answers with what its own field and operator say of the text behind it (`evaluate_verdict`), or
refuses because another operator is found (`evaluate_refused`).
-/

namespace Labios

open Foundation

/-! ## Texts -/

def Quoted (value : List Char) : Prop :=
  2 ≤ value.length ∧ value.head? = some '"' ∧ value.getLast? = some '"'

instance (value : List Char) : Decidable (Quoted value) := inferInstanceAs (Decidable (_ ∧ _ ∧ _))

/-- Written as it is, the value is read as it is. -/
def PlainText (value : List Char) : Prop := Trimmed value ∧ ¬Quoted value

def quoted (value : List Char) : List Char := '"' :: (value ++ ['"'])

/-- With blanks around it, the text is the value in quotes or a plain value. -/
def Writes (text value : List Char) : Prop :=
  ∃ before after, Blanks before ∧ Blanks after ∧
    (text = before ++ quoted value ++ after ∨ PlainText value ∧ text = before ++ value ++ after)

variable {text value before after : List Char}

theorem unquote_of_not_quoted (h : ¬Quoted value) : unquote value = value := if_neg h

theorem quoted_quoted (value : List Char) : Quoted (quoted value) := by
  refine ⟨by simp [quoted], rfl, ?_⟩
  show (('"' :: value) ++ ['"']).getLast? = some '"'
  exact List.getLast?_concat

theorem unquote_quoted (value : List Char) : unquote (quoted value) = value := by
  show (if Quoted (quoted value) then ((quoted value).drop 1).dropLast else _) = value
  rw [if_pos (quoted_quoted value)]
  exact List.dropLast_concat

theorem exists_of_quoted (h : Quoted value) : value = quoted (unquote value) := by
  obtain ⟨hlength, hhead, hlast⟩ := h
  cases value with
  | nil => cases hhead
  | cons c value =>
      obtain rfl := Option.some.inj hhead
      cases value using List.reverseRecOn with
      | nil => exact absurd hlength (by decide)
      | append_singleton inner c _ =>
          have hc : ('"' :: (inner ++ [c])).getLast? = some c := by
            rw [← List.cons_append]
            exact List.getLast?_concat
          rw [hc] at hlast
          obtain rfl := Option.some.inj hlast
          have hinner := unquote_quoted inner
          unfold quoted at hinner ⊢
          rw [hinner]

theorem trimmed_quoted (value : List Char) : Trimmed (quoted value) := by
  obtain ⟨-, hhead, hlast⟩ := quoted_quoted value
  constructor
  · intro c hc
    rw [Option.mem_def, hhead] at hc
    obtain rfl := Option.some.inj hc
    rfl
  · intro c hc
    rw [Option.mem_def, hlast] at hc
    obtain rfl := Option.some.inj hc
    rfl

/-- What is read is what the text writes. -/
theorem unquote_trim_iff (text value : List Char) :
    unquote (trim text) = value ↔ Writes text value := by
  constructor
  · rintro rfl
    obtain ⟨before, after, hbefore, hafter, htrimmed, htext⟩ := exists_trim text
    refine ⟨before, after, hbefore, hafter, ?_⟩
    by_cases hquoted : Quoted (trim text)
    · exact .inl (by rw [← exists_of_quoted hquoted]; exact htext)
    · rw [unquote_of_not_quoted hquoted]
      exact .inr ⟨⟨htrimmed, hquoted⟩, htext⟩
  · rintro ⟨before, after, hbefore, hafter, rfl | ⟨hplain, rfl⟩⟩
    · rw [trim_eq hbefore hafter (trimmed_quoted value), unquote_quoted]
    · rw [trim_eq hbefore hafter hplain.1, unquote_of_not_quoted hplain.2]

theorem writes_blanks_iff (hbefore : Blanks before) (hafter : Blanks after) :
    Writes (before ++ text ++ after) value ↔ Writes text value := by
  rw [← unquote_trim_iff, ← unquote_trim_iff, trim_blanks hbefore hafter]

theorem writes_plain (h : PlainText value) : Writes value value :=
  (unquote_trim_iff value value).mp (by rw [trim_of_trimmed h.1, unquote_of_not_quoted h.2])

/-- What is not read are blanks and quotes. -/
theorem count_unquote_trim {c : Char} (hc : blank c = false) (hquote : c ≠ '"')
    (text : List Char) : (unquote (trim text)).count c = text.count c := by
  have hblanks : ∀ front : List Char, Blanks front → front.count c = 0 := by
    intro front hfront
    refine List.count_eq_zero.mpr fun hmem => ?_
    rw [hfront c hmem] at hc
    cases hc
  obtain ⟨before, after, hbefore, hafter, htext⟩ := (unquote_trim_iff text _).mp rfl
  have hnone : ['"'].count c = 0 := List.count_eq_zero.mpr (by simpa using hquote)
  rcases htext with htext | ⟨-, htext⟩
  · have hcount := congrArg (List.count c) htext
    have hquoted : quoted (unquote (trim text)) = ['"'] ++ (unquote (trim text) ++ ['"']) := rfl
    rw [hquoted] at hcount
    simp only [List.count_append, hblanks before hbefore, hblanks after hafter, hnone] at hcount
    omega
  · have hcount := congrArg (List.count c) htext
    simp only [List.count_append, hblanks before hbefore, hblanks after hafter] at hcount
    omega

theorem plain_statusString (status : CompletionStatus) :
    PlainText (statusString status).toList := by
  cases status with
  | _ => exact ⟨by decide, by decide⟩

/-! ## Comparisons -/

/-- Of texts, only equality is asked. -/
def Operator.ofTexts (op : Operator) (actual value : List Char) : Option Bool :=
  match op with
  | .eq => some (actual = value)
  | .ne => some (actual ≠ value)
  | .gt => none
  | .lt => none

def Operator.ofNumbers (op : Operator) (actual value : Nat) : Bool :=
  match op with
  | .eq => actual = value
  | .ne => actual ≠ value
  | .gt => value < actual
  | .lt => actual < value

def inRange (number : Nat) : Option Nat := if number < 2 ^ 64 then some number else none

/-- The numeral in front of a text, if there is one of 64 bits. -/
def numberAt (value : List Char) : Option Nat :=
  if value.takeWhile Char.isDigit = [] then none
  else inRange (Nat.ofDigitChars 10 (value.takeWhile Char.isDigit) 0)

/-- The digits in front do not change with what stands behind another character. -/
theorem takeWhile_append_stop {front back : List Char} (h : ∀ c ∈ back.head?, c.isDigit = false) :
    (front ++ back).takeWhile Char.isDigit = front.takeWhile Char.isDigit := by
  induction front with
  | nil =>
      cases back with
      | nil => rfl
      | cons c back => exact List.takeWhile_cons_of_neg (by simp [h c rfl])
  | cons c front ih =>
      rw [List.cons_append, List.takeWhile_cons, List.takeWhile_cons, ih]

theorem not_isDigit_of_blank {c : Char} (h : blank c = true) : c.isDigit = false := by
  unfold blank at h
  rcases (Bool.or_eq_true _ _).mp h with h | h
  · rw [of_decide_eq_true h]
    rfl
  · rw [of_decide_eq_true h]
    rfl

theorem takeWhile_trim (text : List Char) :
    (trim text).takeWhile Char.isDigit = (text.dropWhile blank).takeWhile Char.isDigit := by
  obtain ⟨after, hafter, hsplit⟩ := exists_dropWhile text
  rw [hsplit]
  exact (takeWhile_append_stop fun c hc =>
    not_isDigit_of_blank (hafter c (List.mem_of_mem_head? hc))).symm

/-- A numeral is read the same with more text behind it. -/
theorem numberAt_append {more : List Char} (h : numberAt (trim text) ≠ none)
    (hmore : ∀ c ∈ more.head?, c.isDigit = false) :
    numberAt (unquote (trim (text ++ more))) = numberAt (trim text) := by
  have hdigits : (trim text).takeWhile Char.isDigit ≠ [] := fun hnil => h (if_pos hnil)
  have hnonblank : ¬(text.dropWhile blank).isEmpty = true := by
    intro hempty
    rw [takeWhile_trim, List.isEmpty_iff.mp hempty] at hdigits
    exact hdigits rfl
  have hsame : (trim (text ++ more)).takeWhile Char.isDigit =
      (trim text).takeWhile Char.isDigit := by
    rw [takeWhile_trim, takeWhile_trim, List.dropWhile_append, if_neg hnonblank,
      takeWhile_append_stop hmore]
  -- it begins with a digit, so not with a quote
  have hquoted : ¬Quoted (trim (text ++ more)) := by
    rintro ⟨-, hhead, -⟩
    rw [← hsame] at hdigits
    cases hread : trim (text ++ more) with
    | nil =>
        rw [hread] at hdigits
        exact hdigits rfl
    | cons c rest =>
        rw [hread] at hhead hdigits
        obtain rfl := Option.some.inj hhead
        exact hdigits (List.takeWhile_cons_of_neg (by decide))
  rw [unquote_of_not_quoted hquoted]
  unfold numberAt
  rw [hsame]

def Field.verdict (field : Field) (op : Operator) (value : List Char) (completedLabel : LabelData)
    (completion : CompletionData) : Option Bool :=
  match field with
  | .status => op.ofTexts (statusString completion.status).toList value
  | .error => op.ofTexts completion.error.toList value
  | .dataSize => (numberAt value).map (op.ofNumbers completedLabel.dataSize.toNat)
  | .labelId => (numberAt value).map (op.ofNumbers completion.labelId.toNat)

theorem compareString_verdict (field : List Char) (op : Operator) (value : List Char)
    (actual : String) :
    (compareString field op.text value actual).toOption = op.ofTexts actual.toList value := by
  cases op with
  | _ => rfl

theorem compareNumeric_verdict (op : Operator) (value : List Char) (actual : UInt64) :
    (compareNumeric op.text value actual).toOption =
      (numberAt value).map (op.ofNumbers actual.toNat) := by
  unfold compareNumeric numberAt inRange
  dsimp only
  by_cases hnone : value.takeWhile Char.isDigit = []
  · rw [if_pos (.inl hnone), if_pos hnone]
    rfl
  · by_cases hlt : Nat.ofDigitChars 10 (value.takeWhile Char.isDigit) 0 < 2 ^ 64
    · rw [if_neg (not_or.mpr ⟨hnone, Nat.not_le_of_lt hlt⟩), if_neg hnone, if_pos hlt]
      cases op with
      | _ => rfl
    · rw [if_pos (.inr (Nat.le_of_not_lt hlt)), if_neg hnone, if_neg hlt]
      rfl

theorem Field.compare_verdict (field : Field) (op : Operator) (value : List Char)
    (completedLabel : LabelData) (completion : CompletionData) :
    (field.compare op value completedLabel completion).toOption =
      field.verdict op value completedLabel completion := by
  cases field with
  | status => exact compareString_verdict _ op value _
  | error => exact compareString_verdict _ op value _
  | dataSize => exact compareNumeric_verdict op value _
  | labelId => exact compareNumeric_verdict op value _

/-! ## Evaluation -/

section Evaluation

variable {op : Operator} {lead gap rest : List Char}

theorem evaluate_verdict (field : Field) (hlead : Blanks lead) (hgap : Blanks gap)
    (hfirst : FoundFirst op rest) (completedLabel : LabelData) (completion : CompletionData) :
    (evaluateCondition (String.ofList (lead ++ (field.text ++ gap ++ (op.text ++ rest))))
        completedLabel completion).toOption =
      field.verdict op (unquote (trim rest)) completedLabel completion := by
  rw [evaluate_found hlead hgap hfirst]
  exact field.compare_verdict op _ completedLabel completion

theorem evaluate_refused (field : Field) (hlead : Blanks lead) (hgap : Blanks gap)
    (hfirst : ¬FoundFirst op rest) (completedLabel : LabelData) (completion : CompletionData) :
    (evaluateCondition (String.ofList (lead ++ (field.text ++ gap ++ (op.text ++ rest))))
      completedLabel completion).toOption = none := by
  obtain ⟨text, herror⟩ := evaluate_lost field hlead hgap hfirst completedLabel completion
  rw [herror]
  rfl

end Evaluation

end Labios
