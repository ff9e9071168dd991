import Labios.Foundation.Occurrence
import Labios.Label.Continuation

/-!
# Reading a condition

What `evaluate_condition` of `labios/continuation.cpp` makes of a field, an operator and a value.
The operators are looked for one after the other in the whole text. So the condition's own
operator is found if none of those that are looked for earlier occurs from it on
(`evaluate_found`). Otherwise the text in front of the operator that is found contains the own
one, and is no field (`evaluate_lost`).
-/

namespace Labios

open Foundation

/-! ## Trimming -/

def blank (c : Char) : Bool := c = ' ' || c = '\t'

/-- Nothing is left to trim. -/
def Trimmed (cs : List Char) : Prop :=
  (∀ c ∈ cs.head?, blank c = false) ∧ ∀ c ∈ cs.getLast?, blank c = false

def Blanks (cs : List Char) : Prop := ∀ c ∈ cs, blank c = true

theorem blanks_nil : Blanks [] := fun _ hc => absurd hc List.not_mem_nil

instance (cs : List Char) : Decidable (Trimmed cs) :=
  @instDecidableAnd _ _ (Option.decidableForallMem cs.head?)
    (Option.decidableForallMem cs.getLast?)

variable {front mid back before after : List Char} {c : Char}

theorem dropWhile_blanks (h : Blanks front) (hmid : ∀ c ∈ mid.head?, blank c = false) :
    (front ++ mid).dropWhile blank = mid := by
  rw [List.dropWhile_append_of_pos h]
  cases mid with
  | nil => rfl
  | cons c mid => exact List.dropWhile_cons_of_neg (by simp [hmid c rfl])

theorem trim_eq (hbefore : Blanks before) (hafter : Blanks after) (hmid : Trimmed mid) :
    trim (before ++ mid ++ after) = mid := by
  show (((before ++ mid ++ after).dropWhile blank).reverse.dropWhile blank).reverse = mid
  by_cases hnil : mid = []
  · subst hnil
    have hall : Blanks (before ++ [] ++ after) := by
      intro c hc
      rw [List.append_nil] at hc
      exact (List.mem_append.mp hc).elim (hbefore c) (hafter c)
    rw [List.dropWhile_eq_nil_iff.mpr hall]
    rfl
  · have hhead : ∀ c ∈ (mid ++ after).head?, blank c = false := by
      intro c hc
      rw [List.head?_append_of_ne_nil _ hnil] at hc
      exact hmid.1 c hc
    have hlast : ∀ c ∈ mid.reverse.head?, blank c = false := by
      intro c hc
      rw [List.head?_reverse] at hc
      exact hmid.2 c hc
    have hreverse : Blanks after.reverse := fun c hc => hafter c (List.mem_reverse.mp hc)
    rw [List.append_assoc, dropWhile_blanks hbefore hhead, List.reverse_append,
      dropWhile_blanks hreverse hlast, List.reverse_reverse]

theorem blanks_takeWhile (cs : List Char) : Blanks (cs.takeWhile blank) :=
  fun _ hc => List.mem_takeWhile_imp hc

theorem head?_dropWhile_blank (cs : List Char) :
    ∀ c ∈ (cs.dropWhile blank).head?, blank c = false := by
  intro c hc
  have hnot := List.head?_dropWhile_not blank cs
  rw [Option.mem_def] at hc
  rw [hc] at hnot
  simpa using hnot

/-- At the end, blanks are trimmed off. -/
theorem exists_dropWhile (cs : List Char) :
    ∃ after, Blanks after ∧ cs.dropWhile blank = trim cs ++ after := by
  refine ⟨((cs.dropWhile blank).reverse.takeWhile blank).reverse, ?_, ?_⟩
  · exact fun c hc => blanks_takeWhile _ c (List.mem_reverse.mp hc)
  · have hback : (cs.dropWhile blank).reverse.takeWhile blank ++
        (cs.dropWhile blank).reverse.dropWhile blank = (cs.dropWhile blank).reverse :=
      List.takeWhile_append_dropWhile
    have hreversed := congrArg List.reverse hback
    rw [List.reverse_append, List.reverse_reverse] at hreversed
    exact hreversed.symm

/-- What is trimmed off are blanks. -/
theorem exists_trim (cs : List Char) :
    ∃ before after, Blanks before ∧ Blanks after ∧ Trimmed (trim cs) ∧
      cs = before ++ trim cs ++ after := by
  have hfront : cs.takeWhile blank ++ cs.dropWhile blank = cs := List.takeWhile_append_dropWhile
  obtain ⟨after, hafter, hsplit⟩ := exists_dropWhile cs
  refine ⟨cs.takeWhile blank, after, blanks_takeWhile cs, hafter, ⟨?_, ?_⟩, ?_⟩
  · intro c hc
    refine head?_dropWhile_blank cs c ?_
    rw [hsplit]
    cases htrim : trim cs with
    | nil =>
        rw [htrim] at hc
        cases hc
    | cons d rest =>
        rw [htrim] at hc
        exact hc
  · intro c hc
    refine head?_dropWhile_blank (cs.dropWhile blank).reverse c ?_
    rw [← List.getLast?_reverse]
    exact hc
  · rw [List.append_assoc, ← hsplit, hfront]

theorem trim_of_trimmed (h : Trimmed mid) : trim mid = mid := by
  have heq : trim ([] ++ mid ++ []) = mid := trim_eq blanks_nil blanks_nil h
  rwa [List.nil_append, List.append_nil] at heq

/-- Blanks around a text make no difference. -/
theorem trim_blanks (hbefore : Blanks before) (hafter : Blanks after) (cs : List Char) :
    trim (before ++ cs ++ after) = trim cs := by
  obtain ⟨front, back, hfront, hback, htrimmed, hcs⟩ := exists_trim cs
  have hsplit : before ++ cs ++ after = (before ++ front) ++ trim cs ++ (back ++ after) := by
    conv_lhs => rw [hcs]
    simp only [List.append_assoc]
  rw [hsplit]
  exact trim_eq (fun c hc => (List.mem_append.mp hc).elim (hbefore c) (hfront c))
    (fun c hc => (List.mem_append.mp hc).elim (hback c) (hafter c)) htrimmed

theorem mem_trim {cs : List Char} (hc : c ∈ cs) (hblank : blank c = false) : c ∈ trim cs := by
  obtain ⟨before, after, hbefore, hafter, -, hcs⟩ := exists_trim cs
  rw [hcs] at hc
  rcases List.mem_append.mp hc with hc | hc
  · rcases List.mem_append.mp hc with hc | hc
    · rw [hbefore c hc] at hblank
      cases hblank
    · exact hc
  · rw [hafter c hc] at hblank
    cases hblank

/-! ## Operators -/

/-- In the order in which they are looked for. -/
inductive Operator
  | eq | ne | gt | lt
  deriving DecidableEq, Repr

namespace Operator

def text : Operator → List Char
  | .eq => ['=', '=']
  | .ne => ['!', '=']
  | .gt => ['>']
  | .lt => ['<']

def first : Operator → Char
  | .eq => '='
  | .ne => '!'
  | .gt => '>'
  | .lt => '<'

/-- The operators that are looked for before this one. -/
def earlier : Operator → List Operator
  | .eq => []
  | .ne => [.eq]
  | .gt => [.eq, .ne]
  | .lt => [.eq, .ne, .gt]

variable {op other : Operator}

theorem text_eq (op : Operator) : ∃ rest, op.text = op.first :: rest := by
  cases op with
  | eq => exact ⟨['='], rfl⟩
  | ne => exact ⟨['='], rfl⟩
  | gt => exact ⟨[], rfl⟩
  | lt => exact ⟨[], rfl⟩

theorem first_injective : Function.Injective first := by
  intro op other h
  cases op with
  | _ =>
      cases other with
      | _ => first | rfl | exact absurd h (by decide)

end Operator

/-- The characters of the operators. -/
def operatorChars : List Char := ['=', '!', '>', '<']

theorem Operator.text_subset (op : Operator) : ∀ c ∈ op.text, c ∈ operatorChars := by
  cases op with
  | _ => simp [Operator.text, operatorChars]

def NoOperator (cs : List Char) : Prop := ∀ c ∈ cs, c ∉ operatorChars

instance (cs : List Char) : Decidable (NoOperator cs) :=
  List.decidableBAll (fun c => c ∉ operatorChars) cs

/-- No operator that is looked for earlier occurs from the operator on. -/
def FoundFirst (op : Operator) (back : List Char) : Prop :=
  ∀ other ∈ op.earlier, ¬other.text <:+: op.text ++ back

section Search

variable {op other : Operator}

/-- An operator occurs behind a part that has none, or it is the one in front. -/
theorem infix_operator_iff (h : NoOperator mid) (hne : mid ≠ []) (xs : List Char) :
    other.text <:+: op.text ++ (mid ++ xs) ↔ other = op ∨ other.text <:+: xs := by
  obtain ⟨text, htext⟩ := other.text_eq
  have hmem : ∀ c ∈ mid, c ≠ other.first := by
    intro c hc heq
    refine h c hc (other.text_subset c ?_)
    rw [htext, heq]
    exact List.mem_cons_self
  have hmid : other.text <:+: mid ++ xs ↔ other.text <:+: xs := by
    rw [htext]
    exact infix_append_front_iff fun hfirst => hmem _ hfirst rfl
  rw [← hmid]
  constructor
  · intro hinside
    refine or_iff_not_imp_left.mpr fun hother => ?_
    obtain ⟨more, hop⟩ := op.text_eq
    rw [htext, hop, List.cons_append, List.infix_cons_iff, List.cons_prefix_cons] at hinside
    have hmore : other.first :: text <:+: more ++ (mid ++ xs) :=
      hinside.resolve_left fun hbegins => hother (Operator.first_injective hbegins.1)
    rw [← htext] at hmore
    obtain ⟨c, mid, rfl⟩ := List.exists_cons_of_ne_nil hne
    -- Behind `=` no operator begins but `==`, which needs another `=`.
    have hlast : ¬other.text <+: '=' :: (c :: mid ++ xs) := by
      intro hbegins
      have hc : c ∉ operatorChars := h c List.mem_cons_self
      cases other with
      | eq =>
          obtain ⟨-, hbegins⟩ := List.cons_prefix_cons.mp hbegins
          obtain ⟨rfl, -⟩ := List.cons_prefix_cons.mp hbegins
          exact hc (by decide)
      | ne => exact absurd (List.cons_prefix_cons.mp hbegins).1 (by decide)
      | gt => exact absurd (List.cons_prefix_cons.mp hbegins).1 (by decide)
      | lt => exact absurd (List.cons_prefix_cons.mp hbegins).1 (by decide)
    cases op with
    | eq =>
        obtain ⟨-, rfl⟩ := List.cons.inj hop
        exact (List.infix_cons_iff.mp hmore).resolve_left hlast
    | ne =>
        obtain ⟨-, rfl⟩ := List.cons.inj hop
        exact (List.infix_cons_iff.mp hmore).resolve_left hlast
    | gt =>
        obtain ⟨-, rfl⟩ := List.cons.inj hop
        exact hmore
    | lt =>
        obtain ⟨-, rfl⟩ := List.cons.inj hop
        exact hmore
  · rintro (rfl | hinside)
    · exact (List.prefix_append other.text _).isInfix
    · exact hinside.trans (List.suffix_append op.text _).isInfix

/-- In front of a text without operators there is only the one. -/
theorem infix_alone_iff (h : NoOperator mid) : other.text <:+: op.text ++ mid ↔ other = op := by
  obtain ⟨text, htext⟩ := other.text_eq
  have hne : other.text ≠ [] := htext ▸ List.cons_ne_nil _ _
  rw [infix_append_iff hne fun c hc hmem => h c hc (other.text_subset c hmem)]
  cases op with
  | _ =>
      cases other with
      | _ => decide

theorem not_mem_earlier (op : Operator) : op ∉ op.earlier := by
  cases op with
  | _ => decide

/-- Only what stands behind a part without operators can hide an operator. -/
theorem foundFirst_iff (h : NoOperator mid) (hne : mid ≠ []) (xs : List Char) :
    FoundFirst op (mid ++ xs) ↔ ∀ other ∈ op.earlier, ¬other.text <:+: xs := by
  refine forall₂_congr fun other hother => not_congr ?_
  rw [infix_operator_iff h hne]
  refine or_iff_right fun heq => ?_
  rw [heq] at hother
  exact not_mem_earlier op hother

theorem foundFirst_alone (h : NoOperator mid) (op : Operator) : FoundFirst op mid := by
  intro other hother hinside
  obtain rfl := (infix_alone_iff h).mp hinside
  exact not_mem_earlier other hother

theorem findText_front (h : NoOperator front) (other : Operator) (rest : List Char) :
    findText other.text (front ++ rest) = (findText other.text rest).map (front.length + ·) := by
  obtain ⟨text, htext⟩ := other.text_eq
  have hfirst : other.first ∉ front := by
    intro hmem
    refine h _ hmem (other.text_subset _ ?_)
    rw [htext]
    exact List.mem_cons_self
  rw [htext]
  exact firstAt_append hfirst

theorem findText_own (h : NoOperator front) (op : Operator) (back : List Char) :
    findText op.text (front ++ (op.text ++ back)) = some front.length := by
  have hown : findText op.text (op.text ++ back) = some 0 :=
    firstAt_of_begins (List.prefix_append _ _)
  rw [findText_front h, hown]
  rfl

theorem findText_none (h : NoOperator front) (hother : ¬other.text <:+: op.text ++ back) :
    findText other.text (front ++ (op.text ++ back)) = none := by
  obtain ⟨text, htext⟩ := other.text_eq
  rw [findText_front h, Option.map_eq_none_iff]
  rw [htext] at hother ⊢
  exact (firstAt_eq_none_iff _ _ _).mpr hother

/-- Another operator is found behind the own one. -/
theorem findText_behind (h : NoOperator front) (hne : other ≠ op)
    (hother : other.text <:+: op.text ++ back) :
    ∃ start, findText other.text (front ++ (op.text ++ back)) = some start ∧
      front.length < start := by
  obtain ⟨text, htext⟩ := other.text_eq
  obtain ⟨text', htext'⟩ := op.text_eq
  have hbegins : ¬other.text <+: op.text ++ back := by
    rw [htext, htext']
    exact fun hbegins => hne (Operator.first_injective (List.cons_prefix_cons.mp hbegins).1)
  cases hat : findText other.text (op.text ++ back) with
  | none =>
      rw [htext] at hat hother
      exact absurd hother ((firstAt_eq_none_iff _ _ _).mp hat)
  | some i =>
      refine ⟨front.length + i, ?_, Nat.lt_add_of_pos_right (firstAt_pos hbegins hat)⟩
      rw [findText_front h, hat]
      rfl

theorem findOperator_eq (expr : List Char) :
    findOperator expr =
      match findText Operator.eq.text expr with
      | some start => some (start, 2)
      | none =>
          match findText Operator.ne.text expr with
          | some start => some (start, 2)
          | none =>
              match findText Operator.gt.text expr with
              | some start => some (start, 1)
              | none => (findText Operator.lt.text expr).map (·, 1) := rfl

theorem findOperator_foundFirst (h : NoOperator front) (hfirst : FoundFirst op back) :
    findOperator (front ++ (op.text ++ back)) = some (front.length, op.text.length) := by
  have hown := findText_own h op back
  have hearlier := fun other hother => findText_none h (hfirst other hother)
  rw [findOperator_eq]
  cases op with
  | eq =>
      rw [hown]
      rfl
  | ne =>
      rw [hearlier .eq (by decide), hown]
      rfl
  | gt =>
      rw [hearlier .eq (by decide), hearlier .ne (by decide), hown]
      rfl
  | lt =>
      rw [hearlier .eq (by decide), hearlier .ne (by decide), hearlier .gt (by decide), hown]
      rfl

/-- Otherwise an earlier one is found, behind the own one. -/
theorem findOperator_behind (h : NoOperator front) (hfirst : ¬FoundFirst op back) :
    ∃ start len, findOperator (front ++ (op.text ++ back)) = some (start, len) ∧
      front.length < start := by
  rw [findOperator_eq]
  cases op with
  | eq => exact absurd (fun other hother => absurd hother List.not_mem_nil) hfirst
  | ne =>
      have heq : Operator.eq.text <:+: Operator.ne.text ++ back := by
        by_contra heq
        exact hfirst (by simp [FoundFirst, Operator.earlier, heq])
      obtain ⟨start, hstart, hlt⟩ := findText_behind h (by decide) heq
      rw [hstart]
      exact ⟨start, 2, rfl, hlt⟩
  | gt =>
      by_cases heq : Operator.eq.text <:+: Operator.gt.text ++ back
      · obtain ⟨start, hstart, hlt⟩ := findText_behind h (by decide) heq
        rw [hstart]
        exact ⟨start, 2, rfl, hlt⟩
      · have hne : Operator.ne.text <:+: Operator.gt.text ++ back := by
          by_contra hne
          exact hfirst (by simp [FoundFirst, Operator.earlier, heq, hne])
        obtain ⟨start, hstart, hlt⟩ := findText_behind h (by decide) hne
        rw [findText_none h heq, hstart]
        exact ⟨start, 2, rfl, hlt⟩
  | lt =>
      by_cases heq : Operator.eq.text <:+: Operator.lt.text ++ back
      · obtain ⟨start, hstart, hlt⟩ := findText_behind h (by decide) heq
        rw [hstart]
        exact ⟨start, 2, rfl, hlt⟩
      · by_cases hne : Operator.ne.text <:+: Operator.lt.text ++ back
        · obtain ⟨start, hstart, hlt⟩ := findText_behind h (by decide) hne
          rw [findText_none h heq, hstart]
          exact ⟨start, 2, rfl, hlt⟩
        · have hgt : Operator.gt.text <:+: Operator.lt.text ++ back := by
            by_contra hgt
            exact hfirst (by simp [FoundFirst, Operator.earlier, heq, hne, hgt])
          obtain ⟨start, hstart, hlt⟩ := findText_behind h (by decide) hgt
          rw [findText_none h heq, findText_none h hne, hstart]
          exact ⟨start, 1, rfl, hlt⟩

end Search

/-! ## Fields -/

inductive Field
  | status | error | dataSize | labelId
  deriving DecidableEq, Repr

def Field.text : Field → List Char
  | .status => "status".toList
  | .error => "error".toList
  | .dataSize => "data_size".toList
  | .labelId => "label_id".toList

/-- The comparison of a field that was found. -/
def Field.compare (field : Field) (op : Operator) (value : List Char) (completedLabel : LabelData)
    (completion : CompletionData) : Except String Bool :=
  match field with
  | .status => compareString field.text op.text value (statusString completion.status)
  | .error => compareString field.text op.text value completion.error
  | .dataSize => compareNumeric op.text value completedLabel.dataSize
  | .labelId => compareNumeric op.text value completion.labelId

theorem Field.trimmed_text (field : Field) : Trimmed field.text := by
  cases field with
  | _ => decide

theorem Field.noOperator (field : Field) : NoOperator field.text := by
  cases field with
  | _ => decide

theorem blank_operatorChars : ∀ c ∈ operatorChars, blank c = false := by
  simp [operatorChars, blank]

theorem noOperator_blanks (h : Blanks front) : NoOperator front := by
  intro c hc hmem
  have hblank := h c hc
  rw [blank_operatorChars c hmem] at hblank
  cases hblank

theorem noOperator_append (hfront : NoOperator front) (hback : NoOperator back) :
    NoOperator (front ++ back) := fun c hc =>
  (List.mem_append.mp hc).elim (hfront c) (hback c)

section Evaluation

variable {field : Field} {op : Operator} {gap rest : List Char}

/-- Trimmed, a condition loses only blanks at its ends. -/
theorem trim_condition {lead : List Char} (hlead : Blanks lead) (field : Field) (gap : List Char)
    (op : Operator) (rest : List Char) :
    ∃ back after, trim (lead ++ (field.text ++ gap ++ (op.text ++ rest))) =
        field.text ++ gap ++ (op.text ++ back) ∧
      trim back = trim rest ∧ Blanks after ∧ rest = back ++ after := by
  obtain ⟨before, after, hbefore, hafter, htrimmed, hrest⟩ := exists_trim rest
  have hhead : ∀ more, ∀ c ∈ (field.text ++ gap ++ (op.text ++ more)).head?, blank c = false := by
    intro more c hc
    refine field.trimmed_text.1 c ?_
    cases field with
    | _ => exact hc
  by_cases hnil : trim rest = []
  · have hblanks : Blanks rest := by
      rw [hrest, hnil, List.append_nil]
      exact fun c hc => (List.mem_append.mp hc).elim (hbefore c) (hafter c)
    have hlast : ∀ c ∈ (field.text ++ gap ++ (op.text ++ [])).getLast?, blank c = false := by
      intro c hc
      rw [List.append_nil, List.getLast?_append] at hc
      cases op with
      | _ =>
          obtain rfl := Option.some.inj hc
          decide
    -- nothing but blanks behind the operator: it is the last that is kept
    have hsplit : lead ++ (field.text ++ gap ++ (op.text ++ rest)) =
        lead ++ (field.text ++ gap ++ (op.text ++ [])) ++ rest := by
      simp only [List.append_assoc, List.nil_append]
    rw [hsplit, trim_eq hlead hblanks ⟨hhead [], hlast⟩, hnil]
    exact ⟨[], rest, rfl, rfl, hblanks, rfl⟩
  · have hlast : ∀ c ∈ (field.text ++ gap ++ (op.text ++ (before ++ trim rest))).getLast?,
        blank c = false := by
      intro c hc
      refine htrimmed.2 c ?_
      rw [← List.append_assoc, ← List.append_assoc,
        List.getLast?_append_of_ne_nil _ hnil] at hc
      exact hc
    have hsplit : lead ++ (field.text ++ gap ++ (op.text ++ rest)) =
        lead ++ (field.text ++ gap ++ (op.text ++ (before ++ trim rest))) ++ after := by
      conv_lhs => rw [hrest]
      simp only [List.append_assoc]
    have hback : trim (before ++ trim rest) = trim rest := by
      have heq := trim_eq hbefore blanks_nil htrimmed
      rwa [List.append_nil] at heq
    rw [hsplit, trim_eq hlead hafter ⟨hhead _, hlast⟩]
    exact ⟨before ++ trim rest, after, rfl, hback, hafter, hrest⟩

/-- Blanks at the end hide no operator. -/
theorem foundFirst_append_iff {back after : List Char} (h : Blanks after) :
    FoundFirst op (back ++ after) ↔ FoundFirst op back := by
  have hiff : ∀ other : Operator,
      other.text <:+: op.text ++ (back ++ after) ↔ other.text <:+: op.text ++ back := by
    intro other
    rw [← List.append_assoc]
    obtain ⟨text, htext⟩ := other.text_eq
    refine infix_append_iff (htext ▸ List.cons_ne_nil _ _) fun c hc hmem => ?_
    exact noOperator_blanks h c hc (other.text_subset c hmem)
  unfold FoundFirst
  simp only [hiff]

/-- With its own operator found, a condition compares its field. -/
theorem evaluate_found {lead : List Char} (hlead : Blanks lead) (hgap : Blanks gap)
    (hfirst : FoundFirst op rest) (completedLabel : LabelData) (completion : CompletionData) :
    evaluateCondition (String.ofList (lead ++ (field.text ++ gap ++ (op.text ++ rest))))
        completedLabel completion =
      field.compare op (unquote (trim rest)) completedLabel completion := by
  obtain ⟨back, after, htrim, hback, hafter, hrest⟩ := trim_condition hlead field gap op rest
  have hfront : NoOperator (field.text ++ gap) :=
    noOperator_append field.noOperator (noOperator_blanks hgap)
  rw [hrest, foundFirst_append_iff hafter] at hfirst
  have hfield : trim (field.text ++ gap) = field.text :=
    trim_eq blanks_nil hgap field.trimmed_text
  unfold evaluateCondition
  rw [String.toList_ofList, htrim]
  dsimp only
  rw [findOperator_foundFirst hfront hfirst]
  dsimp only
  rw [List.take_left, List.drop_left, List.take_left, ← List.drop_drop, List.drop_left,
    List.drop_left, hfield, hback]
  cases field with
  | _ => rfl

/-- With another operator found, there is an operator in front of it, so no field. -/
theorem evaluate_lost {lead : List Char} (field : Field) (hlead : Blanks lead)
    (hgap : Blanks gap) (hfirst : ¬FoundFirst op rest) (completedLabel : LabelData)
    (completion : CompletionData) :
    ∃ text, evaluateCondition (String.ofList (lead ++ (field.text ++ gap ++ (op.text ++ rest))))
      completedLabel completion = .error text := by
  obtain ⟨back, after, htrim, hback, hafter, hrest⟩ := trim_condition hlead field gap op rest
  have hfront : NoOperator (field.text ++ gap) :=
    noOperator_append field.noOperator (noOperator_blanks hgap)
  rw [hrest, foundFirst_append_iff hafter] at hfirst
  obtain ⟨start, len, hfound, hlt⟩ := findOperator_behind hfront hfirst
  -- the own operator stands in front of the one that is found
  have hmem : op.first ∈ (field.text ++ gap ++ (op.text ++ back)).take start := by
    obtain ⟨more, rfl⟩ := Nat.exists_eq_add_of_lt hlt
    obtain ⟨text, htext⟩ := op.text_eq
    rw [htext, Nat.add_assoc, List.take_length_add_append]
    exact List.mem_append_right _ List.mem_cons_self
  have hoperator : op.first ∈ operatorChars := by
    obtain ⟨text, htext⟩ := op.text_eq
    exact op.text_subset _ (htext ▸ List.mem_cons_self)
  have hfield : ∀ known : Field,
      trim ((field.text ++ gap ++ (op.text ++ back)).take start) ≠ known.text := by
    intro known heq
    have hkept := mem_trim hmem (blank_operatorChars _ hoperator)
    rw [heq] at hkept
    exact known.noOperator _ hkept hoperator
  unfold evaluateCondition
  rw [String.toList_ofList, htrim]
  dsimp only
  rw [hfound]
  dsimp only
  have hstatus : trim (_) ≠ "status".toList := hfield .status
  have herror : trim (_) ≠ "error".toList := hfield .error
  have hsize : trim (_) ≠ "data_size".toList := hfield .dataSize
  have hid : trim (_) ≠ "label_id".toList := hfield .labelId
  rw [if_neg hstatus, if_neg herror, if_neg hsize, if_neg hid]
  exact ⟨_, rfl⟩

end Evaluation

end Labios
