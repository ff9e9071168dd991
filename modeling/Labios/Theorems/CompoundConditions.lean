import Labios.Label.ConditionValues

/-!
# Compound conditions

Conditions that are joined with `&&` should be evaluated as their conjunction. There is no code
for `&&`: everything behind the operator that is found is taken for the value. A number is read in
front of it, so a compound condition that begins with one is the first of its conditions
alone; a text is compared with everything up to the end.
-/

namespace Labios

open Foundation

/-- A condition with a value that is not in quotes and has no operator. Blanks may stand in front,
around the operator and at the end. -/
structure Atom where
  field : Field
  op : Operator
  lead : List Char
  gap : List Char
  /-- The value, with the blanks around it. -/
  rest : List Char
  lead_blanks : Blanks lead
  gap_blanks : Blanks gap
  free : NoOperator rest
  bare : ¬Quoted (trim rest)

namespace Atom

def text (c : Atom) : List Char := c.lead ++ (c.field.text ++ c.gap ++ (c.op.text ++ c.rest))

variable (c : Atom) (completedLabel : LabelData) (completion : CompletionData)

def evaluate : Except String Bool :=
  evaluateCondition (String.ofList c.text) completedLabel completion

/-- What the condition says; nothing, if its field is not compared so or has no such value. -/
def verdict : Option Bool := c.field.verdict c.op (trim c.rest) completedLabel completion

def Holds : Prop := c.verdict completedLabel completion = some true

instance : Decidable (c.Holds completedLabel completion) :=
  inferInstanceAs (Decidable (_ = some true))

theorem evaluate_verdict : (c.evaluate completedLabel completion).toOption =
    c.verdict completedLabel completion := by
  have hfound := Labios.evaluate_verdict c.field c.lead_blanks c.gap_blanks
    (foundFirst_alone c.free c.op) completedLabel completion
  rwa [unquote_of_not_quoted c.bare] at hfound

end Atom

/-- The condition, and those behind it, each after `&&`. -/
def joined (c : Atom) (cs : List Atom) : List Char :=
  "&&".toList.intercalate ((c :: cs).map Atom.text)

def evaluateJoined (c : Atom) (cs : List Atom) (completedLabel : LabelData)
    (completion : CompletionData) : Except String Bool :=
  evaluateCondition (String.ofList (joined c cs)) completedLabel completion

/-- If every condition is answered, the compound one is answered with their conjunction. -/
def Conjunctive (c : Atom) (cs : List Atom) (completedLabel : LabelData)
    (completion : CompletionData) : Prop :=
  ∀ answers : List Bool,
    (c :: cs).map (·.evaluate completedLabel completion) = answers.map .ok →
    evaluateJoined c cs completedLabel completion = .ok (answers.all id)

/-! ## The text behind the first operator -/

/-- What stands behind the first condition. -/
def further (cs : List Atom) : List Char := cs.flatMap fun c => "&&".toList ++ c.text

theorem joined_eq (c : Atom) (cs : List Atom) :
    joined c cs = c.lead ++ (c.field.text ++ c.gap ++ (c.op.text ++ (c.rest ++ further cs))) := by
  have hflat : joined c cs = c.text ++ further cs := by
    unfold joined further
    induction cs generalizing c with
    | nil => simp
    | cons d ds ih =>
        rw [List.map_cons, List.map_cons, List.intercalate_cons_cons, ← List.map_cons, ih d,
          List.flatMap_cons]
        simp only [List.append_assoc]
  rw [hflat]
  unfold Atom.text
  simp only [List.append_assoc]

theorem noOperator_and : NoOperator "&&".toList := by decide

/-- Only the conditions bring operators into the text. -/
theorem infix_further_iff {other op : Operator} {rest : List Char} (h : NoOperator rest)
    (cs : List Atom) :
    other.text <:+: op.text ++ (rest ++ further cs) ↔ other = op ∨ ∃ c ∈ cs, c.op = other := by
  induction cs generalizing op rest with
  | nil =>
      have hend : rest ++ further [] = rest := List.append_nil rest
      rw [hend, infix_alone_iff h]
      simp
  | cons c cs ih =>
      have hsplit : rest ++ further (c :: cs) =
          (rest ++ "&&".toList ++ (c.lead ++ (c.field.text ++ c.gap))) ++
            (c.op.text ++ (c.rest ++ further cs)) := by
        unfold further
        rw [List.flatMap_cons]
        unfold Atom.text
        simp only [List.append_assoc]
      have hmid : NoOperator (rest ++ "&&".toList ++ (c.lead ++ (c.field.text ++ c.gap))) :=
        noOperator_append (noOperator_append h noOperator_and)
          (noOperator_append (noOperator_blanks c.lead_blanks)
            (noOperator_append c.field.noOperator (noOperator_blanks c.gap_blanks)))
      rw [hsplit, infix_operator_iff hmid (by simp), ih c.free, List.exists_mem_cons_iff]
      simp only [eq_comm (a := other)]

/-- The first operator is found if none of the further ones is looked for earlier. -/
theorem foundFirst_further_iff (c : Atom) (cs : List Atom) :
    FoundFirst c.op (c.rest ++ further cs) ↔ ∀ d ∈ cs, d.op ∉ c.op.earlier := by
  constructor
  · intro h d hd hearlier
    exact h d.op hearlier ((infix_further_iff c.free cs).mpr (.inr ⟨d, hd, rfl⟩))
  · intro h other hother hinside
    rcases (infix_further_iff c.free cs).mp hinside with heq | ⟨d, hd, rfl⟩
    · exact not_mem_earlier c.op (heq ▸ hother)
    · exact h d hd hother

/-- What is compared with is longer than the first value: it has a `&&` more. -/
theorem unquote_further_ne (c d : Atom) (ds : List Atom) :
    unquote (trim (c.rest ++ further (d :: ds))) ≠ trim c.rest := by
  intro heq
  -- trimming and unquoting keep every ampersand
  have hlong := count_unquote_trim (c := '&') (by decide) (by decide)
    (c.rest ++ further (d :: ds))
  have hshort := count_unquote_trim (c := '&') (by decide) (by decide) c.rest
  rw [unquote_of_not_quoted c.bare] at hshort
  have hmore : further (d :: ds) = "&&".toList ++ (d.text ++ further ds) := by
    unfold further
    rw [List.flatMap_cons, List.append_assoc]
  have hand : "&&".toList.count '&' = 2 := by decide
  rw [heq, hshort, hmore, List.count_append, List.count_append, hand] at hlong
  omega

/-! ## When the conjunction is evaluated -/

section Condition

variable (c : Atom) (cs : List Atom) (completedLabel : LabelData) (completion : CompletionData)

/-- The text that a field holds. -/
def Field.actualText (field : Field) (completion : CompletionData) : Option (List Char) :=
  match field with
  | .status => some (statusString completion.status).toList
  | .error => some completion.error.toList
  | .dataSize => none
  | .labelId => none

/-- The first condition, with everything behind its operator as its value, is worth as much as all
of them. -/
def StandsForAll : Prop :=
  match c.field.actualText completion with
  | none => c.Holds completedLabel completion → ∀ d ∈ cs, d.Holds completedLabel completion
  | some actual =>
      match c.op with
      | .eq =>
          ¬Writes (c.rest ++ further cs) actual ∧
            ∃ d ∈ c :: cs, ¬d.Holds completedLabel completion
      | _ =>
          (Writes (c.rest ++ further cs) actual →
            ∃ d ∈ cs, ¬d.Holds completedLabel completion) ∧
          (¬Writes (c.rest ++ further cs) actual →
            ∀ d ∈ c :: cs, d.Holds completedLabel completion)

/-- The condition under which the code evaluates the conjunction. -/
def Separable : Prop :=
  cs = [] ∨ (∃ d ∈ c :: cs, d.verdict completedLabel completion = none) ∨
    (∀ d ∈ cs, d.op ∉ c.op.earlier) ∧ StandsForAll c cs completedLabel completion

variable {c cs completedLabel completion}

theorem toOption_eq_some_iff {result : Except String Bool} {answer : Bool} :
    result.toOption = some answer ↔ result = .ok answer := by
  cases result with
  | error text => exact iff_of_false (fun h => by cases h) (fun h => by cases h)
  | ok value => exact ⟨fun h => congrArg _ (Option.some.inj h), fun h => h ▸ rfl⟩

/-- The answers are what the conditions say. -/
theorem answers_iff {answers : List Bool} :
    cs.map (·.evaluate completedLabel completion) = answers.map .ok ↔
      cs.map (·.verdict completedLabel completion) = answers.map some := by
  induction cs generalizing answers with
  | nil =>
      cases answers with
      | nil => exact iff_of_true rfl rfl
      | cons answer answers => exact iff_of_false (fun h => by cases h) (fun h => by cases h)
  | cons c cs ih =>
      cases answers with
      | nil => exact iff_of_false (fun h => by cases h) (fun h => by cases h)
      | cons answer answers =>
          rw [List.map_cons, List.map_cons, List.map_cons, List.map_cons, List.cons_eq_cons,
            List.cons_eq_cons, ih, ← toOption_eq_some_iff, c.evaluate_verdict]

/-- If every condition says something, these are the answers. -/
theorem verdict_eq (h : ∀ d ∈ cs, d.verdict completedLabel completion ≠ none) :
    cs.map (·.verdict completedLabel completion) =
      (cs.map fun d => decide (d.Holds completedLabel completion)).map some := by
  rw [List.map_map]
  refine List.map_congr_left fun d hd => ?_
  show d.verdict completedLabel completion =
    some (decide (d.verdict completedLabel completion = some true))
  cases hverdict : d.verdict completedLabel completion with
  | none => exact absurd hverdict (h d hd)
  | some answer =>
      cases answer with
      | _ => rfl

theorem all_holds (cs : List Atom) :
    (cs.map fun d => decide (d.Holds completedLabel completion)).all id =
      decide (∀ d ∈ cs, d.Holds completedLabel completion) := by
  rw [List.all_map, List.all_eq]
  simp

/-- Where every condition says something, the compound one is to say whether all hold. -/
theorem conjunctive_iff :
    Conjunctive c cs completedLabel completion ↔
      ((∀ d ∈ c :: cs, d.verdict completedLabel completion ≠ none) →
        (evaluateJoined c cs completedLabel completion).toOption =
          some (decide (∀ d ∈ c :: cs, d.Holds completedLabel completion))) := by
  unfold Conjunctive
  constructor
  · intro h hverdict
    rw [toOption_eq_some_iff, ← all_holds]
    exact h _ (answers_iff.mpr (verdict_eq hverdict))
  · intro h answers hanswers
    have hmap := answers_iff.mp hanswers
    have hverdict : ∀ d ∈ c :: cs, d.verdict completedLabel completion ≠ none := by
      intro d hd hnone
      have hmem := List.mem_map_of_mem (f := (·.verdict completedLabel completion)) hd
      rw [hmap, hnone] at hmem
      obtain ⟨answer, -, hsome⟩ := List.mem_map.mp hmem
      cases hsome
    rw [verdict_eq hverdict] at hmap
    have hsame := (List.map_inj_right fun _ _ => Option.some.inj).mp hmap
    rw [← hsame, all_holds, ← toOption_eq_some_iff]
    exact h hverdict

/-! ### The answer to the whole text -/

theorem evaluateJoined_nil :
    evaluateJoined c [] completedLabel completion = c.evaluate completedLabel completion := by
  unfold evaluateJoined Atom.evaluate joined
  rw [List.map_cons, List.map_nil, List.intercalate_singleton]

theorem evaluateJoined_found (h : ∀ d ∈ cs, d.op ∉ c.op.earlier) :
    (evaluateJoined c cs completedLabel completion).toOption =
      c.field.verdict c.op (unquote (trim (c.rest ++ further cs))) completedLabel completion := by
  unfold evaluateJoined
  rw [joined_eq]
  exact evaluate_verdict c.field c.lead_blanks c.gap_blanks
    ((foundFirst_further_iff c cs).mpr h) _ _

theorem evaluateJoined_hidden (h : ¬∀ d ∈ cs, d.op ∉ c.op.earlier) :
    (evaluateJoined c cs completedLabel completion).toOption = none := by
  unfold evaluateJoined
  rw [joined_eq]
  exact evaluate_refused c.field c.lead_blanks c.gap_blanks
    (mt (foundFirst_further_iff c cs).mp h) _ _

theorem verdict_of_actualText {field : Field} {actual : List Char}
    (h : field.actualText completion = some actual) (op : Operator) (value : List Char) :
    field.verdict op value completedLabel completion = op.ofTexts actual value := by
  cases field with
  | status =>
      obtain rfl := Option.some.inj h
      rfl
  | error =>
      obtain rfl := Option.some.inj h
      rfl
  | dataSize => cases h
  | labelId => cases h

/-- A number is read in front of what follows. -/
theorem verdict_number_further (hfield : c.field.actualText completion = none)
    (hverdict : c.verdict completedLabel completion ≠ none) (d : Atom) (ds : List Atom) :
    c.field.verdict c.op (unquote (trim (c.rest ++ further (d :: ds)))) completedLabel
      completion = c.verdict completedLabel completion := by
  have hmore : ∀ x ∈ (further (d :: ds)).head?, x.isDigit = false := by
    intro x hx
    obtain rfl := Option.some.inj hx
    rfl
  unfold Atom.verdict at hverdict ⊢
  cases hc : c.field with
  | status | error =>
      rw [hc] at hfield
      cases hfield
  | dataSize | labelId =>
      rw [hc] at hverdict
      have hnumber : numberAt (trim c.rest) ≠ none := fun hnone =>
        hverdict (Option.map_eq_none_iff.mpr hnone)
      show Option.map _ _ = Option.map _ _
      rw [numberAt_append hnumber hmore]

/-- A text is compared with all of it, which is not the value of the first condition. -/
theorem ofTexts_further_iff {actual : List Char}
    (hfield : c.field.actualText completion = some actual)
    (hverdict : c.verdict completedLabel completion ≠ none) (d : Atom) (ds : List Atom) :
    c.op.ofTexts actual (unquote (trim (c.rest ++ further (d :: ds)))) =
        some (decide (∀ e ∈ c :: d :: ds, e.Holds completedLabel completion)) ↔
      StandsForAll c (d :: ds) completedLabel completion := by
  have hholds : c.Holds completedLabel completion ↔
      c.op.ofTexts actual (trim c.rest) = some true := by
    unfold Atom.Holds Atom.verdict
    rw [verdict_of_actualText hfield]
  have hlonger := unquote_further_ne c d ds
  unfold Atom.verdict at hverdict
  rw [verdict_of_actualText hfield] at hverdict
  unfold StandsForAll
  rw [hfield]
  dsimp only
  rw [← unquote_trim_iff]
  generalize unquote (trim (c.rest ++ further (d :: ds))) = whole at hlonger ⊢
  cases hop : c.op with
  | eq =>
      rw [hop] at hholds
      show some (decide _) = some (decide _) ↔ _
      rw [Option.some_inj, decide_eq_decide]
      constructor
      · intro hiff
        -- if the whole were the text that is held, the first condition would name it too
        have hne : whole ≠ actual := by
          intro heq
          have hfirst := hholds.mp (hiff.mp heq.symm c List.mem_cons_self)
          exact hlonger (heq.trans (of_decide_eq_true (Option.some.inj hfirst)))
        refine ⟨hne, ?_⟩
        by_contra hall
        push Not at hall
        exact hne (hiff.mpr hall).symm
      · rintro ⟨hne, e, he, hfails⟩
        exact iff_of_false (Ne.symm hne) fun hall => hfails (hall e he)
  | ne =>
      rw [hop] at hholds
      show some (decide _) = some (decide _) ↔ _
      rw [Option.some_inj, decide_eq_decide]
      constructor
      · intro hiff
        refine ⟨fun heq => ?_, fun hne => hiff.mp (Ne.symm hne)⟩
        have hfirst : c.Holds completedLabel completion := by
          refine hholds.mpr (congrArg some (decide_eq_true ?_))
          exact fun hsame => hlonger (heq.trans hsame)
        by_contra hall
        push Not at hall
        exact hiff.mpr (List.forall_mem_cons.mpr ⟨hfirst, hall⟩) heq.symm
      · rintro ⟨hsame, hdiffer⟩
        by_cases heq : whole = actual
        · obtain ⟨e, he, hfails⟩ := hsame heq
          exact iff_of_false (not_not_intro heq.symm) fun hall =>
            hfails (hall e (List.mem_cons_of_mem c he))
        · exact iff_of_true (Ne.symm heq) (hdiffer heq)
  | gt =>
      rw [hop] at hverdict
      exact absurd rfl hverdict
  | lt =>
      rw [hop] at hverdict
      exact absurd rfl hverdict

theorem standsForAll_iff (h : ∀ e ∈ c :: cs, e.verdict completedLabel completion ≠ none)
    (hne : cs ≠ []) :
    c.field.verdict c.op (unquote (trim (c.rest ++ further cs))) completedLabel completion =
        some (decide (∀ e ∈ c :: cs, e.Holds completedLabel completion)) ↔
      StandsForAll c cs completedLabel completion := by
  have hfirst := h c List.mem_cons_self
  obtain ⟨d, ds, rfl⟩ := List.exists_cons_of_ne_nil hne
  cases hfield : c.field.actualText completion with
  | none =>
      have hholds : c.verdict completedLabel completion =
          some (decide (c.Holds completedLabel completion)) :=
        (List.cons_eq_cons.mp (verdict_eq h)).1
      rw [verdict_number_further hfield hfirst, hholds, Option.some_inj, decide_eq_decide]
      unfold StandsForAll
      rw [hfield, List.forall_mem_cons]
      exact ⟨fun hiff hc => (hiff.mp hc).2, fun hrest => ⟨fun hc => ⟨hc, hrest hc⟩, And.left⟩⟩
  | some actual =>
      rw [verdict_of_actualText hfield]
      exact ofTexts_further_iff hfield hfirst d ds

end Condition

/-- A compound condition is evaluated as the conjunction of its conditions exactly if there is only
one or one of them is refused, or the operator of the first is found and its comparison with all
that follows comes out as the conjunction. -/
theorem conjunction_iff (c : Atom) (cs : List Atom) (completedLabel : LabelData)
    (completion : CompletionData) :
    Conjunctive c cs completedLabel completion ↔ Separable c cs completedLabel completion := by
  by_cases hnil : cs = []
  · subst hnil
    refine iff_of_true ?_ (.inl rfl)
    intro answers hanswers
    obtain ⟨answer, rfl⟩ : ∃ answer, answers = [answer] :=
      List.length_eq_one_iff.mp (by simpa using congrArg List.length hanswers.symm)
    have hone : c.evaluate completedLabel completion = .ok answer :=
      (List.cons_eq_cons.mp hanswers).1
    rw [evaluateJoined_nil, hone]
    exact congrArg _ (Bool.and_true answer).symm
  · unfold Separable
    rw [conjunctive_iff, or_iff_right hnil]
    by_cases hverdict : ∃ d ∈ c :: cs, d.verdict completedLabel completion = none
    · refine iff_of_true (fun hall => ?_) (.inl hverdict)
      obtain ⟨d, hd, hnone⟩ := hverdict
      exact absurd hnone (hall d hd)
    · rw [or_iff_right hverdict]
      push Not at hverdict
      rw [forall_prop_of_true hverdict]
      by_cases hfound : ∀ d ∈ cs, d.op ∉ c.op.earlier
      · rw [and_iff_right hfound, evaluateJoined_found hfound]
        exact standsForAll_iff hverdict hnil
      -- an operator further on is taken for that of the first condition
      · rw [evaluateJoined_hidden hfound]
        exact iff_of_false (fun h => by cases h) fun h => hfound h.1

/-! ## One that is misjudged -/

/-- `status==Complete `, with the blank in front of `&&`. -/
def isComplete : Atom where
  field := .status
  op := .eq
  lead := []
  gap := []
  rest := "Complete ".toList
  lead_blanks := blanks_nil
  gap_blanks := blanks_nil
  free := by decide
  bare := by decide

/-- ` data_size>0`. -/
def hasData : Atom where
  field := .dataSize
  op := .gt
  lead := [' ']
  gap := []
  rest := ['0']
  lead_blanks := List.forall_mem_singleton.mpr rfl
  gap_blanks := blanks_nil
  free := by decide
  bare := by decide

/-- `status==Complete && data_size>0` is false of a complete label with data. -/
theorem completeWithData_misjudged :
    ¬Conjunctive isComplete [hasData] { dataSize := 4096 } { status := .complete } := by
  intro h
  have hfalse : evaluateJoined isComplete [hasData] { dataSize := 4096 } { status := .complete } =
      .ok false := by decide
  have htrue := h [true, true] (by decide)
  rw [hfalse] at htrue
  cases htrue

end Labios
