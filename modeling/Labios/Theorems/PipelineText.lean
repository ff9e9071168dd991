import Labios.Sds.RoundTrip
import Mathlib.Data.List.Forall2

/-!
# Round trip of the pipeline text

Does `deserialize_pipeline` return what `serialize_pipeline` was given? Operations and
arguments are written as they are between tabs and line breaks, so a pipeline comes back
if and only if none of them contains one (`pipeline_roundTrip_iff`). Other arguments are
cut, move the stage numbers, or make the text malformed (`separators_misread`).
-/

namespace Labios

/-- **Round trip.** Whatever the stage numbers and however many stages there are. -/
theorem pipeline_roundTrip_iff (p : Pipeline) (htyped : ∀ stage ∈ p.stages, stage.Typed) :
    deserializePipeline (serializePipeline p) = .ok p ↔ ∀ stage ∈ p.stages, stage.Plain :=
  ⟨plain_of_deserializePipeline, fun hplain => deserializePipeline_serializePipeline hplain htyped⟩

/-- A stage without operation and arguments, and one with the extreme stage numbers. -/
def extremeStages : Pipeline where
  stages :=
    [{ operation := "", args := "" },
      { operation := "builtin://truncate", args := "4 -",
        inputStage := -2147483648, outputStage := 2147483647 }]

theorem extremeStages_roundTrip :
    deserializePipeline (serializePipeline extremeStages) = .ok extremeStages :=
  (pipeline_roundTrip_iff extremeStages (by decide)).mpr (by decide)

/-- One stage that reads the output of the first. -/
def searchFor (args : String) : Pipeline where
  stages := [{ operation := "repo://grep", args, inputStage := 0 }]

/-- With a tab in them the arguments are cut, and the stage numbers are read from the
wrong fields; with a line break the text is not accepted. -/
theorem separators_misread :
    deserializePipeline (serializePipeline (searchFor "a\tb")) =
        .ok { stages :=
          [{ operation := "repo://grep", args := "a", inputStage := -1, outputStage := 0 }] } ∧
      deserializePipeline (serializePipeline (searchFor "a\nb")) =
        .error "malformed pipeline stage: missing args" ∧
      ∀ args ∈ ["a\tb", "a\nb"],
        deserializePipeline (serializePipeline (searchFor args)) ≠ .ok (searchFor args) := by
  decide

end Labios

/-!
## Strictness of the pipeline text

Is every stage that `deserialize_pipeline` returns what one line of the text says in full?
`std::from_chars` reads the longest numeral in front of a field and leaves the default where
there is none or where it does not fit, and its result is not looked at; the last field is
the rest of the line. So a text is read strictly if and only if it is refused, or every line
has four fields and the last two are numerals of type `int` (`deserialize_strict_iff`).
-/

namespace Labios

open Foundation

/-! ## Lines and fields -/

/-- The lines that the loop does not skip. -/
def stageLines (s : String) : List (List Char) :=
  (s.toList.splitOn '\n').filter fun line => !line.isEmpty

/-- The number that digits alone spell. -/
def spelledNat (text : List Char) : Option Nat :=
  if text ≠ [] ∧ text.all Char.isDigit = true then some (Nat.ofDigitChars 10 text 0) else none

/-- The number that the whole text spells: digits, behind a minus sign or not. -/
def spelledInt : List Char → Option Int
  | '-' :: digits => (spelledNat digits).map fun n : Nat => -(n : Int)
  | digits => (spelledNat digits).map fun n : Nat => (n : Int)

/-- The stage comes from the line: four fields, the last two spell its numbers in full. -/
def ReadFrom (line : List Char) (stage : PipelineStage) : Prop :=
  stage.Typed ∧ ∃ input output,
    line.splitOn '\t' = [stage.operation.toList, stage.args.toList, input, output] ∧
      spelledInt input = some stage.inputStage ∧ spelledInt output = some stage.outputStage

/-- The text is refused, or each stage comes from its line. -/
def ReadStrictly (s : String) : Prop :=
  (∃ text, deserializePipeline s = .error text) ∨
    ∃ p, deserializePipeline s = .ok p ∧ List.Forall₂ ReadFrom (stageLines s) p.stages

/-- A numeral of type `int`, and nothing else. -/
def IsNumeral (text : List Char) : Prop := ∃ z ∈ spelledInt text, IsInt z

/-- Four fields with two numerals at the end. -/
def WellFormedLine (line : List Char) : Prop :=
  ∃ operation args input output, line.splitOn '\t' = [operation, args, input, output] ∧
    IsNumeral input ∧ IsNumeral output

/-! ## One line -/

theorem spelledNat_eq_some {text : List Char} {n : Nat} (h : spelledNat text = some n) :
    text ≠ [] ∧ (∀ c ∈ text, c.isDigit = true) ∧ Nat.ofDigitChars 10 text 0 = n := by
  unfold spelledNat at h
  split at h
  · next hdigits =>
      exact ⟨hdigits.1, List.all_eq_true.mp hdigits.2, Option.some.inj h⟩
  · cases h

/-- What is read behind the sign. -/
def fromDigits (negative : Bool) (cs : List Char) (old : Int) : Int :=
  let digits := cs.takeWhile Char.isDigit
  let magnitude : Int := digits.foldl (fun n c => 10 * n + (c.toNat - 48 : Nat)) 0
  let value := if negative then -magnitude else magnitude
  if digits = [] ∨ value < -2147483648 ∨ 2147483647 < value then old else value

theorem fromChars_minus (cs : List Char) (old : Int) :
    fromChars ('-' :: cs) old = fromDigits true cs old := rfl

theorem fromChars_unsigned {text : List Char} (hsign : ∀ digits, text ≠ '-' :: digits)
    (old : Int) : fromChars text old = fromDigits false text old := by
  cases text with
  | nil => rfl
  | cons c rest =>
      have hcut : (match c :: rest with
          | '-' :: rest => (true, rest)
          | _ => (false, c :: rest)) = (false, c :: rest) := by simp
      exact congrArg (fun cut : Bool × List Char => fromDigits cut.1 cut.2 old) hcut

theorem spelledInt_unsigned {text : List Char} (hsign : ∀ digits, text ≠ '-' :: digits) :
    spelledInt text = (spelledNat text).map fun n : Nat => (n : Int) := by
  cases text with
  | nil => rfl
  | cons c rest =>
      simp [spelledInt]

theorem fromDigits_of_spelled {digits : List Char} {n : Nat} (hspelled : spelledNat digits = some n)
    (negative : Bool) (hint : IsInt (if negative then -(n : Int) else n)) (old : Int) :
    fromDigits negative digits old = if negative then -(n : Int) else n := by
  obtain ⟨hlow, hhigh⟩ := hint
  obtain ⟨hne, hdigits, hvalue⟩ := spelledNat_eq_some hspelled
  have htake : digits.takeWhile Char.isDigit = digits := List.takeWhile_eq_self_iff.mpr hdigits
  have hmagnitude : digits.foldl (fun (m : Int) c => 10 * m + (c.toNat - 48 : Nat)) 0 = n :=
    (foldl_digits digits 0).trans (congrArg Nat.cast hvalue)
  unfold fromDigits
  simp only [htake, hmagnitude]
  refine if_neg fun hbad => ?_
  rcases hbad with hbad | hbad | hbad
  · exact hne hbad
  · omega
  · omega

/-- `std::from_chars` reads a numeral that fills the field. -/
theorem fromChars_of_spelled {text : List Char} {z : Int} (h : spelledInt text = some z)
    (hz : IsInt z) (old : Int) : fromChars text old = z := by
  by_cases hsign : ∃ digits, text = '-' :: digits
  · obtain ⟨digits, rfl⟩ := hsign
    obtain ⟨n, hspelled, rfl⟩ := Option.map_eq_some_iff.mp h
    rw [fromChars_minus]
    exact fromDigits_of_spelled hspelled true hz old
  · have hunsigned : ∀ digits, text ≠ '-' :: digits := not_exists.mp hsign
    rw [spelledInt_unsigned hunsigned] at h
    obtain ⟨n, hspelled, rfl⟩ := Option.map_eq_some_iff.mp h
    rw [fromChars_unsigned hunsigned]
    exact fromDigits_of_spelled hspelled false hz old

/-- A line is a stage if it has three tabs, and the last field is all the rest. -/
theorem deserializeStage_eq_ok {line : List Char} {stage : PipelineStage}
    (h : deserializeStage line = .ok stage) : ∃ operation args input output,
      '\t' ∉ operation ∧ '\t' ∉ args ∧ '\t' ∉ input ∧
        line = operation ++ '\t' :: (args ++ '\t' :: (input ++ '\t' :: output)) ∧
        stage =
          { operation := String.ofList operation, args := String.ofList args,
            inputStage := fromChars input (-1), outputStage := fromChars output (-1) } := by
  unfold deserializeStage at h
  split at h
  · cases h
  · next operation rest hfirst =>
      obtain ⟨hoperation, rfl⟩ := cutTab_eq_some hfirst
      split at h
      · cases h
      · next args rest' hsecond =>
          obtain ⟨hargs, rfl⟩ := cutTab_eq_some hsecond
          split at h
          · cases h
          · next input output hthird =>
              obtain ⟨hinput, rfl⟩ := cutTab_eq_some hthird
              exact ⟨operation, args, input, output, hoperation, hargs, hinput, rfl,
                (Except.ok.inj h).symm⟩

theorem splitOn_fields {operation args input output : List Char} (hoperation : '\t' ∉ operation)
    (hargs : '\t' ∉ args) (hinput : '\t' ∉ input) :
    (operation ++ '\t' :: (args ++ '\t' :: (input ++ '\t' :: output))).splitOn '\t' =
      operation :: args :: input :: output.splitOn '\t' := by
  rw [List.splitOn_append_cons_self_of_not_mem hoperation,
    List.splitOn_append_cons_self_of_not_mem hargs,
    List.splitOn_append_cons_self_of_not_mem hinput]

theorem cutTab_eq_none_iff {cs : List Char} : cutTab cs = none ↔ '\t' ∉ cs := by
  unfold cutTab
  split
  · next hmem => exact ⟨fun h => absurd h (by simp), fun h => absurd hmem h⟩
  · next hmem => exact ⟨fun _ => hmem, fun _ => rfl⟩

theorem count_cut {cs front rest : List Char} (h : cutTab cs = some (front, rest)) :
    cs.count '\t' = rest.count '\t' + 1 := by
  obtain ⟨hfront, rfl⟩ := cutTab_eq_some h
  rw [List.count_append, List.count_eq_zero.mpr hfront, List.count_cons_self, Nat.zero_add]

/-- A line is refused if and only if a tab is missing. -/
theorem deserializeStage_error_iff (line : List Char) :
    (∃ text, deserializeStage line = .error text) ↔ line.count '\t' < 3 := by
  have hzero : ∀ {cs : List Char}, cutTab cs = none → cs.count '\t' = 0 := fun h =>
    List.count_eq_zero.mpr (cutTab_eq_none_iff.mp h)
  unfold deserializeStage
  cases hfirst : cutTab line with
  | none =>
      have hcount := hzero hfirst
      exact ⟨fun _ => by omega, fun _ => ⟨_, rfl⟩⟩
  | some first =>
      obtain ⟨operation, rest⟩ := first
      have hline := count_cut hfirst
      dsimp only
      cases hsecond : cutTab rest with
      | none =>
          have hcount := hzero hsecond
          exact ⟨fun _ => by omega, fun _ => ⟨_, rfl⟩⟩
      | some second =>
          obtain ⟨args, rest'⟩ := second
          have hrest := count_cut hsecond
          dsimp only
          cases hthird : cutTab rest' with
          | none =>
              have hcount := hzero hthird
              exact ⟨fun _ => by omega, fun _ => ⟨_, rfl⟩⟩
          | some third =>
              have hlast := count_cut hthird
              refine ⟨fun h => ?_, fun h => by omega⟩
              obtain ⟨text, h⟩ := h
              cases h

/-- A text whose only field is the whole has no tab. -/
theorem eq_of_splitOn_singleton {text field : List Char} (h : text.splitOn '\t' = [field]) :
    text = field := by
  by_cases htab : '\t' ∈ text
  · have hcut := takeWhile_append_drop htab
    rw [← hcut, List.splitOn_append_cons_self_of_not_mem (separator_notMem_takeWhile text)] at h
    exact absurd (List.cons.inj h).2 (List.splitOn_ne_nil _ _)
  · rw [List.splitOn_eq_singleton htab] at h
    exact (List.cons.inj h).1

/-- A line that is read is read strictly if and only if it is well formed. -/
theorem readFrom_iff {line : List Char} {stage : PipelineStage}
    (h : deserializeStage line = .ok stage) : ReadFrom line stage ↔ WellFormedLine line := by
  obtain ⟨operation, args, input, output, hoperation, hargs, hinput, rfl, rfl⟩ :=
    deserializeStage_eq_ok h
  constructor
  · rintro ⟨htyped, input', output', hfields, hin, hout⟩
    exact ⟨_, _, input', output', hfields, ⟨_, hin, htyped.1⟩, ⟨_, hout, htyped.2⟩⟩
  · rintro ⟨operation', args', input', output', hfields, ⟨z, hin, hz⟩, ⟨w, hout, hw⟩⟩
    rw [splitOn_fields hoperation hargs hinput] at hfields
    simp only [List.cons.injEq] at hfields
    obtain ⟨rfl, rfl, rfl, hfields⟩ := hfields
    -- four fields, so no tab in what the code takes as the last one
    obtain rfl := eq_of_splitOn_singleton hfields
    refine ⟨?_, input, output, ?_, ?_, ?_⟩
    · exact ⟨(fromChars_of_spelled hin hz (-1)).symm ▸ hz,
        (fromChars_of_spelled hout hw (-1)).symm ▸ hw⟩
    · rw [splitOn_fields hoperation hargs hinput, hfields, String.toList_ofList,
        String.toList_ofList]
    · exact hin.trans (congrArg some (fromChars_of_spelled hin hz (-1)).symm)
    · exact hout.trans (congrArg some (fromChars_of_spelled hout hw (-1)).symm)

/-! ## All lines -/

/-- The loop returns one stage for each line that is not empty. -/
theorem deserializeStages_eq_ok_iff (lines : List (List Char)) (stages : List PipelineStage) :
    deserializeStages lines = .ok stages ↔
      List.Forall₂ (fun line stage => deserializeStage line = .ok stage)
        (lines.filter fun line => !line.isEmpty) stages := by
  induction lines generalizing stages with
  | nil =>
      rw [deserializeStages, List.filter_nil, List.forall₂_nil_left_iff]
      exact ⟨fun h => (Except.ok.inj h).symm, fun h => h ▸ rfl⟩
  | cons line rest ih =>
      unfold deserializeStages
      by_cases hempty : line.isEmpty = true
      · rw [if_pos hempty, List.filter_cons_of_neg (by simp [hempty])]
        exact ih stages
      · rw [if_neg hempty, List.filter_cons_of_pos (by simp [hempty]), List.forall₂_cons_left_iff]
        constructor
        · intro h
          split at h
          · cases h
          · next stage hstage =>
              split at h
              · cases h
              · next stages' hstages =>
                  obtain rfl := Except.ok.inj h
                  exact ⟨stage, stages', hstage, (ih stages').mp hstages, rfl⟩
        · rintro ⟨stage, stages', hstage, hstages, rfl⟩
          rw [hstage, (ih stages').mpr hstages]

theorem deserializeStages_eq_error_iff (lines : List (List Char)) :
    (∃ text, deserializeStages lines = .error text) ↔
      ∃ line ∈ lines.filter fun line => !line.isEmpty, line.count '\t' < 3 := by
  induction lines with
  | nil =>
      refine ⟨fun h => ?_, fun h => ?_⟩
      · obtain ⟨text, h⟩ := h
        cases h
      · obtain ⟨line, hmem, -⟩ := h
        cases hmem
  | cons line rest ih =>
      unfold deserializeStages
      by_cases hempty : line.isEmpty = true
      · rw [if_pos hempty, List.filter_cons_of_neg (by simp [hempty])]
        exact ih
      · rw [if_neg hempty, List.filter_cons_of_pos (by simp [hempty]), List.exists_mem_cons_iff,
          ← ih, ← deserializeStage_error_iff]
        cases deserializeStage line with
        | error text => exact ⟨fun _ => .inl ⟨text, rfl⟩, fun _ => ⟨text, rfl⟩⟩
        | ok stage =>
            cases deserializeStages rest with
            | error text => exact ⟨fun _ => .inr ⟨text, rfl⟩, fun _ => ⟨text, rfl⟩⟩
            | ok stages =>
                refine ⟨fun h => ?_, fun h => ?_⟩
                · obtain ⟨text, h⟩ := h
                  cases h
                · rcases h with ⟨text, h⟩ | ⟨text, h⟩
                  · cases h
                  · cases h

/-- Where every line is read, the strictness of all is that of each. -/
theorem forall₂_readFrom_iff {lines : List (List Char)} {stages : List PipelineStage}
    (h : List.Forall₂ (fun line stage => deserializeStage line = .ok stage) lines stages) :
    List.Forall₂ ReadFrom lines stages ↔ ∀ line ∈ lines, WellFormedLine line := by
  induction h with
  | nil => exact ⟨fun _ line hline => absurd hline List.not_mem_nil, fun _ => .nil⟩
  | cons hstage hrest ih => rw [List.forall₂_cons, readFrom_iff hstage, ih, List.forall_mem_cons]

/-- **Strictness.** A text is read strictly if and only if it is refused because a tab is
missing, or each of its lines is well formed. -/
theorem deserialize_strict_iff (s : String) :
    ReadStrictly s ↔
      (∃ line ∈ stageLines s, line.count '\t' < 3) ∨
        ∀ line ∈ stageLines s, WellFormedLine line := by
  unfold ReadStrictly stageLines
  rw [← deserializeStages_eq_error_iff]
  unfold deserializePipeline
  cases hstages : deserializeStages (s.toList.splitOn '\n') with
  | error text => exact ⟨fun _ => .inl ⟨text, rfl⟩, fun _ => .inl ⟨text, rfl⟩⟩
  | ok stages =>
      have hlines := forall₂_readFrom_iff ((deserializeStages_eq_ok_iff _ stages).mp hstages)
      constructor
      · rintro (⟨text, h⟩ | ⟨p, hp, hstrict⟩)
        · cases h
        · obtain rfl := Except.ok.inj hp
          exact .inr (hlines.mp hstrict)
      · rintro (⟨text, h⟩ | hformed)
        · cases h
        · exact .inr ⟨{ stages }, rfl, hlines.mpr hformed⟩

/-- A stage whose numbers are in order, one whose output stage is followed by another field,
one whose input stage is no `int`, and one with a letter behind the numeral. -/
def looseText : String := "a\t\t-1\t1\nb\t\t0\t1\tx\nc\t\t4294967296\t-1\nd\t\t1x\t2"

/-- The fifth field is dropped, the number that does not fit becomes -1, and the letter is
ignored. -/
def looseStages : List PipelineStage :=
  [{ operation := "a", args := "", inputStage := -1, outputStage := 1 },
    { operation := "b", args := "", inputStage := 0, outputStage := 1 },
    { operation := "c", args := "", inputStage := -1, outputStage := -1 },
    { operation := "d", args := "", inputStage := 1, outputStage := 2 }]

theorem looseText_accepted :
    deserializePipeline looseText = .ok { stages := looseStages } ∧ ¬ReadStrictly looseText := by
  have hstages : deserializeStages (looseText.toList.splitOn '\n') = .ok looseStages := by decide
  have hread : deserializePipeline looseText = .ok { stages := looseStages } := by
    unfold deserializePipeline
    rw [hstages]
  refine ⟨hread, ?_⟩
  rintro (⟨text, h⟩ | ⟨p, hp, hstrict⟩)
  · rw [hread] at h
    cases h
  · obtain rfl := Except.ok.inj (hread.symm.trans hp)
    have hformed := (forall₂_readFrom_iff ((deserializeStages_eq_ok_iff _ _).mp hstages)).mp
      hstrict
    obtain ⟨_, _, _, _, hfields, -⟩ := hformed "b\t\t0\t1\tx".toList (by decide)
    have hfive : "b\t\t0\t1\tx".toList.splitOn '\t' = [['b'], [], ['0'], ['1'], ['x']] := by decide
    rw [hfive] at hfields
    cases hfields

end Labios
