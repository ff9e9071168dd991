import Labios.Client.IntText
import Labios.Foundation.Separators
import Labios.Sds.Codec

/-!
# Reading the pipeline text back

What `deserialize_pipeline` makes of the texts that `serialize_pipeline` writes. The
stage numbers come back whatever they are. Operations and arguments come back if they
are plain, and no text at all is read as a stage that is not (`plain_of_deserializeStages`).
-/

namespace Labios

open Foundation

/-- Neither the operation nor the arguments contain a tab or a line break. -/
def PipelineStage.Plain (stage : PipelineStage) : Prop :=
  ('\t' ∉ stage.operation.toList ∧ '\n' ∉ stage.operation.toList) ∧
    '\t' ∉ stage.args.toList ∧ '\n' ∉ stage.args.toList

/-- Both stage numbers are of their type. -/
def PipelineStage.Typed (stage : PipelineStage) : Prop :=
  IsInt stage.inputStage ∧ IsInt stage.outputStage

instance PipelineStage.plain_decidable (stage : PipelineStage) : Decidable stage.Plain :=
  inferInstanceAs (Decidable (_ ∧ _))

instance PipelineStage.typed_decidable (stage : PipelineStage) : Decidable stage.Typed :=
  inferInstanceAs (Decidable (_ ∧ _))

/-! ## Numbers -/

/-- An `int` comes back from its text. -/
theorem fromChars_toString {z : Int} (hz : IsInt z) (old : Int) :
    fromChars (toString z).toList old = z := by
  rw [toList_toString_int]
  unfold fromChars
  by_cases hneg : z < 0
  · have habs : -(z.natAbs : Int) = z := by omega
    rw [if_pos hneg]
    simp only [takeWhile_toDigits, foldl_toDigits, if_true, habs]
    exact if_neg hz.accepted
  · have habs : (z.natAbs : Int) = z := by omega
    rw [if_neg hneg]
    split
    next negative rest hsign =>
      split at hsign
      · next rest' hcons =>
          -- digits do not begin with a sign
          exact absurd hcons (toDigits_ne_cons rfl _ rest')
      · obtain ⟨rfl, rfl⟩ := Prod.mk.inj hsign
        simp only [takeWhile_toDigits, foldl_toDigits, Bool.false_eq_true, if_false, habs]
        exact if_neg hz.accepted

/-! ## One stage -/

theorem cutTab_append {front rest : List Char} (h : '\t' ∉ front) :
    cutTab (front ++ '\t' :: rest) = some (front, rest) := by
  unfold cutTab
  rw [if_pos (List.mem_append_right _ List.mem_cons_self), takeWhile_separator h,
    dropWhile_separator h]
  rfl

theorem cutTab_eq_some {cs front rest : List Char} (h : cutTab cs = some (front, rest)) :
    '\t' ∉ front ∧ cs = front ++ '\t' :: rest := by
  unfold cutTab at h
  split at h
  · next hmem =>
      obtain ⟨rfl, rfl⟩ := Prod.mk.inj (Option.some.inj h)
      exact ⟨separator_notMem_takeWhile cs, (takeWhile_append_drop hmem).symm⟩
  · cases h

theorem deserializeStage_serializeStage {stage : PipelineStage} (hplain : stage.Plain)
    (htyped : stage.Typed) : deserializeStage (serializeStage stage) = .ok stage := by
  obtain ⟨⟨hoperation, -⟩, hargs, -⟩ := hplain
  have hinput : '\t' ∉ (toString stage.inputStage).toList :=
    notMem_toString_int (by decide) (by decide) _
  have hserialized : serializeStage stage = stage.operation.toList ++ '\t' ::
      (stage.args.toList ++ '\t' :: ((toString stage.inputStage).toList ++ '\t' ::
        (toString stage.outputStage).toList)) := by
    simp [serializeStage]
  rw [hserialized]
  unfold deserializeStage
  rw [cutTab_append hoperation]
  dsimp only
  rw [cutTab_append hargs]
  dsimp only
  rw [cutTab_append hinput]
  dsimp only
  rw [String.ofList_toList, String.ofList_toList, fromChars_toString htyped.1,
    fromChars_toString htyped.2]

theorem lineBreak_notMem_serializeStage {stage : PipelineStage} (h : stage.Plain) :
    '\n' ∉ serializeStage stage := by
  obtain ⟨⟨-, hoperation⟩, -, hargs⟩ := h
  have hnumber : ∀ z : Int, '\n' ∉ (toString z).toList :=
    notMem_toString_int (by decide) (by decide)
  have htab : '\n' ≠ '\t' := by decide
  simp only [serializeStage, List.mem_append, List.mem_cons, not_or]
  exact ⟨⟨⟨hoperation, htab, hargs⟩, htab, hnumber _⟩, htab, hnumber _⟩

/-- What is read from one line is plain. -/
theorem plain_of_deserializeStage {line : List Char} {stage : PipelineStage}
    (hline : '\n' ∉ line) (h : deserializeStage line = .ok stage) : stage.Plain := by
  unfold deserializeStage at h
  split at h
  · cases h
  · next operation rest hfirst =>
      obtain ⟨hoperation, rfl⟩ := cutTab_eq_some hfirst
      split at h
      · cases h
      · next args rest' hsecond =>
          obtain ⟨hargs, rfl⟩ := cutTab_eq_some hsecond
          split at h
          · cases h
          · obtain rfl := Except.ok.inj h
            simp only [List.mem_append, List.mem_cons, not_or] at hline
            obtain ⟨hoperation', -, hargs', -⟩ := hline
            unfold PipelineStage.Plain
            rw [String.toList_ofList, String.toList_ofList]
            exact ⟨⟨hoperation, hoperation'⟩, hargs, hargs'⟩

/-! ## All stages -/

theorem plain_of_deserializeStages {lines : List (List Char)} {stages : List PipelineStage}
    (hlines : ∀ line ∈ lines, '\n' ∉ line) (h : deserializeStages lines = .ok stages) :
    ∀ stage ∈ stages, stage.Plain := by
  induction lines generalizing stages with
  | nil =>
      obtain rfl := Except.ok.inj h
      exact fun stage hmem => absurd hmem List.not_mem_nil
  | cons line rest ih =>
      obtain ⟨hline, hrest⟩ := List.forall_mem_cons.mp hlines
      unfold deserializeStages at h
      split at h
      · exact ih hrest h
      · split at h
        · cases h
        · next stage hstage =>
            split at h
            · cases h
            · next stages' hstages =>
                obtain rfl := Except.ok.inj h
                exact List.forall_mem_cons.mpr
                  ⟨plain_of_deserializeStage hline hstage, ih hrest hstages⟩

theorem deserializeStages_map {stages : List PipelineStage} (hplain : ∀ stage ∈ stages, stage.Plain)
    (htyped : ∀ stage ∈ stages, stage.Typed) :
    deserializeStages (stages.map serializeStage) = .ok stages := by
  induction stages with
  | nil => rfl
  | cons stage rest ih =>
      obtain ⟨hstage, hrest⟩ := List.forall_mem_cons.mp hplain
      obtain ⟨hstage', hrest'⟩ := List.forall_mem_cons.mp htyped
      have hnonempty : (serializeStage stage).isEmpty = false := by
        simp [serializeStage]
      rw [List.map_cons, deserializeStages, hnonempty, if_neg Bool.false_ne_true,
        deserializeStage_serializeStage hstage hstage', ih hrest hrest']

/-- Plain pipelines come back from their text. -/
theorem deserializePipeline_serializePipeline {p : Pipeline}
    (hplain : ∀ stage ∈ p.stages, stage.Plain) (htyped : ∀ stage ∈ p.stages, stage.Typed) :
    deserializePipeline (serializePipeline p) = .ok p := by
  obtain ⟨stages⟩ := p
  unfold deserializePipeline serializePipeline
  rw [String.toList_ofList]
  cases stages with
  | nil => rfl
  | cons stage rest =>
      have hlines : ∀ line ∈ (stage :: rest).map serializeStage, '\n' ∉ line := by
        intro line hline
        obtain ⟨stage', hmem, rfl⟩ := List.mem_map.mp hline
        exact lineBreak_notMem_serializeStage (hplain stage' hmem)
      rw [List.splitOn_intercalate '\n' hlines (by simp),
        deserializeStages_map hplain htyped]

/-- Whatever is read from a text is plain. -/
theorem plain_of_deserializePipeline {text : String} {p : Pipeline}
    (h : deserializePipeline text = .ok p) : ∀ stage ∈ p.stages, stage.Plain := by
  unfold deserializePipeline at h
  split at h
  · cases h
  · next stages hstages =>
      obtain rfl := Except.ok.inj h
      exact plain_of_deserializeStages (fun line hline => separator_notMem_splitOn hline) hstages

end Labios
