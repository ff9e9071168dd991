import Labios.Sds.Executor

/-!
# Where the bytes of a stage come from

`execute_pipeline` with the origin of every input beside its bytes: two stages may have
equal outputs, so the bytes alone do not say which one a stage ran on. Without the origins
it is the executor (`executeStages_eq`).

Each stage ran on what its `input_stage` says, read as the code reads it
(`traceStages_spec`); `output_stage` only decides whose output is returned
(`finalStage_spec`).
-/

namespace Labios

/-- What an input is a copy of. -/
inductive Origin
  | source
  | output (stage : Nat)
  deriving DecidableEq, Repr

def Origin.bytes (source : List UInt8) (outputs : List (List UInt8)) : Origin → List UInt8
  | .source => source
  | .output stage => outputs.getD stage []

/-- One stage that ran. -/
structure StageRun where
  origin : Origin
  input : List UInt8
  output : List UInt8
  deriving DecidableEq, Repr

/-- The span that `stage_input` is set to, for stage `i`. -/
def stageOrigin (i : Nat) (stage : PipelineStage) : Except String Origin :=
  if stage.inputStage < 0 then .ok .source
  else if stage.inputStage < i then .ok (.output stage.inputStage.toNat)
  else
    .error ("stage " ++ toString i ++ " references future or self input_stage=" ++
      toString stage.inputStage)

def traceStages (repo : ProgramRepository) (source : List UInt8) :
    List StageRun → List PipelineStage → Except String (List StageRun)
  | runs, [] => .ok runs
  | runs, stage :: rest =>
      match repo stage.operation with
      | none => .error ("unknown SDS function: " ++ stage.operation)
      | some fn =>
          match stageOrigin runs.length stage with
          | .error text => .error text
          | .ok origin =>
              match fn (origin.bytes source (runs.map (·.output))) stage.args with
              | .error text => .error text
              | .ok output =>
                  traceStages repo source
                    (runs ++ [{ origin, input := origin.bytes source (runs.map (·.output)), output }])
                    rest

/-- The stage whose output is returned. -/
def finalStage (stages : List PipelineStage) : Nat :=
  ((stages.zipIdx.reverse.find? fun p => p.1.outputStage < 0).map (·.2)).getD (stages.length - 1)

/-- A run that succeeded; `final` is the stage whose output was returned. -/
structure PipelineRun where
  runs : List StageRun := []
  final : Option Nat := none
  result : List UInt8
  deriving DecidableEq, Repr

def tracePipeline (repo : ProgramRepository) (pipeline : Pipeline) (input : List UInt8) :
    Except String PipelineRun :=
  if pipeline.empty then .ok { result := input }
  else
    match traceStages repo input [] pipeline.stages with
    | .error text => .error text
    | .ok runs =>
        .ok
          { runs
            final := some (finalStage pipeline.stages)
            result := (runs.map (·.output)).getD (finalStage pipeline.stages) [] }

/-! ## The executor is the trace without its origins -/

theorem stageInput_eq (source : List UInt8) (outputs : List (List UInt8)) (i : Nat)
    (stage : PipelineStage) :
    stageInput source outputs i stage =
      (stageOrigin i stage).map fun origin => origin.bytes source outputs := by
  unfold stageInput stageOrigin
  split
  · rfl
  · split
    · rfl
    · rfl

theorem runStages_eq (repo : ProgramRepository) (source : List UInt8) (runs : List StageRun)
    (stages : List PipelineStage) :
    runStages repo source (runs.map (·.output)) stages =
      (traceStages repo source runs stages).map fun runs => runs.map (·.output) := by
  induction stages generalizing runs with
  | nil => rfl
  | cons stage rest ih =>
      rw [runStages, traceStages]
      cases repo stage.operation with
      | none => rfl
      | some fn =>
          dsimp only
          rw [List.length_map, stageInput_eq]
          cases stageOrigin runs.length stage with
          | error text => rfl
          | ok origin =>
              dsimp only [Except.map]
              cases fn (origin.bytes source (runs.map (·.output))) stage.args with
              | error text => rfl
              | ok output =>
                  have hrest := ih (runs ++
                    [{ origin, input := origin.bytes source (runs.map (·.output)), output }])
                  rw [List.map_append] at hrest
                  exact hrest

theorem zip_eq_map_zipIdx (stages : List PipelineStage) (outputs : List (List UInt8))
    (h : stages.length = outputs.length) :
    stages.zip outputs = stages.zipIdx.map fun p => (p.1, outputs.getD p.2 []) := by
  refine List.ext_getElem (by simp [h]) fun i h1 h2 => ?_
  have hi : i < outputs.length := by simpa [h] using h1
  simp [List.getD_eq_getElem?_getD, hi]

theorem finalOutput_eq (stages : List PipelineStage) (outputs : List (List UInt8))
    (h : stages.length = outputs.length) :
    finalOutput stages outputs = outputs.getD (finalStage stages) [] := by
  have hfind : (stages.zip outputs).reverse.find? (fun p => p.1.outputStage < 0) =
      (stages.zipIdx.reverse.find? fun p => p.1.outputStage < 0).map
        fun p => (p.1, outputs.getD p.2 []) := by
    rw [zip_eq_map_zipIdx stages outputs h, ← List.map_reverse, List.find?_map]
    rfl
  rw [finalOutput, hfind, finalStage]
  cases stages.zipIdx.reverse.find? fun p => p.1.outputStage < 0 with
  | some p => rfl
  | none =>
      show (outputs.getLast?).getD [] = outputs.getD (stages.length - 1) []
      rw [h, List.getLast?_eq_getElem?, List.getD_eq_getElem?_getD]

/-! ## What a run that succeeds did -/

theorem stageOrigin_eq_source {i : Nat} {stage : PipelineStage} :
    stageOrigin i stage = .ok .source ↔ stage.inputStage < 0 := by
  unfold stageOrigin
  split
  next h => exact ⟨fun _ => h, fun _ => rfl⟩
  next h =>
      split
      · exact ⟨fun he => (by cases he), fun hneg => absurd hneg h⟩
      · exact ⟨fun he => (by cases he), fun hneg => absurd hneg h⟩

theorem stageOrigin_eq_output {i k : Nat} {stage : PipelineStage} :
    stageOrigin i stage = .ok (.output k) ↔ stage.inputStage = k ∧ k < i := by
  unfold stageOrigin
  split
  next h => exact ⟨fun he => (by cases he), fun ⟨hk, _⟩ => by omega⟩
  next h =>
      split
      next hlt =>
          constructor
          · intro he
            have hk : stage.inputStage.toNat = k := Origin.output.inj (Except.ok.inj he)
            omega
          · rintro ⟨hk, -⟩
            rw [hk, Int.toNat_natCast]
      next hge => exact ⟨fun he => (by cases he), fun ⟨hk, hlt⟩ => by omega⟩

/-- The stage ran as its operation says, on what its input stage says. -/
structure StageRun.RanAs (run : StageRun) (repo : ProgramRepository) (source : List UInt8)
    (before : List StageRun) (stage : PipelineStage) : Prop where
  program : ∃ fn, repo stage.operation = some fn ∧ fn run.input stage.args = .ok run.output
  origin : stageOrigin before.length stage = .ok run.origin
  input : run.input = run.origin.bytes source (before.map (·.output))

/-- The runs of the stages follow those that were there. -/
theorem traceStages_spec {repo : ProgramRepository} {source : List UInt8}
    {runs runs' : List StageRun} {stages : List PipelineStage}
    (h : traceStages repo source runs stages = .ok runs') :
    ∃ later, runs' = runs ++ later ∧ later.length = stages.length ∧
      ∀ i stage, stages[i]? = some stage → ∃ run : StageRun, later[i]? = some run ∧
        run.RanAs repo source (runs ++ later.take i) stage := by
  induction stages generalizing runs with
  | nil =>
      obtain rfl := Except.ok.inj h
      exact ⟨[], (List.append_nil _).symm, rfl, fun i stage hstage => by cases hstage⟩
  | cons stage rest ih =>
      rw [traceStages] at h
      cases hprogram : repo stage.operation with
      | none => rw [hprogram] at h; cases h
      | some fn =>
          rw [hprogram] at h
          dsimp only at h
          cases horigin : stageOrigin runs.length stage with
          | error text => rw [horigin] at h; cases h
          | ok origin =>
              rw [horigin] at h
              dsimp only at h
              cases hfn : fn (origin.bytes source (runs.map (·.output))) stage.args with
              | error text => rw [hfn] at h; cases h
              | ok output =>
                  rw [hfn] at h
                  obtain ⟨later, hruns, hlength, hlater⟩ := ih h
                  refine ⟨{ origin, input := origin.bytes source (runs.map (·.output)), output } ::
                    later, ?_, congrArg Nat.succ hlength, fun i next hnext => ?_⟩
                  · rw [hruns, List.append_assoc]
                    rfl
                  · cases i with
                    | zero =>
                        obtain rfl := Option.some.inj hnext
                        refine ⟨_, rfl, ⟨fn, hprogram, hfn⟩, ?_, ?_⟩
                        · rwa [List.take_zero, List.append_nil]
                        · rw [List.take_zero, List.append_nil]
                    | succ i =>
                        obtain ⟨run, hrun, hran⟩ := hlater i next hnext
                        refine ⟨run, hrun, ?_⟩
                        rw [List.append_assoc] at hran
                        exact hran

theorem executeStages_eq (repo : ProgramRepository) (pipeline : Pipeline) (input : List UInt8) :
    executeStages repo pipeline input =
      (tracePipeline repo pipeline input).map PipelineRun.result := by
  unfold executeStages tracePipeline
  split
  · rfl
  · have hruns := runStages_eq repo input [] pipeline.stages
    rw [List.map_nil] at hruns
    rw [hruns]
    cases htrace : traceStages repo input [] pipeline.stages with
    | error text => rfl
    | ok runs =>
        obtain ⟨later, rfl, hlength, -⟩ := traceStages_spec htrace
        refine congrArg Except.ok (finalOutput_eq _ _ ?_)
        rw [List.length_map, hlength]

/-- The last stage with a negative output stage, else the last stage. -/
theorem finalStage_spec {stages : List PipelineStage}
    (h : ∃ stage ∈ stages, stage.outputStage < 0) :
    ∃ stage, stages[finalStage stages]? = some stage ∧ stage.outputStage < 0 ∧
      ∀ i later, stages[i]? = some later → finalStage stages < i → 0 ≤ later.outputStage := by
  have hfound : (stages.zipIdx.reverse.find? fun p => p.1.outputStage < 0).isSome := by
    obtain ⟨stage, hmem, hneg⟩ := h
    obtain ⟨i, hi, rfl⟩ := List.getElem_of_mem hmem
    rw [List.find?_isSome]
    refine ⟨(stages[i], i), List.mem_reverse.mpr ?_, decide_eq_true hneg⟩
    exact List.mem_zipIdx_iff_getElem?.mpr (List.getElem?_eq_getElem hi)
  obtain ⟨p, hp⟩ := Option.isSome_iff_exists.mp hfound
  obtain ⟨hneg, after, before, hlist, hafter⟩ := List.find?_eq_some_iff_append.mp hp
  have hsplit : stages.zipIdx = before.reverse ++ p :: after.reverse := by
    rw [← List.reverse_reverse stages.zipIdx, hlist]
    simp
  -- the stage stands where its own index says
  have hown : stages[before.length]? = some p.1 ∧ p.2 = before.length := by
    have hget : stages.zipIdx[before.length]? = some p := by
      rw [hsplit, List.getElem?_append_right (Nat.le_of_eq List.length_reverse),
        List.length_reverse, Nat.sub_self]
      rfl
    rw [List.getElem?_zipIdx] at hget
    obtain ⟨stage, hstage, rfl⟩ := Option.map_eq_some_iff.mp hget
    exact ⟨hstage, Nat.zero_add _⟩
  have hfinal : finalStage stages = before.length := by
    rw [finalStage, hp]
    exact hown.2
  rw [hfinal]
  refine ⟨p.1, hown.1, of_decide_eq_true hneg, fun i later hlater hlt => ?_⟩
  have hget : stages.zipIdx[i]? = some (later, i) := by
    rw [List.getElem?_zipIdx, hlater, Option.map_some, Nat.zero_add]
  obtain ⟨d, rfl⟩ := Nat.exists_eq_add_of_lt hlt
  rw [hsplit, List.getElem?_append_right (by rw [List.length_reverse]; omega),
    List.length_reverse, show before.length + d + 1 - before.length = d + 1 by omega,
    List.getElem?_cons_succ] at hget
  have hmem := List.mem_reverse.mp (List.mem_of_getElem? hget)
  simpa using hafter _ hmem

end Labios
