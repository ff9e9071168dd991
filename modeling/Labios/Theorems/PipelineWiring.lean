import Labios.Sds.Executor
import Labios.Sds.Wiring

/-!
# The run-length functions are inverse

What `compress_rle` writes and that `decompress_rle` reads it back, for every input.
-/

namespace Labios

open Foundation

/-- Every input is compressed to at most twice its length, in pairs whose count is between
1 and 255 and whose neighbours carry equal bytes only at a run of 255; decompressing
returns the input. The arguments of both functions are ignored. -/
theorem compress_rle_round_trip (x : List UInt8) (args args' : String) :
    ∃ y, fnCompressRle x args = .ok y ∧ y.length % 2 = 0 ∧ y.length ≤ 2 * x.length ∧
      (∀ p ∈ rlePairs y, 1 ≤ p.2.toNat ∧ p.2.toNat ≤ 255) ∧
      ((rlePairs y).IsChain fun p q => p.1 = q.1 → p.2.toNat = 255) ∧
      fnDecompressRle y args' = .ok x := by
  have hbounds := runs_bounds (show 0 < 255 by decide) x
  have hlength : (compressLoop x).length = 2 * (runs 255 x).length := by
    rw [compressLoop_eq, length_flatMap_rlePair]
  have hpairs : rlePairs (compressLoop x) =
      (runs 255 x).map fun t => (t.1, UInt8.ofNat t.2) := by
    rw [compressLoop_eq, rlePairs_flatMap]
  have heven : (compressLoop x).length % 2 = 0 := by omega
  refine ⟨compressLoop x, rfl, heven, ?_, ?_, ?_, ?_⟩
  · have := length_runs 255 x
    omega
  · intro p hp
    rw [hpairs] at hp
    obtain ⟨t, ht, rfl⟩ := List.mem_map.mp hp
    rw [toNat_count (hbounds t ht).2]
    exact hbounds t ht
  · rw [hpairs, List.isChain_map]
    refine (runs_split (by decide) x).imp_of_mem_imp fun s t hs ht hst heq => ?_
    rw [toNat_count (hbounds s hs).2]
    exact hst heq
  · have hdecode : decompressLoop (compressLoop x) = x := by
      rw [compressLoop_eq, decompressLoop_flatMap fun t ht => (hbounds t ht).2, expand_runs]
    show (if _ then _ else _) = _
    rw [if_neg (by omega), hdecode]

end Labios

/-!
## The wiring of a pipeline

Does a pipeline that succeeds follow its declared edges? An edge may be declared at either
end, by `input_stage` or by `output_stage`, and the executor reads the first alone: an
`output_stage` from 0 on is never looked at, and every negative number of either kind is
taken for -1. So the edges are followed exactly when the declarations of the two ends agree
(`pipeline_wired_iff`); where they contradict each other the pipeline succeeds all the same
(`contradiction_succeeds`).
-/

namespace Labios

/-- The run follows the edges that the stages declare. -/
structure PipelineRun.Wired (run : PipelineRun) (repo : ProgramRepository) (pipeline : Pipeline)
    (input : List UInt8) : Prop where
  /-- Every stage ran on the source for -1, and on the output of its input stage else. -/
  inputs : ∀ (i : Nat) (stage : PipelineStage), pipeline.stages[i]? = some stage →
    ∃ r : StageRun, run.runs[i]? = some r ∧
    (∃ fn, repo stage.operation = some fn ∧ fn r.input stage.args = .ok r.output) ∧
    r.input = r.origin.bytes input (run.runs.map (·.output)) ∧
    (stage.inputStage = -1 → r.origin = .source) ∧
    (stage.inputStage ≠ -1 → ∃ j : Nat, stage.inputStage = j ∧ r.origin = .output j)
  /-- The stage that an output stage names ran on that output. -/
  outputs : ∀ (k : Nat) (stage : PipelineStage), pipeline.stages[k]? = some stage →
    ∀ n : Nat, stage.outputStage = n →
    ∃ r : StageRun, run.runs[n]? = some r ∧ r.origin = .output k
  /-- The result is the output of a stage that writes to the destination, if there is one. -/
  result : (∃ stage ∈ pipeline.stages, stage.outputStage = -1) →
    ∃ (k : Nat) (stage : PipelineStage) (r : StageRun), run.final = some k ∧
      pipeline.stages[k]? = some stage ∧ stage.outputStage = -1 ∧ run.runs[k]? = some r ∧ run.result = r.output

/-- The declarations of the two ends agree, and no negative number but -1 is in the way. -/
structure Pipeline.Agrees (pipeline : Pipeline) : Prop where
  inputs : ∀ stage ∈ pipeline.stages, -1 ≤ stage.inputStage
  outputs : ∀ (k : Nat) (stage : PipelineStage), pipeline.stages[k]? = some stage →
    ∀ n : Nat, stage.outputStage = n →
    ∃ next : PipelineStage, pipeline.stages[n]? = some next ∧ next.inputStage = k
  result : (∃ stage ∈ pipeline.stages, stage.outputStage = -1) →
    ∀ (i : Nat) (stage : PipelineStage), pipeline.stages[i]? = some stage →
      stage.outputStage < -1 →
      ∃ (j : Nat) (later : PipelineStage), i < j ∧ pipeline.stages[j]? = some later ∧
        later.outputStage = -1

variable {repo : ProgramRepository} {pipeline : Pipeline} {input : List UInt8} {run : PipelineRun}

/-- What a run that succeeded consists of. -/
theorem tracePipeline_spec (h : tracePipeline repo pipeline input = .ok run) :
    run.runs.length = pipeline.stages.length ∧
      (∀ (i : Nat) (stage : PipelineStage), pipeline.stages[i]? = some stage →
        ∃ r : StageRun, run.runs[i]? = some r ∧ r.RanAs repo input (run.runs.take i) stage) ∧
      (pipeline.stages ≠ [] → run.final = some (finalStage pipeline.stages) ∧
        run.result = (run.runs.map (·.output)).getD (finalStage pipeline.stages) []) := by
  unfold tracePipeline at h
  split at h
  next hempty =>
      obtain rfl := Except.ok.inj h
      have hnil : pipeline.stages = [] := List.isEmpty_iff.mp hempty
      rw [hnil]
      exact ⟨rfl, fun i stage hstage => (by cases hstage), fun hne => absurd rfl hne⟩
  next hempty =>
      cases htrace : traceStages repo input [] pipeline.stages with
      | error text => rw [htrace] at h; cases h
      | ok runs =>
          rw [htrace] at h
          obtain rfl := Except.ok.inj h
          obtain ⟨later, rfl, hlength, hlater⟩ := traceStages_spec htrace
          exact ⟨hlength, hlater, fun _ => ⟨rfl, rfl⟩⟩

/-- The bytes of an origin are those it had when the stage ran. -/
theorem bytes_take {runs : List StageRun} {i : Nat} {stage : PipelineStage} {origin : Origin}
    (hi : i ≤ runs.length) (h : stageOrigin (runs.take i).length stage = .ok origin) :
    origin.bytes input ((runs.take i).map (·.output)) =
      origin.bytes input (runs.map (·.output)) := by
  cases origin with
  | source => rfl
  | output j =>
      have hj := (stageOrigin_eq_output.mp h).2
      rw [List.length_take] at hj
      show ((runs.take i).map _).getD j [] = (runs.map _).getD j []
      rw [List.map_take, List.getD_eq_getElem?_getD, List.getD_eq_getElem?_getD,
        List.getElem?_take_of_lt (by omega)]

theorem agrees_of_wired (hrun : tracePipeline repo pipeline input = .ok run)
    (h : run.Wired repo pipeline input) : pipeline.Agrees := by
  obtain ⟨hlength, hstages, hfinal⟩ := tracePipeline_spec hrun
  refine ⟨fun stage hmem => ?_, fun k stage hstage n hn => ?_, fun hdest i stage hstage hlt => ?_⟩
  · obtain ⟨i, hi, rfl⟩ := List.getElem_of_mem hmem
    obtain ⟨r, -, -, -, -, hother⟩ := h.inputs i _ (List.getElem?_eq_getElem hi)
    by_cases hsource : (pipeline.stages[i]).inputStage = -1
    · omega
    · obtain ⟨j, hj, -⟩ := hother hsource
      omega
  · obtain ⟨r, hr, horigin⟩ := h.outputs k stage hstage n hn
    have hn' : n < pipeline.stages.length := by
      rw [← hlength]
      exact (List.getElem?_eq_some_iff.mp hr).1
    refine ⟨_, List.getElem?_eq_getElem hn', ?_⟩
    obtain ⟨r', hr', hran⟩ := hstages n _ (List.getElem?_eq_getElem hn')
    obtain rfl := Option.some.inj (hr.symm.trans hr')
    exact (stageOrigin_eq_output.mp (horigin ▸ hran.origin)).1
  · obtain ⟨k, last, r, hk, hlast, hout, -⟩ := h.result hdest
    have hne : pipeline.stages ≠ [] := fun he => by
      rw [he] at hlast
      cases hlast
    obtain rfl := Option.some.inj (hk.symm.trans (hfinal hne).1)
    obtain ⟨mem, hmem, -⟩ := hdest
    obtain ⟨last', hlast', -, hlater⟩ := finalStage_spec
      ⟨stage, List.mem_of_getElem? hstage, by omega⟩
    refine ⟨finalStage pipeline.stages, last, ?_, hlast, hout⟩
    rcases Nat.lt_trichotomy i (finalStage pipeline.stages) with hi | hi | hi
    · exact hi
    · rw [hi] at hstage
      obtain rfl := Option.some.inj (hstage.symm.trans hlast)
      omega
    · have := hlater i stage hstage hi
      omega

theorem wired_of_agrees (hrun : tracePipeline repo pipeline input = .ok run)
    (h : pipeline.Agrees) : run.Wired repo pipeline input := by
  obtain ⟨hlength, hstages, hfinal⟩ := tracePipeline_spec hrun
  refine ⟨fun i stage hstage => ?_, fun k stage hstage n hn => ?_, fun hdest => ?_⟩
  · obtain ⟨r, hr, hran⟩ := hstages i stage hstage
    have hi : i < run.runs.length := (List.getElem?_eq_some_iff.mp hr).1
    have horigin := hran.origin
    have hinput := h.inputs stage (List.mem_of_getElem? hstage)
    refine ⟨r, hr, hran.program, hran.input.trans (bytes_take (Nat.le_of_lt hi) horigin),
      fun hsource => ?_, fun hother => ?_⟩
    · exact Except.ok.inj (horigin.symm.trans (stageOrigin_eq_source.mpr (by omega)))
    · refine ⟨stage.inputStage.toNat, by omega, ?_⟩
      cases hcase : r.origin with
      | source =>
          rw [hcase] at horigin
          have := stageOrigin_eq_source.mp horigin
          omega
      | output j =>
          rw [hcase] at horigin
          rw [(stageOrigin_eq_output.mp horigin).1, Int.toNat_natCast]
  · obtain ⟨next, hnext, hinput⟩ := h.outputs k stage hstage n hn
    obtain ⟨r, hr, hran⟩ := hstages n next hnext
    refine ⟨r, hr, ?_⟩
    have horigin := hran.origin
    cases hcase : r.origin with
    | source =>
        rw [hcase] at horigin
        have := stageOrigin_eq_source.mp horigin
        omega
    | output j =>
        rw [hcase] at horigin
        have hj := (stageOrigin_eq_output.mp horigin).1
        rw [show j = k by omega]
  · obtain ⟨mem, hmem, hout⟩ := hdest
    obtain ⟨last, hlast, hneg, hlater⟩ := finalStage_spec ⟨mem, hmem, by omega⟩
    obtain ⟨hk, hresult⟩ := hfinal (List.ne_nil_of_mem hmem)
    obtain ⟨r, hr, -⟩ := hstages _ last hlast
    refine ⟨finalStage pipeline.stages, last, r, hk, hlast, ?_, hr, ?_⟩
    · by_contra hnot
      obtain ⟨j, later, hj, hget, hminus⟩ := h.result ⟨mem, hmem, hout⟩ _ last hlast (by omega)
      have := hlater j later hget hj
      omega
    · rw [hresult, List.getD_eq_getElem?_getD, List.getElem?_map, hr]
      rfl

/-- **Wiring.** A pipeline that succeeds, on any input and with any programs, follows its
declared edges if and only if the declarations of the two ends agree. -/
theorem pipeline_wired_iff {result : List UInt8}
    (h : executeStages repo pipeline input = .ok result) :
    ∃ run, tracePipeline repo pipeline input = .ok run ∧ run.result = result ∧
      (run.Wired repo pipeline input ↔ pipeline.Agrees) := by
  rw [executeStages_eq] at h
  cases hrun : tracePipeline repo pipeline input with
  | error text => rw [hrun] at h; cases h
  | ok run =>
      rw [hrun] at h
      exact ⟨run, rfl, Except.ok.inj h, agrees_of_wired hrun, wired_of_agrees hrun⟩

/-- A repository with three of the builtins. -/
def rleRepository : ProgramRepository := fun operation =>
  if operation = "builtin://identity" then some fnIdentity
  else if operation = "builtin://compress_rle" then some fnCompressRle
  else if operation = "builtin://decompress_rle" then some fnDecompressRle
  else none

/-- One stage after the other, the edge declared at both ends. -/
def chained : Pipeline where
  stages :=
    [{ operation := "builtin://identity", args := "", inputStage := -1, outputStage := 1 },
      { operation := "builtin://decompress_rle", args := "", inputStage := 0, outputStage := -1 }]

/-- The first stage names the second as its reader; the second reads the source. -/
def contradictory : Pipeline where
  stages :=
    [{ operation := "builtin://decompress_rle", args := "", inputStage := -1, outputStage := 1 },
      { operation := "builtin://identity", args := "", inputStage := -1, outputStage := -1 }]

theorem chained_agrees : chained.Agrees := by
  have hno : ∀ stage ∈ chained.stages, ¬stage.outputStage < -1 := by decide
  refine ⟨by decide, fun k stage hstage n hn => ?_,
    fun _ i stage hstage hlt => absurd hlt (hno stage (List.mem_of_getElem? hstage))⟩
  rcases k with _ | _ | k
  · obtain rfl := Option.some.inj hstage
    have hn : (1 : Int) = n := hn
    obtain rfl : n = 1 := by omega
    exact ⟨_, rfl, rfl⟩
  · obtain rfl := Option.some.inj hstage
    have hn : (-1 : Int) = n := hn
    omega
  · cases hstage

theorem chained_wired :
    ∃ run, tracePipeline rleRepository chained [7, 3] = .ok run ∧ run.result = [7, 7, 7] ∧
      run.Wired rleRepository chained [7, 3] := by
  have hresult : executeStages rleRepository chained [7, 3] = .ok [7, 7, 7] := by decide
  obtain ⟨run, hrun, hresult, hwired⟩ := pipeline_wired_iff hresult
  exact ⟨run, hrun, hresult, hwired.mpr chained_agrees⟩

/-- The output of the first stage goes nowhere, and the pipeline succeeds. -/
theorem contradiction_succeeds :
    executeStages rleRepository contradictory [7, 3] = .ok [7, 3] ∧
      ∀ run, tracePipeline rleRepository contradictory [7, 3] = .ok run →
        ¬run.Wired rleRepository contradictory [7, 3] := by
  refine ⟨by decide, fun run hrun hwired => ?_⟩
  obtain ⟨next, hnext, hinput⟩ := (agrees_of_wired hrun hwired).outputs 0 _ rfl 1 rfl
  obtain rfl := Option.some.inj hnext
  exact absurd hinput (by decide)

end Labios
