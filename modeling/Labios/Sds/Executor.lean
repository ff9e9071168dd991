import Labios.Foundation.RunLength
import Labios.Label.Basic

/-!
# Running an SDS pipeline

`execute_pipeline` of `labios/sds/executor.cpp`. The program repository is a
parameter: what each registered function computes from its input and arguments.
-/

namespace Labios

/-- `SdsFunction`; a failed stage carries its error text. -/
abbrev SdsFunction := List UInt8 → String → Except String (List UInt8)

/-- `ProgramRepository::lookup`. -/
abbrev ProgramRepository := String → Option SdsFunction

/-- The input of stage `i`; `outputs` are those of the stages before it. -/
def stageInput (source : List UInt8) (outputs : List (List UInt8)) (i : Nat)
    (stage : PipelineStage) : Except String (List UInt8) :=
  if stage.inputStage < 0 then .ok source
  else if stage.inputStage < i then .ok (outputs.getD stage.inputStage.toNat [])
  else
    .error ("stage " ++ toString i ++ " references future or self input_stage=" ++
      toString stage.inputStage)

/-- The loop over the stages: the outputs of all of them. -/
def runStages (repo : ProgramRepository) (source : List UInt8) :
    List (List UInt8) → List PipelineStage → Except String (List (List UInt8))
  | outputs, [] => .ok outputs
  | outputs, stage :: rest =>
      match repo stage.operation with
      | none => .error ("unknown SDS function: " ++ stage.operation)
      | some fn =>
          match stageInput source outputs outputs.length stage with
          | .error text => .error text
          | .ok input =>
              match fn input stage.args with
              | .error text => .error text
              | .ok output => runStages repo source (outputs ++ [output]) rest

/-- The output of the last stage that writes to the destination, else of the last
stage. -/
def finalOutput (stages : List PipelineStage) (outputs : List (List UInt8)) : List UInt8 :=
  match (stages.zip outputs).reverse.find? (fun p => p.1.outputStage < 0) with
  | some p => p.2
  | none => (outputs.getLast?).getD []

def executeStages (repo : ProgramRepository) (pipeline : Pipeline) (input : List UInt8) :
    Except String (List UInt8) :=
  if pipeline.empty then .ok input
  else
    match runStages repo input [] pipeline.stages with
    | .error text => .error text
    | .ok outputs => .ok (finalOutput pipeline.stages outputs)

end Labios

/-!
## Built-in pipeline functions

`fn_identity` and the run-length pair of `labios/sds/builtins.cpp`: `fn_compress_rle`
writes each run as the byte and its count, a run longer than 255 as several pairs;
`fn_decompress_rle` repeats each byte by its count. Both read a list from the current index on, and both are
connected to the runs of a list (`Foundation.runs`, `Foundation.expand`).
-/

namespace Labios

open Foundation

/-- `builtin://identity`. -/
def fnIdentity : SdsFunction := fun input _args => .ok input

/-- The loop of `fn_compress_rle`; the list is the input from index `i` on. -/
def compressLoop : List UInt8 → List UInt8
  | [] => []
  | val :: rest =>
      val :: UInt8.ofNat (scanRun 255 val 1 rest) ::
        compressLoop (rest.drop (scanRun 255 val 1 rest - 1))
termination_by input => input.length
decreasing_by
  simp only [List.length_drop, List.length_cons]
  omega

/-- `builtin://compress_rle`. -/
def fnCompressRle : SdsFunction := fun input _args => .ok (compressLoop input)

/-- The loop of `fn_decompress_rle`, which takes two bytes a round. -/
def decompressLoop : List UInt8 → List UInt8
  | val :: count :: rest => List.replicate count.toNat val ++ decompressLoop rest
  | _ => []

/-- `builtin://decompress_rle`. -/
def fnDecompressRle : SdsFunction := fun input _args =>
  if input.length % 2 ≠ 0 then
    .error "RLE data must have even length (byte,count pairs)"
  else .ok (decompressLoop input)

/-- The (byte, count) pairs of run-length data. -/
def rlePairs : List UInt8 → List (UInt8 × UInt8)
  | val :: count :: rest => (val, count) :: rlePairs rest
  | _ => []

/-! ## The encoder writes the runs of its input -/

/-- The pair a run is written as. -/
def rlePair (t : UInt8 × Nat) : List UInt8 := [t.1, UInt8.ofNat t.2]

theorem compressLoop_eq (input : List UInt8) :
    compressLoop input = (runs 255 input).flatMap rlePair := by
  fun_induction compressLoop input with
  | case1 => simp [runs]
  | case2 val rest ih => rw [runs, List.flatMap_cons, ← ih]; rfl

theorem length_flatMap_rlePair (tokens : List (UInt8 × Nat)) :
    (tokens.flatMap rlePair).length = 2 * tokens.length := by
  induction tokens with
  | nil => rfl
  | cons t tokens ih =>
      rw [List.flatMap_cons, List.length_append, ih, List.length_cons]
      show 2 + 2 * tokens.length = 2 * (tokens.length + 1)
      omega

theorem rlePairs_flatMap (tokens : List (UInt8 × Nat)) :
    rlePairs (tokens.flatMap rlePair) = tokens.map fun t => (t.1, UInt8.ofNat t.2) := by
  induction tokens with
  | nil => rfl
  | cons t tokens ih =>
      show (t.1, UInt8.ofNat t.2) :: rlePairs (tokens.flatMap rlePair) = _
      rw [ih, List.map_cons]

/-! ## The decoder expands them -/

theorem toNat_count {n : Nat} (h : n ≤ 255) : (UInt8.ofNat n).toNat = n :=
  UInt8.toNat_ofNat_of_lt' (Nat.lt_succ_of_le h)

theorem decompressLoop_flatMap {tokens : List (UInt8 × Nat)} (h : ∀ t ∈ tokens, t.2 ≤ 255) :
    decompressLoop (tokens.flatMap rlePair) = expand tokens := by
  induction tokens with
  | nil => rfl
  | cons t tokens ih =>
      show List.replicate (UInt8.ofNat t.2).toNat t.1 ++
        decompressLoop (tokens.flatMap rlePair) = _
      rw [ih fun u hu => h u (List.mem_cons_of_mem _ hu), toNat_count (h t List.mem_cons_self),
        expand_cons]

end Labios
