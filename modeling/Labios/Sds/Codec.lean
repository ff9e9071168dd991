import Labios.Label.Basic

/-!
# The pipeline text

`serialize_pipeline` and `deserialize_pipeline` of `labios/sds/types.cpp`: one
line for each stage, its four fields separated by tabs. Nothing is escaped.
-/

namespace Labios

/-- `std::from_chars` on an `int`: the longest numeral in front, the old value when
there is none or when it does not fit. -/
def fromChars (cs : List Char) (old : Int) : Int :=
  let (negative, rest) := match cs with
    | '-' :: rest => (true, rest)
    | _ => (false, cs)
  let digits := rest.takeWhile Char.isDigit
  let magnitude : Int := digits.foldl (fun n c => 10 * n + (c.toNat - 48 : Nat)) 0
  let value := if negative then -magnitude else magnitude
  if digits = [] ∨ value < -2147483648 ∨ 2147483647 < value then old else value

def serializeStage (stage : PipelineStage) : List Char :=
  stage.operation.toList ++ '\t' :: stage.args.toList ++ '\t' ::
    (toString stage.inputStage).toList ++ '\t' :: (toString stage.outputStage).toList

def serializePipeline (p : Pipeline) : String :=
  String.ofList (['\n'].intercalate (p.stages.map serializeStage))

/-- What stands before and after the first tab. -/
def cutTab (cs : List Char) : Option (List Char × List Char) :=
  if '\t' ∈ cs then some (cs.takeWhile (· ≠ '\t'), (cs.dropWhile (· ≠ '\t')).drop 1) else none

def deserializeStage (line : List Char) : Except String PipelineStage :=
  match cutTab line with
  | none => .error "malformed pipeline stage: missing operation"
  | some (operation, rest) =>
      match cutTab rest with
      | none => .error "malformed pipeline stage: missing args"
      | some (args, rest) =>
          match cutTab rest with
          | none => .error "malformed pipeline stage: missing input_stage"
          | some (input, output) =>
              .ok
                { operation := String.ofList operation
                  args := String.ofList args
                  inputStage := fromChars input (-1)
                  outputStage := fromChars output (-1) }

/-- The loop over the lines; the first malformed one throws. -/
def deserializeStages : List (List Char) → Except String (List PipelineStage)
  | [] => .ok []
  | line :: rest =>
      if line.isEmpty then deserializeStages rest
      else
        match deserializeStage line with
        | .error text => .error text
        | .ok stage =>
            match deserializeStages rest with
            | .error text => .error text
            | .ok stages => .ok (stage :: stages)

def deserializePipeline (s : String) : Except String Pipeline :=
  match deserializeStages (s.toList.splitOn '\n') with
  | .error text => .error text
  | .ok stages => .ok { stages }

example : deserializePipeline (serializePipeline { stages :=
      [{ operation := "builtin://identity", args := "" },
        { operation := "builtin://truncate", args := "4", inputStage := 0, outputStage := 7 }] }) =
    .ok { stages := [{ operation := "builtin://identity", args := "" },
        { operation := "builtin://truncate", args := "4", inputStage := 0, outputStage := 7 }] } := by
  decide

end Labios
