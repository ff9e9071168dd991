import Labios.Client.DoubleText
import Labios.Client.IntText
import Labios.Foundation.Separators
import Labios.Solver.Workers

/-!
# The wire format of the worker registry

`labios/worker_registry_protocol.cpp`: a line per worker, `id,available,capacity,load,speed,
energy,tier`. The extension variables of a worker are not sent. A byte of a text is a character
here.
-/

namespace Labios

open Foundation Elastic

/-! ## Rows -/

/-- A `WorkerInfo` as it is read from a row, where its doubles may be infinite or no numbers. -/
structure WorkerRow where
  id : Int
  available : Bool
  capacity : Double
  load : Double
  speed : Int
  energy : Int
  tier : WorkerTier := .databot
  skills : ℚ := 0
  compute : ℚ := 1
  reasoning : Int := 0
  deriving DecidableEq

/-- `std::clamp(level, 0, 2)` as a tier. -/
def tierOfLevel (level : Int) : WorkerTier :=
  if level ≤ 0 then .databot else if level = 1 then .pipeline else .agentic

/-- The optional last field; none where `stoi` throws. -/
def decodeTier (ls : List Char) : Option WorkerTier :=
  match getline ',' ls with
  | some (token, _) => if token = [] then some .databot else (stoi token).map tierOfLevel
  | none => some .databot

def decodeWorkerRow (tiny : ℚ → Bool) (line : List Char) : Option WorkerRow := do
  let (token, ls) ← getline ',' line
  let id ← stoi token
  let (token, ls) ← getline ',' ls
  let available := decide (token = ['1'])
  let (token, ls) ← getline ',' ls
  let capacity ← stod tiny token
  let (token, ls) ← getline ',' ls
  let load ← stod tiny token
  let (token, ls) ← getline ',' ls
  let speed ← stoi token
  let (token, ls) ← getline ',' ls
  let energy ← stoi token
  let tier ← decodeTier ls
  return { id, available, capacity, load, speed, energy, tier }

def encodeWorkerRow (w : WorkerInfo) : List Char :=
  (toString w.id).toList ++ ',' :: ((if w.available then ['1'] else ['0']) ++
    ',' :: (fixedText w.capacity ++ ',' :: (fixedText w.load ++
      ',' :: ((toString w.speed).toList ++ ',' :: ((toString w.energy).toList ++
        ',' :: (toString (w.tier.level : Int)).toList)))))

/-! ## Registries -/

structure WorkerRegistrySnapshot where
  workers : List WorkerRow := []
  malformedRows : Nat := 0
  deriving DecidableEq

def encodeWorkerRegistry (workers : List WorkerInfo) : List Char :=
  workers.flatMap fun w => encodeWorkerRow w ++ ['\n']

/-- The loop over the lines. -/
def WorkerRegistrySnapshot.addLine (tiny : ℚ → Bool) (snapshot : WorkerRegistrySnapshot)
    (line : List Char) : WorkerRegistrySnapshot :=
  if line.isEmpty then snapshot
  else
    match decodeWorkerRow tiny line with
    | some worker => { snapshot with workers := snapshot.workers ++ [worker] }
    | none => { snapshot with malformedRows := snapshot.malformedRows + 1 }

def decodeWorkerRegistry (tiny : ℚ → Bool) (payload : List Char) : WorkerRegistrySnapshot :=
  (pieces '\n' payload).foldl (WorkerRegistrySnapshot.addLine tiny) {}

/-! ## Line by line -/

variable {tiny : ℚ → Bool}

/-- The lines that are not skipped. -/
def registryRows (payload : List Char) : List (List Char) :=
  (payload.splitOn '\n').filter fun line => !line.isEmpty

theorem registryRows_append (p q : List Char) :
    registryRows (p ++ '\n' :: q) = registryRows p ++ registryRows q := by
  unfold registryRows
  rw [List.splitOn_append_cons_self, List.filter_append]

theorem foldl_addLine (lines : List (List Char)) (snapshot : WorkerRegistrySnapshot) :
    lines.foldl (WorkerRegistrySnapshot.addLine tiny) snapshot =
      { workers := snapshot.workers ++
          (lines.filter fun line => !line.isEmpty).filterMap (decodeWorkerRow tiny)
        malformedRows := snapshot.malformedRows +
          (lines.filter fun line => !line.isEmpty).countP fun line =>
            (decodeWorkerRow tiny line).isNone } := by
  induction lines generalizing snapshot with
  | nil => simp
  | cons line rest ih =>
      rw [List.foldl_cons, ih]
      unfold WorkerRegistrySnapshot.addLine
      by_cases hempty : line.isEmpty
      · simp [hempty]
      · rw [if_neg hempty, List.filter_cons_of_pos (by simpa using hempty)]
        cases hrow : decodeWorkerRow tiny line with
        | none =>
            simp only [List.filterMap_cons_none hrow, List.countP_cons, hrow, Option.isNone_none,
              if_true]
            congr 1
            omega
        | some worker =>
            simp [List.filterMap_cons_some hrow, hrow]

/-- Every row is decoded by itself. -/
theorem decodeWorkerRegistry_eq (tiny : ℚ → Bool) (payload : List Char) :
    decodeWorkerRegistry tiny payload =
      { workers := (registryRows payload).filterMap (decodeWorkerRow tiny)
        malformedRows :=
          (registryRows payload).countP fun line => (decodeWorkerRow tiny line).isNone } := by
  unfold decodeWorkerRegistry registryRows
  rw [foldl_addLine, filter_pieces]
  simp

/-- Two payloads with a line break between them. -/
theorem decodeWorkerRegistry_append (tiny : ℚ → Bool) (p q : List Char) :
    decodeWorkerRegistry tiny (p ++ '\n' :: q) =
      { workers := (decodeWorkerRegistry tiny p).workers ++ (decodeWorkerRegistry tiny q).workers
        malformedRows := (decodeWorkerRegistry tiny p).malformedRows +
          (decodeWorkerRegistry tiny q).malformedRows } := by
  rw [decodeWorkerRegistry_eq, decodeWorkerRegistry_eq, decodeWorkerRegistry_eq,
    registryRows_append, List.filterMap_append, List.countP_append]

end Labios
