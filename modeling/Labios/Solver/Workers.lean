import Labios.Label.Basic
import Mathlib.Algebra.Order.Ring.Unbundled.Rat
import Mathlib.Algebra.Ring.Rat

/-!
# Workers as the scheduler sees them

The part of `labios/solver/solver.h` that the dispatcher and the solvers read,
and the numbers they compute from it. Scores are carried as rationals, as in the
label: a `Scoring` gives the value of each floating-point expression, and
`exactScoring` is the one that never rounds.
-/

namespace Labios

/-- Tier 0 moves data, tier 1 executes pipelines, tier 2 reasons. -/
inductive WorkerTier
  | databot | pipeline | agentic
  deriving DecidableEq, Repr

def WorkerTier.level : WorkerTier → Nat
  | .databot => 0
  | .pipeline => 1
  | .agentic => 2

structure WorkerInfo where
  id : Int
  available : Bool := true
  capacity : Rat := 1
  load : Rat := 0
  speed : Int := 1
  energy : Int := 1
  tier : WorkerTier := .databot
  skills : Rat := 0
  compute : Rat := 1
  reasoning : Int := 0
  deriving DecidableEq, Repr

structure WeightProfile where
  availability : Rat := 0
  capacity : Rat := 0
  load : Rat := 0
  speed : Rat := 0
  energy : Rat := 0
  tier : Rat := 0
  skills : Rat := 0
  compute : Rat := 0
  reasoning : Rat := 0
  deriving DecidableEq, Repr

/-! ## Scores -/

def computeScore (w : WorkerInfo) (wp : WeightProfile) : Rat :=
  wp.availability * (if w.available then 1 else 0) + wp.capacity * w.capacity +
    wp.load * (1 - w.load) + wp.speed * (w.speed / 5) + wp.energy * (w.energy / 5) +
    wp.tier * (w.tier.level / 2) + wp.skills * w.skills + wp.compute * w.compute +
    wp.reasoning * (w.reasoning / 5)

/-- The base profile with its weights raised for an intent. -/
def profileForIntent (base : WeightProfile) : Intent → WeightProfile
  | .checkpoint =>
      { base with
        capacity := max base.capacity (4 / 10)
        speed := max base.speed (4 / 10)
        tier := 0 }
  | .embedding | .modelWeight =>
      { base with tier := max base.tier (4 / 10), speed := max base.speed (3 / 10) }
  | .reasoningTrace | .kvCache => { base with tier := max base.tier (5 / 10) }
  | .cache => { base with speed := max base.speed (4 / 10), load := max base.load (3 / 10) }
  | .intermediate =>
      { base with load := max base.load (2 / 10), availability := max base.availability (5 / 10) }
  | .toolOutput | .finalResult | .sharedState | .none => base

/-- The profit of a worker in the minmax solver. -/
def profit (w : WorkerInfo) : Rat :=
  (w.speed / 5) * w.capacity * (1 - w.load) / max ((w.energy : Rat) / 5) (1 / 100)

/-- `round(fraction * labels)` for a worker of profit `p` among workers of the
given profits. -/
def roundedShare (p : Rat) (profits : List Rat) (labels : Nat) : Nat :=
  let total := profits.sum
  let fraction := if 0 < total then p / total else 1 / profits.length
  (fraction * labels + 1 / 2).floor.toNat

/-- The values of the floating-point expressions of the solvers. -/
structure Scoring where
  score : Intent → WorkerInfo → Rat
  profit : WorkerInfo → Rat
  share : Rat → List Rat → Nat → Nat

def exactScoring (profile : WeightProfile) : Scoring :=
  { score := fun intent w => computeScore w (profileForIntent profile intent)
    profit
    share := roundedShare }

end Labios
