import Mathlib.Logic.Function.Basic

/-!
# The warehouse

The staging area in Redis: the bytes under `data_key(id)`, as the
`ContentManager` of `labios/content_manager.cpp` stages, retrieves and removes
them. An absent key reads as no bytes.
-/

namespace Labios

abbrev Warehouse := UInt64 → Option (List UInt8)

namespace Warehouse

def stage (warehouse : Warehouse) (id : UInt64) (data : List UInt8) : Warehouse :=
  Function.update warehouse id (some data)

def retrieve (warehouse : Warehouse) (id : UInt64) : List UInt8 := (warehouse id).getD []

def remove (warehouse : Warehouse) (id : UInt64) : Warehouse :=
  Function.update warehouse id none

variable (warehouse : Warehouse) (id : UInt64) {other : UInt64} (data : List UInt8)

@[simp] theorem retrieve_stage : (warehouse.stage id data).retrieve id = data := by
  simp [stage, retrieve]

theorem retrieve_stage_of_ne (h : other ≠ id) :
    (warehouse.stage id data).retrieve other = warehouse.retrieve other := by
  rw [stage, retrieve, Function.update_of_ne h]
  rfl

theorem retrieve_remove_of_ne (h : other ≠ id) :
    (warehouse.remove id).retrieve other = warehouse.retrieve other := by
  rw [remove, retrieve, Function.update_of_ne h]
  rfl

end Warehouse
end Labios
