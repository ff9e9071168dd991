import Mathlib.Logic.Function.Basic

/-!
# Versioned maps

A map from keys to all versions of their values, the oldest first. A key without
versions is absent.
-/

namespace Foundation

abbrev VersionedMap (κ α : Type) := κ → List α

namespace VersionedMap

variable {κ α : Type}

def empty : VersionedMap κ α := fun _ => []

def get (m : VersionedMap κ α) (k : κ) : Option α := (m k).getLast?

/-- Versions are counted from one. -/
def getVersion (m : VersionedMap κ α) (k : κ) (v : Nat) : Option α :=
  if v = 0 then none else (m k)[v - 1]?

def Live (m : VersionedMap κ α) (k : κ) : Prop := m k ≠ []

section Reading

variable {m : VersionedMap κ α} {k : κ} {v : Nat}

theorem getVersion_eq_none (h : (m k).length < v) : m.getVersion k v = none := by
  unfold getVersion
  rw [if_neg (by omega)]
  exact List.getElem?_eq_none (by omega)

theorem getVersion_zero : m.getVersion k 0 = none := if_pos rfl

end Reading

/-! ## Changes -/

section Changes

variable [DecidableEq κ]

/-- The new version comes behind the others. -/
def put (m : VersionedMap κ α) (k : κ) (a : α) : VersionedMap κ α :=
  Function.update m k (m k ++ [a])

def del (m : VersionedMap κ α) (k : κ) : VersionedMap κ α := Function.update m k []

variable {m : VersionedMap κ α} {k k' : κ} {a : α} {v : Nat}

theorem put_self : m.put k a k = m k ++ [a] := Function.update_self ..

theorem put_ne (h : k' ≠ k) : m.put k a k' = m k' := Function.update_of_ne h ..

theorem del_self : m.del k k = [] := Function.update_self ..

theorem del_ne (h : k' ≠ k) : m.del k k' = m k' := Function.update_of_ne h ..

theorem get_put_self : (m.put k a).get k = some a := by
  unfold get
  rw [put_self]
  exact List.getLast?_concat

theorem live_put_self : (m.put k a).Live k := by
  unfold Live
  rw [put_self]
  simp

/-- A put adds one version and keeps the others. -/
theorem getVersion_put_self :
    (m.put k a).getVersion k v =
      if v = (m k).length + 1 then some a else m.getVersion k v := by
  unfold getVersion
  rw [put_self]
  by_cases hzero : v = 0
  · subst hzero
    rw [if_pos rfl, if_neg (by omega), if_pos rfl]
  · rw [if_neg hzero, if_neg hzero]
    by_cases hlast : v = (m k).length + 1
    · subst hlast
      rw [if_pos rfl]
      exact List.getElem?_concat_length
    · rw [if_neg hlast]
      by_cases hlt : v - 1 < (m k).length
      · exact List.getElem?_append_left hlt
      · have hlength : (m k ++ [a]).length ≤ v - 1 := by
          rw [List.length_append, List.length_singleton]
          omega
        rw [List.getElem?_eq_none hlength, List.getElem?_eq_none (by omega)]

end Changes

end VersionedMap
end Foundation
