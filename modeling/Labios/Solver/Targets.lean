import Labios.Foundation.Cyclic
import Labios.Solver.Assignment

/-!
# Who gets which label

The solvers differ in whom they push the next label to. `assignTo_partitions` says that whoever
that is, the labels are shared out; `roundRobinLoop_eq` names the targets of round-robin, which go
round the list of ids.
-/

namespace Labios

open Foundation AssignmentMap

variable {α : Type}

namespace AssignmentMap

/-! ## What a worker is given -/

def labelsOf (key : Int) : AssignmentMap α → List α
  | [] => []
  | (k, labels) :: rest => if k = key then labels else labelsOf key rest

theorem length_labelsOf (key : Int) (map : AssignmentMap α) :
    (map.labelsOf key).length = map.count key := by
  induction map with
  | nil => rfl
  | cons entry rest ih =>
      rw [labelsOf, AssignmentMap.count]
      split
      · rfl
      · exact ih

theorem labelsOf_push (w key : Int) (label : α) (map : AssignmentMap α) :
    (map.push key label).labelsOf w = map.labelsOf w ++ if key = w then [label] else [] := by
  induction map with
  | nil => rfl
  | cons entry rest ih =>
      obtain ⟨k, labels⟩ := entry
      by_cases hk : k = key
      · subst hk
        by_cases hw : k = w
        · simp [push, labelsOf, hw]
        · simp [push, labelsOf, hw]
      · by_cases hw : k = w
        · subst hw
          simp [push, labelsOf, hk, Ne.symm hk]
        · simp [push, labelsOf, hk, hw, ih]

/-- A worker has the labels that were pushed to it, in their order. -/
theorem labelsOf_assignTo (w : Int) (targets : List (Int × α)) (map : AssignmentMap α) :
    (map.assignTo targets).labelsOf w =
      map.labelsOf w ++ (targets.filter fun t => t.1 = w).map (·.2) := by
  induction targets generalizing map with
  | nil => exact (List.append_nil _).symm
  | cons t rest ih =>
      have hstep : map.assignTo (t :: rest) = (map.push t.1 t.2).assignTo rest := rfl
      rw [hstep, ih, labelsOf_push, List.append_assoc]
      by_cases hw : t.1 = w
      · simp [hw]
      · simp [hw]

theorem keys_push (key : Int) (label : α) (map : AssignmentMap α) :
    (map.push key label).map (·.1) =
      if key ∈ map.map (·.1) then map.map (·.1) else map.map (·.1) ++ [key] := by
  induction map with
  | nil => rfl
  | cons entry rest ih =>
      obtain ⟨k, labels⟩ := entry
      by_cases hk : k = key
      · simp [push, hk]
      · rw [push, if_neg hk, List.map_cons, ih, List.map_cons]
        simp only [List.mem_cons, Ne.symm hk, false_or]
        split
        · rfl
        · rfl

theorem mem_keys_assignTo {w : Int} (targets : List (Int × α)) (map : AssignmentMap α) :
    w ∈ (map.assignTo targets).map (·.1) ↔ w ∈ map.map (·.1) ∨ w ∈ targets.map (·.1) := by
  induction targets generalizing map with
  | nil => exact (or_iff_left List.not_mem_nil).symm
  | cons t rest ih =>
      have hstep : map.assignTo (t :: rest) = (map.push t.1 t.2).assignTo rest := rfl
      have hpush : w ∈ (map.push t.1 t.2).map (·.1) ↔ w ∈ map.map (·.1) ∨ w = t.1 := by
        rw [keys_push]
        split
        · next hmem => exact ⟨.inl, fun h => h.elim id fun heq => heq ▸ hmem⟩
        · rw [List.mem_append, List.mem_singleton]
      rw [hstep, ih, hpush, List.map_cons, List.mem_cons, or_assoc]

theorem nodup_keys_assignTo (targets : List (Int × α)) {map : AssignmentMap α}
    (h : (map.map (·.1)).Nodup) : ((map.assignTo targets).map (·.1)).Nodup := by
  induction targets generalizing map with
  | nil => exact h
  | cons t rest ih =>
      refine ih ?_
      rw [keys_push]
      split
      · exact h
      · next hmem => exact List.nodup_append_comm.mp (List.nodup_cons.mpr ⟨hmem, h⟩)

/-! ## Labels that are shared out -/

/-- Every label has an owner among the ids, and a worker is given the labels that it owns, in the
order of the list. -/
def Partitions (map : AssignmentMap α) (labels : List α) (ids : List Int) : Prop :=
  ∃ owners : List Int, owners.length = labels.length ∧ (∀ id ∈ owners, id ∈ ids) ∧
    (map.map (·.1)).Nodup ∧ (∀ id ∈ map.map (·.1), id ∈ owners) ∧
      ∀ w, map.labelsOf w = ((owners.zip labels).filter fun t => t.1 = w).map (·.2)

theorem assignTo_partitions {owners ids : List Int} {labels : List α}
    (hlength : owners.length = labels.length) (hids : ∀ id ∈ owners, id ∈ ids) :
    (assignTo [] (owners.zip labels)).Partitions labels ids := by
  refine ⟨owners, hlength, hids, nodup_keys_assignTo _ List.nodup_nil, fun id hid => ?_,
    fun w => labelsOf_assignTo w _ _⟩
  have hkeys := (mem_keys_assignTo _ _).mp hid
  rw [List.map_nil, or_iff_right List.not_mem_nil, List.map_fst_zip hlength.le] at hkeys
  exact hkeys

theorem assignTo_append (map : AssignmentMap α) (front back : List (Int × α)) :
    map.assignTo (front ++ back) = (map.assignTo front).assignTo back := List.foldl_append

end AssignmentMap

/-! ## Targets that go round -/

/-- The workers under a cursor that moves `n` times. -/
def cursorTargets (ids : List Int) : Nat → Nat → List Int
  | 0, _ => []
  | n + 1, next => ids.getD next 0 :: cursorTargets ids n ((next + 1) % ids.length)

theorem wrapCursor_mod {ids : List Int} (h : ids ≠ []) (next : Nat) :
    wrapCursor (next % ids.length) ids.length = next % ids.length := by
  have hpos := List.length_pos_iff.mpr h
  have hlt := Nat.mod_lt next hpos
  exact if_neg (by omega)

theorem wrapCursor_lt {ids : List Int} (h : ids ≠ []) (next : Nat) :
    wrapCursor next ids.length < ids.length := by
  have hpos := List.length_pos_iff.mpr h
  unfold wrapCursor
  split
  · exact hpos
  · omega

theorem cursorTargets_eq {ids : List Int} {next : Nat} (h : next < ids.length) (n : Nat) :
    cursorTargets ids n next = (cyclicWalk ids.length next n).map fun i => ids.getD i 0 := by
  induction n generalizing next with
  | zero => rfl
  | succ n ih =>
      have hlt : (next + 1) % ids.length < ids.length := Nat.mod_lt _ (Nat.zero_lt_of_lt h)
      rw [cursorTargets, cyclicWalk_succ, List.map_cons, Nat.mod_eq_of_lt h, ih hlt, cyclicWalk_mod]

/-- The label loop pushes to the workers under the cursor. -/
theorem roundRobinLoop_eq {ids : List Int} {next : Nat} (h : next < ids.length) (labels : List α)
    (map : AssignmentMap α) :
    roundRobinLoop ids next labels map =
      (map.assignTo ((cursorTargets ids labels.length next).zip labels),
        (next + labels.length) % ids.length) := by
  induction labels generalizing next map with
  | nil => exact congrArg (map, ·) (Nat.mod_eq_of_lt h).symm
  | cons label rest ih =>
      have hlt : (next + 1) % ids.length < ids.length := Nat.mod_lt _ (Nat.zero_lt_of_lt h)
      rw [roundRobinLoop, ih hlt, Nat.mod_add_mod, Nat.add_assoc, Nat.add_comm 1]
      rfl

theorem roundRobinAssign_eq {workers : List WorkerInfo} (h : availableIds workers ≠ [])
    (next : Nat) (labels : List α) :
    roundRobinAssign next labels workers =
      (assignTo [] ((cursorTargets (availableIds workers) labels.length
          (wrapCursor next (availableIds workers).length)).zip labels),
        (wrapCursor next (availableIds workers).length + labels.length) %
          (availableIds workers).length) := by
  unfold roundRobinAssign
  dsimp only
  rw [if_neg (by simpa using h), roundRobinLoop_eq (wrapCursor_lt h next)]

/-- An id that is in the list once has one place. -/
theorem getD_inj_of_count {ids : List Int} {i j : Nat} (hi : i < ids.length) (hj : j < ids.length)
    (honce : ids.count (ids.getD j 0) = 1) (heq : ids.getD i 0 = ids.getD j 0) : i = j := by
  have hnot : ¬ids.Duplicate (ids.getD j 0) := by
    rw [List.duplicate_iff_two_le_count, honce]
    decide
  rw [List.duplicate_iff_exists_distinct_get] at hnot
  have hgeti : ids.getD i 0 = ids.get ⟨i, hi⟩ := List.getD_eq_getElem ids 0 hi
  have hgetj : ids.getD j 0 = ids.get ⟨j, hj⟩ := List.getD_eq_getElem ids 0 hj
  rcases Nat.lt_trichotomy i j with hlt | heq' | hlt
  · exact absurd ⟨⟨i, hi⟩, ⟨j, hj⟩, hlt, heq.symm.trans hgeti, hgetj⟩ hnot
  · exact heq'
  · exact absurd ⟨⟨j, hj⟩, ⟨i, hi⟩, hlt, hgetj, heq.symm.trans hgeti⟩ hnot

/-- The visits to the place of such an id are the labels that it gets. -/
theorem count_getD_cyclicWalk {ids : List Int} {size j : Nat} (hsize : size ≤ ids.length)
    (hj : j < size) (honce : ids.count (ids.getD j 0) = 1) (start steps : Nat) :
    ((cyclicWalk size start steps).map fun i => ids.getD i 0).count (ids.getD j 0) =
      (cyclicWalk size start steps).count j := by
  unfold List.count
  rw [List.countP_map]
  refine List.countP_congr fun i hi => ?_
  have hlt := lt_of_mem_cyclicWalk (Nat.zero_lt_of_lt hj) hi
  show (ids.getD i 0 == ids.getD j 0) = true ↔ (i == j) = true
  rw [beq_iff_eq, beq_iff_eq]
  constructor
  · exact getD_inj_of_count (by omega) (by omega) honce
  · rintro rfl
    rfl

end Labios
