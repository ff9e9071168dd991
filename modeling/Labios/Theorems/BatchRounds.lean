import Labios.Solver.Targets

/-!
# Rounds of the solvers

Who gets the labels of one batch, and of one batch after another.
-/

/-!
## The solvers share the labels out

Round-robin, constraint and minmax push every label of a batch once, to available workers and in
the order of the batch (`solvers_partition`). What differs is the owner of a label: round-robin and
constraint go round a list of ids, and minmax gives each worker a run of labels.
-/

namespace Labios

open Foundation AssignmentMap

variable {α : Type}

/-! ## Round-robin -/

theorem mem_cursorTargets {ids : List Int} {next n : Nat} (h : next < ids.length) {id : Int}
    (hid : id ∈ cursorTargets ids n next) : id ∈ ids := by
  rw [cursorTargets_eq h] at hid
  obtain ⟨i, hi, rfl⟩ := List.mem_map.mp hid
  have hlt := lt_of_mem_cyclicWalk (Nat.zero_lt_of_lt h) hi
  rw [List.getD_eq_getElem ids 0 hlt]
  exact List.getElem_mem hlt

theorem roundRobinAssign_partitions {workers : List WorkerInfo} (h : availableIds workers ≠ [])
    (next : Nat) (labels : List α) :
    (roundRobinAssign next labels workers).1.Partitions labels (availableIds workers) := by
  have hcursor := wrapCursor_lt h next
  rw [roundRobinAssign_eq h]
  refine assignTo_partitions ?_ fun id hid => mem_cursorTargets hcursor hid
  rw [cursorTargets_eq hcursor, List.length_map, cyclicWalk, List.length_map, List.length_range]

/-! ## Constraint -/

section Constraint

variable (S : StdSort) (score : WorkerInfo → Rat) {workers : List WorkerInfo}

/-- The ids by their scores are the available ones. -/
theorem scoredIds_perm :
    ((scoredWorkers S score workers).map (·.id)).Perm (availableIds workers) :=
  (scoredWorkers_perm S workers score).map _

theorem scoredIds_ne_nil (h : availableIds workers ≠ []) :
    (scoredWorkers S score workers).map (·.id) ≠ [] :=
  fun hnil => h (hnil ▸ scoredIds_perm S score).symm.eq_nil

theorem workers_ne_nil_of_available (h : availableIds workers ≠ []) : workers.isEmpty = false := by
  cases workers with
  | nil => exact absurd rfl h
  | cons w rest => rfl

theorem workersNeeded_pos {scored : Nat} (h : 0 < scored) (labels : Nat) :
    0 < workersNeeded scored labels := by
  unfold workersNeeded
  omega

theorem workersNeeded_le (scored labels : Nat) : workersNeeded scored labels ≤ scored :=
  Nat.min_le_left _ _

/-- A list with its indices is a list beside another. -/
theorem map_zipIdx (f : Nat → Int) (labels : List α) :
    (labels.zipIdx.map fun p => (f p.2, p.1)) =
      ((List.range labels.length).map f).zip labels := by
  refine List.ext_getElem (by simp) fun i hi hi' => ?_
  simp

/-- The owners of the labels of a constraint batch. -/
def constraintOwners (workers : List WorkerInfo) (labels : Nat) : List Int :=
  let ids := (scoredWorkers S score workers).map (·.id)
  (cyclicWalk (workersNeeded ids.length labels) 0 labels).map fun i => ids.getD i 0

theorem length_constraintOwners (labels : Nat) :
    (constraintOwners S score workers labels).length = labels := by
  unfold constraintOwners cyclicWalk
  rw [List.length_map, List.length_map, List.length_range]

theorem constraintAssign_eq (h : availableIds workers ≠ []) (labels : List α) :
    constraintAssign S score labels workers =
      assignTo [] ((constraintOwners S score workers labels.length).zip labels) := by
  unfold constraintAssign
  cases labels with
  | nil => rw [List.zip_nil_right]; simp [assignTo]
  | cons label rest =>
      dsimp only
      rw [if_neg (by simpa [workers_ne_nil_of_available h] using scoredIds_ne_nil S score h)]
      rw [map_zipIdx (fun i => ((scoredWorkers S score workers).map (·.id)).getD
        (i % workersNeeded ((scoredWorkers S score workers).map (·.id)).length
          (label :: rest).length) 0)]
      unfold constraintOwners cyclicWalk
      dsimp only
      rw [List.map_map]
      simp only [Function.comp_def, Nat.zero_add]

theorem mem_constraintOwners (h : availableIds workers ≠ []) {labels : Nat} {id : Int}
    (hid : id ∈ constraintOwners S score workers labels) : id ∈ availableIds workers := by
  have hpos := List.length_pos_iff.mpr (scoredIds_ne_nil S score h)
  obtain ⟨i, hi, rfl⟩ := List.mem_map.mp hid
  have hlt := lt_of_mem_cyclicWalk (workersNeeded_pos hpos labels) hi
  have hbound : i < ((scoredWorkers S score workers).map (·.id)).length :=
    hlt.trans_le (workersNeeded_le _ _)
  rw [List.getD_eq_getElem _ 0 hbound]
  exact (scoredIds_perm S score).subset (List.getElem_mem hbound)

theorem constraintAssign_partitions (h : availableIds workers ≠ []) (labels : List α) :
    (constraintAssign S score labels workers).Partitions labels (availableIds workers) := by
  rw [constraintAssign_eq S score h]
  exact assignTo_partitions (length_constraintOwners S score _)
    fun id hid => mem_constraintOwners S score h hid

/-- All workers that are needed get labels: they are the keys of the assignment. -/
theorem keys_constraintAssign (h : availableIds workers ≠ []) (hnodup : (availableIds workers).Nodup)
    {labels : List α} (hlabels : labels ≠ []) :
    ((constraintAssign S score labels workers).map (·.1)).Perm
      (((scoredWorkers S score workers).map (·.id)).take
        (workersNeeded ((scoredWorkers S score workers).map (·.id)).length labels.length)) := by
  have hids := (scoredIds_perm S score).nodup_iff.mpr hnodup
  have hlength := List.length_pos_iff.mpr hlabels
  refine (List.perm_ext_iff_of_nodup ?_ (hids.sublist (List.take_sublist _ _))).mpr fun id => ?_
  · rw [constraintAssign_eq S score h]
    exact nodup_keys_assignTo _ List.nodup_nil
  · rw [constraintAssign_eq S score h, mem_keys_assignTo, List.map_nil,
      or_iff_right List.not_mem_nil, List.map_fst_zip (length_constraintOwners S score _).le,
      constraintOwners, List.mem_map, List.mem_take_iff_getElem]
    have hpos := workersNeeded_pos (List.length_pos_iff.mpr (scoredIds_ne_nil S score h))
      labels.length
    have hneeded : workersNeeded ((scoredWorkers S score workers).map (·.id)).length
        labels.length ≤ ((scoredWorkers S score workers).map (·.id)).length := workersNeeded_le _ _
    constructor
    · rintro ⟨i, hi, rfl⟩
      have hlt := lt_of_mem_cyclicWalk hpos hi
      exact ⟨i, by omega, (List.getD_eq_getElem _ 0 (by omega)).symm⟩
    · rintro ⟨i, hi, rfl⟩
      -- no more workers are needed than there are labels
      refine ⟨i, mem_cyclicWalk (by omega) ?_, List.getD_eq_getElem _ 0 (by omega)⟩
      unfold workersNeeded
      omega

/-- No worker gets more than its share, rounded up. -/
theorem length_labelsOf_constraintAssign_le (h : availableIds workers ≠ [])
    (hnodup : (availableIds workers).Nodup) (labels : List α) (w : Int) :
    ((constraintAssign S score labels workers).labelsOf w).length ≤
      (labels.length + ((constraintAssign S score labels workers).length - 1)) /
        (constraintAssign S score labels workers).length := by
  have hids := (scoredIds_perm S score).nodup_iff.mpr hnodup
  rw [length_labelsOf]
  cases labels with
  | nil =>
      rw [constraintAssign_eq S score h, List.zip_nil_right]
      exact Nat.zero_le _
  | cons label rest =>
      -- the workers that are used are those that are needed
      have hkeys := (keys_constraintAssign S score h hnodup (List.cons_ne_nil label rest)).length_eq
      rw [List.length_map, List.length_take, Nat.min_eq_left (workersNeeded_le _ _)] at hkeys
      rw [hkeys, constraintAssign_eq S score h, count_assignTo,
        List.map_fst_zip (length_constraintOwners S score _).le]
      show 0 + _ ≤ _
      rw [Nat.zero_add]
      by_cases hw : w ∈ constraintOwners S score workers (label :: rest).length
      · obtain ⟨j, hj, rfl⟩ := List.mem_map.mp hw
        have hpos := List.length_pos_iff.mpr (scoredIds_ne_nil S score h)
        have hlt := lt_of_mem_cyclicWalk (workersNeeded_pos hpos _) hj
        have hbound := hlt.trans_le (workersNeeded_le _ _)
        refine (count_getD_cyclicWalk (workersNeeded_le _ _) hlt ?_ _ _).trans_le
          (count_cyclicWalk_le hlt _ _)
        rw [List.getD_eq_getElem _ 0 hbound]
        exact List.count_eq_one_of_mem hids (List.getElem_mem hbound)
      · rw [List.count_eq_zero_of_not_mem hw]
        exact Nat.zero_le _

end Constraint

/-! ## Minmax -/

theorem zip_replicate (key : Int) (labels : List α) :
    (List.replicate labels.length key).zip labels = labels.map fun l => (key, l) := by
  induction labels with
  | nil => rfl
  | cons label rest ih => exact congrArg _ ih

/-- The worker loop gives the front of the labels away and ends with the others. -/
theorem minmaxLoop_eq (share : WorkerInfo → Nat) (ws : List WorkerInfo) (labels : List α)
    (map : AssignmentMap α) :
    ∃ (owners : List Int) (front left : List α), labels = front ++ left ∧ owners.length = front.length ∧
      (∀ id ∈ owners, id ∈ ws.map (·.id)) ∧
        minmaxLoop share ws labels map = (map.assignTo (owners.zip front), left) := by
  induction ws generalizing labels map with
  | nil => exact ⟨[], [], labels, rfl, rfl, fun id hid => absurd hid List.not_mem_nil, rfl⟩
  | cons w rest ih =>
      rw [minmaxLoop]
      by_cases hempty : labels.isEmpty
      · rw [if_pos hempty, List.isEmpty_iff.mp hempty]
        exact ⟨[], [], [], rfl, rfl, fun id hid => absurd hid List.not_mem_nil, rfl⟩
      · rw [if_neg hempty]
        dsimp only
        -- the worker takes at least one label, how many does not matter
        generalize (if min (share w) labels.length = 0 then 1
          else min (share w) labels.length) = count
        obtain ⟨owners, front, left, hlabels, hlength, hids, hloop⟩ := ih (labels.drop count)
          (map.assignTo ((labels.take count).map fun l => (w.id, l)))
        refine ⟨List.replicate (labels.take count).length w.id ++ owners,
          labels.take count ++ front, left, ?_, ?_, fun id hid => ?_, ?_⟩
        · rw [List.append_assoc, ← hlabels, List.take_append_drop]
        · rw [List.length_append, List.length_append, List.length_replicate, hlength]
        · rcases List.mem_append.mp hid with hid | hid
          · rw [List.eq_of_mem_replicate hid]
            exact List.mem_cons_self
          · exact List.mem_cons_of_mem _ (hids id hid)
        · rw [hloop, List.zip_append List.length_replicate, zip_replicate, assignTo_append]

theorem minmaxAssign_partitions (S : StdSort) (scoring : Scoring) {workers : List WorkerInfo}
    (h : availableIds workers ≠ []) (labels : List α) :
    (minmaxAssign S scoring labels workers).Partitions labels (availableIds workers) := by
  have hperm : ((scoredWorkers S scoring.profit workers).map (·.id)).Perm (availableIds workers) :=
    scoredIds_perm S scoring.profit
  have hne := scoredIds_ne_nil S scoring.profit h
  unfold minmaxAssign
  dsimp only
  by_cases hlabels : labels.isEmpty = true
  · rw [if_pos (.inr hlabels), List.isEmpty_iff.mp hlabels]
    have hnone : ∀ id ∈ ([] : List Int), id ∈ availableIds workers :=
      fun id hid => absurd hid List.not_mem_nil
    exact @assignTo_partitions α [] _ [] rfl hnone
  · rw [if_neg (by simpa [workers_ne_nil_of_available h] using hlabels)]
    cases hscored : scoredWorkers S scoring.profit workers with
    | nil => exact absurd (congrArg _ hscored) hne
    | cons top rest =>
        rw [hscored] at hperm
        dsimp only
        obtain ⟨owners, front, left, hsplit, hlength, hids, hloop⟩ := minmaxLoop_eq
          (fun w => scoring.share (scoring.profit w) ((top :: rest).map scoring.profit)
            labels.length) (top :: rest) labels []
        -- what the loop leaves goes to the top worker
        rw [hloop]
        dsimp only
        rw [← zip_replicate, ← assignTo_append, ← List.zip_append hlength, ← hsplit]
        refine assignTo_partitions ?_ fun id hid => ?_
        · rw [hsplit, List.length_append, List.length_append, List.length_replicate, hlength]
        · rcases List.mem_append.mp hid with hid | hid
          · exact hperm.subset (hids id hid)
          · rw [List.eq_of_mem_replicate hid]
            exact hperm.subset List.mem_cons_self

/-! ## All three -/

/-- **Partition.** Each solver gives every label to one available worker, in the order of the list;
and the constraint solver gives none of the workers that it uses more than a fair share. -/
theorem solvers_partition (S : StdSort) (score : WorkerInfo → Rat) (scoring : Scoring) (next : Nat)
    (labels : List α) {workers : List WorkerInfo} (hids : (workers.map (·.id)).Nodup)
    (havailable : ∃ w ∈ workers, w.available = true) :
    (roundRobinAssign next labels workers).1.Partitions labels (availableIds workers) ∧
      (constraintAssign S score labels workers).Partitions labels (availableIds workers) ∧
      (minmaxAssign S scoring labels workers).Partitions labels (availableIds workers) ∧
        ∀ w, ((constraintAssign S score labels workers).labelsOf w).length ≤
          (labels.length + ((constraintAssign S score labels workers).length - 1)) /
            (constraintAssign S score labels workers).length := by
  have hne : availableIds workers ≠ [] := by
    obtain ⟨w, hw, havail⟩ := havailable
    exact List.ne_nil_of_mem (List.mem_map_of_mem (List.mem_filter.mpr ⟨hw, havail⟩))
  have hnodup : (availableIds workers).Nodup := hids.sublist (List.filter_sublist.map _)
  exact ⟨roundRobinAssign_partitions hne next labels, constraintAssign_partitions S score hne labels,
    minmaxAssign_partitions S scoring hne labels,
    length_labelsOf_constraintAssign_le S score hne hnodup labels⟩

theorem solvers_partition_suspended :
    ((minmaxAssign .insertion (exactScoring {}) [10, 11, 12]
        [{ id := 1, available := false }, { id := 2 }, { id := 3, speed := 4 }]).Partitions
      [10, 11, 12] [2, 3]) :=
  (@solvers_partition ℕ .insertion (fun _ => 0) (exactScoring {}) 0 [10, 11, 12]
    [{ id := 1, available := false }, { id := 2 }, { id := 3, speed := 4 }]
    (by decide) ⟨{ id := 2 }, by simp, rfl⟩).2.2.1

end Labios

/-!
## Fair rounds

Round-robin keeps its cursor from call to call. Over one list of available workers the calls
continue one walk round the list, so that nobody gets two labels more than another
(`rounds_fair`). When the list changes, the cursor is wrapped before it is used.
-/

namespace Labios

open Foundation AssignmentMap

variable {α : Type}

namespace RoundRobinSolver

/-! ## Histories of calls -/

abbrev Call (α : Type) := List α × List WorkerInfo

/-- The cursor after the calls. -/
def cursorAfter (next : Nat) : List (Call α) → Nat
  | [] => next
  | c :: rest => cursorAfter (roundRobinAssign next c.1 c.2).2 rest

/-- How many labels a worker was given by the calls. -/
def given (next : Nat) : List (Call α) → Int → Nat
  | [], _ => 0
  | c :: rest, w =>
      (roundRobinAssign next c.1 c.2).1.count w + given (roundRobinAssign next c.1 c.2).2 rest w

/-- The places at which a call reads the list of available ids. -/
def placesRead (next : Nat) (c : Call α) : List Nat :=
  let size := (availableIds c.2).length
  if size = 0 then [] else cyclicWalk size (wrapCursor next size) c.1.length

/-- Every place that a call reads is in the list, and the labels go to the ids there. -/
structure ReadsInside (next : Nat) (c : Call α) : Prop where
  inside : ∀ i ∈ placesRead next c, i < (availableIds c.2).length
  targets : (roundRobinAssign next c.1 c.2).1 =
    assignTo [] (((placesRead next c).map fun i => (availableIds c.2).getD i 0).zip c.1)

/-! ## One call -/

theorem readsInside (next : Nat) (c : Call α) : ReadsInside next c := by
  by_cases hids : availableIds c.2 = []
  · have hnone : placesRead next c = [] := by
      unfold placesRead
      rw [hids]
      rfl
    refine ⟨fun i hi => ?_, ?_⟩
    · rw [hnone] at hi
      exact absurd hi List.not_mem_nil
    · rw [hnone, roundRobinAssign, hids]
      rfl
  · have hsize : (availableIds c.2).length ≠ 0 := fun h => hids (List.length_eq_zero_iff.mp h)
    have hplaces : placesRead next c = cyclicWalk (availableIds c.2).length
        (wrapCursor next (availableIds c.2).length) c.1.length := if_neg hsize
    rw [← Nat.pos_iff_ne_zero] at hsize
    refine ⟨fun i hi => ?_, ?_⟩
    · rw [hplaces] at hi
      exact lt_of_mem_cyclicWalk hsize hi
    · rw [hplaces, roundRobinAssign_eq hids, cursorTargets_eq (wrapCursor_lt hids next)]

/-! ## Calls with the same available workers -/

/-- All labels of the calls, in one walk. -/
theorem given_eq {ids : List Int} (hids : ids ≠ []) {calls : List (Call α)}
    (hsame : ∀ c ∈ calls, availableIds c.2 = ids) (next : Nat) (w : Int) :
    given next calls w =
      ((cyclicWalk ids.length (wrapCursor next ids.length)
        (calls.map fun c => c.1.length).sum).map fun i => ids.getD i 0).count w := by
  induction calls generalizing next with
  | nil => rfl
  | cons c rest ih =>
      obtain ⟨hc, hrest⟩ := List.forall_mem_cons.mp hsame
      have hcall := roundRobinAssign_eq (by rwa [hc] : availableIds c.2 ≠ []) next c.1
      have hcursor := wrapCursor_lt hids next
      rw [hc] at hcall
      -- the next call goes on where this one ended
      rw [given, hcall, ih hrest, wrapCursor_mod hids, cyclicWalk_mod, List.map_cons, List.sum_cons,
        cyclicWalk_add, List.map_append, List.count_append, count_assignTo, cursorTargets_eq hcursor]
      have hlength : ((cyclicWalk ids.length (wrapCursor next ids.length) c.1.length).map
          fun i => ids.getD i 0).length = c.1.length := by
        rw [List.length_map, cyclicWalk, List.length_map, List.length_range]
      rw [List.map_fst_zip hlength.le]
      show 0 + _ + _ = _
      rw [Nat.zero_add]

theorem given_le_succ {ids : List Int} {calls : List (Call α)}
    (hsame : ∀ c ∈ calls, availableIds c.2 = ids) (next : Nat) {v w : Int}
    (hv : ids.count v = 1) (hw : ids.count w = 1) :
    given next calls v ≤ given next calls w + 1 := by
  obtain ⟨i, hi, rfl⟩ := List.getElem_of_mem (List.count_pos_iff.mp (hv ▸ Nat.one_pos))
  obtain ⟨j, hj, rfl⟩ := List.getElem_of_mem (List.count_pos_iff.mp (hw ▸ Nat.one_pos))
  have hids : ids ≠ [] := List.ne_nil_of_length_pos (Nat.zero_lt_of_lt hi)
  rw [← List.getD_eq_getElem ids 0 hi] at hv ⊢
  rw [← List.getD_eq_getElem ids 0 hj] at hw ⊢
  rw [given_eq hids hsame, given_eq hids hsame, count_getD_cyclicWalk le_rfl hi hv,
    count_getD_cyclicWalk le_rfl hj hw]
  exact count_cyclicWalk_le_succ hi hj _ _

/-- **Fairness.** After calls with the same available workers, the totals of two of them differ by
at most one; and whatever the workers of the calls, each call reads inside its list. -/
theorem rounds_fair (next : Nat) (calls : List (Call α)) :
    (∀ ids, (∀ c ∈ calls, availableIds c.2 = ids) → ∀ v w, ids.count v = 1 → ids.count w = 1 →
      given next calls v ≤ given next calls w + 1 ∧ given next calls w ≤ given next calls v + 1) ∧
      ∀ front c back, calls = front ++ c :: back → ReadsInside (cursorAfter next front) c :=
  ⟨fun _ hsame _ _ hv hw => ⟨given_le_succ hsame next hv hw, given_le_succ hsame next hw hv⟩,
    fun front c _ _ => readsInside (cursorAfter next front) c⟩

/-- Two labels to three workers, and two more. -/
def twoBatches : List (Call Nat) :=
  [([10, 11], [{ id := 1 }, { id := 2 }, { id := 3 }]),
    ([12, 13], [{ id := 1 }, { id := 2 }, { id := 3 }])]

theorem rounds_fair_twoBatches :
    given 0 twoBatches 1 = 2 ∧ given 0 twoBatches 3 = 1 ∧
      given 0 twoBatches 1 ≤ given 0 twoBatches 3 + 1 :=
  ⟨by decide, by decide,
    ((rounds_fair 0 twoBatches).1 [1, 2, 3] (by decide) 1 3 (by decide) (by decide)).1⟩

end RoundRobinSolver
end Labios
