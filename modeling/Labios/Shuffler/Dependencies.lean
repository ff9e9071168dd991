import Labios.Shuffler.Model
import Mathlib.Data.List.Dedup
import Mathlib.Data.List.TakeWhile

/-!
# Hazards: what dependency detection records

`detectDependencies` works on indices, group by group, pair by pair. With
distinct ids it is a map over the labels: each label gains one dependency per
earlier label of its granularity group that it has a hazard on
(`detectDependencies_eq`).

`Conflict` is the hazard test without its direction, and `Entangled` says when
a label takes part in any dependency at all once the hazards are recorded.
-/

namespace Labios

open Foundation

variable {S : StdSort} {granularity : String}

/-! ## Conflicts -/

/-- The two labels overlap and are not both reads. -/
def Conflict (a b : LabelData) : Prop :=
  rangesOverlap (labelRange a) (labelRange b) = true ∧ ¬(a.type = .read ∧ b.type = .read)

instance (a b : LabelData) : Decidable (Conflict a b) :=
  inferInstanceAs (Decidable (_ ∧ _))

theorem rangesOverlap_comm (a b : OffsetRange) : rangesOverlap a b = rangesOverlap b a := by
  unfold rangesOverlap
  rw [Bool.or_comm, Bool.and_comm]

theorem Conflict.symm {a b : LabelData} (h : Conflict a b) : Conflict b a :=
  ⟨(rangesOverlap_comm _ _).trans h.1, fun hr => h.2 hr.symm⟩

theorem hazardBetween_isSome (a b : LabelData) :
    (hazardBetween a b).isSome = true ↔ Conflict a b := by
  unfold hazardBetween Conflict
  by_cases ho : rangesOverlap (labelRange a) (labelRange b) = true
  · by_cases hr : a.type = .read ∧ b.type = .read
    · simp [ho, hr]
    · simp only [ho, Bool.not_true, Bool.false_eq_true, if_false, if_neg hr, true_and]
      split_ifs <;> simp [hr]
  · simp [ho]

/-! ## The dependencies a label gains -/

/-- The labels of `l`'s group with a smaller id, in id order. -/
def earlierPeers (S : StdSort) (granularity : String) (labels : List LabelData)
    (l : LabelData) : List LabelData :=
  (S.sortBy idKey (labels.filter
    (fun e => groupKey e granularity = groupKey l granularity))).filter
      (fun e => idKey e < idKey l)

def hazardDependency (earlier later : LabelData) : Option LabelDependency :=
  (hazardBetween earlier later).map (fun hazard => ⟨earlier.id, hazard⟩)

def hazardsOf (S : StdSort) (granularity : String) (labels : List LabelData)
    (l : LabelData) : List LabelDependency :=
  (earlierPeers S granularity labels l).filterMap (hazardDependency · l)

def addDependencies (l : LabelData) (deps : List LabelDependency) : LabelData :=
  { l with dependencies := l.dependencies ++ deps }

def withHazards (S : StdSort) (granularity : String) (labels : List LabelData)
    (l : LabelData) : LabelData :=
  addDependencies l (hazardsOf S granularity labels l)

/-! ## One pair -/

/-- What the pair `(i, j)` appends to label `j`. -/
def pairDependency (labels : List LabelData) (pair : Nat × Nat) : Option LabelDependency :=
  (labels[pair.1]?).bind fun earlier =>
    (labels[pair.2]?).bind fun later => hazardDependency earlier later

/-- A label without its dependencies: all that the hazard test reads. -/
def bare (l : LabelData) : LabelData := { l with dependencies := [] }

@[simp] theorem addDependencies_nil (l : LabelData) : addDependencies l [] = l := by
  simp [addDependencies]

@[simp] theorem addDependencies_addDependencies (l : LabelData)
    (deps deps' : List LabelDependency) :
    addDependencies (addDependencies l deps) deps' = addDependencies l (deps ++ deps') := by
  simp [addDependencies]

@[simp] theorem bare_addDependencies (l : LabelData) (deps : List LabelDependency) :
    bare (addDependencies l deps) = bare l := rfl

theorem pairDependency_bare (labels : List LabelData) (pair : Nat × Nat) :
    pairDependency (labels.map bare) pair = pairDependency labels pair := by
  unfold pairDependency
  rw [List.getElem?_map, List.getElem?_map]
  cases labels[pair.1]? with
  | none => rfl
  | some e =>
      cases labels[pair.2]? with
      | none => rfl
      | some l => rfl

theorem recordHazard_eq (labels : List LabelData) (pair : Nat × Nat) :
    recordHazard labels pair = labels.mapIdx (fun k l =>
      addDependencies l (if pair.2 = k then (pairDependency labels pair).toList else [])) := by
  apply List.ext_getElem?
  intro k
  rw [List.getElem?_mapIdx]
  unfold recordHazard pairDependency hazardDependency
  cases h1 : labels[pair.1]? with
  | none => simp
  | some e =>
      cases h2 : labels[pair.2]? with
      | none => simp
      | some l =>
          simp only [Option.bind_some]
          cases hh : hazardBetween e l with
          | none => simp
          | some hz =>
              by_cases hk : pair.2 = k
              · subst hk
                have hlt : pair.2 < labels.length := (List.getElem?_eq_some_iff.mp h2).1
                rw [h2, List.getElem?_set_self hlt]
                simp [addDependencies]
              · simp [List.getElem?_set_ne hk, hk]

/-! ## A run of pairs -/

/-- A run over any list of pairs appends, to each label, the entries of the
pairs that end at its index. -/
theorem foldl_recordHazard (pairs : List (Nat × Nat)) (labels : List LabelData) :
    pairs.foldl recordHazard labels = labels.mapIdx (fun k l =>
      addDependencies l
        ((pairs.filter (fun p => p.2 = k)).filterMap (pairDependency labels))) := by
  induction pairs generalizing labels with
  | nil =>
      apply List.ext_getElem?
      intro k
      simp
  | cons p rest ih =>
      rw [List.foldl_cons, ih]
      -- the step changed dependencies only, so the test reads the same labels
      have hbare : (recordHazard labels p).map bare = labels.map bare := by
        rw [recordHazard_eq]
        apply List.ext_getElem?
        intro k
        simp [Function.comp_def]
      have hpair : pairDependency (recordHazard labels p) = pairDependency labels := by
        funext q
        rw [← pairDependency_bare, hbare, pairDependency_bare]
      rw [hpair, recordHazard_eq, List.mapIdx_mapIdx]
      congr 1
      funext k l
      by_cases hk : p.2 = k
      · simp only [Function.comp_apply, if_pos hk, addDependencies_addDependencies]
        rw [List.filter_cons_of_pos (by simpa using hk), List.filterMap_cons]
        cases pairDependency labels p <;> rfl
      · simp [hk]

/-! ## The double loop over one sorted group -/

/-- In a strictly ascending index list, the pairs that end at `k` start at the
indices below it, in order. -/
theorem indexPairs_filter (key : Nat → Nat) {is : List Nat}
    (hsorted : is.Pairwise fun a b => key a < key b) (k : Nat) :
    (indexPairs is).filter (fun p => p.2 = k) =
      if k ∈ is then (is.filter (fun i => key i < key k)).map (fun i => (i, k)) else [] := by
  induction is with
  | nil => rfl
  | cons i rest ih =>
      rw [List.pairwise_cons] at hsorted
      obtain ⟨hi, hrest⟩ := hsorted
      rw [indexPairs, List.filter_append, ih hrest]
      have hnodup : rest.Nodup :=
        List.Pairwise.imp (fun hlt he => Nat.ne_of_lt hlt (congrArg key he)) hrest
      by_cases hik : i = k
      · -- nothing precedes the first index
        subst hik
        have hnot : i ∉ rest := fun hmem => Nat.lt_irrefl _ (hi i hmem)
        have hnone : (i :: rest).filter (fun j => key j < key i) = [] := by
          rw [List.filter_eq_nil_iff]
          intro j hj
          rcases List.mem_cons.mp hj with rfl | hj
          · simp
          · simpa using Nat.le_of_lt (hi j hj)
        have hpairs : (rest.map (fun j => (i, j))).filter (fun p => p.2 = i) = [] := by
          rw [List.filter_eq_nil_iff]
          intro p hp
          obtain ⟨j, hj, rfl⟩ := List.mem_map.mp hp
          simpa using fun he : j = i => hnot (he ▸ hj)
        rw [if_neg hnot, if_pos List.mem_cons_self, hnone, hpairs]
        rfl
      · by_cases hk : k ∈ rest
        · have hpairs : (rest.map (fun j => (i, j))).filter (fun p => p.2 = k) = [(i, k)] := by
            rw [List.filter_map]
            have : rest.filter ((fun p : Nat × Nat => decide (p.2 = k)) ∘ fun j => (i, j)) = [k] := by
              simp only [Function.comp_def]
              rw [List.filter_eq, List.count_eq_one_of_mem hnodup hk]
              rfl
            rw [this]
            rfl
          rw [if_pos hk, if_pos (List.mem_cons_of_mem _ hk), hpairs,
            List.filter_cons_of_pos (by simpa using hi k hk)]
          rfl
        · have hpairs : (rest.map (fun j => (i, j))).filter (fun p => p.2 = k) = [] := by
            rw [List.filter_eq_nil_iff]
            intro p hp
            obtain ⟨j, hj, rfl⟩ := List.mem_map.mp hp
            simpa using fun he : j = k => hk (he ▸ hj)
          have hnot : k ∉ i :: rest := by
            rw [List.mem_cons, not_or]
            exact ⟨fun he => hik he.symm, hk⟩
          rw [if_neg hk, if_neg hnot, hpairs]
          rfl

/-! ## The whole pass -/

/-- The label at an index of the vector. -/
def labelAt (labels : List LabelData) (i : Nat) : LabelData := (labels[i]?).getD {}

theorem labelAt_of_lt {labels : List LabelData} {i : Nat} (h : i < labels.length) :
    labels[i]? = some (labelAt labels i) := by
  simp [labelAt, h]

theorem idAt_eq (labels : List LabelData) (i : Nat) :
    idAt labels i = idKey (labelAt labels i) := by
  unfold idAt labelAt
  cases labels[i]? <;> rfl

theorem keyAt_of_lt {labels : List LabelData} {i : Nat} (h : i < labels.length) :
    keyAt labels granularity i = groupKey (labelAt labels i) granularity := by
  rw [keyAt, labelAt_of_lt h]
  rfl

theorem map_labelAt_range (labels : List LabelData) :
    (List.range labels.length).map (labelAt labels) = labels := by
  apply List.ext_getElem?
  intro k
  by_cases hk : k < labels.length
  · simp [labelAt, hk]
  · simp [hk]

/-- The indices of one granularity group. -/
def groupIndices (labels : List LabelData) (granularity key : String) : List Nat :=
  (List.range labels.length).filter (fun i => keyAt labels granularity i = key)

theorem map_labelAt_groupIndices (labels : List LabelData) (key : String) :
    (groupIndices labels granularity key).map (labelAt labels) =
      labels.filter (fun e => groupKey e granularity = key) := by
  conv_rhs => rw [← map_labelAt_range labels]
  rw [List.filter_map, groupIndices]
  congr 1
  apply List.filter_congr
  intro i hi
  rw [keyAt_of_lt (List.mem_range.mp hi)]
  rfl

theorem groupIndices_ids_nodup {labels : List LabelData} (h : DistinctIds labels)
    (key : String) : ((groupIndices labels granularity key).map (idAt labels)).Nodup := by
  have hmap : (groupIndices labels granularity key).map (idAt labels) =
      (labels.filter (fun e => groupKey e granularity = key)).map idKey := by
    rw [← map_labelAt_groupIndices, List.map_map]
    exact List.map_congr_left fun i _ => idAt_eq labels i
  rw [hmap]
  exact h.idKey_nodup.sublist (List.filter_sublist.map _)

/-- A sorted index group, read back as labels, is the sorted granularity group. -/
theorem map_sorted_groupIndices {labels : List LabelData} (h : DistinctIds labels)
    (key : String) :
    (S.sortBy (idAt labels) (groupIndices labels granularity key)).map (labelAt labels) =
      S.sortBy idKey (labels.filter (fun e => groupKey e granularity = key)) := by
  refine (S.sortBy_eq_of_perm idKey ?_ ?_).symm
  · rw [← map_labelAt_groupIndices]
    exact (S.perm _ _).map _
  · rw [List.pairwise_map]
    refine (S.sorted_lt (idAt labels) (groupIndices_ids_nodup h key)).imp ?_
    intro i j hlt
    rwa [idAt_eq, idAt_eq] at hlt

/-- The entries that the pair loop appends to the label at index `k`. -/
theorem pairs_of_index {labels : List LabelData} (h : DistinctIds labels) {k : Nat}
    (hk : k < labels.length) :
    ((groupBy (keyAt labels granularity) (List.range labels.length)).flatMap
        (fun g => indexPairs (S.sortBy (idAt labels) g.2))).filter (fun p => p.2 = k) =
      ((S.sortBy (idAt labels) (groupIndices labels granularity
        (groupKey (labelAt labels k) granularity))).filter
          (fun i => idAt labels i < idAt labels k)).map (fun i => (i, k)) := by
  rw [List.filter_flatMap, ← keyAt_of_lt hk]
  refine Eq.trans ?_ (groupBy_flatMap_of_mem (keyAt labels granularity) (List.mem_range.mpr hk)
    (fun is => ((S.sortBy (idAt labels) is).filter
      (fun i => idAt labels i < idAt labels k)).map (fun i => (i, k))))
  apply List.flatMap_congr
  intro g hg
  have hgroup : g.2 = groupIndices labels granularity g.1 :=
    (groupBy_groups (keyAt labels granularity) _).group_eq g hg
  rw [indexPairs_filter (idAt labels) (S.sorted_lt _ (hgroup ▸ groupIndices_ids_nodup h g.1))]
  simp only [S.mem_sortBy]

/-- Detection is a map: each label gains its hazards on the earlier labels of
its group. -/
theorem detectDependencies_eq {labels : List LabelData} (h : DistinctIds labels) :
    detectDependencies S granularity labels =
      labels.map (withHazards S granularity labels) := by
  unfold detectDependencies
  rw [foldl_recordHazard]
  apply List.ext_getElem?
  intro k
  rw [List.getElem?_mapIdx, List.getElem?_map]
  by_cases hk : k < labels.length
  · rw [labelAt_of_lt hk, Option.map_some, Option.map_some, pairs_of_index h hk,
      withHazards, hazardsOf, earlierPeers, ← map_sorted_groupIndices h, List.filterMap_map,
      List.filter_map, List.filterMap_map]
    congr 2
    have hfilter : ((fun e => decide (idKey e < idKey (labelAt labels k))) ∘ labelAt labels) =
        fun i => decide (idAt labels i < idAt labels k) := by
      funext i
      simp only [Function.comp_apply, idAt_eq]
    rw [hfilter]
    apply List.filterMap_congr
    intro i hi
    have hi' : i ∈ List.range labels.length :=
      List.mem_of_mem_filter ((S.mem_sortBy _ _ _).mp (List.mem_of_mem_filter hi))
    simp only [Function.comp_apply, pairDependency, labelAt_of_lt (List.mem_range.mp hi'),
      labelAt_of_lt hk, Option.bind_some]
  · rw [List.getElem?_eq_none (Nat.le_of_not_lt hk)]
    rfl

/-! ## Who takes part in a dependency -/

theorem mem_earlierPeers {labels : List LabelData} {l e : LabelData} :
    e ∈ earlierPeers S granularity labels l ↔
      e ∈ labels ∧ groupKey e granularity = groupKey l granularity ∧ e.id < l.id := by
  rw [earlierPeers, List.mem_filter, S.mem_sortBy, List.mem_filter, decide_eq_true_iff,
    decide_eq_true_iff, idKey, idKey, ← UInt64.lt_iff_toNat_lt, and_assoc]

theorem mem_hazardsOf {labels : List LabelData} {l : LabelData} {d : LabelDependency} :
    d ∈ hazardsOf S granularity labels l ↔
      ∃ e ∈ labels, groupKey e granularity = groupKey l granularity ∧ e.id < l.id ∧
        hazardBetween e l = some d.hazardType ∧ d.labelId = e.id := by
  unfold hazardsOf hazardDependency
  rw [List.mem_filterMap]
  constructor
  · rintro ⟨e, he, hd⟩
    obtain ⟨hmem, hkey, hlt⟩ := mem_earlierPeers.mp he
    obtain ⟨hz, hhz, rfl⟩ := Option.map_eq_some_iff.mp hd
    exact ⟨e, hmem, hkey, hlt, hhz, rfl⟩
  · rintro ⟨e, hmem, hkey, hlt, hhz, hid⟩
    refine ⟨e, mem_earlierPeers.mpr ⟨hmem, hkey, hlt⟩, ?_⟩
    rw [hhz, Option.map_some, ← hid]

theorem mem_involvedIds {labels : List LabelData} {id : UInt64} :
    id ∈ involvedIds labels ↔
      ∃ l ∈ labels, l.dependencies ≠ [] ∧
        (id = l.id ∨ ∃ d ∈ l.dependencies, d.labelId = id) := by
  rw [involvedIds, List.mem_flatMap]
  constructor
  · rintro ⟨l, hl, hid⟩
    cases hdeps : l.dependencies with
    | nil => simp [hdeps] at hid
    | cons d rest =>
        refine ⟨l, hl, by simp [hdeps], ?_⟩
        simpa [hdeps, eq_comm] using hid
  · rintro ⟨l, hl, hne, hid⟩
    refine ⟨l, hl, ?_⟩
    cases hdeps : l.dependencies with
    | nil => exact absurd hdeps hne
    | cons d rest => simpa [hdeps, eq_comm] using hid

/-- A label takes part in a dependency: it declares one, another label declares
one on it, or it conflicts with another label of its group. -/
def Entangled (granularity : String) (labels : List LabelData) (l : LabelData) : Prop :=
  l.dependencies ≠ [] ∨ (∃ m ∈ labels, ∃ d ∈ m.dependencies, d.labelId = l.id) ∨
    ∃ m ∈ labels, m.id ≠ l.id ∧ groupKey m granularity = groupKey l granularity ∧ Conflict m l

instance (granularity : String) (labels : List LabelData) (l : LabelData) :
    Decidable (Entangled granularity labels l) :=
  inferInstanceAs (Decidable (_ ∨ _ ∨ _))

theorem Entangled.of_conflict {labels : List LabelData} {l m : LabelData} (hm : m ∈ labels)
    (hid : m.id ≠ l.id) (hkey : groupKey m granularity = groupKey l granularity)
    (hc : Conflict m l) : Entangled granularity labels l :=
  .inr (.inr ⟨m, hm, hid, hkey, hc⟩)

/-- Two conflicting labels of one group: the later one gains a dependency on
the earlier one. -/
theorem hazard_of_conflict {labels : List LabelData} {e l : LabelData} (he : e ∈ labels)
    (hkey : groupKey e granularity = groupKey l granularity) (hlt : e.id < l.id)
    (hc : Conflict e l) :
    ∃ d ∈ hazardsOf S granularity labels l, d.labelId = e.id := by
  obtain ⟨hz, hhz⟩ := Option.isSome_iff_exists.mp ((hazardBetween_isSome e l).mpr hc)
  exact ⟨⟨e.id, hz⟩, mem_hazardsOf.mpr ⟨e, he, hkey, hlt, hhz, rfl⟩, rfl⟩

/-- The code's `involved` set, after detection, is the entangled labels. -/
theorem mem_involvedIds_detect {labels : List LabelData} (h : DistinctIds labels)
    {l : LabelData} (hl : l ∈ labels) :
    l.id ∈ involvedIds (detectDependencies S granularity labels) ↔
      Entangled granularity labels l := by
  rw [detectDependencies_eq h, mem_involvedIds]
  constructor
  · rintro ⟨_, hmem, hne, hid⟩
    obtain ⟨m, hm, rfl⟩ := List.mem_map.mp hmem
    rcases hid with hid | ⟨d, hd, hid⟩
    · -- `l` itself is the dependent
      obtain rfl : l = m := h.eq_of_id_eq hl hm hid
      by_cases hdeps : l.dependencies = []
      · have hex : ∃ d, d ∈ hazardsOf S granularity labels l := by
          apply List.exists_mem_of_ne_nil
          intro hnil
          exact hne (by simp [withHazards, addDependencies, hdeps, hnil])
        obtain ⟨d, hd⟩ := hex
        obtain ⟨e, he, hkey, hlt, hhz, _⟩ := mem_hazardsOf.mp hd
        refine .of_conflict he (fun heq => ?_) hkey
          ((hazardBetween_isSome e l).mp (by rw [hhz]; rfl))
        exact absurd (heq ▸ hlt) (by simp)
      · exact .inl hdeps
    · rcases List.mem_append.mp hd with hd | hd
      · exact .inr (.inl ⟨m, hm, d, hd, hid⟩)
      · -- a recorded hazard names `l` as the earlier label
        obtain ⟨e, he, hkey, hlt, hhz, hde⟩ := mem_hazardsOf.mp hd
        obtain rfl : e = l := h.eq_of_id_eq he hl (hde.symm.trans hid)
        refine .of_conflict hm (fun heq => ?_) hkey.symm
          ((hazardBetween_isSome e m).mp (by rw [hhz]; rfl)).symm
        exact absurd (heq ▸ hlt) (by simp)
  · rintro (hdeps | ⟨m, hm, d, hd, hid⟩ | ⟨m, hm, hne, hkey, hc⟩)
    · exact ⟨_, List.mem_map_of_mem hl, by simp [withHazards, addDependencies, hdeps],
        .inl rfl⟩
    · exact ⟨_, List.mem_map_of_mem hm, List.ne_nil_of_mem (List.mem_append_left _ hd),
        .inr ⟨d, List.mem_append_left _ hd, hid⟩⟩
    · rcases UInt64.lt_or_lt_of_ne hne with hlt | hlt
      · obtain ⟨d, hd, _⟩ := hazard_of_conflict (S := S) hm hkey hlt hc
        exact ⟨_, List.mem_map_of_mem hl, List.ne_nil_of_mem (List.mem_append_right _ hd),
          .inl rfl⟩
      · obtain ⟨d, hd, hid⟩ := hazard_of_conflict (S := S) hl hkey.symm hlt hc.symm
        exact ⟨_, List.mem_map_of_mem hm, List.ne_nil_of_mem (List.mem_append_right _ hd),
          .inr ⟨d, List.mem_append_right _ hd, hid⟩⟩

end Labios
