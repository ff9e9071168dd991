import Labios.Foundation.Interleave
import Labios.Shuffler.Clusters
import Labios.Shuffler.Dependencies

/-!
# The output of a shuffle

What `shuffle` hands to the dispatcher, in terms of the aggregated labels:

* **supertasks** — one per granularity group with an entangled label, its
  children the entangled labels of the group in id order (`mem_supertasks`);
* **the rest** — every label that is not entangled, unchanged, either routed
  directly or left independent (`mem_directRoute`, `mem_independent`);
* **units** — the three outputs as one list of units of execution; together
  they permute the aggregated labels (`units_perm`);
* **serialization** — labels of one group that conflict share a supertask
  (`units_conflict_free`), and `before_iff` says exactly which pairs of labels
  are ordered.
-/

namespace Labios

open Foundation

variable {S : StdSort} {config : ShufflerConfig} {batch : List LabelData}
  {lookup : Option LocationLookup} {granularity : String}

/-! ## After detection -/

/-- A label without what detection and supertask formation write to it. -/
def core (l : LabelData) : LabelData := { l with dependencies := [], supertaskId := 0 }

/-- A supertask child: a label with its hazards, joined to supertask `id`. -/
def supertaskChild (S : StdSort) (granularity : String) (labels : List LabelData)
    (id : UInt64) (l : LabelData) : LabelData :=
  joinSupertask id (withHazards S granularity labels l)

@[simp] theorem core_supertaskChild (labels : List LabelData) (id : UInt64) (l : LabelData) :
    core (supertaskChild S granularity labels id l) = core l := rfl

@[simp] theorem supertaskChild_id (labels : List LabelData) (id : UInt64) (l : LabelData) :
    (supertaskChild S granularity labels id l).id = l.id := rfl

@[simp] theorem core_id (l : LabelData) : (core l).id = l.id := rfl

@[simp] theorem core_type (l : LabelData) : (core l).type = l.type := rfl

/-- A label that is not entangled has no hazards, and declares nothing. -/
theorem withHazards_of_not_entangled {labels : List LabelData}
    {l : LabelData} (h : ¬Entangled granularity labels l) :
    withHazards S granularity labels l = l := by
  have hnil : hazardsOf S granularity labels l = [] := by
    rw [List.eq_nil_iff_forall_not_mem]
    intro d hd
    obtain ⟨e, he, hkey, hlt, hhz, _⟩ := mem_hazardsOf.mp hd
    refine h (.of_conflict he (fun heq => ?_) hkey ((hazardBetween_isSome e l).mp (by rw [hhz]; rfl)))
    exact absurd (heq ▸ hlt) (by simp)
  rw [withHazards, hnil, addDependencies_nil]

/-- The entangled labels of one group, in id order. -/
def dependentGroup (S : StdSort) (granularity : String) (labels : List LabelData)
    (key : String) : List LabelData :=
  S.sortBy idKey (labels.filter
    (fun l => Entangled granularity labels l ∧ groupKey l granularity = key))

theorem mem_dependentGroup {labels : List LabelData} {key : String} {l : LabelData} :
    l ∈ dependentGroup S granularity labels key ↔
      l ∈ labels ∧ Entangled granularity labels l ∧ groupKey l granularity = key := by
  rw [dependentGroup, S.mem_sortBy, List.mem_filter, decide_eq_true_iff]

theorem dependentGroup_sorted {labels : List LabelData} (h : DistinctIds labels)
    (key : String) :
    (dependentGroup S granularity labels key).Pairwise fun a b => a.id < b.id := by
  refine (S.sorted_lt idKey (h.idKey_nodup.sublist (List.filter_sublist.map _))).imp ?_
  intro a b hlt
  rwa [UInt64.lt_iff_toNat_lt]

/-- The supertask over a group in id order that starts with `first`. -/
def supertaskOver (S : StdSort) (granularity : String) (labels : List LabelData)
    (first : LabelData) (group : List LabelData) : Supertask :=
  { composite := makeComposite first group
    children := group.map (supertaskChild S granularity labels first.id) }

/-- Detection does not disturb the sort or the composite. -/
theorem makeSupertask_map {labels group : List LabelData} (h : DistinctIds group) :
    makeSupertask S (group.map (withHazards S granularity labels)) =
      match S.sortBy idKey group with
      | [] => none
      | first :: rest => some (supertaskOver S granularity labels first (first :: rest)) := by
  have hsort : S.sortBy idKey (group.map (withHazards S granularity labels)) =
      (S.sortBy idKey group).map (withHazards S granularity labels) := by
    refine S.sortBy_eq_of_perm idKey ((S.perm _ _).map _) ?_
    rw [List.pairwise_map]
    exact S.sorted_lt idKey h.idKey_nodup
  unfold makeSupertask
  rw [hsort]
  cases S.sortBy idKey group with
  | nil => rfl
  | cons first rest =>
      simp [supertaskOver, supertaskChild, makeComposite, withHazards, addDependencies,
        Function.comp_def]

theorem filter_involved {labels : List LabelData} (h : DistinctIds labels) :
    (detectDependencies S granularity labels).filter
        (fun l => l.id ∈ involvedIds (detectDependencies S granularity labels)) =
      (labels.filter (fun l => Entangled granularity labels l)).map
        (withHazards S granularity labels) := by
  conv_lhs => rw [detectDependencies_eq h, List.filter_map, ← detectDependencies_eq h]
  congr 1
  apply List.filter_congr
  intro l hl
  exact decide_eq_decide.mpr (mem_involvedIds_detect h hl)

theorem filter_not_involved {labels : List LabelData} (h : DistinctIds labels) :
    (detectDependencies S granularity labels).filter
        (fun l => l.id ∉ involvedIds (detectDependencies S granularity labels)) =
      labels.filter (fun l => ¬Entangled granularity labels l) := by
  conv_lhs => rw [detectDependencies_eq h, List.filter_map, ← detectDependencies_eq h]
  have hfilter : labels.filter
      ((fun l => decide (l.id ∉ involvedIds (detectDependencies S granularity labels))) ∘
        withHazards S granularity labels) =
      labels.filter (fun l => ¬Entangled granularity labels l) := by
    apply List.filter_congr
    intro l hl
    exact decide_eq_decide.mpr (not_congr (mem_involvedIds_detect h hl))
  rw [hfilter]
  conv_rhs => rw [← List.map_id (labels.filter _)]
  apply List.map_congr_left
  intro l hl
  exact withHazards_of_not_entangled (of_decide_eq_true (List.mem_filter.mp hl).2)

theorem mem_buildSupertasks {labels : List LabelData} (h : DistinctIds labels)
    {st : Supertask} :
    st ∈ (buildSupertasks S granularity (detectDependencies S granularity labels)).1 ↔
      ∃ key first rest, dependentGroup S granularity labels key = first :: rest ∧
        st = supertaskOver S granularity labels first (first :: rest) := by
  have hgroup : ∀ key : String,
      (labels.filter (fun l => Entangled granularity labels l)).filter
          (fun l => groupKey l granularity = key) =
        labels.filter (fun l => Entangled granularity labels l ∧ groupKey l granularity = key) := by
    intro key
    rw [List.filter_filter]
    apply List.filter_congr
    intro l _
    exact (Bool.decide_and _ _).symm.trans (decide_eq_decide.mpr and_comm)
  have hids : ∀ key : String, DistinctIds (labels.filter
      (fun l => Entangled granularity labels l ∧ groupKey l granularity = key)) :=
    fun _ => List.Nodup.sublist (List.filter_sublist.map _) h
  unfold buildSupertasks
  dsimp only
  rw [filter_involved h, groupBy_map, List.filterMap_map]
  have hgroups := groupBy_groups (fun l => groupKey l granularity)
    (labels.filter (fun l => Entangled granularity labels l))
  constructor
  · intro hst
    obtain ⟨g, hg, hmake⟩ := List.mem_filterMap.mp hst
    have hg2 : g.2 = _ := hgroups.group_eq g hg
    rw [Function.comp_apply, hg2, hgroup, makeSupertask_map (hids _)] at hmake
    cases hsort : S.sortBy idKey (labels.filter
        (fun l => Entangled granularity labels l ∧ groupKey l granularity = g.1)) with
    | nil =>
        rw [hsort] at hmake
        exact absurd hmake (by simp)
    | cons first rest =>
        rw [hsort] at hmake
        exact ⟨g.1, first, rest, hsort, (Option.some.inj hmake).symm⟩
  · rintro ⟨key, first, rest, hdep, rfl⟩
    have hfirst : first ∈ dependentGroup S granularity labels key :=
      hdep ▸ List.mem_cons_self
    obtain ⟨hmem, hent, hkey⟩ := mem_dependentGroup.mp hfirst
    have hex := exists_group (fun l => groupKey l granularity)
      (List.mem_filter.mpr ⟨hmem, decide_eq_true hent⟩ :
        first ∈ labels.filter (fun l => Entangled granularity labels l))
    refine List.mem_filterMap.mpr ⟨_, hex, ?_⟩
    rw [Function.comp_apply, hgroup, hkey, makeSupertask_map (hids _),
      show S.sortBy idKey _ = first :: rest from hdep]

/-! ## The shuffle -/

/-- The labels that go into detection. -/
abbrev aggregated (S : StdSort) (config : ShufflerConfig) (batch : List LabelData) :
    List LabelData :=
  (aggregate S config batch).output

/-- They stand for the clusters, one each. -/
theorem mem_aggregated {l : LabelData} :
    l ∈ aggregated S config batch ↔ ∃ c ∈ clusters S config batch, represent c = l := by
  rw [aggregated, aggregate_output, List.mem_map]

theorem represent_mem_aggregated {c : List LabelData} (hc : c ∈ clusters S config batch) :
    represent c ∈ aggregated S config batch := mem_aggregated.mpr ⟨c, hc, rfl⟩

theorem aggregated_disabled (S : StdSort) (h : config.aggregationEnabled = false) :
    aggregated S config batch = batch := by
  simp [aggregated, aggregate, h]

/-- A batch of reads and writes aggregates to reads and writes. -/
theorem aggregated_kind (hkind : ∀ l ∈ batch, l.type = .read ∨ l.type = .write) {l : LabelData}
    (hl : l ∈ aggregated S config batch) : l.type = .read ∨ l.type = .write := by
  obtain ⟨c, hc, rfl⟩ := mem_aggregated.mp hl
  rcases cluster_cases hc with ⟨w, rfl, hw⟩ | ⟨_, hrun⟩
  · exact hkind w hw
  · exact .inr (represent_type c hrun.write)

/-- Entangled among the aggregated labels of a batch. -/
abbrev EntangledIn (S : StdSort) (config : ShufflerConfig) (batch : List LabelData)
    (l : LabelData) : Prop :=
  Entangled config.depGranularity (aggregated S config batch) l

theorem mem_supertasks (h : DistinctIds batch) {st : Supertask} :
    st ∈ (shuffle S config batch lookup).supertasks ↔
      ∃ key first rest,
        dependentGroup S config.depGranularity (aggregated S config batch) key = first :: rest ∧
        st = supertaskOver S config.depGranularity (aggregated S config batch) first
          (first :: rest) :=
  mem_buildSupertasks (aggregate_distinctIds h)

theorem shuffle_remaining (h : DistinctIds batch) :
    (buildSupertasks S config.depGranularity
        (detectDependencies S config.depGranularity (aggregated S config batch))).2 =
      (aggregated S config batch).filter (fun l => ¬EntangledIn S config batch l) :=
  filter_not_involved (aggregate_distinctIds h)

theorem mem_directRoute (h : DistinctIds batch) {l : LabelData} {w : Int} :
    (l, w) ∈ (shuffle S config batch lookup).directRoute ↔
      l ∈ aggregated S config batch ∧ ¬EntangledIn S config batch l ∧
        readLocation lookup l = some w := by
  unfold shuffle
  dsimp only
  rw [shuffle_remaining h, List.mem_filterMap]
  constructor
  · rintro ⟨l', hl', hloc⟩
    obtain ⟨w', hw', heq⟩ := Option.map_eq_some_iff.mp hloc
    obtain ⟨rfl, rfl⟩ := Prod.mk.inj heq
    obtain ⟨hmem, hent⟩ := List.mem_filter.mp hl'
    exact ⟨hmem, of_decide_eq_true hent, hw'⟩
  · rintro ⟨hmem, hent, hloc⟩
    refine ⟨l, List.mem_filter.mpr ⟨hmem, decide_eq_true hent⟩, ?_⟩
    rw [hloc]
    rfl

theorem mem_independent (h : DistinctIds batch) {l : LabelData} :
    l ∈ (shuffle S config batch lookup).independent ↔
      l ∈ aggregated S config batch ∧ ¬EntangledIn S config batch l ∧
        readLocation lookup l = none := by
  unfold shuffle
  dsimp only
  rw [shuffle_remaining h, List.mem_filter, List.mem_filter, decide_eq_true_iff,
    Option.isNone_iff_eq_none, and_assoc]

/-- Every entangled label has its supertask. -/
theorem supertask_of_entangled (lookup : Option LocationLookup) (h : DistinctIds batch)
    {l : LabelData} (hl : l ∈ aggregated S config batch) (hent : EntangledIn S config batch l) :
    ∃ first, supertaskOver S config.depGranularity (aggregated S config batch) first
        (dependentGroup S config.depGranularity (aggregated S config batch)
          (groupKey l config.depGranularity)) ∈ (shuffle S config batch lookup).supertasks := by
  have hmem : l ∈ dependentGroup S config.depGranularity (aggregated S config batch)
      (groupKey l config.depGranularity) := mem_dependentGroup.mpr ⟨hl, hent, rfl⟩
  obtain ⟨first, rest, hgroup⟩ := List.exists_cons_of_ne_nil (List.ne_nil_of_mem hmem)
  exact ⟨first, (mem_supertasks h).mpr ⟨_, first, rest, hgroup, by rw [hgroup]⟩⟩

/-! ## Units of execution -/

/-- The three outputs of a shuffle as units: a supertask runs its children in
order, every other label runs by itself. -/
def ShuffleResult.units (R : ShuffleResult) : List (List LabelData) :=
  R.supertasks.map (·.children) ++ (R.directRoute.map (·.1) ++ R.independent).map (fun l => [l])

theorem supertasks_core_perm (h : DistinctIds batch) :
    (((shuffle S config batch lookup).supertasks.flatMap (·.children)).map core).Perm
      (((aggregated S config batch).filter (fun l => EntangledIn S config batch l)).map core) := by
  have hlabels : DistinctIds (aggregated S config batch) := aggregate_distinctIds h
  have key : ∀ groups : List (String × List LabelData),
      (∀ g ∈ groups, DistinctIds g.2) →
      (((groups.filterMap (fun g => makeSupertask S (g.2.map (withHazards S
        config.depGranularity (aggregated S config batch))))).flatMap (·.children)).map core).Perm
        ((groups.flatMap (·.2)).map core) := by
    intro groups hids
    induction groups with
    | nil => exact .refl _
    | cons g rest ih =>
        have ih' := ih (fun g' hg' => hids g' (List.mem_cons_of_mem _ hg'))
        rw [List.flatMap_cons, List.map_append, List.filterMap_cons,
          makeSupertask_map (hids g List.mem_cons_self)]
        cases hsort : S.sortBy idKey g.2 with
        | nil =>
            rw [(S.sortBy_eq_nil idKey).mp hsort]
            exact ih'
        | cons first more =>
            dsimp only
            rw [List.flatMap_cons, List.map_append]
            refine List.Perm.append ?_ ih'
            rw [supertaskOver, List.map_map, ← hsort]
            exact (S.perm idKey g.2).map _
  have hsupertasks : (shuffle S config batch lookup).supertasks =
      (groupBy (fun l => groupKey l config.depGranularity)
        ((aggregated S config batch).filter (fun l => EntangledIn S config batch l))).filterMap
        (fun g => makeSupertask S (g.2.map (withHazards S
          config.depGranularity (aggregated S config batch)))) := by
    unfold shuffle buildSupertasks
    dsimp only
    rw [filter_involved hlabels, groupBy_map, List.filterMap_map]
    rfl
  rw [hsupertasks]
  refine (key _ ?_).trans ((groupBy_perm _ _).map core)
  intro g hg
  rw [(groupBy_groups _ _).group_eq g hg]
  exact List.Nodup.sublist ((List.filter_sublist.trans List.filter_sublist).map _) hlabels

theorem rest_perm (h : DistinctIds batch) :
    ((shuffle S config batch lookup).directRoute.map (·.1) ++
        (shuffle S config batch lookup).independent).Perm
      ((aggregated S config batch).filter (fun l => ¬EntangledIn S config batch l)) := by
  unfold shuffle
  dsimp only
  rw [shuffle_remaining h]
  generalize (aggregated S config batch).filter
    (fun l => ¬EntangledIn S config batch l) = remaining
  have hdirect : (remaining.filterMap
      (fun l => (readLocation lookup l).map (fun w => (l, w)))).map (·.1) =
        remaining.filter (fun l => (readLocation lookup l).isSome) := by
    induction remaining with
    | nil => rfl
    | cons l rest ih =>
        cases hloc : readLocation lookup l with
        | none => simp [hloc, ih]
        | some w => simp [hloc, ih]
  rw [hdirect]
  have hsplit := List.filter_append_perm (fun l => (readLocation lookup l).isSome) remaining
  simpa using hsplit

/-- Together the units hold every aggregated label once. -/
theorem units_perm (h : DistinctIds batch) :
    ((shuffle S config batch lookup).units.flatten.map core).Perm
      ((aggregated S config batch).map core) := by
  have hsingles : ∀ ls : List LabelData, (ls.map (fun l => [l])).flatten = ls := by
    intro ls
    rw [← List.flatMap_def, List.flatMap_singleton']
  rw [ShuffleResult.units, List.flatten_append, ← List.flatMap_def, hsingles, List.map_append]
  refine ((supertasks_core_perm h).append ((rest_perm h).map core)).trans ?_
  rw [← List.map_append]
  have hsplit := List.filter_append_perm
    (fun l => decide (EntangledIn S config batch l)) (aggregated S config batch)
  exact List.Perm.map core (by simpa using hsplit)

theorem units_distinctIds (S : StdSort) (config : ShufflerConfig) (lookup : Option LocationLookup)
    (h : DistinctIds batch) :
    DistinctIds (shuffle S config batch lookup).units.flatten := by
  have hid : ∀ ls : List LabelData, ls.map (·.id) = (ls.map core).map (·.id) := by
    intro ls
    simp
  unfold DistinctIds
  rw [hid, ((units_perm h).map _).nodup_iff, ← hid]
  exact aggregate_distinctIds h

/-- A label of a unit is an aggregated label, up to what detection wrote. -/
theorem core_of_mem_unit (h : DistinctIds batch) {u : List LabelData}
    (hu : u ∈ (shuffle S config batch lookup).units) {a : LabelData} (ha : a ∈ u) :
    ∃ l ∈ aggregated S config batch, core l = core a := by
  have hmem : core a ∈ ((shuffle S config batch lookup).units.flatten).map core :=
    List.mem_map_of_mem (List.mem_flatten.mpr ⟨u, hu, ha⟩)
  exact List.mem_map.mp ((units_perm h).mem_iff.mp hmem)

/-- A label of a unit stands for `w` when its id is the id of `w`'s cluster. -/
theorem mem_originals_iff (h : DistinctIds batch) (hplain : ∀ l ∈ batch, l.children = [])
    {u : List LabelData} (hu : u ∈ (shuffle S config batch lookup).units) {a : LabelData}
    (ha : a ∈ u) {c : List LabelData} (hc : c ∈ clusters S config batch) {w : LabelData}
    (hw : w ∈ c) : w.id ∈ originals a ↔ a.id = (clusterHead c).id := by
  obtain ⟨l, hl, hcore⟩ := core_of_mem_unit h hu ha
  obtain ⟨d, hd, rfl⟩ := mem_aggregated.mp hl
  have horiginals : originals a = d.map (·.id) := by
    have : originals (core a) = originals a := rfl
    rw [← this, ← hcore]
    exact originals_represent (cluster_ne_nil hd) fun x hx => hplain x (mem_of_mem_cluster hd hx)
  have hid : a.id = (clusterHead d).id := by
    rw [← core_id a, ← hcore, core_id, represent_id]
  rw [horiginals, hid]
  constructor
  · intro hmem
    obtain ⟨x, hx, hxw⟩ := List.mem_map.mp hmem
    obtain rfl := h.eq_of_id_eq (mem_of_mem_cluster hd hx) (mem_of_mem_cluster hc hw) hxw
    rw [cluster_unique h hd hc hx hw]
  · intro heads
    rw [cluster_eq_of_head_id h hd hc heads]
    exact List.mem_map_of_mem hw

theorem conflict_of_core_eq {a b a' b' : LabelData} (ha : core a = core a')
    (hb : core b = core b') (hc : Conflict a b) : Conflict a' b' := by
  have hcore : ∀ x y : LabelData, Conflict (core x) (core y) ↔ Conflict x y :=
    fun _ _ => Iff.rfl
  rw [← hcore, ← ha, ← hb]
  exact (hcore a b).mpr hc

theorem id_of_core_eq {a b : LabelData} (h : core a = core b) : a.id = b.id := by
  rw [← core_id a, h, core_id]

theorem groupKey_of_core_eq {a b : LabelData} (h : core a = core b) (granularity : String) :
    groupKey a granularity = groupKey b granularity := by
  have hcore : ∀ x : LabelData, groupKey (core x) granularity = groupKey x granularity :=
    fun _ => rfl
  rw [← hcore a, h, hcore]

/-- Labels of different units have different ids, and do not conflict within
one group. -/
theorem units_conflict_free (S : StdSort) (config : ShufflerConfig)
    (lookup : Option LocationLookup) (h : DistinctIds batch) :
    (shuffle S config batch lookup).units.Pairwise fun u v => ∀ a ∈ u, ∀ b ∈ v,
      a.id ≠ b.id ∧
        (groupKey a config.depGranularity = groupKey b config.depGranularity → ¬Conflict a b) := by
  have hids := units_distinctIds S config lookup h
  have hcommon : ∀ u ∈ (shuffle S config batch lookup).units, ∀ a ∈ u,
      ∀ v ∈ (shuffle S config batch lookup).units, ∀ b ∈ v,
      (a.id = b.id ∨ groupKey a config.depGranularity = groupKey b config.depGranularity ∧
        Conflict a b) →
      ∃ w ∈ (shuffle S config batch lookup).units, a ∈ w ∧ b ∈ w := by
    intro u hu a ha v hv b hb hab
    have hfind : ∀ x ∈ (shuffle S config batch lookup).units.flatten,
        ∀ w ∈ (shuffle S config batch lookup).units, ∀ x' ∈ w, x'.id = x.id → x ∈ w := by
      intro x hx w hw x' hx' hid
      exact hids.eq_of_id_eq (List.mem_flatten.mpr ⟨w, hw, hx'⟩) hx hid ▸ hx'
    by_cases hid : a.id = b.id
    · exact ⟨u, hu, ha, hfind b (List.mem_flatten.mpr ⟨v, hv, hb⟩) u hu a ha hid⟩
    · obtain ⟨hkey, hc⟩ := hab.resolve_left hid
      obtain ⟨la, hla, hca⟩ := core_of_mem_unit h hu ha
      obtain ⟨lb, hlb, hcb⟩ := core_of_mem_unit h hv hb
      have hc' : Conflict la lb := conflict_of_core_eq hca.symm hcb.symm hc
      have hida : la.id = a.id := id_of_core_eq hca
      have hidb : lb.id = b.id := id_of_core_eq hcb
      have hkey' : groupKey la config.depGranularity = groupKey lb config.depGranularity := by
        rw [groupKey_of_core_eq hca, groupKey_of_core_eq hcb, hkey]
      have hea : EntangledIn S config batch la :=
        .of_conflict hlb (by rw [hida, hidb]; exact Ne.symm hid) hkey'.symm hc'.symm
      have heb : EntangledIn S config batch lb :=
        .of_conflict hla (by rw [hida, hidb]; exact hid) hkey' hc'
      obtain ⟨first, hst⟩ := supertask_of_entangled lookup h hla hea
      refine ⟨_, List.mem_append_left _ (List.mem_map_of_mem hst), ?_, ?_⟩
      · exact hfind a (List.mem_flatten.mpr ⟨u, hu, ha⟩) _
          (List.mem_append_left _ (List.mem_map_of_mem hst)) _
          (List.mem_map_of_mem (mem_dependentGroup.mpr ⟨hla, hea, rfl⟩)) hida
      · exact hfind b (List.mem_flatten.mpr ⟨v, hv, hb⟩) _
          (List.mem_append_left _ (List.mem_map_of_mem hst)) _
          (List.mem_map_of_mem (mem_dependentGroup.mpr ⟨hlb, heb, hkey'.symm⟩)) hidb
  refine (pairwise_not_common hids.nodup).imp_of_mem ?_
  intro u v hu hv hno a ha b hb
  constructor
  · exact fun hid => hno a ha b hb (hcommon u hu a ha v hv b hb (.inl hid))
  · exact fun hkey hc => hno a ha b hb (hcommon u hu a ha v hv b hb (.inr ⟨hkey, hc⟩))

/-- Inside a unit the ids ascend. -/
theorem unit_sorted (h : DistinctIds batch) {u : List LabelData}
    (hu : u ∈ (shuffle S config batch lookup).units) :
    u.Pairwise fun a b => a.id < b.id := by
  rcases List.mem_append.mp hu with hu | hu
  · obtain ⟨st, hst, rfl⟩ := List.mem_map.mp hu
    obtain ⟨key, first, rest, hgroup, rfl⟩ := (mem_supertasks h).mp hst
    rw [supertaskOver, List.pairwise_map, ← hgroup]
    exact dependentGroup_sorted (aggregate_distinctIds h) key
  · obtain ⟨l, _, rfl⟩ := List.mem_map.mp hu
    exact List.pairwise_singleton _ _

/-! ## What is sent -/

/-- A composite has the id of its first child. -/
theorem supertask_first (h : DistinctIds batch) {st : Supertask}
    (hst : st ∈ (shuffle S config batch lookup).supertasks) :
    ∃ first rest, st.children = first :: rest ∧ st.composite.id = first.id := by
  obtain ⟨key, first, rest, _, rfl⟩ := (mem_supertasks h).mp hst
  exact ⟨supertaskChild S config.depGranularity _ first.id first, _, rfl, rfl⟩

theorem composite_ids_sublist {tasks : List Supertask}
    (h : ∀ t ∈ tasks, ∃ first rest, t.children = first :: rest ∧ t.composite.id = first.id) :
    (tasks.map (·.composite.id)).Sublist ((tasks.flatMap (·.children)).map (·.id)) := by
  induction tasks with
  | nil => exact .slnil
  | cons t tasks ih =>
      obtain ⟨first, rest, hchildren, hid⟩ := h t List.mem_cons_self
      rw [List.map_cons, List.flatMap_cons, List.map_append, hchildren, hid, List.map_cons]
      exact ((ih fun t' ht' => h t' (List.mem_cons_of_mem _ ht')).trans
        (List.sublist_append_right _ _)).cons_cons _

/-- The ids of the labels that are sent are distinct. -/
theorem sent_ids_nodup (S : StdSort) (config : ShufflerConfig) (lookup : Option LocationLookup)
    (h : DistinctIds batch) :
    ((shuffle S config batch lookup).directRoute.map (fun p => p.1.id) ++
      (shuffle S config batch lookup).supertasks.map (·.composite.id) ++
      (shuffle S config batch lookup).independent.map (·.id)).Nodup := by
  have hunits := units_distinctIds S config lookup h
  unfold DistinctIds at hunits
  rw [ShuffleResult.units, List.flatten_append, ← List.flatMap_def, ← List.flatMap_def,
    List.flatMap_singleton', List.map_append, List.map_append, List.map_map] at hunits
  have hcomposites : ((shuffle S config batch lookup).supertasks.map (·.composite.id)).Sublist
      (((shuffle S config batch lookup).supertasks.flatMap (·.children)).map (·.id)) :=
    composite_ids_sublist fun t ht => supertask_first h ht
  refine (List.Perm.nodup_iff ?_).mp (hunits.sublist (hcomposites.append (.refl _)))
  rw [← List.append_assoc]
  exact List.perm_append_comm.append_right _

/-! ## Which labels are ordered -/

/-- The labels with ids `x` and `y` are children of one supertask, `x` first. -/
def ShuffleResult.Before (R : ShuffleResult) (x y : UInt64) : Prop :=
  ∃ st ∈ R.supertasks, [x, y].Sublist (st.children.map (·.id))

/-- Exactly the entangled labels of one group are ordered, by id. -/
theorem before_iff (h : DistinctIds batch) {d l : LabelData}
    (hd : d ∈ aggregated S config batch) (hl : l ∈ aggregated S config batch) :
    (shuffle S config batch lookup).Before d.id l.id ↔
      d.id < l.id ∧ groupKey d config.depGranularity = groupKey l config.depGranularity ∧
        EntangledIn S config batch d ∧ EntangledIn S config batch l := by
  have hids : DistinctIds (aggregated S config batch) := aggregate_distinctIds h
  have hasymm : ∀ x y : UInt64, x < y → ¬y < x := fun x y => by
    rw [UInt64.lt_iff_toNat_lt, UInt64.lt_iff_toNat_lt]
    omega
  have hchildren : ∀ (first : LabelData) (group : List LabelData),
      (supertaskOver S config.depGranularity (aggregated S config batch) first
        group).children.map (·.id) = group.map (·.id) := by
    intro first group
    simp [supertaskOver]
  have hmem : ∀ (key : String) (x : LabelData), x ∈ aggregated S config batch →
      (x.id ∈ (dependentGroup S config.depGranularity (aggregated S config batch) key).map (·.id) ↔
        EntangledIn S config batch x ∧ groupKey x config.depGranularity = key) := by
    intro key x hx
    constructor
    · intro hin
      obtain ⟨y, hy, hid⟩ := List.mem_map.mp hin
      obtain ⟨hymem, hyent, hykey⟩ := mem_dependentGroup.mp hy
      obtain rfl := hids.eq_of_id_eq hymem hx hid
      exact ⟨hyent, hykey⟩
    · rintro ⟨hent, hkey⟩
      exact List.mem_map_of_mem (mem_dependentGroup.mpr ⟨hx, hent, hkey⟩)
  have hpair : ∀ key : String,
      [d.id, l.id].Sublist
          ((dependentGroup S config.depGranularity (aggregated S config batch) key).map (·.id)) ↔
        (EntangledIn S config batch d ∧ groupKey d config.depGranularity = key) ∧
          (EntangledIn S config batch l ∧ groupKey l config.depGranularity = key) ∧
            d.id < l.id := by
    intro key
    rw [StdSort.pair_sublist_iff hasymm (List.pairwise_map.mpr (dependentGroup_sorted hids key)),
      hmem key d hd, hmem key l hl]
  constructor
  · rintro ⟨st, hst, hsub⟩
    obtain ⟨key, first, rest, hgroup, rfl⟩ := (mem_supertasks h).mp hst
    rw [hchildren, ← hgroup, hpair] at hsub
    obtain ⟨⟨hed, hkd⟩, ⟨hel, hkl⟩, hlt⟩ := hsub
    exact ⟨hlt, hkd.trans hkl.symm, hed, hel⟩
  · rintro ⟨hlt, hkey, hed, hel⟩
    obtain ⟨first, hst⟩ := supertask_of_entangled lookup h hd hed
    refine ⟨_, hst, ?_⟩
    rw [hchildren, hpair]
    exact ⟨⟨hed, rfl⟩, ⟨hel, hkey.symm⟩, hlt⟩

/-! ## A batch of one -/

theorem clusters_singleton (S : StdSort) (config : ShufflerConfig) (l : LabelData) :
    clusters S config [l] = [[l]] := by
  have hflat : (clusters S config [l]).flatten = [l] :=
    List.perm_singleton.mp (clusters_flatten_perm S config [l])
  rcases hc : clusters S config [l] with _ | ⟨c, rest⟩
  · rw [hc] at hflat
    exact absurd hflat (by simp)
  · have hne : ∀ d ∈ c :: rest, d ≠ [] := fun d hd => cluster_ne_nil (hc ▸ hd)
    rw [hc, List.flatten_cons] at hflat
    obtain ⟨x, xs, rfl⟩ := List.exists_cons_of_ne_nil (hne c List.mem_cons_self)
    rw [List.cons_append, List.cons.injEq, List.append_eq_nil_iff] at hflat
    obtain ⟨rfl, rfl, hrest⟩ := hflat
    have hnil : rest = [] := by
      rw [List.eq_nil_iff_forall_not_mem]
      intro d hd
      exact hne d (List.mem_cons_of_mem _ hd) (List.flatten_eq_nil_iff.mp hrest d hd)
    rw [hnil]

variable (lookup) in
/-- A label alone that declares nothing and is not located stays independent. -/
theorem shuffle_singleton (S : StdSort) (config : ShufflerConfig) {l : LabelData}
    (hdeps : l.dependencies = []) (hlocation : readLocation lookup l = none) :
    (shuffle S config [l] lookup).directRoute = [] ∧
      (shuffle S config [l] lookup).supertasks = [] ∧
      (shuffle S config [l] lookup).independent = [l] := by
  have hids : DistinctIds [l] := List.nodup_singleton _
  have hall : aggregated S config [l] = [l] := by
    rw [aggregated, aggregate_output, clusters_singleton]
    rfl
  have hnot : ¬EntangledIn S config [l] l := by
    unfold EntangledIn Entangled
    rw [hall]
    rintro (h | ⟨m, hm, d, hd, _⟩ | ⟨m, hm, hne, _⟩)
    · exact h hdeps
    · rw [List.mem_singleton.mp hm, hdeps] at hd
      exact absurd hd List.not_mem_nil
    · exact hne (by rw [List.mem_singleton.mp hm])
  have hrest : (buildSupertasks S config.depGranularity
      (detectDependencies S config.depGranularity (aggregated S config [l]))).2 = [l] := by
    rw [shuffle_remaining hids]
    refine (List.filter_eq_self.mpr fun x hx => ?_).trans hall
    rw [hall] at hx
    exact decide_eq_true (List.mem_singleton.mp hx ▸ hnot)
  refine ⟨?_, ?_, ?_⟩
  · unfold shuffle
    dsimp only
    rw [hrest]
    simp [hlocation]
  · rw [List.eq_nil_iff_forall_not_mem]
    intro t ht
    obtain ⟨key, first, rest, hgroup, rfl⟩ := (mem_supertasks hids).mp ht
    obtain ⟨hmem, hent, _⟩ := mem_dependentGroup.mp (hgroup ▸ List.mem_cons_self :
      first ∈ dependentGroup S config.depGranularity (aggregated S config [l]) key)
    rw [hall] at hmem
    exact hnot (List.mem_singleton.mp hmem ▸ hent)
  · unfold shuffle
    dsimp only
    rw [hrest]
    simp [hlocation]

end Labios
