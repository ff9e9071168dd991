import Labios.Client.Access
import Labios.Client.Model
import Labios.Shuffler.Supertasks

/-!
# Shuffling

What the units of a shuffle keep of a batch: its labels, their effect in id order, and which of the
dependencies and hazards between them.
-/

/-!
## A shuffle conserves labels

Labels pass through groups, sorted runs, dependency lists, a partition and
grouped supertasks. Each of these permutes; so every id of the batch comes out
exactly once, and nothing else does.
-/

namespace Labios

open Foundation

variable {S : StdSort} {config : ShufflerConfig} {batch : List LabelData}
  {lookup : Option LocationLookup}

/-- Every label a shuffle hands out, in any of its three places. -/
def ShuffleResult.placed (R : ShuffleResult) : List LabelData :=
  R.supertasks.flatMap (·.children) ++ (R.directRoute.map (·.1) ++ R.independent)

theorem units_flatten (R : ShuffleResult) : R.units.flatten = R.placed := by
  rw [ShuffleResult.units, List.flatten_append, ← List.flatMap_def, ← List.flatMap_def,
    List.flatMap_singleton']
  rfl

/-- The ids of a supertask's composite are ids of its children. -/
theorem composite_ids (h : DistinctIds batch) {st : Supertask}
    (hst : st ∈ (shuffle S config batch lookup).supertasks) :
    st.composite.children = st.children.map (·.id) ∧
      st.composite.id ∈ st.children.map (·.id) := by
  obtain ⟨key, first, rest, _, rfl⟩ := (mem_supertasks h).mp hst
  have hchildren : (supertaskOver S config.depGranularity (aggregated S config batch) first
      (first :: rest)).children.map (·.id) = (first :: rest).map (·.id) := by
    simp [supertaskOver]
  rw [hchildren]
  exact ⟨rfl, List.mem_cons_self⟩

/-- **Conservation.** Read through the children lists of merged writes, the ids
a shuffle places are the ids of the batch, each once; no label is placed twice,
and no id of a placed label or of a composite is foreign to the batch. -/
theorem shuffle_conserves (h : DistinctIds batch) (hplain : ∀ l ∈ batch, l.children = []) :
    ((shuffle S config batch lookup).placed.flatMap originals).Perm (batch.map (·.id)) ∧
      DistinctIds (shuffle S config batch lookup).placed ∧
      (∀ l ∈ (shuffle S config batch lookup).placed, l.id ∈ batch.map (·.id)) ∧
      ∀ st ∈ (shuffle S config batch lookup).supertasks,
        st.composite.id ∈ batch.map (·.id) ∧ ∀ x ∈ st.composite.children,
          x ∈ batch.map (·.id) := by
  have hforeign : ∀ l ∈ (shuffle S config batch lookup).placed, l.id ∈ batch.map (·.id) := by
    intro l hl
    rw [← units_flatten] at hl
    obtain ⟨u, hu, hlu⟩ := List.mem_flatten.mp hl
    obtain ⟨a, ha, hcore⟩ := core_of_mem_unit h hu hlu
    obtain ⟨c, hc, rfl⟩ := mem_aggregated.mp ha
    rw [← id_of_core_eq hcore, represent_id]
    exact List.mem_map_of_mem (mem_of_mem_cluster hc (clusterHead_mem (cluster_ne_nil hc)))
  refine ⟨?_, ?_, hforeign, ?_⟩
  · have hcore : ∀ ls : List LabelData,
        ls.flatMap originals = (ls.map core).flatMap originals := by
      intro ls
      rw [List.flatMap_map]
      rfl
    rw [← units_flatten, hcore]
    refine ((units_perm h).flatMap_right originals).trans ?_
    rw [← hcore]
    exact originals_aggregate_perm hplain
  · rw [← units_flatten]
    exact units_distinctIds S config lookup h
  · intro st hst
    obtain ⟨hchildren, hid⟩ := composite_ids h hst
    have hin : ∀ x ∈ st.children.map (·.id), x ∈ batch.map (·.id) := by
      intro x hx
      obtain ⟨l, hl, rfl⟩ := List.mem_map.mp hx
      exact hforeign l (List.mem_append_left _ (List.mem_flatMap.mpr ⟨st, hst, hl⟩))
    exact ⟨hin _ hid, fun x hx => hin x (hchildren ▸ hx)⟩

/-- Three abutting writes, merged, and an overlapping read. -/
def mergedAndRead : List LabelData :=
  [writeChunk 4 7 1 0 "a" 10 10, writeChunk 2 7 1 0 "a" 0 10, writeChunk 3 7 1 0 "a" 20 5,
    readChunk 5 7 1 "a" 8 4]

theorem shuffle_conserves_mergedAndRead :
    ((shuffle .insertion {} mergedAndRead none).placed.flatMap originals).Perm
        (mergedAndRead.map (·.id)) ∧
      DistinctIds (shuffle .insertion {} mergedAndRead none).placed ∧
      (∀ l ∈ (shuffle .insertion {} mergedAndRead none).placed,
        l.id ∈ mergedAndRead.map (·.id)) ∧
      ∀ st ∈ (shuffle .insertion {} mergedAndRead none).supertasks,
        st.composite.id ∈ mergedAndRead.map (·.id) ∧ ∀ x ∈ st.composite.children,
          x ∈ mergedAndRead.map (·.id) :=
  shuffle_conserves (by decide) (by decide)

end Labios

/-!
## Supertasks serialize a batch

Without aggregation, any interleaving of the units of a shuffle (a supertask
runs its children in order, everything else is free) has the effect of running
the batch one label after another in id order.

The argument is the trace theorem: two labels whose steps do not commute name
one file and conflict, so detection entangles them, they share a supertask, and
its children run in id order.
-/

namespace Labios

open Foundation

variable {S : StdSort} {config : ShufflerConfig} {batch : List LabelData}
  {lookup : Option LocationLookup}

theorem plainIO_of_core_eq {a b : LabelData} (h : core a = core b) (ha : PlainIO a) :
    PlainIO b := by
  have hcore : ∀ x : LabelData, PlainIO x → PlainIO (core x) := fun _ hx =>
    ⟨hx.kind, hx.address, hx.nonempty, hx.bounded⟩
  have hb := hcore a ha
  rw [h] at hb
  exact ⟨hb.kind, hb.address, hb.nonempty, hb.bounded⟩

/-- Two labels whose steps depend on their order. -/
def Dependent (payload : UInt64 → List UInt8) (a b : LabelData) : Prop :=
  ¬∀ s, execute (fun w => payload w.id) (execute (fun w => payload w.id) s a) b =
    execute (fun w => payload w.id) (execute (fun w => payload w.id) s b) a

theorem Dependent.symm {payload : UInt64 → List UInt8} {a b : LabelData}
    (h : Dependent payload a b) : Dependent payload b a :=
  fun hcomm => h fun s => (hcomm s).symm

theorem not_dependent {payload : UInt64 → List UInt8} {a b : LabelData}
    (ha : PlainIO a) (hb : PlainIO b) (hid : a.id ≠ b.id)
    (hla : a.type = .write → (payload a.id).length = a.dataSize.toNat)
    (hlb : b.type = .write → (payload b.id).length = b.dataSize.toNat)
    (hfree : a.fileKey = b.fileKey → ¬Conflict a b) : ¬Dependent payload a b :=
  not_not.mpr fun _ => execute_comm ha hb hid hla hlb hfree

/-- In an interleaving of the units, dependent labels run in id order. -/
theorem interleaving_respects_ids (hagg : config.aggregationEnabled = false)
    (hgran : config.depGranularity = "per-file") (hids : DistinctIds batch)
    (hplain : ∀ l ∈ batch, PlainIO l) {payload : UInt64 → List UInt8}
    (hfits : PayloadFits (fun l => payload l.id) batch) {order : List LabelData}
    (horder : Interleaves (shuffle S config batch lookup).units order) :
    order.Pairwise fun a b => Dependent payload a b → a.id < b.id := by
  -- a label of a unit is a batch label up to what the shuffler wrote
  have horigin : ∀ u ∈ (shuffle S config batch lookup).units, ∀ a ∈ u,
      PlainIO a ∧ (a.type = .write → (payload a.id).length = a.dataSize.toNat) := by
    intro u hu a ha
    obtain ⟨l, hl, hcore⟩ := core_of_mem_unit hids hu ha
    rw [aggregated_disabled S hagg] at hl
    refine ⟨plainIO_of_core_eq hcore (hplain l hl), ?_⟩
    have hsize : l.dataSize = a.dataSize := by
      have := congrArg LabelData.dataSize hcore
      exact this
    have htype : l.type = a.type := by
      rw [← core_type l, hcore, core_type]
    rw [← htype, ← hsize, ← id_of_core_eq hcore]
    exact hfits l hl
  apply horder.pairwise
  · intro u hu
    refine (unit_sorted hids hu).imp ?_
    intro a b hlt _
    exact hlt
  · refine (units_conflict_free S config lookup hids).imp_of_mem ?_
    intro u v hu hv hfree a ha b hb
    obtain ⟨hpa, hla⟩ := horigin u hu a ha
    obtain ⟨hpb, hlb⟩ := horigin v hv b hb
    obtain ⟨hid, hnc⟩ := hfree a ha b hb
    have hkey : a.fileKey = b.fileKey → ¬Conflict a b := by
      intro hk
      apply hnc
      rw [hgran]
      exact hk
    have hnot : ¬Dependent payload a b := not_dependent hpa hpb hid hla hlb hkey
    exact ⟨fun hd => absurd hd hnot, fun hd => absurd hd.symm hnot⟩

/-- **Supertask serializability.** Every interleaving of the units of a shuffle
leaves the arrays, and the bytes each read returned, as the serial run in id
order does. -/
theorem supertasks_serialize (hagg : config.aggregationEnabled = false)
    (hgran : config.depGranularity = "per-file") (hids : DistinctIds batch)
    (hplain : ∀ l ∈ batch, PlainIO l)
    {payload : UInt64 → List UInt8} (hfits : PayloadFits (fun l => payload l.id) batch)
    {order : List LabelData}
    (horder : Interleaves (shuffle S config batch lookup).units order) (s : RunState) :
    order.foldl (execute (fun l => payload l.id)) s =
      (S.sortBy idKey batch).foldl (execute (fun l => payload l.id)) s := by
  have hcorefold : ∀ ls : List LabelData,
      (ls.map core).foldl (execute (fun l => payload l.id)) s =
        ls.foldl (execute (fun l => payload l.id)) s := by
    intro ls
    rw [List.foldl_map]
    rfl
  have hperm : (order.map core).Perm ((S.sortBy idKey batch).map core) := by
    refine (horder.perm.map core).trans ((units_perm hids).trans ?_)
    rw [aggregated_disabled S hagg]
    exact ((S.perm idKey batch).map core).symm
  rw [← hcorefold order, ← hcorefold (S.sortBy idKey batch)]
  refine foldl_eq_of_perm _ (Dependent payload) (fun a b => a.id < b.id) ?_ ?_ ?_ hperm ?_ ?_ s
  · intro a b hnd
    exact not_not.mp hnd
  · intro a b hd
    exact hd.symm
  · intro a b hab hba
    rw [UInt64.lt_iff_toNat_lt] at hab hba
    omega
  · rw [List.pairwise_map]
    exact interleaving_respects_ids hagg hgran hids hplain hfits horder
  · rw [List.pairwise_map]
    refine (S.sorted_lt idKey hids.idKey_nodup).imp ?_
    intro a b hlt _
    exact UInt64.lt_iff_toNat_lt.mpr hlt

/-- A chain of overlaps: the read meets both writes, which do not meet. -/
def chainedOverlaps : List LabelData :=
  [writeChunk 3 7 1 0 "a" 8 4, readChunk 2 7 1 "a" 5 5, writeChunk 1 7 1 0 "a" 0 6]

def chainedPayload (id : UInt64) : List UInt8 :=
  if id = 1 then List.replicate 6 1 else List.replicate 4 3

theorem supertasks_serialize_chainedOverlaps :
    (shuffle .insertion { aggregationEnabled := false } chainedOverlaps none).units.flatten.foldl
        (execute (fun l => chainedPayload l.id)) ⟨fun _ _ => 0, fun _ => none⟩ =
      (StdSort.insertion.sortBy idKey chainedOverlaps).foldl
        (execute (fun l => chainedPayload l.id)) ⟨fun _ _ => 0, fun _ => none⟩ :=
  supertasks_serialize rfl rfl (by decide)
    (by
      intro l hl
      simp only [chainedOverlaps, List.mem_cons, List.not_mem_nil, or_false] at hl
      rcases hl with rfl | rfl | rfl
      · exact (fromLabelManager_writeChunk 3 7 1 0 "a" (by decide) (by decide)).plain
      · exact (fromLabelManager_readChunk 2 7 1 "a" (by decide) (by decide)).plain
      · exact (fromLabelManager_writeChunk 1 7 1 0 "a" (by decide) (by decide)).plain)
    (by unfold PayloadFits; decide) (interleaves_flatten _) _

end Labios

/-!
## Declared dependencies

Supertasks are formed per granularity group and ordered by id, so a dependency
that a client declares is honoured only when group and ids happen to agree with
it; and a merged write keeps none of its members' declarations. Dependencies
that detection adds are honoured always.

`declared_dependencies_honoured_iff` is the exact condition on the batch.
-/

namespace Labios

open Foundation

variable {S : StdSort} {config : ShufflerConfig} {batch : List LabelData}
  {lookup : Option LocationLookup}

/-- The label standing for `x` and the label standing for `y` are children of
one supertask, the former first. -/
def ShuffleResult.Ordered (R : ShuffleResult) (x y : UInt64) : Prop :=
  ∃ st ∈ R.supertasks, ∃ d l, [d, l].Sublist st.children ∧ x ∈ originals d ∧ y ∈ originals l

/-- Every dependency of a batch label on a batch label is honoured, and so is
every dependency that detection adds. -/
def HonoursDependencies (S : StdSort) (config : ShufflerConfig) (batch : List LabelData)
    (lookup : Option LocationLookup) : Prop :=
  (∀ l ∈ batch, ∀ dep ∈ l.dependencies, ∀ d ∈ batch, d.id = dep.labelId →
    (shuffle S config batch lookup).Ordered d.id l.id) ∧
  ∀ l ∈ aggregated S config batch,
    ∀ dep ∈ hazardsOf S config.depGranularity (aggregated S config batch) l,
      (shuffle S config batch lookup).Before dep.labelId l.id

/-- The declarations agree with grouping and id order: the runs of the two
labels fall into one group, the depended-on run has the lower first id, and both
go into detection as labels that take part in some dependency. -/
def DeclarationsAgree (S : StdSort) (config : ShufflerConfig) (batch : List LabelData) : Prop :=
  ∀ l ∈ batch, ∀ dep ∈ l.dependencies, ∀ d ∈ batch, d.id = dep.labelId →
    ∀ cd ∈ clusters S config batch, d ∈ cd → ∀ cl ∈ clusters S config batch, l ∈ cl →
      (clusterHead cd).id < (clusterHead cl).id ∧
        groupKey (clusterHead cd) config.depGranularity =
          groupKey (clusterHead cl) config.depGranularity ∧
        EntangledIn S config batch (represent cd) ∧ EntangledIn S config batch (represent cl)

/-- Order of two batch labels is order of their clusters' representatives. -/
theorem ordered_iff_before (h : DistinctIds batch) (hplain : ∀ l ∈ batch, l.children = [])
    {cd cl : List LabelData} (hcd : cd ∈ clusters S config batch)
    (hcl : cl ∈ clusters S config batch) {d l : LabelData} (hd : d ∈ cd) (hl : l ∈ cl) :
    (shuffle S config batch lookup).Ordered d.id l.id ↔
      (shuffle S config batch lookup).Before (represent cd).id (represent cl).id := by
  rw [represent_id, represent_id]
  constructor
  · rintro ⟨st, hst, x, y, hsub, hx, hy⟩
    have hu : st.children ∈ (shuffle S config batch lookup).units :=
      List.mem_append_left _ (List.mem_map_of_mem hst)
    have hmem := hsub.subset
    rw [mem_originals_iff h hplain hu (hmem (by simp)) hcd hd] at hx
    rw [mem_originals_iff h hplain hu (hmem (by simp)) hcl hl] at hy
    refine ⟨st, hst, ?_⟩
    rw [← hx, ← hy]
    exact hsub.map _
  · rintro ⟨st, hst, hsub⟩
    have hu : st.children ∈ (shuffle S config batch lookup).units :=
      List.mem_append_left _ (List.mem_map_of_mem hst)
    obtain ⟨pair, hpair, hids⟩ := List.sublist_map_iff.mp hsub
    obtain ⟨x, y, rfl⟩ : ∃ x y, pair = [x, y] := by
      apply List.length_eq_two.mp
      simpa using (congrArg List.length hids).symm
    have hmem := hpair.subset
    obtain ⟨hx, hy⟩ : (clusterHead cd).id = x.id ∧ (clusterHead cl).id = y.id := by
      simpa using hids
    refine ⟨st, hst, x, y, hpair, ?_, ?_⟩
    · exact (mem_originals_iff h hplain hu (hmem (by simp)) hcd hd).mpr hx.symm
    · exact (mem_originals_iff h hplain hu (hmem (by simp)) hcl hl).mpr hy.symm

/-- A dependency that detection adds is honoured. -/
theorem detected_before (h : DistinctIds batch) {l : LabelData}
    (hl : l ∈ aggregated S config batch) {dep : LabelDependency}
    (hdep : dep ∈ hazardsOf S config.depGranularity (aggregated S config batch) l) :
    (shuffle S config batch lookup).Before dep.labelId l.id := by
  obtain ⟨e, he, hkey, hlt, hhz, hid⟩ := mem_hazardsOf.mp hdep
  have hc : Conflict e l := (hazardBetween_isSome e l).mp (by rw [hhz]; rfl)
  have hne : e.id ≠ l.id := fun heq => absurd (heq ▸ hlt) (by simp)
  rw [hid, before_iff h he hl]
  exact ⟨hlt, hkey, .of_conflict hl hne.symm hkey.symm hc.symm, .of_conflict he hne hkey hc⟩

theorem declarationsAgree_of_honours (h : DistinctIds batch)
    (hplain : ∀ l ∈ batch, l.children = [])
    (hhonours : HonoursDependencies S config batch lookup) :
    DeclarationsAgree S config batch := by
  intro l hl dep hdep d hd hid cd hcd hdcd cl hcl hlcl
  have hord := hhonours.1 l hl dep hdep d hd hid
  rw [ordered_iff_before h hplain hcd hcl hdcd hlcl,
    before_iff h (represent_mem_aggregated hcd) (represent_mem_aggregated hcl)] at hord
  simpa using hord

/-- **Declared dependencies.** A shuffle honours them exactly when they agree
with grouping and id order. -/
theorem declared_dependencies_honoured_iff (h : DistinctIds batch)
    (hplain : ∀ l ∈ batch, l.children = []) :
    HonoursDependencies S config batch lookup ↔ DeclarationsAgree S config batch := by
  refine ⟨declarationsAgree_of_honours h hplain, fun hagree => ⟨?_, ?_⟩⟩
  · intro l hl dep hdep d hd hid
    obtain ⟨cd, hcd, hdcd⟩ := exists_cluster S config hd
    obtain ⟨cl, hcl, hlcl⟩ := exists_cluster S config hl
    rw [ordered_iff_before h hplain hcd hcl hdcd hlcl,
      before_iff h (represent_mem_aggregated hcd) (represent_mem_aggregated hcl)]
    simpa using hagree l hl dep hdep d hd hid cd hcd hdcd cl hcl hlcl
  · exact fun l hl dep hdep => detected_before h hl hdep

/-- Without aggregation: same group, and the depended-on label has the lower id. -/
theorem declarationsAgree_disabled_iff (hagg : config.aggregationEnabled = false) :
    DeclarationsAgree S config batch ↔
      ∀ l ∈ batch, ∀ dep ∈ l.dependencies, ∀ d ∈ batch, d.id = dep.labelId →
        d.id < l.id ∧ groupKey d config.depGranularity = groupKey l config.depGranularity := by
  have hsingle : ∀ x ∈ batch, [x] ∈ clusters S config batch := by
    intro x hx
    rw [clusters_disabled hagg]
    exact List.mem_map_of_mem hx
  constructor
  · intro hagree l hl dep hdep d hd hid
    obtain ⟨hlt, hkey, _⟩ := hagree l hl dep hdep d hd hid [d] (hsingle d hd)
      List.mem_cons_self [l] (hsingle l hl) List.mem_cons_self
    exact ⟨hlt, hkey⟩
  · intro hall l hl dep hdep d hd hid cd hcd hdcd cl hcl hlcl
    rw [clusters_disabled hagg] at hcd hcl
    obtain ⟨d', _, rfl⟩ := List.mem_map.mp hcd
    obtain ⟨l', _, rfl⟩ := List.mem_map.mp hcl
    obtain rfl := List.mem_singleton.mp hdcd
    obtain rfl := List.mem_singleton.mp hlcl
    obtain ⟨hlt, hkey⟩ := hall l hl dep hdep d hd hid
    have hmem : l ∈ aggregated S config batch := by rwa [aggregated_disabled S hagg]
    exact ⟨hlt, hkey, .inr (.inl ⟨l, hmem, dep, hdep, hid.symm⟩),
      .inl (List.ne_nil_of_mem hdep)⟩

/-- A chunk of file "a", and a label of `create_label` that declares a dependency
on it: `create_label` sets no file key, so the two fall into different groups. -/
def crossGroupDeclaration : List LabelData :=
  [writeChunk 1 7 1 0 "a" 0 10,
    createLabel 2 7 1 { destination := filePath "b" 0 10, dependencies := [⟨1, .raw⟩] }]

theorem declared_dependencies_honoured_crossGroup :
    HonoursDependencies .insertion {} crossGroupDeclaration none ↔
      DeclarationsAgree .insertion {} crossGroupDeclaration :=
  declared_dependencies_honoured_iff (by decide) (by decide)

theorem crossGroupDeclaration_not_honoured :
    ¬HonoursDependencies .insertion {} crossGroupDeclaration none := by
  intro hhonours
  have hagree := declarationsAgree_of_honours (by decide) (by decide) hhonours
  revert hagree
  unfold DeclarationsAgree
  decide

end Labios

/-!
## Hazards between labels of different entry points

Detection compares labels of one grouping key by the range of their `FilePath`.
`create_label` fills in neither a file key nor, for URI labels, a range, so two
labels can address the same bytes unseen. `hazards_seen_iff` says exactly when
every such pair is serialized; among labels of the label manager that share a
file key it always is.
-/

namespace Labios

open Foundation

variable {S : StdSort} {config : ShufflerConfig} {batch : List LabelData}
  {lookup : Option LocationLookup}

/-- Every hazardous pair shares a supertask, the lower id first. -/
def HazardsSeen (S : StdSort) (config : ShufflerConfig) (batch : List LabelData)
    (lookup : Option LocationLookup) : Prop :=
  ∀ a ∈ batch, ∀ b ∈ batch, a.id < b.id → hazardous a b = true →
    (shuffle S config batch lookup).Before a.id b.id

/-- Every hazardous pair has one grouping key, and each of the two labels takes
part in a dependency that the detector records or a client declared. -/
def HazardsVisible (granularity : String) (batch : List LabelData) : Prop :=
  ∀ a ∈ batch, ∀ b ∈ batch, a.id < b.id → hazardous a b = true →
    groupKey a granularity = groupKey b granularity ∧
      Entangled granularity batch a ∧ Entangled granularity batch b

instance (granularity : String) (batch : List LabelData) :
    Decidable (HazardsVisible granularity batch) := by
  unfold HazardsVisible
  infer_instance

theorem before_iff_disabled (hagg : config.aggregationEnabled = false) (h : DistinctIds batch)
    {a b : LabelData} (ha : a ∈ batch) (hb : b ∈ batch) :
    (shuffle S config batch lookup).Before a.id b.id ↔
      a.id < b.id ∧ groupKey a config.depGranularity = groupKey b config.depGranularity ∧
        Entangled config.depGranularity batch a ∧ Entangled config.depGranularity batch b := by
  have hmem : ∀ x ∈ batch, x ∈ aggregated S config batch := by
    intro x hx
    rwa [aggregated_disabled S hagg]
  rw [before_iff h (hmem a ha) (hmem b hb), EntangledIn, EntangledIn,
    aggregated_disabled S hagg]

theorem hazardsVisible_of_seen (hagg : config.aggregationEnabled = false)
    (h : DistinctIds batch) (hseen : HazardsSeen S config batch lookup) :
    HazardsVisible config.depGranularity batch := by
  intro a ha b hb hlt hhaz
  exact ((before_iff_disabled hagg h ha hb).mp (hseen a ha b hb hlt hhaz)).2

/-- **Hazards of all entry points.** Without aggregation, every hazardous pair is
serialized exactly when the detector can see every hazardous pair. -/
theorem hazards_seen_iff (hagg : config.aggregationEnabled = false) (h : DistinctIds batch) :
    HazardsSeen S config batch lookup ↔ HazardsVisible config.depGranularity batch := by
  refine ⟨hazardsVisible_of_seen hagg h, ?_⟩
  intro hvis a ha b hb hlt hhaz
  exact (before_iff_disabled hagg h ha hb).mpr ⟨hlt, hvis a ha b hb hlt hhaz⟩

/-- Labels of the label manager that share a file key are always seen. -/
theorem labelManager_pair_seen (hagg : config.aggregationEnabled = false)
    (hgran : config.depGranularity = "per-file") (h : DistinctIds batch) {a b : LabelData}
    (ha : a ∈ batch) (hb : b ∈ batch) (hfa : FromLabelManager a) (hfb : FromLabelManager b)
    (hkey : a.fileKey = b.fileKey) (hlt : a.id < b.id) (hhaz : hazardous a b = true) :
    (shuffle S config batch lookup).Before a.id b.id := by
  have hc : Conflict a b := (hazardous_iff_conflict hfa hfb hkey).mp hhaz
  have hgroup : groupKey a config.depGranularity = groupKey b config.depGranularity := by
    rw [hgran]
    exact hkey
  have hne : a.id ≠ b.id := fun heq => absurd (heq ▸ hlt) (by simp)
  rw [before_iff_disabled hagg h ha hb]
  exact ⟨hlt, hgroup, .of_conflict hb hne.symm hgroup.symm hc.symm,
    .of_conflict ha hne hgroup hc⟩

/-- A write of file "a" with an intent, and a chunked read of the same bytes. -/
def intentThenRead : List LabelData :=
  [(writeWithIntent 1 7 1 "a" (List.replicate 10 0) .checkpoint 0).label,
    readChunk 2 7 1 "a" 0 10]

theorem hazards_seen_intentThenRead :
    HazardsSeen .insertion { aggregationEnabled := false } intentThenRead none ↔
      HazardsVisible "per-file" intentThenRead :=
  hazards_seen_iff rfl (by decide)

theorem intentThenRead_not_seen :
    ¬HazardsSeen .insertion { aggregationEnabled := false } intentThenRead none := by
  intro hseen
  have hvis : HazardsVisible "per-file" intentThenRead :=
    hazardsVisible_of_seen rfl (by decide) hseen
  revert hvis
  decide

end Labios
