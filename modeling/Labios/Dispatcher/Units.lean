import Labios.Dispatcher.Routing
import Labios.Shuffler.Supertasks
import Labios.Worker.Runs

/-!
# What a routed batch executes

The messages of a routed batch, unpacked: a composite stands for the children
packed under its id, in their order; every other message is one label. Up to
what execution depends on, these are the units of the shuffle (`units_work`).

Assembly leaves a merged write that goes out alone the data of all its members
(`routed_data`); staged data of other labels it does not touch.
-/

namespace Labios

open Foundation StatusCatalog

variable {ρ : Type}

/-- The labels of one message, with the worker they go to. -/
def unpack (packed : UInt64 → Option (List LabelData)) (m : Int × LabelData) :
    List (Int × LabelData) :=
  if m.2.type = .composite then ((packed m.2.id).getD []).map fun l => (m.1, l) else [m]

def DispatchState.units (st : DispatchState ρ) : List (List (Int × LabelData)) :=
  st.sent.map (unpack st.supertasks)

/-! ## Units -/

theorem unpack_work (packed : UInt64 → Option (List LabelData)) (m : Int × LabelData) :
    (unpack packed m).map (fun x => work x.2) =
      if (request m.2).type = .composite then
        ((packed (request m.2).id).getD []).map work
      else [work (request m.2)] := by
  show _ = if m.2.type = .composite then ((packed m.2.id).getD []).map work else [work m.2]
  unfold unpack
  by_cases hc : m.2.type = .composite
  · rw [if_pos hc, if_pos hc, List.map_map]
    rfl
  · rw [if_neg hc, if_neg hc]
    rfl

section Batch

variable (d : Dispatcher ρ) (workers : List WorkerInfo)

theorem assembled_work (fanout : ReplyFanout) (labels : List LabelData) (n : Nat) :
    (assembled d fanout n labels).map (fun p => work p.1) = labels.map work := by
  induction labels generalizing n with
  | nil => rfl
  | cons l rest ih =>
      rw [assembled]
      cases fannedOut fanout l with
      | none => rw [List.map_cons, ih, List.map_cons]
      | some replies =>
          rw [List.map_cons, ih, List.map_cons]
          rfl

/-- The units of a routed result, in the order in which they are sent. -/
theorem route_units (hfind : SolverFinds d workers) {R : ShuffleResult}
    (hids : (R.supertasks.map (·.composite.id)).Nodup)
    (hdirect : ∀ p ∈ R.directRoute, p.1.type ≠ .composite)
    (hindependent : ∀ l ∈ R.independent, l.type ≠ .composite)
    (hcomposite : ∀ t ∈ R.supertasks, t.composite.type = .composite)
    {st : DispatchState ρ} (hsent : st.sent = []) :
    (route d workers R st).units.map (·.map fun m => work m.2) =
      R.directRoute.map (fun p => [work p.1]) ++ R.supertasks.map (fun t => t.children.map work) ++
        R.independent.map fun l => [work l] := by
  obtain ⟨hroute, _, hpacked⟩ := route_spec d workers R st hfind hids
  unfold DispatchState.units
  generalize (route d workers R st).supertasks = packed at hpacked ⊢
  have hplain : ∀ l : LabelData, l.type ≠ .composite →
      (if (request l).type = .composite then ((packed (request l).id).getD []).map work
        else [work (request l)]) = [work l] := fun l hl => if_neg hl
  have hmessages : ((route d workers R st).sent.map (unpack packed)).map
        (·.map fun m => work m.2) =
      ((route d workers R st).sent.map fun m => request m.2).map fun l =>
        if l.type = .composite then ((packed l.id).getD []).map work else [work l] := by
    rw [List.map_map, List.map_map]
    exact List.map_congr_left fun m _ => unpack_work packed m
  rw [hmessages, hroute, hsent, List.map_nil, List.nil_append, List.map_append, List.map_append,
    List.map_map, List.map_map, List.map_map]
  congr 1
  · congr 1
    · exact List.map_congr_left fun p hp => hplain p.1 (hdirect p hp)
    · apply List.map_congr_left
      intro t ht
      obtain ⟨children, hchildren, hreq⟩ := Option.map_eq_some_iff.mp (hpacked t ht)
      have hmap : ∀ ls : List LabelData, ls.map work = (ls.map request).map work := by
        intro ls
        rw [List.map_map]
        rfl
      show (if t.composite.type = .composite then
        ((packed t.composite.id).getD []).map work else [work t.composite]) = _
      rw [if_pos (hcomposite t ht), hchildren, Option.getD_some, hmap, hreq, ← hmap]
  · have hkind : ∀ p ∈ assembledBatch d R st,
        (if (request p.1).type = .composite then ((packed (request p.1).id).getD []).map work
          else [work (request p.1)]) = [work p.1] := by
      intro p hp
      apply hplain
      obtain ⟨l, hl, htype, _⟩ := assembled_type d _ _ _ hp
      obtain ⟨l', hl', rfl⟩ := List.mem_map.mp hl
      rw [htype, type_of_request (request_markLabelShuffled l' d.now)]
      exact hindependent l' hl'
    have hwork : (assembledBatch d R st).map (fun p => work p.1) = R.independent.map work := by
      rw [assembledBatch, assembled_work, markShuffled]
      dsimp only
      rw [List.map_map]
      exact List.map_congr_left fun l _ => work_of_request (request_markLabelShuffled l d.now)
    have hsingles : ∀ ls : List LabelData, (ls.map fun l => [work l]) =
        (ls.map work).map fun l => [l] := by
      intro ls
      rw [List.map_map]
      rfl
    rw [hsingles, ← hwork, List.map_map]
    exact List.map_congr_left hkind

end Batch

/-! ## Assembled data -/

theorem combineChildren_spec {ids : List UInt64} (hnodup : ids.Nodup) (warehouse : Warehouse) :
    (combineChildren warehouse ids).1 = ids.flatMap warehouse.retrieve ∧
      ∀ id, id ∉ ids →
        (combineChildren warehouse ids).2.retrieve id = warehouse.retrieve id := by
  induction ids generalizing warehouse with
  | nil => exact ⟨rfl, fun _ _ => rfl⟩
  | cons first rest ih =>
      rw [List.nodup_cons] at hnodup
      obtain ⟨hdata, hother⟩ := ih hnodup.2 (warehouse.remove first)
      rw [combineChildren]
      dsimp only
      constructor
      · rw [hdata, List.flatMap_cons]
        congr 1
        apply List.flatMap_congr
        intro id hid
        exact Warehouse.retrieve_remove_of_ne _ _ fun heq => hnodup.1 (heq ▸ hid)
      · intro id hid
        rw [List.mem_cons, not_or] at hid
        rw [hother id hid.2, Warehouse.retrieve_remove_of_ne _ _ hid.1]

/-- What assembly does to the warehouse. -/
def assembleData (warehouse : Warehouse) (l : LabelData) : Warehouse :=
  if l.children ≠ [] ∧ l.type = .write then
    (combineChildren warehouse l.children).2.stage l.id
      (combineChildren warehouse l.children).1
  else warehouse

/-- Data that no merged label of the list takes in stays as it is. -/
theorem assembleData_other {labels : List LabelData} (hnodup : ∀ l ∈ labels, l.children.Nodup)
    (hown : ∀ l ∈ labels, l.children ≠ [] → l.id ∈ l.children) {id : UInt64}
    (hid : ∀ l ∈ labels, id ∉ l.children) (warehouse : Warehouse) :
    (labels.foldl assembleData warehouse).retrieve id = warehouse.retrieve id := by
  refine foldl_untouched (fun w : Warehouse => w.retrieve id) (fun l hl w => ?_) warehouse
  show (assembleData w l).retrieve id = w.retrieve id
  unfold assembleData
  by_cases hc : l.children ≠ [] ∧ l.type = .write
  · have hne : id ≠ l.id := fun heq => hid l hl (heq ▸ hown l hl hc.1)
    rw [if_pos hc, Warehouse.retrieve_stage_of_ne _ _ _ hne,
      (combineChildren_spec (hnodup l hl) w).2 id (hid l hl)]
  · rw [if_neg hc]

/-- A merged write of the list gets the data of its members. -/
theorem assembleData_merged {labels : List LabelData}
    (hnodup : (labels.flatMap (·.children)).Nodup)
    (hown : ∀ l ∈ labels, l.children ≠ [] → l.id ∈ l.children) {l : LabelData} (hl : l ∈ labels)
    (hne : l.children ≠ []) (hw : l.type = .write) (warehouse : Warehouse) :
    (labels.foldl assembleData warehouse).retrieve l.id =
      l.children.flatMap warehouse.retrieve := by
  obtain ⟨front, back, rfl⟩ := List.append_of_mem hl
  have heach : ∀ x ∈ front ++ l :: back, x.children.Nodup :=
    fun x hx => (List.nodup_flatMap.mp hnodup).1 x hx
  have hapart := (List.nodup_flatMap.mp hnodup).2
  rw [List.pairwise_append, List.pairwise_cons] at hapart
  have hlchild : l.id ∈ l.children := hown l hl hne
  have hfront : ∀ x ∈ front, x ∈ front ++ l :: back := fun x hx => List.mem_append_left _ hx
  have hback : ∀ x ∈ back, x ∈ front ++ l :: back :=
    fun x hx => List.mem_append_right _ (List.mem_cons_of_mem _ hx)
  rw [List.foldl_append, List.foldl_cons,
    assembleData_other (fun x hx => heach x (hback x hx)) (fun x hx => hown x (hback x hx))
      (fun x hx hmem => hapart.2.1.1 x hx hlchild hmem)]
  rw [assembleData, if_pos ⟨hne, hw⟩, Warehouse.retrieve_stage,
    (combineChildren_spec (heach l hl) _).1]
  apply List.flatMap_congr
  intro id hid
  exact assembleData_other (fun x hx => heach x (hfront x hx)) (fun x hx => hown x (hfront x hx))
    (fun x hx hmem => hapart.2.2 x hx l List.mem_cons_self hmem hid) warehouse

section Warehouse

variable (d : Dispatcher ρ) (workers : List WorkerInfo)

theorem routeIndependent_warehouse (fanout : ReplyFanout)
    (acc : DispatchState ρ × List ScheduleEntry) (l : LabelData) :
    (routeIndependent d workers fanout acc l).1.warehouse = assembleData acc.1.warehouse l := by
  have hassemble : (assemble d fanout acc.1 l).2.warehouse = assembleData acc.1.warehouse l := by
    unfold assemble assembleData
    by_cases hc : l.children ≠ [] ∧ l.type = .write
    · rw [if_pos hc, if_pos hc]
      dsimp only
      cases fanout l.id with
      | none => rfl
      | some replies => rfl
    · rw [if_neg hc, if_neg hc]
  rw [← hassemble]
  rcases hasm : assemble d fanout acc.1 l with ⟨l', st⟩
  unfold routeIndependent
  simp only [hasm]
  rcases placeIndependent d workers st l' with ⟨_ | ⟨workerId, policy⟩, solver⟩
  · rfl
  · rfl

/-- Routing changes the warehouse by assembly alone. -/
theorem route_warehouse (R : ShuffleResult) (st : DispatchState ρ) :
    (route d workers R st).warehouse =
      (markShuffled d.now R).independent.foldl assembleData st.warehouse := by
  have hdirect : ∀ (routes : List (LabelData × Int)) (st : DispatchState ρ),
      (routeDirects d workers st routes).warehouse = st.warehouse := by
    intro routes st
    show (routes.foldl (routeDirect d workers) st).warehouse = st.warehouse
    refine foldl_untouched (fun st : DispatchState ρ => st.warehouse) ?_ st
    exact fun _ _ _ => rfl
  have htasks : ∀ (tasks : List Supertask) (st : DispatchState ρ),
      (tasks.foldl (routeSupertask d workers) st).warehouse = st.warehouse := by
    refine fun tasks st => foldl_untouched (fun st : DispatchState ρ => st.warehouse) ?_ st
    intro t _ s
    unfold routeSupertask
    rcases d.selectWorker workers t.composite.intent s.solver with ⟨_ | w, solver⟩
    · rfl
    · rfl
  have hindependents : ∀ (labels : List LabelData) (acc : DispatchState ρ × List ScheduleEntry),
      (labels.foldl (routeIndependent d workers R.replyFanout) acc).1.warehouse =
        labels.foldl assembleData acc.1.warehouse := by
    intro labels
    induction labels with
    | nil => exact fun _ => rfl
    | cons l rest ih =>
        intro acc
        rw [List.foldl_cons, ih, routeIndependent_warehouse, List.foldl_cons]
  have hroute : (route d workers R st).warehouse =
      ((markShuffled d.now R).independent.foldl (routeIndependent d workers R.replyFanout)
        ((markShuffled d.now R).supertasks.foldl (routeSupertask d workers)
          (routeDirects d workers st (markShuffled d.now R).directRoute), [])).1.warehouse := rfl
  rw [hroute, hindependents, htasks, hdirect]

end Warehouse

/-! ## A shuffled batch -/

section Shuffled

variable {S : StdSort} {config : ShufflerConfig} {batch : List LabelData}
  {lookup : Option LocationLookup}

/-- The messages of a batch execute the units of its shuffle. -/
theorem units_work (S : StdSort) (config : ShufflerConfig) (lookup : Option LocationLookup)
    (d : Dispatcher ρ) (workers : List WorkerInfo) (hfind : SolverFinds d workers)
    (hids : DistinctIds batch) (hkind : ∀ l ∈ batch, l.type = .read ∨ l.type = .write)
    {st : DispatchState ρ} (hsent : st.sent = []) :
    ((route d workers (shuffle S config batch lookup) st).units.map
        (·.map fun m => work m.2)).Perm
      ((shuffle S config batch lookup).units.map (·.map work)) := by
  have hnot : ∀ l ∈ aggregated S config batch, l.type ≠ .composite := by
    intro l hl hc
    rcases aggregated_kind hkind hl with h | h
    · exact absurd (h.symm.trans hc) (by decide)
    · exact absurd (h.symm.trans hc) (by decide)
  have hsentIds := sent_ids_nodup S config lookup hids
  rw [route_units d workers hfind (List.nodup_append.mp (List.nodup_append.mp hsentIds).1).2.1
    (fun p hp => hnot p.1 ((mem_directRoute hids).mp hp).1)
    (fun l hl => hnot l ((mem_independent hids).mp hl).1)
    (fun t ht => by
      obtain ⟨key, first, rest, _, rfl⟩ := (mem_supertasks hids).mp ht
      rfl) hsent]
  generalize shuffle S config batch lookup = R
  have hunits : R.units.map (·.map work) = R.supertasks.map (fun t => t.children.map work) ++
      (R.directRoute.map (fun p => [work p.1]) ++ R.independent.map fun l => [work l]) := by
    unfold ShuffleResult.units
    rw [List.map_append, List.map_map, List.map_append, List.map_append, List.map_map, List.map_map,
      List.map_map]
    rfl
  rw [hunits, List.append_assoc]
  exact List.perm_append_comm_assoc ..

/-- The label runs before the other one: both are entangled, in one group. -/
structure RunsBefore (S : StdSort) (config : ShufflerConfig) (batch : List LabelData)
    (a b : LabelData) : Prop where
  ids : a.id < b.id
  group : groupKey a config.depGranularity = groupKey b config.depGranularity
  first : EntangledIn S config batch a
  second : EntangledIn S config batch b

/-- What execution sees of the units of a routed batch: they hold every cluster's
label once, and order exactly the labels that run before one another. -/
structure RoutedUnits (S : StdSort) (config : ShufflerConfig) (batch : List LabelData)
    (units : List (List (Int × LabelData))) : Prop where
  label : ∀ m ∈ units.flatten, ∃ c ∈ clusters S config batch, work m.2 = work (represent c)
  cluster : ∀ c ∈ clusters S config batch, ∃ m ∈ units.flatten, work m.2 = work (represent c)
  nodup : (units.flatten.map (·.2.id)).Nodup
  ordered : ∀ a ∈ aggregated S config batch, ∀ b ∈ aggregated S config batch,
    (∃ u ∈ units, [a.id, b.id].Sublist (u.map (·.2.id))) ↔ RunsBefore S config batch a b

theorem work_of_core {a b : LabelData} (h : core a = core b) : work a = work b := by
  have hcore : ∀ l, work (core l) = work l := fun _ => rfl
  rw [← hcore a, h, hcore]

theorem routed_units (d : Dispatcher ρ) (workers : List WorkerInfo) (hfind : SolverFinds d workers)
    (hids : DistinctIds batch) (hkind : ∀ l ∈ batch, l.type = .read ∨ l.type = .write)
    {st : DispatchState ρ} (hsent : st.sent = []) :
    RoutedUnits S config batch
      (route d workers (shuffle S config batch lookup) st).units := by
  have hperm := units_work S config lookup d workers hfind hids hkind hsent
  generalize (route d workers (shuffle S config batch lookup) st).units = units at hperm
  have hperm' : (units.map (·.map (·.2.id))).Perm
      ((shuffle S config batch lookup).units.map (·.map (·.id))) := by
    have hmapped := hperm.map (·.map (·.id))
    rw [List.map_map, List.map_map] at hmapped
    have hleft : units.map ((·.map (·.id)) ∘ (·.map fun m : Int × LabelData => work m.2)) =
        units.map (·.map (·.2.id)) := by
      apply List.map_congr_left
      intro u _
      exact List.map_map
    have hright : (shuffle S config batch lookup).units.map ((·.map (·.id)) ∘ (·.map work)) =
        (shuffle S config batch lookup).units.map (·.map (·.id)) := by
      apply List.map_congr_left
      intro u _
      exact List.map_map
    rwa [hleft, hright] at hmapped
  refine ⟨?_, ?_, ?_, ?_⟩
  · intro m hm
    obtain ⟨u, hu, hmu⟩ := List.mem_flatten.mp hm
    obtain ⟨v, hv, hwork⟩ := List.mem_map.mp (hperm.mem_iff.mp (List.mem_map_of_mem hu))
    have hmem : work m.2 ∈ v.map work := by
      rw [hwork]
      exact List.mem_map_of_mem (f := fun m : Int × LabelData => work m.2) hmu
    obtain ⟨a, ha, haw⟩ := List.mem_map.mp hmem
    obtain ⟨l, hl, hcore⟩ := core_of_mem_unit hids hv ha
    obtain ⟨c, hc, rfl⟩ := mem_aggregated.mp hl
    exact ⟨c, hc, haw.symm.trans (work_of_core hcore).symm⟩
  · intro c hc
    have hl : represent c ∈ aggregated S config batch := represent_mem_aggregated hc
    have hcores : ((shuffle S config batch lookup).units.flatten.map core).Perm
        ((aggregated S config batch).map core) := units_perm hids
    obtain ⟨a, ha, hcore⟩ := List.mem_map.mp
      (hcores.mem_iff.mpr (List.mem_map_of_mem hl))
    obtain ⟨v, hv, hav⟩ := List.mem_flatten.mp ha
    obtain ⟨u, hu, hwork⟩ := List.mem_map.mp (hperm.mem_iff.mpr (List.mem_map_of_mem hv))
    have hmem : work a ∈ u.map fun m => work m.2 := by
      rw [hwork]
      exact List.mem_map_of_mem hav
    obtain ⟨m, hm, hma⟩ := List.mem_map.mp hmem
    exact ⟨m, List.mem_flatten.mpr ⟨u, hu, hm⟩, hma.trans (work_of_core hcore)⟩
  · have hflat := hperm'.flatten
    rw [← List.map_flatten, ← List.map_flatten] at hflat
    exact hflat.nodup_iff.mpr (units_distinctIds S config lookup hids)
  · intro a ha b hb
    have hbefore : (∃ u ∈ units, [a.id, b.id].Sublist (u.map (·.2.id))) ↔
        (shuffle S config batch lookup).Before a.id b.id := by
      constructor
      · rintro ⟨u, hu, hsub⟩
        obtain ⟨v, hv, hwork⟩ := List.mem_map.mp (hperm'.mem_iff.mp (List.mem_map_of_mem hu))
        rw [← hwork] at hsub
        rcases List.mem_append.mp hv with hv | hv
        · obtain ⟨t, ht, rfl⟩ := List.mem_map.mp hv
          exact ⟨t, ht, hsub⟩
        · -- a unit of one label orders nothing
          obtain ⟨l, _, rfl⟩ := List.mem_map.mp hv
          exact absurd hsub.length_le (by simp)
      · rintro ⟨t, ht, hsub⟩
        have hv : t.children ∈ (shuffle S config batch lookup).units :=
          List.mem_append_left _ (List.mem_map_of_mem ht)
        obtain ⟨u, hu, hwork⟩ := List.mem_map.mp (hperm'.mem_iff.mpr (List.mem_map_of_mem hv))
        exact ⟨u, hu, hwork ▸ hsub⟩
    rw [hbefore, before_iff hids ha hb]
    exact ⟨fun ⟨h1, h2, h3, h4⟩ => ⟨h1, h2, h3, h4⟩, fun ⟨h1, h2, h3, h4⟩ => ⟨h1, h2, h3, h4⟩⟩

/-- The independent labels are aggregated labels, once each. -/
theorem independent_sublist (S : StdSort) (config : ShufflerConfig)
    (lookup : Option LocationLookup) (hids : DistinctIds batch) :
    (shuffle S config batch lookup).independent.Sublist (aggregated S config batch) := by
  unfold shuffle
  dsimp only
  rw [shuffle_remaining hids]
  exact List.filter_sublist.trans List.filter_sublist

/-- The hops of shuffling play no part in what is assembled. -/
theorem foldl_assembleData_markLabelShuffled (now : UInt64) (labels : List LabelData)
    (warehouse : Warehouse) :
    (labels.map (markLabelShuffled · now)).foldl assembleData warehouse =
      labels.foldl assembleData warehouse := by
  rw [List.foldl_map]
  congr 1
  funext warehouse l
  have hreq := request_markLabelShuffled l now
  unfold assembleData
  rw [id_of_request hreq, type_of_request hreq, children_of_work (work_of_request hreq)]

/-- Each independent label stands for a cluster. -/
theorem represents_of_mem_independent (hids : DistinctIds batch) {l : LabelData}
    (hl : l ∈ (shuffle S config batch lookup).independent) :
    ∃ e ∈ clusters S config batch, l = represent e := by
  have hmem := (independent_sublist S config lookup hids).mem hl
  obtain ⟨e, he, rfl⟩ := mem_aggregated.mp hmem
  exact ⟨e, he, rfl⟩

/-- Only a merged label has children, which are those of its cluster. -/
theorem children_represent (hchildren : ∀ l ∈ batch, l.children = []) {e : List LabelData}
    (he : e ∈ clusters S config batch) (hne : (represent e).children ≠ []) :
    (represent e).children = e.map (·.id) ∧ 2 ≤ e.length := by
  obtain ⟨w, rest, rfl⟩ := List.exists_cons_of_ne_nil (cluster_ne_nil he)
  cases rest with
  | nil => exact absurd (hchildren w (mem_of_mem_cluster he List.mem_cons_self)) hne
  | cons v vs => exact ⟨rfl, by simp⟩

theorem id_mem_children (hids : DistinctIds batch) (hchildren : ∀ l ∈ batch, l.children = [])
    {l : LabelData} (hl : l ∈ (shuffle S config batch lookup).independent)
    (hne : l.children ≠ []) : l.id ∈ l.children := by
  obtain ⟨e, he, rfl⟩ := represents_of_mem_independent hids hl
  rw [(children_represent hchildren he hne).1, represent_id]
  exact List.mem_map_of_mem (clusterHead_mem (cluster_ne_nil he))

theorem children_sublist_originals (labels : List LabelData) :
    (labels.flatMap (·.children)).Sublist (labels.flatMap originals) := by
  induction labels with
  | nil => exact .slnil
  | cons l labels ih =>
      rw [List.flatMap_cons, List.flatMap_cons]
      refine List.Sublist.append ?_ ih
      unfold originals
      cases hl : l.children with
      | nil => exact List.nil_sublist _
      | cons _ _ => exact .refl _

/-- No label of the batch is merged twice. -/
theorem nodup_children_independent (hids : DistinctIds batch)
    (hchildren : ∀ l ∈ batch, l.children = []) :
    ((shuffle S config batch lookup).independent.flatMap (·.children)).Nodup := by
  have hall : ((aggregated S config batch).flatMap originals).Nodup :=
    (originals_aggregate_perm hchildren).nodup_iff.mpr hids
  have hsub := (independent_sublist S config lookup hids).flatMap originals
  exact ((children_sublist_originals _).trans hsub).nodup hall

/-- After routing, a merged write that is not entangled has the data of all its
members under its id; any other label has its own. -/
theorem routed_data (d : Dispatcher ρ) (workers : List WorkerInfo) (hids : DistinctIds batch)
    (hchildren : ∀ l ∈ batch, l.children = []) (st : DispatchState ρ) {c : List LabelData}
    (hc : c ∈ clusters S config batch) :
    (route d workers (shuffle S config batch lookup) st).warehouse.retrieve (clusterHead c).id =
      if 2 ≤ c.length ∧ ¬EntangledIn S config batch (represent c) then
        c.flatMap fun w => st.warehouse.retrieve w.id
      else st.warehouse.retrieve (clusterHead c).id := by
  have hown : ∀ l ∈ (shuffle S config batch lookup).independent, l.children ≠ [] →
      l.id ∈ l.children := fun l hl => id_mem_children hids hchildren hl
  have hnodup : ((shuffle S config batch lookup).independent.flatMap (·.children)).Nodup :=
    nodup_children_independent hids hchildren
  rw [route_warehouse, markShuffled]
  dsimp only
  rw [foldl_assembleData_markLabelShuffled]
  by_cases hcond : 2 ≤ c.length ∧ ¬EntangledIn S config batch (represent c)
  · have hwrite := (isRun_of_two_le hc hcond.1).write
    have hkids : (represent c).children = c.map (·.id) := by
      rw [represent_of_two_le hcond.1]
      rfl
    have hne : (represent c).children ≠ [] := by
      rw [hkids]
      exact fun h => cluster_ne_nil hc (List.map_eq_nil_iff.mp h)
    have hmem : represent c ∈ (shuffle S config batch lookup).independent := by
      refine (mem_independent hids).mpr ⟨represent_mem_aggregated hc, hcond.2, ?_⟩
      unfold readLocation
      rw [represent_type c hwrite]
    have hdata := assembleData_merged hnodup hown hmem hne (represent_type c hwrite) st.warehouse
    rw [represent_id] at hdata
    rw [if_pos hcond, hdata, hkids, List.flatMap_map]
  · rw [if_neg hcond]
    refine assembleData_other (fun l hl => (List.nodup_flatMap.mp hnodup).1 l hl) hown ?_ _
    intro l hl hmem
    obtain ⟨e, he, rfl⟩ := represents_of_mem_independent hids hl
    obtain ⟨hkids, h2⟩ := children_represent hchildren he (List.ne_nil_of_mem hmem)
    rw [hkids] at hmem
    obtain ⟨w, hw, hwid⟩ := List.mem_map.mp hmem
    -- a cluster that holds the head of `c` is `c`
    have hcm := clusterHead_mem (cluster_ne_nil hc)
    obtain rfl := hids.eq_of_id_eq (mem_of_mem_cluster he hw) (mem_of_mem_cluster hc hcm) hwid
    obtain rfl := cluster_unique hids he hc hw hcm
    exact hcond ⟨h2, ((mem_independent hids).mp hl).2.1⟩

end Shuffled

end Labios
