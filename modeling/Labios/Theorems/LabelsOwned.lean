import Labios.Client.Model
import Labios.Dispatcher.Iteration
import Labios.Dispatcher.Policy

/-!
# What becomes of the labels of a batch

A batch loses labels at three exits: no worker is registered, the solver finds no
worker for a supertask, or none for an independent label. None of them answers
anybody. `none_dropped_iff` says when no label that waits for a reply is behind
one of these exits.
-/

namespace Labios

open Foundation StatusCatalog

/-- The message carries the label: on its own, merged, or as a child. -/
def Carries (packed : UInt64 → Option (List LabelData)) (m : Int × LabelData) (l : LabelData) :
    Prop :=
  l.id ∈ originals m.2 ∨
    m.2.type = .composite ∧ ∃ x ∈ (packed m.2.id).getD [], l.id ∈ originals x

/-- The label went to a worker in this iteration, or its requester has an answer. -/
def Owned {ρ : Type} (it : Iteration ρ) (before : DispatchState ρ) (l : LabelData) : Prop :=
  (∃ m ∈ it.dispatch.sent.drop before.sent.length, Carries it.dispatch.supertasks m l) ∨
    ∃ a ∈ it.answers, a.1 = l.replyTo ∧ a.2.labelId = l.id

/-- No label with a reply inbox is dropped. -/
def NoneDropped {ρ : Type} (it : Iteration ρ) (before : DispatchState ρ)
    (batch : List LabelData) : Prop :=
  ∀ l ∈ batch, l.replyTo ≠ "" → Owned it before l

/-- The cluster goes alone, to a worker that the catalog knows. -/
structure PlacedBefore (S : StdSort) (config : ShufflerConfig) (batch : List LabelData)
    (locations : LocationCatalog) (c : List LabelData) : Prop where
  alone : ¬EntangledIn S config batch (represent c)
  known : (readLocation (some locations.getLocation) (represent c)).isSome ∨
    (recordedWorker locations (represent c)).isSome

theorem naming_originals {a b : LabelData} (h : naming a = naming b) :
    originals a = originals b := by
  obtain ⟨hid, hchildren⟩ := Prod.mk.inj h
  unfold originals
  rw [hid, hchildren]

/-! ## With a worker for every label -/

section Batch

variable {ρ : Type} {d : Dispatcher ρ} {workers : List WorkerInfo} {S : StdSort}
  {config : ShufflerConfig} {batch : List LabelData} {lookup : Option LocationLookup}

theorem mem_drop_of_request {old : List (Int × LabelData)} {sent : List (Int × LabelData)}
    {new : List LabelData}
    (h : (sent.map fun m => request m.2) = (old.map fun m => request m.2) ++ new) {l : LabelData}
    (hl : l ∈ new) : ∃ m ∈ sent.drop old.length, request m.2 = l := by
  have hdrop : (sent.drop old.length).map (fun m => request m.2) = new := by
    rw [List.map_drop, h, List.drop_left' (List.length_map ..)]
  rw [← hdrop] at hl
  exact List.mem_map.mp hl

/-- Every cluster of a batch is carried by a message. -/
theorem route_carries (hfind : SolverFinds d workers) (hids : DistinctIds batch)
    (hplain : ∀ l ∈ batch, l.children = []) (st : DispatchState ρ) {c : List LabelData}
    (hc : c ∈ clusters S config batch) {l : LabelData} (hl : l ∈ c) :
    ∃ m ∈ (route d workers (shuffle S config batch lookup) st).sent.drop st.sent.length,
      Carries (route d workers (shuffle S config batch lookup) st).supertasks m l := by
  have hmem : represent c ∈ aggregated S config batch := represent_mem_aggregated hc
  have hnames : l.id ∈ originals (represent c) := by
    rw [originals_represent (cluster_ne_nil hc)
      fun x hx => hplain x (mem_of_mem_cluster hc hx)]
    exact List.mem_map_of_mem hl
  have hsentIds := sent_ids_nodup S config lookup hids
  obtain ⟨hsent, -, hpacks⟩ := route_spec d workers (shuffle S config batch lookup) st hfind
    (List.nodup_append.mp (List.nodup_append.mp hsentIds).1).2.1
  by_cases hent : EntangledIn S config batch (represent c)
  · -- a child of its supertask
    obtain ⟨first, htask⟩ := supertask_of_entangled lookup hids hmem hent
    generalize hgroup : dependentGroup S config.depGranularity (aggregated S config batch)
      (groupKey (represent c) config.depGranularity) = group at htask
    have hchild : represent c ∈ group := hgroup ▸ mem_dependentGroup.mpr ⟨hmem, hent, rfl⟩
    obtain ⟨m, hm, hrequest⟩ := mem_drop_of_request hsent
      (List.mem_append_left _ (List.mem_append_right _ (List.mem_map_of_mem htask)))
    have hpack := hpacks _ htask
    refine ⟨m, hm, .inr ⟨type_of_request hrequest, ?_⟩⟩
    rw [id_of_request hrequest]
    obtain ⟨children, hchildren, heq⟩ := Option.map_eq_some_iff.mp hpack
    rw [hchildren, Option.getD_some]
    have hin : request (supertaskChild S config.depGranularity (aggregated S config batch)
        first.id (represent c)) ∈ children.map request := by
      rw [heq]
      exact List.mem_map_of_mem (List.mem_map_of_mem hchild)
    obtain ⟨x, hx, hxr⟩ := List.mem_map.mp hin
    refine ⟨x, hx, ?_⟩
    rw [naming_originals (naming_of_request hxr)]
    exact hnames
  · cases hlocation : readLocation lookup (represent c) with
    | some w =>
        have hdirect := (mem_directRoute hids).mpr ⟨hmem, hent, hlocation⟩
        obtain ⟨m, hm, hrequest⟩ := mem_drop_of_request hsent
          (List.mem_append_left _ (List.mem_append_left _ (List.mem_map_of_mem hdirect)))
        exact ⟨m, hm, .inl (naming_originals (naming_of_request hrequest) ▸ hnames)⟩
    | none =>
        have hindependent := (mem_independent hids).mpr ⟨hmem, hent, hlocation⟩
        have hwork : work (markLabelShuffled (represent c) d.now) ∈
            (assembledBatch d (shuffle S config batch lookup) st).map fun p => work p.1 := by
          unfold assembledBatch
          rw [assembled_work]
          exact List.mem_map_of_mem (List.mem_map_of_mem hindependent)
        obtain ⟨p, hp, hpw⟩ := List.mem_map.mp hwork
        obtain ⟨m, hm, hrequest⟩ := mem_drop_of_request hsent
          (List.mem_append_right _ (List.mem_map_of_mem hp))
        refine ⟨m, hm, .inl ?_⟩
        have hnaming : naming m.2 = naming (represent c) := by
          rw [naming_of_request hrequest]
          have hp' : naming p.1 = naming (markLabelShuffled (represent c) d.now) :=
            Prod.ext (id_of_work hpw) (children_of_work hpw)
          exact hp'.trans (naming_of_request (request_markLabelShuffled _ _))
        exact naming_originals hnaming ▸ hnames

/-! ## Without any worker -/

theorem mem_cluster_of_originals (hids : DistinctIds batch) (hplain : ∀ l ∈ batch, l.children = [])
    {c e : List LabelData} (hc : c ∈ clusters S config batch) (he : e ∈ clusters S config batch)
    {l : LabelData} (hl : l ∈ c) (hnames : l.id ∈ originals (represent e)) : e = c := by
  rw [originals_represent (cluster_ne_nil he)
    fun x hx => hplain x (mem_of_mem_cluster he hx)] at hnames
  obtain ⟨x, hx, hid⟩ := List.mem_map.mp hnames
  obtain rfl := hids.eq_of_id_eq (mem_of_mem_cluster he hx) (mem_of_mem_cluster hc hl) hid
  exact cluster_unique hids he hc hx hl

/-- Then a cluster is carried when it goes alone to a worker that is known. -/
theorem route_unanswered_carries (hnone : ∀ intent s, (d.selectWorker workers intent s).1 = none)
    (hids : DistinctIds batch) (hplain : ∀ l ∈ batch, l.children = []) (st : DispatchState ρ)
    (hpacks : ∀ l ∈ batch, st.supertasks l.id = none) {c : List LabelData}
    (hc : c ∈ clusters S config batch) {l : LabelData} (hl : l ∈ c) :
    (∃ m ∈ (route d workers (shuffle S config batch (some st.locations.getLocation)) st).sent.drop
        st.sent.length,
      Carries (route d workers (shuffle S config batch (some st.locations.getLocation))
        st).supertasks m l) ↔
      PlacedBefore S config batch st.locations c := by
  obtain ⟨hsent, hpacked⟩ := route_unanswered workers hnone
    (shuffle S config batch (some st.locations.getLocation)) st
  rw [hpacked]
  have hnew : ((route d workers (shuffle S config batch (some st.locations.getLocation))
      st).sent.drop st.sent.length).map (fun m => naming m.2) =
        ((shuffle S config batch (some st.locations.getLocation)).directRoute.map
          fun p => naming p.1) ++
        ((shuffle S config batch (some st.locations.getLocation)).independent.filter
          fun l => (recordedWorker st.locations l).isSome).map naming := by
    rw [List.map_drop, hsent, List.drop_left' (List.length_map ..)]
  have hmem : represent c ∈ aggregated S config batch := represent_mem_aggregated hc
  constructor
  · rintro ⟨m, hm, hcarries⟩
    -- the message stands for a label that is known alone
    obtain ⟨x, hx, hent, hknown, hnaming⟩ : ∃ x ∈ aggregated S config batch,
        ¬EntangledIn S config batch x ∧
        ((readLocation (some st.locations.getLocation) x).isSome ∨
          (recordedWorker st.locations x).isSome) ∧ naming m.2 = naming x := by
      have hin := List.mem_map_of_mem (f := fun m : Int × LabelData => naming m.2) hm
      rw [hnew] at hin
      rcases List.mem_append.mp hin with hin | hin
      · obtain ⟨p, hp, heq⟩ := List.mem_map.mp hin
        obtain ⟨hx, hent, hlocation⟩ := (mem_directRoute hids).mp hp
        exact ⟨p.1, hx, hent, .inl (by rw [hlocation]; rfl), heq.symm⟩
      · obtain ⟨x, hxf, heq⟩ := List.mem_map.mp hin
        obtain ⟨hxi, hrecorded⟩ := List.mem_filter.mp hxf
        obtain ⟨hx, hent, -⟩ := (mem_independent hids).mp hxi
        exact ⟨x, hx, hent, .inr hrecorded, heq.symm⟩
    obtain ⟨e, he, rfl⟩ := mem_aggregated.mp hx
    rcases hcarries with hcarries | ⟨-, y, hy, -⟩
    · rw [naming_originals hnaming] at hcarries
      obtain rfl := mem_cluster_of_originals hids hplain hc he hl hcarries
      exact ⟨hent, hknown⟩
    · -- no pack is stored under an id of the batch
      have hid : m.2.id = (clusterHead e).id := (Prod.mk.inj hnaming).1.trans (represent_id e)
      have hhead := clusterHead_mem (cluster_ne_nil he)
      rw [hid, hpacks _ (mem_of_mem_cluster he hhead)] at hy
      exact absurd hy List.not_mem_nil
  · rintro ⟨hent, hknown⟩
    have hin : naming (represent c) ∈ ((route d workers
        (shuffle S config batch (some st.locations.getLocation)) st).sent.drop
          st.sent.length).map (fun m => naming m.2) := by
      rw [hnew]
      cases hlocation : readLocation (some st.locations.getLocation) (represent c) with
      | some w =>
          exact List.mem_append_left _ (List.mem_map_of_mem (f := fun p => naming p.1)
            ((mem_directRoute hids).mpr ⟨hmem, hent, hlocation⟩))
      | none =>
          have hrecorded := hknown.resolve_left (by simp [hlocation])
          exact List.mem_append_right _ (List.mem_map_of_mem (List.mem_filter.mpr
            ⟨(mem_independent hids).mpr ⟨hmem, hent, hlocation⟩, hrecorded⟩))
    obtain ⟨m, hm, heq⟩ := List.mem_map.mp hin
    refine ⟨m, hm, .inl ?_⟩
    rw [naming_originals heq, originals_represent (cluster_ne_nil hc)
      fun x hx => hplain x (mem_of_mem_cluster hc hx)]
    exact List.mem_map_of_mem hl

end Batch

/-! ## The iteration -/

section Iteration

variable {γ : Type} (c : Scheduling γ) (config : ShufflerConfig) (now : UInt64)
  (inboxName : Nat → String) (S : StdSort) (o : Observer)

/-- Every label that waits for a reply, Observe labels apart, meets a registered
worker, and either the policy finds one or the label needs no choice. -/
def WorkersServe (cached refreshed : List WorkerInfo) (batch : List LabelData)
    (locations : LocationCatalog) : Prop :=
  ∀ l ∈ remainder batch, l.replyTo ≠ "" → cached ≠ [] ∧
    (FindsWorker c (usableWorkers cached refreshed) ∨
      ∀ cl ∈ clusters S config (remainder batch), l ∈ cl →
        PlacedBefore S config (remainder batch) locations cl)

theorem remainder_distinct {batch : List LabelData} (h : DistinctIds batch) :
    DistinctIds (remainder batch) :=
  h.sublist (List.filter_sublist.map _)

theorem iteration_answers (d : Dispatcher (SolverState γ)) (obsWorkers cached refreshed : List WorkerInfo)
    (batch : List LabelData) (st : DispatchState (SolverState γ)) (a : String × CompletionData) :
    a ∈ (runIteration S d o obsWorkers cached refreshed batch st).answers ↔
      ∃ l ∈ batch, l.type = .observe ∧ l.replyTo ≠ "" ∧ a = (l.replyTo, observeCompletion l
        (o.handleObserve (parseUri l.sourceUri) obsWorkers)) := by
  have hanswers : (runIteration S d o obsWorkers cached refreshed batch st).answers =
      ((batch.filter (fun l => l.type = .observe)).foldl (observeLabel o obsWorkers)
        { dispatch := st }).answers := by
    unfold runIteration
    dsimp only
    split
    · rfl
    · rfl
  rw [hanswers, observe_answers]
  constructor
  · rintro (h | ⟨l, hl, hreply, heq⟩)
    · exact absurd h List.not_mem_nil
    · obtain ⟨hmem, htype⟩ := List.mem_filter.mp hl
      exact ⟨l, hmem, of_decide_eq_true htype, hreply, heq⟩
  · rintro ⟨l, hmem, htype, hreply, heq⟩
    exact .inr ⟨l, List.mem_filter.mpr ⟨hmem, decide_eq_true htype⟩, hreply, heq⟩

theorem iteration_dispatch (d : Dispatcher (SolverState γ))
    (obsWorkers cached refreshed : List WorkerInfo) {batch : List LabelData}
    (hne : remainder batch ≠ []) (st : DispatchState (SolverState γ)) :
    (runIteration S d o obsWorkers cached refreshed batch st).dispatch =
      dispatchBatch S d cached refreshed (remainder batch) st := by
  unfold runIteration
  rw [if_neg (by simpa using hne)]

/-- A label of the remainder is owned when a message of the batch carries it. -/
theorem owned_remainder_iff (d : Dispatcher (SolverState γ))
    (obsWorkers cached refreshed : List WorkerInfo) {batch : List LabelData}
    (hids : DistinctIds batch) (st : DispatchState (SolverState γ)) {l : LabelData}
    (hl : l ∈ remainder batch) :
    Owned (runIteration S d o obsWorkers cached refreshed batch st) st l ↔
      ∃ m ∈ (dispatchBatch S d cached refreshed (remainder batch) st).sent.drop st.sent.length,
        Carries (dispatchBatch S d cached refreshed (remainder batch) st).supertasks m l := by
  unfold Owned
  rw [iteration_dispatch S o d obsWorkers cached refreshed (List.ne_nil_of_mem hl) st]
  refine or_iff_left ?_
  rintro ⟨a, ha, -, hid⟩
  obtain ⟨x, hx, htype, -, rfl⟩ :=
    (iteration_answers S o d obsWorkers cached refreshed batch st a).mp ha
  obtain ⟨hmem, hnot⟩ := List.mem_filter.mp hl
  obtain rfl := hids.eq_of_id_eq hx hmem hid
  exact of_decide_eq_true hnot htype

/-- **Nothing silently dropped.** An iteration owns every label that waits for a
reply exactly when the workers serve the batch. -/
theorem none_dropped_iff (obsWorkers cached refreshed : List WorkerInfo) {batch : List LabelData}
    (hids : DistinctIds batch) (hplain : ∀ l ∈ batch, l.children = [])
    (st : DispatchState (SolverState γ)) (hpacks : ∀ l ∈ batch, st.supertasks l.id = none) :
    NoneDropped (runIteration S (c.dispatcher config now inboxName) o obsWorkers cached refreshed
        batch st) st batch ↔
      WorkersServe c config S cached refreshed batch st.locations := by
  have hremainder : ∀ l ∈ remainder batch, l ∈ batch := fun l hl => List.mem_of_mem_filter hl
  have hids' := remainder_distinct hids
  have hplain' := fun l hl => hplain l (hremainder l hl)
  -- label by label
  have hlabel : ∀ l ∈ remainder batch,
      Owned (runIteration S (c.dispatcher config now inboxName) o obsWorkers cached refreshed
          batch st) st l ↔
        cached ≠ [] ∧ (FindsWorker c (usableWorkers cached refreshed) ∨
          ∀ cl ∈ clusters S config (remainder batch), l ∈ cl →
            PlacedBefore S config (remainder batch) st.locations cl) := by
    intro l hl
    rw [owned_remainder_iff S o _ obsWorkers cached refreshed hids st hl]
    cases hcached : cached with
    | nil =>
        rw [dispatchBatch_nil]
        simp
    | cons first others =>
        have hconfig : (c.dispatcher config now inboxName).config = config := rfl
        rw [dispatchBatch_of_ne_nil S _ refreshed (remainder batch) st (List.cons_ne_nil _ _),
          hconfig]
        obtain ⟨cl, hcl, hlcl⟩ := exists_cluster S config hl
        by_cases hfinds : FindsWorker c (usableWorkers (first :: others) refreshed)
        · have hfind := solverFinds_of_findsWorker config now inboxName hfinds
          exact iff_of_true (route_carries hfind hids' hplain' st hcl hlcl)
            ⟨by simp, .inl hfinds⟩
        · have hnone : ∀ intent s, ((c.dispatcher config now inboxName).selectWorker
              (usableWorkers (first :: others) refreshed) intent s).1 = none := fun intent s =>
            (selectWorker_none_iff c _ intent s).mpr hfinds
          rw [route_unanswered_carries hnone hids' hplain' st
            (fun l hl => hpacks l (hremainder l hl)) hcl hlcl]
          constructor
          · intro h
            refine ⟨by simp, .inr fun e he hle => ?_⟩
            rw [cluster_unique hids' he hcl hle hlcl]
            exact h
          · exact fun h => (h.2.resolve_left hfinds) cl hcl hlcl
  constructor
  · exact fun h l hl hreply => (hlabel l hl).mp (h l (hremainder l hl) hreply)
  · intro h l hl hreply
    by_cases htype : l.type = .observe
    · exact .inr ⟨_, (iteration_answers S o _ obsWorkers cached refreshed batch st _).mpr
        ⟨l, hl, htype, hreply, rfl⟩, rfl, rfl⟩
    · have hrest : l ∈ remainder batch := List.mem_filter.mpr ⟨hl, decide_eq_true htype⟩
      exact (hlabel l hrest).mpr (h l hrest hreply)

end Iteration

/-! ## Runs -/

/-- Observes nothing, chains nothing. -/
def blindObserver : Observer :=
  { handleObserve := fun _ _ => {}
    processContinuation := fun _ _ => none }

/-- A write that waits for a reply. -/
def waitingWrite : LabelData := { writeChunk 1 7 1 0 "a" 0 10 with replyTo := "client.1" }

theorem none_dropped_oneWorker :
    NoneDropped (runIteration .insertion ((plainScheduling "round-robin").dispatcher {} 1 fun _ => "") blindObserver []
        [{ id := 1 }] [] [waitingWrite] freshState) freshState [waitingWrite] ↔
      WorkersServe (plainScheduling "round-robin") {} .insertion [{ id := 1 }] [] [waitingWrite]
        freshState.locations :=
  none_dropped_iff (plainScheduling "round-robin") {} 1 (fun _ => "") .insertion blindObserver [] [{ id := 1 }] []
    (by decide) (by decide) freshState (by decide)

/-- No worker is registered: the batch is skipped, and nobody is told. -/
theorem waitingWrite_dropped :
    ¬NoneDropped (runIteration .insertion ((plainScheduling "round-robin").dispatcher {} 1 fun _ => "") blindObserver
      [] [] [] [waitingWrite] freshState) freshState [waitingWrite] := by
  intro h
  rcases h waitingWrite List.mem_cons_self (by decide) with ⟨m, hm, -⟩ | ⟨a, ha, -⟩
  · exact absurd hm List.not_mem_nil
  · exact absurd ha List.not_mem_nil

end Labios
