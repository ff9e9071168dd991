import Labios.Shuffler.Model
import Mathlib.Data.List.SplitBy

/-!
# Clusters: what aggregation does to a batch

The abstract view of `aggregate`. A batch falls apart into *clusters*: every
non-write is a cluster of its own, and the writes of one file, in offset order,
are cut into maximal runs in which each write starts where the one before it
ends. `represent` is the label that stands for a cluster, the write itself or
the merged label.

`aggregate_eq` is the refinement: the code's output is the clusters'
representatives in order, and its reply map is the clusters' replies.
-/

namespace Labios

open Foundation

variable {S : StdSort} {config : ShufflerConfig} {batch : List LabelData}

/-- `b` starts where `a` ends, the test of the scan loop. -/
def abuts (a b : LabelData) : Bool := destOffset b == runEndOffset a

/-- The writes of one file in offset order, cut into maximal runs. -/
def writeRuns (S : StdSort) (writes : List LabelData) : List (List LabelData) :=
  (S.sortBy (fun w => (destOffset w).toNat) writes).splitBy abuts

def groupClusters (S : StdSort) (group : List LabelData) : List (List LabelData) :=
  (group.filter (fun l => l.type ≠ .write)).map (fun l => [l]) ++
    writeRuns S (group.filter (fun l => l.type = .write))

/-- The clusters of a batch, in output order. -/
def clusters (S : StdSort) (config : ShufflerConfig) (batch : List LabelData) :
    List (List LabelData) :=
  if !config.aggregationEnabled then batch.map (fun l => [l])
  else ((groupBy (·.fileKey) batch).map (·.2)).flatMap (groupClusters S)

/-- The label that stands for a cluster. -/
def represent : List LabelData → LabelData
  | [] => {}
  | [w] => w
  | first :: second :: rest => mergeRun first (first :: second :: rest)

/-! ## The scan -/

theorem splitBy_loop_eq_scanRuns (rest : List LabelData) :
    ∀ (a : LabelData) (g : List LabelData) (gs : List (List LabelData)),
      List.splitBy.loop abuts rest a g gs =
        gs.reverse ++ scanRuns (g.reverse ++ [a]) (runEndOffset a) rest := by
  induction rest with
  | nil =>
      intro a g gs
      simp [List.splitBy.loop, scanRuns]
  | cons b rest ih =>
      intro a g gs
      rw [List.splitBy.loop, scanRuns]
      by_cases hab : (destOffset b == runEndOffset a) = true
      · rw [show abuts a b = true from hab, if_pos hab]
        simp only [ih, List.reverse_cons]
      · rw [show abuts a b = false from Bool.eq_false_iff.mpr hab, if_neg hab]
        simp only [ih, List.reverse_cons, List.reverse_nil, List.nil_append,
          List.append_assoc, List.singleton_append]

/-- The scan loop finds the maximal runs. -/
theorem scanRuns_eq_splitBy (w : LabelData) (rest : List LabelData) :
    scanRuns [w] (runEndOffset w) rest = (w :: rest).splitBy abuts :=
  (splitBy_loop_eq_scanRuns rest w [] []).symm

/-! ## Refinement -/

theorem foldl_emitRun_singletons (ls : List LabelData) (st : AggregateState) :
    (ls.map (fun l => [l])).foldl emitRun st = { st with output := st.output ++ ls } := by
  induction ls generalizing st with
  | nil => simp
  | cons l ls ih =>
      rw [List.map_cons, List.foldl_cons, ih]
      simp [emitRun]

theorem aggregateGroup_eq (st : AggregateState) (group : List LabelData) :
    aggregateGroup S st group = (groupClusters S group).foldl emitRun st := by
  rw [groupClusters, List.foldl_append, foldl_emitRun_singletons, aggregateGroup, writeRuns]
  cases h : S.sortBy (fun w => (destOffset w).toNat)
      (group.filter (fun l => l.type = .write)) with
  | nil => rfl
  | cons w rest =>
      show (scanRuns [w] (runEndOffset w) rest).foldl emitRun _ = _
      rw [scanRuns_eq_splitBy]

/-- `aggregate` emits the clusters one after another. -/
theorem aggregate_eq (S : StdSort) (config : ShufflerConfig) (batch : List LabelData) :
    aggregate S config batch = (clusters S config batch).foldl emitRun {} := by
  unfold aggregate clusters
  by_cases hc : (!config.aggregationEnabled) = true
  · rw [if_pos hc, if_pos hc, foldl_emitRun_singletons]
    simp
  · rw [if_neg hc, if_neg hc, List.foldl_flatMap]
    congr 1
    funext st group
    exact aggregateGroup_eq st group

/-! ## Shape of the clusters -/

theorem clusters_disabled (h : config.aggregationEnabled = false) :
    clusters S config batch = batch.map (fun l => [l]) := by
  simp [clusters, h]

theorem groupClusters_flatten_perm (group : List LabelData) :
    (groupClusters S group).flatten.Perm group := by
  have hruns : (writeRuns S (group.filter (fun l => l.type = .write))).flatten.Perm
      (group.filter (fun l => l.type = .write)) := by
    rw [writeRuns, List.flatten_splitBy]
    exact S.perm _ _
  have hsingles : ((group.filter (fun l => l.type ≠ .write)).map (fun l => [l])).flatten =
      group.filter (fun l => l.type ≠ .write) := by
    rw [← List.flatMap_def, List.flatMap_singleton']
  rw [groupClusters, List.flatten_append, hsingles]
  refine ((hruns.append_left _).trans List.perm_append_comm).trans ?_
  have := List.filter_append_perm (fun l : LabelData => decide (l.type = .write)) group
  simpa using this

/-- Clustering moves labels and loses none. -/
theorem clusters_flatten_perm (S : StdSort) (config : ShufflerConfig)
    (batch : List LabelData) : (clusters S config batch).flatten.Perm batch := by
  unfold clusters
  split
  · rw [← List.flatMap_def, List.flatMap_singleton']
  · have hgroups : ∀ gs : List (List LabelData),
        (gs.flatMap (groupClusters S)).flatten.Perm gs.flatten := by
      intro gs
      induction gs with
      | nil => simp
      | cons g gs ih =>
          rw [List.flatMap_cons, List.flatten_append, List.flatten_cons]
          exact (groupClusters_flatten_perm g).append ih
    refine (hgroups _).trans ?_
    have := groupBy_perm (fun l : LabelData => l.fileKey) batch
    rwa [List.flatMap_def] at this

theorem mem_of_mem_cluster {c : List LabelData} (hc : c ∈ clusters S config batch)
    {w : LabelData} (hw : w ∈ c) : w ∈ batch :=
  (clusters_flatten_perm S config batch).mem_iff.mp (List.mem_flatten.mpr ⟨c, hc, hw⟩)

theorem exists_cluster (S : StdSort) (config : ShufflerConfig) {w : LabelData} (hw : w ∈ batch) :
    ∃ c ∈ clusters S config batch, w ∈ c :=
  List.mem_flatten.mp ((clusters_flatten_perm S config batch).mem_iff.mpr hw)

/-- A run of a file group: where it comes from. -/
structure IsRun (S : StdSort) (batch : List LabelData) (c : List LabelData) : Prop where
  ne_nil : c ≠ []
  write : ∀ w ∈ c, w.type = .write
  chain : c.IsChain fun a b => abuts a b = true
  sorted : c.Pairwise fun a b => destOffset a ≤ destOffset b
  fileKey : ∀ a ∈ c, ∀ b ∈ c, a.fileKey = b.fileKey
  mem : ∀ w ∈ c, w ∈ batch

theorem writeRuns_isRun {key : String} {c : List LabelData}
    (hc : c ∈ writeRuns S ((batch.filter (fun l => l.fileKey = key)).filter
      (fun l => l.type = .write))) : IsRun S batch c := by
  have hsub : c.Sublist (S.sortBy (fun w => (destOffset w).toNat)
      ((batch.filter (fun l => l.fileKey = key)).filter (fun l => l.type = .write))) := by
    have := List.sublist_flatten_of_mem hc
    rwa [writeRuns, List.flatten_splitBy] at this
  have hmem : ∀ w ∈ c, (w ∈ batch ∧ w.fileKey = key) ∧ w.type = .write := by
    intro w hw
    obtain ⟨h1, hwrite⟩ := List.mem_filter.mp ((S.mem_sortBy _ _ _).mp (hsub.subset hw))
    obtain ⟨hbatch, hkey⟩ := List.mem_filter.mp h1
    exact ⟨⟨hbatch, of_decide_eq_true hkey⟩, of_decide_eq_true hwrite⟩
  refine ⟨List.ne_nil_of_mem_splitBy hc, fun w hw => (hmem w hw).2,
    List.isChain_of_mem_splitBy hc, ?_, ?_, fun w hw => (hmem w hw).1.1⟩
  · exact (S.sorted _ _).sublist hsub
  · intro a ha b hb
    rw [(hmem a ha).1.2, (hmem b hb).1.2]

/-- A cluster is a single label or a run. -/
theorem cluster_cases {c : List LabelData} (hc : c ∈ clusters S config batch) :
    (∃ l, c = [l] ∧ l ∈ batch) ∨ (config.aggregationEnabled = true ∧ IsRun S batch c) := by
  unfold clusters at hc
  by_cases hen : config.aggregationEnabled = true
  · rw [if_neg (by simp [hen]), List.mem_flatMap] at hc
    obtain ⟨_, hg, hc⟩ := hc
    obtain ⟨⟨key, group⟩, hmem, rfl⟩ := List.mem_map.mp hg
    have hgroup : group = batch.filter (fun l => l.fileKey = key) :=
      (groupBy_groups (fun l : LabelData => l.fileKey) batch).group_eq _ hmem
    subst hgroup
    rcases List.mem_append.mp hc with hc | hc
    · obtain ⟨l, hl, rfl⟩ := List.mem_map.mp hc
      exact .inl ⟨l, rfl, List.mem_of_mem_filter (List.mem_of_mem_filter hl)⟩
    · exact .inr ⟨hen, writeRuns_isRun hc⟩
  · rw [if_pos (by simp [hen]), List.mem_map] at hc
    obtain ⟨l, hl, rfl⟩ := hc
    exact .inl ⟨l, rfl, hl⟩

theorem cluster_ne_nil {c : List LabelData} (hc : c ∈ clusters S config batch) : c ≠ [] := by
  rcases cluster_cases hc with ⟨l, rfl, _⟩ | ⟨_, hr⟩
  · simp
  · exact hr.ne_nil

/-- A cluster of two or more is a run. -/
theorem isRun_of_two_le {c : List LabelData} (hc : c ∈ clusters S config batch)
    (h2 : 2 ≤ c.length) : IsRun S batch c := by
  rcases cluster_cases hc with ⟨l, rfl, _⟩ | ⟨_, hr⟩
  · simp at h2
  · exact hr

/-! ## Representatives -/

/-- The first label of a cluster, whose id its representative carries. -/
def clusterHead (c : List LabelData) : LabelData := c.headD {}

theorem clusterHead_mem {c : List LabelData} (h : c ≠ []) : clusterHead c ∈ c := by
  cases c with
  | nil => exact absurd rfl h
  | cons w rest => exact List.mem_cons_self

@[simp] theorem represent_singleton (w : LabelData) : represent [w] = w := rfl

theorem represent_of_two_le {c : List LabelData} (h : 2 ≤ c.length) :
    represent c = mergeRun (clusterHead c) c := by
  match c, h with
  | first :: second :: rest, _ => rfl

@[simp] theorem represent_id (c : List LabelData) : (represent c).id = (clusterHead c).id := by
  match c with
  | [] => rfl
  | [_] => rfl
  | _ :: _ :: _ => rfl

@[simp] theorem represent_fileKey (c : List LabelData) :
    (represent c).fileKey = (clusterHead c).fileKey := by
  match c with
  | [] => rfl
  | [_] => rfl
  | _ :: _ :: _ => rfl

@[simp] theorem represent_replyTo (c : List LabelData) :
    (represent c).replyTo = (clusterHead c).replyTo := by
  match c with
  | [] => rfl
  | [_] => rfl
  | _ :: _ :: _ => rfl

@[simp] theorem represent_groupKey (c : List LabelData) (granularity : String) :
    groupKey (represent c) granularity = groupKey (clusterHead c) granularity := by
  match c with
  | [] => rfl
  | [_] => rfl
  | _ :: _ :: _ => rfl

theorem represent_type (c : List LabelData) (h : ∀ w ∈ c, w.type = .write) :
    (represent c).type = .write := by
  match c with
  | [] => rfl
  | [w] => exact h w List.mem_cons_self
  | _ :: _ :: _ => rfl

theorem emitRun_output (st : AggregateState) {c : List LabelData} (h : c ≠ []) :
    (emitRun st c).output = st.output ++ [represent c] := by
  match c, h with
  | [_], _ => rfl
  | _ :: _ :: _, _ => rfl

theorem foldl_emitRun_output (cs : List (List LabelData)) (h : ∀ c ∈ cs, c ≠ [])
    (st : AggregateState) :
    (cs.foldl emitRun st).output = st.output ++ cs.map represent := by
  induction cs generalizing st with
  | nil => simp
  | cons c cs ih =>
      rw [List.foldl_cons, ih (fun c' hc' => h c' (List.mem_cons_of_mem _ hc')),
        emitRun_output st (h c List.mem_cons_self)]
      simp

/-- The output of `aggregate` is the list of representatives. -/
theorem aggregate_output (S : StdSort) (config : ShufflerConfig) (batch : List LabelData) :
    (aggregate S config batch).output = (clusters S config batch).map represent := by
  rw [aggregate_eq, foldl_emitRun_output _ (fun c hc => cluster_ne_nil hc)]
  simp

/-- A batch with distinct ids aggregates to labels with distinct ids. -/
theorem aggregate_distinctIds (h : DistinctIds batch) :
    DistinctIds (aggregate S config batch).output := by
  have hflat : DistinctIds (clusters S config batch).flatten :=
    h.perm (clusters_flatten_perm S config batch)
  have key : ∀ cs : List (List LabelData), (∀ c ∈ cs, c ≠ []) →
      DistinctIds cs.flatten → DistinctIds (cs.map represent) := by
    intro cs hne hd
    induction cs with
    | nil => exact List.nodup_nil
    | cons c cs ih =>
        have hd' := hd
        unfold DistinctIds at hd'
        rw [List.flatten_cons, List.map_append] at hd'
        obtain ⟨_, hcs, hdisj⟩ := List.nodup_append.mp hd'
        unfold DistinctIds
        rw [List.map_cons, List.map_cons, List.nodup_cons]
        refine ⟨?_, ih (fun c' hc' => hne c' (List.mem_cons_of_mem _ hc')) hcs⟩
        intro hmem
        obtain ⟨r, hr, hid⟩ := List.mem_map.mp hmem
        obtain ⟨c', hc', rfl⟩ := List.mem_map.mp hr
        rw [represent_id, represent_id] at hid
        refine hdisj _ (List.mem_map_of_mem (clusterHead_mem (hne c List.mem_cons_self)))
          _ (List.mem_map_of_mem (List.mem_flatten.mpr ⟨c', hc',
            clusterHead_mem (hne c' (List.mem_cons_of_mem _ hc'))⟩)) hid.symm
  rw [aggregate_output]
  exact key _ (fun c hc => cluster_ne_nil hc) hflat

/-! ## The reply map -/

theorem emitRun_replyFanout (st : AggregateState) {c : List LabelData} (h : c ≠ []) :
    (emitRun st c).replyFanout =
      if 2 ≤ c.length ∧ 1 < (runReplies c).length then
        Function.update st.replyFanout (clusterHead c).id (some (runReplies c))
      else st.replyFanout := by
  match c, h with
  | [_], _ => rfl
  | first :: second :: rest, _ => simp [emitRun, clusterHead, mergeRun]

theorem foldl_emitRun_replyFanout_of_ne (cs : List (List LabelData)) (h : ∀ c ∈ cs, c ≠ [])
    {id : UInt64} (hid : ∀ c ∈ cs, (clusterHead c).id ≠ id) (st : AggregateState) :
    (cs.foldl emitRun st).replyFanout id = st.replyFanout id := by
  induction cs generalizing st with
  | nil => rfl
  | cons c cs ih =>
      rw [List.foldl_cons, ih (fun c' hc' => h c' (List.mem_cons_of_mem _ hc'))
        (fun c' hc' => hid c' (List.mem_cons_of_mem _ hc')),
        emitRun_replyFanout st (h c List.mem_cons_self)]
      split
      · exact Function.update_of_ne (Ne.symm (hid c List.mem_cons_self)) _ _
      · rfl

/-- A merged run with two or more requesters has them in the reply map; no other
id is there. -/
theorem aggregate_replyFanout (h : DistinctIds batch) {c : List LabelData}
    (hc : c ∈ clusters S config batch) :
    (aggregate S config batch).replyFanout (clusterHead c).id =
      if 2 ≤ c.length ∧ 1 < (runReplies c).length then some (runReplies c) else none := by
  obtain ⟨front, back, hsplit⟩ := List.append_of_mem hc
  have hne : ∀ c' ∈ front ++ c :: back, c' ≠ [] := by
    rw [← hsplit]
    exact fun c' hc' => cluster_ne_nil hc'
  have hother : ∀ c' ∈ front ++ back, (clusterHead c').id ≠ (clusterHead c).id := by
    have hids : DistinctIds (aggregate S config batch).output := aggregate_distinctIds h
    unfold DistinctIds at hids
    rw [aggregate_output, hsplit, List.map_map] at hids
    have hperm : (front ++ c :: back).Perm (c :: (front ++ back)) := List.perm_middle
    rw [(hperm.map _).nodup_iff, List.map_cons, List.nodup_cons] at hids
    intro c' hc' hid
    refine hids.1 (List.mem_map.mpr ⟨c', hc', ?_⟩)
    simpa using hid
  rw [aggregate_eq, hsplit, List.foldl_append, List.foldl_cons,
    foldl_emitRun_replyFanout_of_ne back (fun c' hc' => hne c' (by simp [hc']))
      (fun c' hc' => hother c' (by simp [hc'])),
    emitRun_replyFanout _ (hne c (by simp))]
  split
  · exact Function.update_self ..
  · exact foldl_emitRun_replyFanout_of_ne front (fun c' hc' => hne c' (by simp [hc']))
      (fun c' hc' => hother c' (by simp [hc'])) {}

/-! ## What an output label stands for -/

/-- The batch labels an output label stands for: the merged ones, or itself. -/
def originals (l : LabelData) : List UInt64 :=
  if l.children.isEmpty then [l.id] else l.children

theorem originals_represent {c : List LabelData} (hc : c ≠ [])
    (hplain : ∀ l ∈ c, l.children = []) : originals (represent c) = c.map (·.id) := by
  match c, hc with
  | [w], _ => simp [originals, hplain w List.mem_cons_self]
  | first :: second :: rest, _ => rfl

/-- Aggregation keeps every id of the batch, once. -/
theorem originals_aggregate_perm (hplain : ∀ l ∈ batch, l.children = []) :
    ((aggregate S config batch).output.flatMap originals).Perm (batch.map (·.id)) := by
  have hmap : (aggregate S config batch).output.flatMap originals =
      (clusters S config batch).flatten.map (·.id) := by
    rw [aggregate_output, List.flatMap_map, List.map_flatten, List.flatMap_def]
    congr 1
    apply List.map_congr_left
    intro c hc
    exact originals_represent (cluster_ne_nil hc)
      fun l hl => hplain l (mem_of_mem_cluster hc hl)
  rw [hmap]
  exact (clusters_flatten_perm S config batch).map _

/-! ## One cluster per label -/

/-- With distinct ids, a label lies in one cluster. -/
theorem cluster_unique (h : DistinctIds batch) {c d : List LabelData}
    (hc : c ∈ clusters S config batch) (hd : d ∈ clusters S config batch)
    {w : LabelData} (hwc : w ∈ c) (hwd : w ∈ d) : c = d := by
  have hnodup : (clusters S config batch).flatten.Nodup :=
    (h.perm (clusters_flatten_perm S config batch)).nodup
  have hdisj := (List.nodup_flatten.mp hnodup).2
  by_contra hne
  have hsym : Std.Symm (α := List LabelData) List.Disjoint := ⟨fun _ _ => List.disjoint_symm⟩
  exact (hdisj.forall hc hd hne) hwc hwd

/-- With distinct ids, the head ids tell the clusters apart. -/
theorem cluster_eq_of_head_id (h : DistinctIds batch) {c d : List LabelData}
    (hc : c ∈ clusters S config batch) (hd : d ∈ clusters S config batch)
    (hid : (clusterHead c).id = (clusterHead d).id) : c = d := by
  have hcm := clusterHead_mem (cluster_ne_nil hc)
  have hdm := clusterHead_mem (cluster_ne_nil hd)
  have heq : clusterHead c = clusterHead d :=
    h.eq_of_id_eq (mem_of_mem_cluster hc hcm) (mem_of_mem_cluster hd hdm) hid
  exact cluster_unique h hc hd hcm (heq ▸ hdm)

end Labios
