import Labios.Client.Model
import Labios.Shuffler.Clusters

/-!
# What a merged write keeps of its members

Aggregation groups by file key and joins writes by offset and data size alone;
the merged label is rebuilt with default URIs, pipeline, continuation,
durability and dependencies. So a merge is faithful when the merged writes name
one path and carry nothing in those fields, and two writes can be merged when
some sort puts one directly after the other and they abut.

`merges_faithful_iff` puts the two together, for every sort the library may use.
-/

namespace Labios

open Foundation

variable {S : StdSort} {config : ShufflerConfig} {batch : List LabelData}

/-- Every merged label is made of writes of one target, and holds what each of
them carried. -/
def MergesFaithfully (S : StdSort) (config : ShufflerConfig) (batch : List LabelData) : Prop :=
  ∀ m ∈ (aggregate S config batch).output, ∀ w ∈ batch, w.id ∈ m.children →
    w.type = .write ∧
    (∀ v ∈ batch, v.id ∈ m.children →
      w.destination.path? = v.destination.path? ∧ w.destUri = v.destUri) ∧
    m.destUri = w.destUri ∧ m.sourceUri = w.sourceUri ∧ m.pipeline = w.pipeline ∧
    m.continuation = w.continuation ∧ m.durability = w.durability ∧
    ∀ dep ∈ w.dependencies, dep ∈ m.dependencies

/-- The fields that a merge does not copy are at their defaults. -/
structure CarriesDefaults (w : LabelData) : Prop where
  destUri : w.destUri = ""
  sourceUri : w.sourceUri = ""
  pipeline : w.pipeline = {}
  continuation : w.continuation = {}
  durability : w.durability = .ephemeral
  dependencies : w.dependencies = []

/-- `v` starts where `w` ends, and no write of the file key starts in between. -/
structure Neighbours (batch : List LabelData) (w v : LabelData) : Prop where
  left_mem : w ∈ batch
  right_mem : v ∈ batch
  ne : w ≠ v
  left_write : w.type = .write
  right_write : v.type = .write
  fileKey : w.fileKey = v.fileKey
  le : destOffset w ≤ destOffset v
  abuts : destOffset v = runEndOffset w
  none_between : ∀ x ∈ batch, x.type = .write → x.fileKey = w.fileKey →
    ¬(destOffset w < destOffset x ∧ destOffset x < destOffset v)

/-- Neighbouring writes name one path and carry only defaults. -/
def NeighboursAlike (batch : List LabelData) : Prop :=
  ∀ w v, Neighbours batch w v →
    CarriesDefaults w ∧ CarriesDefaults v ∧ w.destination.path? = v.destination.path?

/-! ## Neighbours in a run -/

/-- The open run of the scan ends up in one of the runs. -/
theorem scanRuns_keeps_run (rest : List LabelData) (run : List LabelData) (runEnd : UInt64) :
    ∃ c ∈ scanRuns run runEnd rest, ∀ x ∈ run, x ∈ c := by
  induction rest generalizing run runEnd with
  | nil => exact ⟨run, by simp [scanRuns], fun x hx => hx⟩
  | cons b rest ih =>
      rw [scanRuns]
      split
      · obtain ⟨c, hc, hsub⟩ := ih (run ++ [b]) (runEndOffset b)
        exact ⟨c, hc, fun x hx => hsub x (List.mem_append_left _ hx)⟩
      · exact ⟨run, List.mem_cons_self, fun x hx => hx⟩

/-- Abutting writes that the scan meets one after the other join one run. -/
theorem scanRuns_joins {w v : LabelData} (hab : abuts w v = true) (back front run : List LabelData)
    (runEnd : UInt64) :
    ∃ c ∈ scanRuns run runEnd (front ++ w :: v :: back), w ∈ c ∧ v ∈ c := by
  have hjoin : ∀ run : List LabelData, w ∈ run →
      ∃ c ∈ scanRuns run (runEndOffset w) (v :: back), w ∈ c ∧ v ∈ c := by
    intro run hw
    rw [scanRuns, if_pos (show (destOffset v == runEndOffset w) = true from hab)]
    obtain ⟨c, hc, hsub⟩ := scanRuns_keeps_run back (run ++ [v]) (runEndOffset v)
    exact ⟨c, hc, hsub w (List.mem_append_left _ hw), hsub v (by simp)⟩
  induction front generalizing run runEnd with
  | nil =>
      rw [List.nil_append, scanRuns]
      split
      · exact hjoin _ (by simp)
      · obtain ⟨c, hc, hwv⟩ := hjoin [w] (by simp)
        exact ⟨c, List.mem_cons_of_mem _ hc, hwv⟩
  | cons f front ih =>
      rw [List.cons_append, scanRuns]
      split
      · exact ih _ _
      · obtain ⟨c, hc, hwv⟩ := ih [f] (runEndOffset f)
        exact ⟨c, List.mem_cons_of_mem _ hc, hwv⟩

theorem writeRuns_joins {writes : List LabelData} {w v : LabelData} {front back : List LabelData}
    (hsort : S.sortBy (fun x => (destOffset x).toNat) writes = front ++ w :: v :: back)
    (hab : abuts w v = true) : ∃ c ∈ writeRuns S writes, w ∈ c ∧ v ∈ c := by
  rw [writeRuns, hsort]
  cases front with
  | nil =>
      rw [List.nil_append, ← scanRuns_eq_splitBy, scanRuns,
        if_pos (show (destOffset v == runEndOffset w) = true from hab)]
      obtain ⟨c, hc, hsub⟩ := scanRuns_keeps_run back [w, v] (runEndOffset v)
      exact ⟨c, hc, hsub w (by simp), hsub v (by simp)⟩
  | cons f front =>
      rw [List.cons_append, ← scanRuns_eq_splitBy]
      exact scanRuns_joins hab back front [f] _

/-- The writes of one file key. -/
def writesOf (batch : List LabelData) (key : String) : List LabelData :=
  (batch.filter (fun l => l.fileKey = key)).filter (fun l => l.type = .write)

theorem mem_writesOf {key : String} {l : LabelData} :
    l ∈ writesOf batch key ↔ l ∈ batch ∧ l.fileKey = key ∧ l.type = .write := by
  rw [writesOf, List.mem_filter, List.mem_filter, decide_eq_true_iff, decide_eq_true_iff,
    and_assoc]

theorem writeRuns_subset_clusters (hagg : config.aggregationEnabled = true) {l : LabelData}
    (hl : l ∈ batch) {c : List LabelData} (hc : c ∈ writeRuns S (writesOf batch l.fileKey)) :
    c ∈ clusters S config batch := by
  unfold clusters
  rw [if_neg (by simp [hagg]), List.mem_flatMap]
  refine ⟨batch.filter (fun x => x.fileKey = l.fileKey), ?_, List.mem_append_right _ hc⟩
  exact List.mem_map.mpr ⟨_, exists_group (fun x : LabelData => x.fileKey) hl, rfl⟩

/-- Some sort puts neighbours next to each other, so some sort merges them. -/
theorem exists_sort_merging (hagg : config.aggregationEnabled = true) {w v : LabelData}
    (h : Neighbours batch w v) :
    ∃ S, ∃ c ∈ clusters S config batch, w ∈ c ∧ v ∈ c := by
  let key : LabelData → Nat := fun x => (destOffset x).toNat
  have hw : w ∈ writesOf batch w.fileKey := mem_writesOf.mpr ⟨h.left_mem, rfl, h.left_write⟩
  have hv : v ∈ writesOf batch w.fileKey :=
    mem_writesOf.mpr ⟨h.right_mem, h.fileKey.symm, h.right_write⟩
  -- take the two out, and put the rest below and above them
  obtain ⟨front, back, hsplit⟩ := List.append_of_mem hw
  have hv' : v ∈ front ++ back := by
    rw [hsplit, List.mem_append, List.mem_cons] at hv
    rcases hv with hv | rfl | hv
    · exact List.mem_append_left _ hv
    · exact absurd rfl h.ne
    · exact List.mem_append_right _ hv
  obtain ⟨front', back', hsplit'⟩ := List.append_of_mem hv'
  have hperm : (writesOf batch w.fileKey).Perm (w :: v :: (front' ++ back')) := by
    rw [hsplit]
    refine List.perm_middle.trans (List.Perm.cons w ?_)
    rw [hsplit']
    exact List.perm_middle
  let low := StdSort.insertion.sortBy key
    ((front' ++ back').filter (fun x => destOffset x ≤ destOffset w))
  let high := StdSort.insertion.sortBy key
    ((front' ++ back').filter (fun x => !decide (destOffset x ≤ destOffset w)))
  have hlow : ∀ x ∈ low, destOffset x ≤ destOffset w := by
    intro x hx
    exact of_decide_eq_true (List.mem_filter.mp ((StdSort.mem_sortBy _ _ _ _).mp hx)).2
  have hhigh : ∀ x ∈ high, destOffset v ≤ destOffset x := by
    intro x hx
    obtain ⟨hmem, hgt⟩ := List.mem_filter.mp ((StdSort.mem_sortBy _ _ _ _).mp hx)
    have hx' : x ∈ writesOf batch w.fileKey :=
      hperm.mem_iff.mpr (List.mem_cons_of_mem _ (List.mem_cons_of_mem _ hmem))
    obtain ⟨hb, hk, ht⟩ := mem_writesOf.mp hx'
    have hno := h.none_between x hb ht hk
    rw [Bool.not_eq_true', decide_eq_false_iff_not, UInt64.le_iff_toNat_le] at hgt
    rw [UInt64.le_iff_toNat_le]
    rw [UInt64.lt_iff_toNat_lt, UInt64.lt_iff_toNat_lt] at hno
    omega
  have hmperm : (low ++ w :: v :: high).Perm (writesOf batch w.fileKey) := by
    refine List.Perm.trans ?_ hperm.symm
    refine List.perm_middle.trans (List.Perm.cons w (List.perm_middle.trans (List.Perm.cons v ?_)))
    refine ((StdSort.perm _ _ _).append (StdSort.perm _ _ _)).trans ?_
    exact List.filter_append_perm (fun x => decide (destOffset x ≤ destOffset w)) _
  have hmsorted : (low ++ w :: v :: high).Pairwise fun a b => key a ≤ key b := by
    have hwv := UInt64.le_iff_toNat_le.mp h.le
    rw [List.pairwise_append, List.pairwise_cons, List.pairwise_cons]
    refine ⟨StdSort.sorted _ _ _, ⟨?_, ?_, StdSort.sorted _ _ _⟩, ?_⟩
    · intro x hx
      rcases List.mem_cons.mp hx with rfl | hx
      · exact hwv
      · exact Nat.le_trans hwv (UInt64.le_iff_toNat_le.mp (hhigh x hx))
    · exact fun x hx => UInt64.le_iff_toNat_le.mp (hhigh x hx)
    · intro x hx y hy
      have hxw := UInt64.le_iff_toNat_le.mp (hlow x hx)
      rcases List.mem_cons.mp hy with rfl | hy
      · exact hxw
      · rcases List.mem_cons.mp hy with rfl | hy
        · exact Nat.le_trans hxw hwv
        · exact Nat.le_trans (Nat.le_trans hxw hwv) (UInt64.le_iff_toNat_le.mp (hhigh y hy))
  obtain ⟨S, hS⟩ := StdSort.exists_sortBy_eq key hmperm hmsorted
  obtain ⟨c, hc, hwv⟩ := writeRuns_joins hS (beq_iff_eq.mpr h.abuts)
  exact ⟨S, c, writeRuns_subset_clusters hagg h.left_mem hc, hwv⟩

/-- Whatever the sort, a run is a chain of neighbours. -/
theorem run_neighbours (h : DistinctIds batch) {c : List LabelData}
    (hc : c ∈ clusters S config batch) (h2 : 2 ≤ c.length) : c.IsChain (Neighbours batch) := by
  have hrun : ∃ key, c ∈ writeRuns S (writesOf batch key) := by
    unfold clusters at hc
    split at hc
    · obtain ⟨l, _, rfl⟩ := List.mem_map.mp hc
      simp at h2
    · obtain ⟨_, hgroup, hc⟩ := List.mem_flatMap.mp hc
      obtain ⟨g, hg, rfl⟩ := List.mem_map.mp hgroup
      rcases List.mem_append.mp hc with hc | hc
      · obtain ⟨l, _, rfl⟩ := List.mem_map.mp hc
        simp at h2
      · have hg2 : g.2 = _ := (groupBy_groups (fun l : LabelData => l.fileKey) batch).group_eq g hg
        rw [hg2] at hc
        exact ⟨g.1, hc⟩
  obtain ⟨key, hc⟩ := hrun
  obtain ⟨before, after, hsplit⟩ := List.append_of_mem hc
  have hsorted : S.sortBy (fun x => (destOffset x).toNat) (writesOf batch key) =
      before.flatten ++ (c ++ after.flatten) := by
    rw [← List.flatten_cons, ← List.flatten_append, ← hsplit, writeRuns, List.flatten_splitBy]
  have hnodup : (before.flatten ++ (c ++ after.flatten)).Nodup := by
    rw [← hsorted, (S.perm _ _).nodup_iff]
    exact (h.nodup.filter _).filter _
  have hpair := S.sorted (fun x => (destOffset x).toNat) (writesOf batch key)
  have hmem : ∀ x, x ∈ before.flatten ++ (c ++ after.flatten) ↔ x ∈ writesOf batch key := by
    intro x
    rw [← hsorted, S.mem_sortBy]
  rw [hsorted] at hpair
  rw [List.isChain_iff_forall_rel_of_append_cons_cons]
  intro w v front back hcsplit
  have habut : abuts w v = true :=
    List.isChain_iff_forall_rel_of_append_cons_cons.mp (List.isChain_of_mem_splitBy hc) hcsplit
  subst hcsplit
  have hw := mem_writesOf.mp ((hmem w).mp (by simp))
  have hv := mem_writesOf.mp ((hmem v).mp (by simp))
  have hshape : before.flatten ++ (front ++ w :: v :: back ++ after.flatten) =
      (before.flatten ++ front) ++ w :: v :: (back ++ after.flatten) := by
    simp
  rw [hshape, List.pairwise_append, List.pairwise_cons, List.pairwise_cons] at hpair
  rw [hshape, List.nodup_append, List.nodup_cons] at hnodup
  obtain ⟨_, ⟨hwrest, hvrest, _⟩, hfront⟩ := hpair
  refine ⟨hw.1, hv.1, ?_, hw.2.2, hv.2.2, hw.2.1.trans hv.2.1.symm, ?_,
    beq_iff_eq.mp habut, ?_⟩
  · rintro rfl
    exact hnodup.2.1.1 List.mem_cons_self
  · exact UInt64.le_iff_toNat_le.mpr (hwrest v List.mem_cons_self)
  · intro x hx ht hk
    rw [UInt64.lt_iff_toNat_lt, UInt64.lt_iff_toNat_lt]
    have hxin : x ∈ before.flatten ++ (front ++ w :: v :: back ++ after.flatten) :=
      (hmem x).mpr (mem_writesOf.mpr ⟨hx, hk.trans hw.2.1, ht⟩)
    rw [hshape, List.mem_append, List.mem_cons, List.mem_cons] at hxin
    rcases hxin with hx | rfl | rfl | hx
    · have := hfront x hx w List.mem_cons_self
      omega
    · omega
    · omega
    · have := hvrest x hx
      omega

/-- A chain whose neighbours are alike is alike throughout. -/
theorem alike_of_chain (halike : NeighboursAlike batch) {c : List LabelData} (h2 : 2 ≤ c.length)
    (hchain : c.IsChain (Neighbours batch)) {w : LabelData} (hw : w ∈ c) :
    CarriesDefaults w ∧ w.destination.path? = (clusterHead c).destination.path? := by
  induction c generalizing w with
  | nil => exact absurd hw List.not_mem_nil
  | cons a c ih =>
      cases c with
      | nil => simp at h2
      | cons b c =>
          rw [List.isChain_cons_cons] at hchain
          obtain ⟨ha, hb, hpath⟩ := halike a b hchain.1
          rcases List.mem_cons.mp hw with rfl | hw
          · exact ⟨ha, rfl⟩
          · cases c with
            | nil =>
                obtain rfl := List.mem_singleton.mp hw
                exact ⟨hb, hpath.symm⟩
            | cons d c =>
                obtain ⟨hdef, hp⟩ := ih (by simp) hchain.2 hw
                exact ⟨hdef, hp.trans hpath.symm⟩

/-! ## The condition -/

/-- What a merged label names as children is the members of one run. -/
theorem run_of_child (h : DistinctIds batch) (hplain : ∀ l ∈ batch, l.children = [])
    {m : LabelData} (hm : m ∈ (aggregate S config batch).output) {w : LabelData}
    (hchild : w.id ∈ m.children) :
    ∃ c ∈ clusters S config batch, 2 ≤ c.length ∧ m = mergeRun (clusterHead c) c ∧
      ∀ v ∈ batch, v.id ∈ m.children → v ∈ c := by
  rw [aggregate_output] at hm
  obtain ⟨c, hc, rfl⟩ := List.mem_map.mp hm
  have h2 : 2 ≤ c.length := by
    rcases Nat.lt_or_ge c.length 2 with hlt | hge
    · obtain ⟨l, rfl⟩ := List.length_eq_one_iff.mp (Nat.le_antisymm (Nat.le_of_lt_succ hlt)
        (List.length_pos_iff.mpr (cluster_ne_nil hc)))
      rw [represent_singleton, hplain l (mem_of_mem_cluster hc List.mem_cons_self)] at hchild
      exact absurd hchild List.not_mem_nil
    · exact hge
  refine ⟨c, hc, h2, represent_of_two_le h2, ?_⟩
  intro v hv hvm
  rw [represent_of_two_le h2] at hvm
  obtain ⟨x, hx, hid⟩ := List.mem_map.mp hvm
  exact h.eq_of_id_eq (mem_of_mem_cluster hc hx) hv hid ▸ hx

theorem two_le_length {c : List LabelData} {w v : LabelData} (hw : w ∈ c) (hv : v ∈ c)
    (hne : w ≠ v) : 2 ≤ c.length := by
  rcases Nat.lt_or_ge c.length 2 with hlt | hge
  · obtain ⟨l, rfl⟩ := List.length_eq_one_iff.mp (Nat.le_antisymm (Nat.le_of_lt_succ hlt)
      (List.length_pos_of_mem hw))
    rw [List.mem_singleton] at hw hv
    exact absurd (hw.trans hv.symm) hne
  · exact hge

theorem neighboursAlike_of_faithful (hagg : config.aggregationEnabled = true)
    (hfaithful : ∀ S, MergesFaithfully S config batch) : NeighboursAlike batch := by
  intro w v hn
  obtain ⟨S, c, hc, hwc, hvc⟩ := exists_sort_merging hagg hn
  have h2 : 2 ≤ c.length := two_le_length hwc hvc hn.ne
  have hm : mergeRun (clusterHead c) c ∈ (aggregate S config batch).output := by
    rw [aggregate_output, ← represent_of_two_le h2]
    exact List.mem_map_of_mem hc
  have hdefaults : ∀ x ∈ batch, x ∈ c → CarriesDefaults x := by
    intro x hx hxc
    obtain ⟨_, _, h1, h2, h3, h4, h5, h6⟩ := hfaithful S _ hm x hx (List.mem_map_of_mem hxc)
    refine ⟨h1.symm, h2.symm, h3.symm, h4.symm, h5.symm, ?_⟩
    exact List.eq_nil_iff_forall_not_mem.mpr fun d hd => absurd (h6 d hd) List.not_mem_nil
  obtain ⟨_, hsame, _⟩ := hfaithful S _ hm w hn.left_mem (List.mem_map_of_mem hwc)
  exact ⟨hdefaults w hn.left_mem hwc, hdefaults v hn.right_mem hvc,
    (hsame v hn.right_mem (List.mem_map_of_mem hvc)).1⟩

/-- **Merging is faithful** under every sort exactly when neighbouring writes of
a file key name one path and carry nothing that the merged label drops. -/
theorem merges_faithful_iff (h : DistinctIds batch) (hplain : ∀ l ∈ batch, l.children = []) :
    (∀ S, MergesFaithfully S config batch) ↔
      (config.aggregationEnabled = true → NeighboursAlike batch) := by
  refine ⟨fun hf hagg => neighboursAlike_of_faithful hagg hf, ?_⟩
  intro halike S m hm w hw hchild
  obtain ⟨c, hc, h2, rfl, hin⟩ := run_of_child h hplain hm hchild
  have hagg : config.aggregationEnabled = true := by
    by_contra hno
    rw [clusters_disabled (Bool.eq_false_iff.mpr hno)] at hc
    obtain ⟨l, _, rfl⟩ := List.mem_map.mp hc
    simp at h2
  have hchain := run_neighbours h hc h2
  obtain ⟨hdef, hpath⟩ := alike_of_chain (halike hagg) h2 hchain (hin w hw hchild)
  refine ⟨(isRun_of_two_le hc h2).write w (hin w hw hchild), ?_, hdef.destUri.symm,
    hdef.sourceUri.symm, hdef.pipeline.symm, hdef.continuation.symm, hdef.durability.symm, ?_⟩
  · intro v hv hvm
    obtain ⟨hdefv, hpathv⟩ := alike_of_chain (halike hagg) h2 hchain (hin v hv hvm)
    exact ⟨hpath.trans hpathv.symm, hdef.destUri.trans hdefv.destUri.symm⟩
  · rw [hdef.dependencies]
    exact fun dep hdep => absurd hdep List.not_mem_nil

/-- The labels of the label manager always merge faithfully. -/
theorem labelManager_neighboursAlike (hbatch : ∀ l ∈ batch, FromLabelManager l) :
    NeighboursAlike batch := by
  have hdefaults : ∀ l ∈ batch, CarriesDefaults l := fun l hl =>
    have h := hbatch l hl
    ⟨h.destUri, h.sourceUri, h.pipeline, h.continuation, h.durability, h.dependencies⟩
  have hpath : ∀ l ∈ batch, l.type = .write → l.destination.path? = some l.fileKey := by
    intro l hl hw
    rw [(hbatch l hl).plain.destination_eq hw]
    rfl
  intro w v hn
  refine ⟨hdefaults w hn.left_mem, hdefaults v hn.right_mem, ?_⟩
  rw [hpath w hn.left_mem hn.left_write, hpath v hn.right_mem hn.right_write, hn.fileKey]

/-- Two pipelines with different targets: neither label has a file key, a
`FilePath` or a data size. -/
def pipelinePair : List LabelData :=
  [(executePipeline 1 7 1 "file:///in" "file:///x" ⟨[⟨"builtin://sort", "", -1, -1⟩]⟩ .none).label,
    (executePipeline 2 7 1 "file:///in" "file:///y" ⟨[⟨"builtin://sort", "", -1, -1⟩]⟩ .none).label]

theorem merges_faithful_pipelinePair :
    (∀ S, MergesFaithfully S {} pipelinePair) ↔
      (({} : ShufflerConfig).aggregationEnabled = true → NeighboursAlike pipelinePair) :=
  merges_faithful_iff (by decide) (by decide)

theorem pipelinePair_not_faithful : ¬∀ S, MergesFaithfully S {} pipelinePair := by
  intro hfaithful
  have hinsertion := hfaithful .insertion
  revert hinsertion
  unfold MergesFaithfully
  decide

end Labios
