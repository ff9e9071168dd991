import Labios.Client.Model
import Labios.Dispatcher.Units
import Labios.Storage.MergedRange

/-!
# Where the data of a merged write goes

A merged write carries the data of all its members only where the dispatcher
assembles it, on the independent path; inside a supertask the worker stores what
is staged under the merged id, the data of the first member alone. And a byte of
a write is lost when another write to its file, which nothing orders before it,
covers the byte or starts at offset 0 and so truncates the file.

`merged_data_iff` is the exact condition, over every order in which the workers
may run the batch.
-/

namespace Labios

open Foundation

variable {S : StdSort} {config : ShufflerConfig} {batch : List LabelData} {ω : Type}

/-! ## The property -/

/-- Byte `p` is `w`'s, and no write of the file with a later id covers it. -/
structure LastById (batch : List LabelData) (w : LabelData) (p : Nat) : Prop where
  mem : w ∈ batch
  write : w.type = .write
  range : start w ≤ p ∧ p < finish w
  last : ∀ v ∈ batch, v.type = .write → w.id < v.id → fileOf v.fileKey = fileOf w.fileKey →
    ¬(start v ≤ p ∧ p < finish v)

/-- A byte of a write is one that was staged. -/
theorem LastById.lt_length {w : LabelData} {p : Nat} (h : LastById batch w p)
    {warehouse : Warehouse} (hfits : PayloadFits (fun l => warehouse.retrieve l.id) batch) :
    p - start w < (warehouse.retrieve w.id).length := by
  have hsize : (warehouse.retrieve w.id).length = w.dataSize.toNat := hfits w h.mem h.write
  have hrange := h.range
  unfold finish at hrange
  omega

/-- A run stores the data of the batch: a merged write finds all of its members'
data staged, and each byte that is last by id ends up in its file. -/
structure DataStored (workers : Int → Executor ω) (batch : List LabelData) (warehouse : Warehouse)
    (order : List (Int × LabelData)) (s : Storage ω) : Prop where
  merged : ∀ front m back, order = front ++ m :: back → m.2.type = .write →
    2 ≤ m.2.children.length →
    (runLabels workers front s).warehouse.retrieve m.2.id = m.2.children.flatMap warehouse.retrieve
  stored : ∀ m ∈ order, ∀ w p, w.id ∈ originals m.2 → LastById batch w p →
    ∀ name, fileOf w.fileKey = some name →
    byteAt ((runLabels workers order s).files (workers m.1).root) name p =
      (warehouse.retrieve w.id)[p - start w]?

/-- Whatever is staged for the batch, every run of the dispatched batch that
succeeds stores it. -/
def DataReachesStorage {ρ : Type} (S : StdSort) (d : Dispatcher ρ)
    (cached refreshed : List WorkerInfo) (batch : List LabelData) (solver : ρ)
    (locations : LocationCatalog) (status : StatusCatalog) : Prop :=
  ∀ warehouse : Warehouse, PayloadFits (fun l => warehouse.retrieve l.id) batch →
    ∀ st, st = dispatchBatch S d cached refreshed batch { solver, warehouse, locations, status } →
    ∀ (ω : Type) (workers : Int → Executor ω) (s : Storage ω) (order : List (Int × LabelData)),
      s.warehouse = st.warehouse → Interleaves st.units order → AllExecuted workers order s →
      DataStored workers batch warehouse order s

/-- A write to the file that covers byte `p` or truncates the file. -/
structure Touches (l : LabelData) (name : Option (List (List Char))) (p : Nat) : Prop where
  write : l.type = .write
  file : fileOf l.fileKey = name
  range : start l = 0 ∨ (start l ≤ p ∧ p < finish l)

/-- No merged write is entangled, and what touches a byte of another write that is
last by id always runs before that write. -/
structure DataKept (S : StdSort) (config : ShufflerConfig) (batch : List LabelData) : Prop where
  alone : ∀ c ∈ clusters S config batch, 2 ≤ c.length → ¬EntangledIn S config batch (represent c)
  last : ∀ c ∈ clusters S config batch, ∀ e ∈ clusters S config batch, c ≠ e → ∀ w ∈ e, ∀ p,
    LastById batch w p → Touches (represent c) (fileOf w.fileKey) p →
    RunsBefore S config batch (represent c) (represent e)

/-! ## The labels of a routed batch -/

/-- A batch of the label manager whose files the workers can open. -/
structure Openable (batch : List LabelData) : Prop where
  published : ∀ l ∈ batch, FromLabelManager l
  file : ∀ l ∈ batch, fileOf l.fileKey ≠ none
  seekable : ∀ l ∈ batch, start l < 2 ^ 63

namespace Openable

variable (h : Openable batch)

include h

theorem plain : ∀ l ∈ batch, PlainIO l := fun l hl => (h.published l hl).plain

theorem kind : ∀ l ∈ batch, l.type = .read ∨ l.type = .write := fun l hl => (h.plain l hl).kind

theorem children : ∀ l ∈ batch, l.children = [] := fun l hl => (h.published l hl).children

/-- Aggregated labels can be executed. -/
theorem represent {c : List LabelData} (hc : c ∈ clusters S config batch) :
    FileIO (represent c) := by
  have hmem := mem_of_mem_cluster hc (clusterHead_mem (cluster_ne_nil hc))
  obtain ⟨hplain, hstart, _⟩ := represent_plain h.plain hc
  match c, cluster_ne_nil hc with
  | [w], _ =>
      have hw := h.published w hmem
      exact ⟨hplain, hw.sourceUri, hw.destUri, hw.pipeline, h.file w hmem, h.seekable w hmem⟩
  | first :: second :: rest, _ =>
      refine ⟨hplain, rfl, rfl, rfl, h.file first hmem, ?_⟩
      rw [hstart]
      exact h.seekable first hmem

theorem originals {c : List LabelData} (hc : c ∈ clusters S config batch) {l : LabelData}
    (hwork : work l = work (Labios.represent c)) : originals l = c.map (·.id) := by
  have horig : Labios.originals l = Labios.originals (Labios.represent c) := by
    unfold Labios.originals
    rw [children_of_work hwork, id_of_work hwork]
  rw [horig, originals_represent (cluster_ne_nil hc)
    (fun l hl => h.children l (mem_of_mem_cluster hc hl))]

end Openable

/-- All the data of a cluster. -/
def clusterData (warehouse : Warehouse) (c : List LabelData) : List UInt8 :=
  c.flatMap fun w => warehouse.retrieve w.id

/-- The members of a cluster that is written are writes. -/
theorem represent_write {c : List LabelData} (hc : c ∈ clusters S config batch)
    (hw : (represent c).type = .write) : ∀ w ∈ c, w.type = .write := by
  rcases cluster_cases hc with ⟨l, rfl, _⟩ | ⟨_, hrun⟩
  · intro w hwc
    rw [List.mem_singleton.mp hwc]
    exact hw
  · exact hrun.write

/-- A cluster with a write in it is written, to the file of that write. -/
theorem represent_of_write {c : List LabelData} (hc : c ∈ clusters S config batch) {w : LabelData}
    (hwc : w ∈ c) (hw : w.type = .write) :
    (represent c).type = .write ∧ (represent c).fileKey = w.fileKey := by
  rcases cluster_cases hc with ⟨l, rfl, _⟩ | ⟨_, hrun⟩
  · obtain rfl := List.mem_singleton.mp hwc
    exact ⟨hw, rfl⟩
  · rw [represent_fileKey]
    exact ⟨represent_type c hrun.write,
      hrun.fileKey _ (clusterHead_mem (cluster_ne_nil hc)) w hwc⟩

theorem clusterData_length (hplain : ∀ l ∈ batch, PlainIO l) {warehouse : Warehouse}
    (hfits : PayloadFits (fun l => warehouse.retrieve l.id) batch) {c : List LabelData}
    (hc : c ∈ clusters S config batch) (hw : ∀ w ∈ c, w.type = .write) :
    (clusterData warehouse c).length = (represent c).dataSize.toNat := by
  have hlen : ∀ l ∈ c, (warehouse.retrieve l.id).length = l.dataSize.toNat :=
    fun l hl => hfits l (mem_of_mem_cluster hc hl) (hw l hl)
  match c, cluster_ne_nil hc with
  | [w], _ =>
      rw [clusterData, List.flatMap_cons, List.flatMap_nil, List.append_nil]
      exact hlen w List.mem_cons_self
  | first :: second :: rest, _ =>
      have hrun := isRun_of_two_le hc (by simp)
      have hsum := length_flatMap_run (fun l => warehouse.retrieve l.id) (second :: rest) first
        (fun l hl => hplain l (hrun.mem l hl)) hlen (run_chain hplain hrun) (start first) 0 rfl
      rw [UInt64.toNat_zero, Nat.zero_add] at hsum
      exact hsum.symm

/-- A member's byte is where the merged write puts it. -/
theorem clusterData_getElem? (hplain : ∀ l ∈ batch, PlainIO l) {warehouse : Warehouse}
    (hfits : PayloadFits (fun l => warehouse.retrieve l.id) batch) {c : List LabelData}
    (hc : c ∈ clusters S config batch) (hw : ∀ w ∈ c, w.type = .write) {v : LabelData}
    (hv : v ∈ c) {p : Nat} (hlo : start v ≤ p) (hhi : p < finish v) :
    start (represent c) ≤ p ∧
      (clusterData warehouse c)[p - start (represent c)]? =
        (warehouse.retrieve v.id)[p - start v]? := by
  have hlen : ∀ l ∈ c, (warehouse.retrieve l.id).length = l.dataSize.toNat :=
    fun l hl => hfits l (mem_of_mem_cluster hc hl) (hw l hl)
  have hstart := (represent_plain hplain hc).2.1
  match c, cluster_ne_nil hc with
  | [w], _ =>
      obtain rfl := List.mem_singleton.mp hv
      refine ⟨hlo, ?_⟩
      rw [clusterData, List.flatMap_cons, List.flatMap_nil, List.append_nil, represent_singleton]
  | first :: second :: rest, _ =>
      have hrun := isRun_of_two_le hc (by simp)
      rw [hstart]
      exact getElem?_flatMap_run (fun l => warehouse.retrieve l.id) (second :: rest) first
        (fun l hl => hplain l (hrun.mem l hl)) hlen (run_chain hplain hrun) hv hlo hhi

/-! ## A run of the units -/

section Run

variable (hids : DistinctIds batch) (hopen : Openable batch)
  {units : List (List (Int × LabelData))} (hunits : RoutedUnits S config batch units)
  {order : List (Int × LabelData)} (horder : Interleaves units order)
  (workers : Int → Executor ω)

include hunits horder

theorem order_cluster {m : Int × LabelData} (hm : m ∈ order) :
    ∃ c ∈ clusters S config batch, work m.2 = work (represent c) :=
  hunits.label m (horder.perm.mem_iff.mp hm)

theorem order_ids : (order.map (·.2.id)).Nodup :=
  (horder.perm.map _).nodup_iff.mpr hunits.nodup

include hopen in
theorem order_io {m : Int × LabelData} (hm : m ∈ order) : FileIO m.2 := by
  obtain ⟨c, hc, hwork⟩ := order_cluster hunits horder hm
  exact (hopen.represent hc).of_work hwork.symm

/-- A label that ran is not run again. -/
theorem id_ne_of_split {front back : List (Int × LabelData)} (hsplit : order = front ++ back)
    {m x : Int × LabelData} (hm : m ∈ front) (hx : x ∈ back) : m.2.id ≠ x.2.id := by
  have hnodup := order_ids hunits horder
  rw [hsplit, List.map_append] at hnodup
  exact (List.nodup_append.mp hnodup).2.2 _ (List.mem_map_of_mem hm) _ (List.mem_map_of_mem hx)

include hopen in
/-- A label that is still to run finds what was staged for it. -/
theorem found_data {front back : List (Int × LabelData)} (hsplit : order = front ++ back)
    {m : Int × LabelData} (hm : m ∈ back) (s : Storage ω) :
    (runLabels workers front s).warehouse.retrieve m.2.id = s.warehouse.retrieve m.2.id := by
  have hfront : ∀ x ∈ front, x ∈ order := by
    rw [hsplit]
    exact fun x hx => List.mem_append_left _ hx
  exact runLabels_retrieve workers (fun x hx => order_io hopen hunits horder (hfront x hx))
    (fun x hx => id_ne_of_split hunits horder hsplit hx hm) s

include hopen in
theorem found_cluster {warehouse : Warehouse} {s : Storage ω}
    (hdata : ∀ c ∈ clusters S config batch,
      s.warehouse.retrieve (clusterHead c).id = clusterData warehouse c)
    {front back : List (Int × LabelData)} (hsplit : order = front ++ back) {m : Int × LabelData}
    (hm : m ∈ back) {c : List LabelData} (hc : c ∈ clusters S config batch)
    (hwork : work m.2 = work (represent c)) :
    (runLabels workers front s).warehouse.retrieve m.2.id = clusterData warehouse c := by
  rw [found_data hopen hunits horder workers hsplit hm s, ← hdata c hc,
    (id_of_work hwork).trans (represent_id c)]

include hopen in
/-- What every later label preserves, given its data, holds at the end. -/
theorem run_tail {P : Storage ω → Prop} {warehouse : Warehouse} {s : Storage ω}
    (hdata : ∀ c ∈ clusters S config batch,
      s.warehouse.retrieve (clusterHead c).id = clusterData warehouse c)
    {front back : List (Int × LabelData)} {m : Int × LabelData}
    (hsplit : order = front ++ m :: back)
    (hstep : ∀ y ∈ back, ∀ f ∈ clusters S config batch, work y.2 = work (represent f) →
      ∀ s', s'.warehouse.retrieve y.2.id = clusterData warehouse f → P s' →
        P (executeOne workers y s').2)
    (hP : P (executeOne workers m (runLabels workers front s)).2) :
    P (runLabels workers order s) := by
  have hback : ∀ y ∈ back, y ∈ order := by
    rw [hsplit]
    exact fun y hy => List.mem_append_right _ (List.mem_cons_of_mem _ hy)
  have hnodup := order_ids hunits horder
  rw [hsplit, List.map_append, List.map_cons] at hnodup
  have htail := List.nodup_cons.mp (List.nodup_append.mp hnodup).2.1
  have hsplit' : order = (front ++ [m]) ++ back := by
    rw [hsplit, List.append_assoc, List.singleton_append]
  have hstate : runLabels workers (front ++ [m]) s =
      (executeOne workers m (runLabels workers front s)).2 := runLabels_append ..
  rw [hsplit', runLabels_append, hstate]
  refine runLabels_invariant workers (fun y hy => order_io hopen hunits horder (hback y hy))
    htail.2 ?_ hP
  intro y hy s' hs' hb
  obtain ⟨f, hf, hwork⟩ := order_cluster hunits horder (hback y hy)
  refine hstep y hy f hf hwork s' ?_ hb
  rw [hs', ← hstate]
  exact found_cluster hopen hunits horder workers hdata hsplit' hy hf hwork

/-- Labels that run before one another are in that order. -/
theorem not_after {c e : List LabelData} (hc : c ∈ clusters S config batch)
    (he : e ∈ clusters S config batch)
    (hbefore : RunsBefore S config batch (represent c) (represent e))
    {front back : List (Int × LabelData)} {m x : Int × LabelData}
    (hsplit : order = front ++ m :: back) (hm : m.2.id = (represent e).id) (hx : x ∈ back)
    (hxc : x.2.id = (represent c).id) : False := by
  have hmem : ∀ c ∈ clusters S config batch, represent c ∈ aggregated S config batch :=
    fun c hc => represent_mem_aggregated hc
  obtain ⟨u, hu, hsub⟩ := (hunits.ordered _ (hmem c hc) _ (hmem e he)).mpr hbefore
  have hids := order_ids hunits horder
  have hce : [(represent c).id, (represent e).id].Sublist (order.map (·.2.id)) :=
    hsub.trans ((horder.sublist hu).map _)
  rw [hsplit, List.map_append, List.map_cons, hm] at hids hce
  have hback : (represent c).id ∈ back.map (·.2.id) := hxc ▸ List.mem_map_of_mem hx
  obtain ⟨-, htail, hapart⟩ := List.nodup_append.mp hids
  -- `c` does not occur up to `e`, so the pair lies behind `e`
  have hnot : (represent c).id ∉ front.map (·.2.id) := fun hmem =>
    hapart _ hmem _ (List.mem_cons_of_mem _ hback) rfl
  rw [List.nodup_cons] at htail
  have hne : (represent c).id ≠ (represent e).id := fun heq => htail.1 (heq ▸ hback)
  have hafter : [(represent c).id, (represent e).id].Sublist (back.map (·.2.id)) := by
    obtain ⟨l1, l2, heq, h1, h2⟩ := List.sublist_append_iff.mp hce
    cases l1 with
    | nil =>
        rw [List.nil_append] at heq
        rw [← heq] at h2
        exact (List.sublist_cons_iff.mp h2).resolve_right fun ⟨_, hcons, _⟩ =>
          hne (List.cons.inj hcons).1
    | cons a rest =>
        obtain rfl : (represent c).id = a := (List.cons.inj heq).1
        exact absurd (h1.mem List.mem_cons_self) hnot
  exact htail.1 (hafter.mem (List.mem_cons_of_mem _ List.mem_cons_self))

include hopen in
/-- A merged label finds the data of all its members. -/
theorem found_children {warehouse : Warehouse} {s : Storage ω}
    (hdata : ∀ c ∈ clusters S config batch,
      s.warehouse.retrieve (clusterHead c).id = clusterData warehouse c)
    {front back : List (Int × LabelData)} {m : Int × LabelData} (hsplit : order = front ++ m :: back)
    (h2 : 2 ≤ m.2.children.length) :
    (runLabels workers front s).warehouse.retrieve m.2.id =
      m.2.children.flatMap warehouse.retrieve := by
  have hm : m ∈ order := hsplit ▸ List.mem_append_right _ List.mem_cons_self
  obtain ⟨c, hc, hwork⟩ := order_cluster hunits horder hm
  rw [found_cluster hopen hunits horder workers hdata hsplit List.mem_cons_self hc hwork]
  rw [children_of_work hwork] at h2 ⊢
  match c, cluster_ne_nil hc with
  | [w], _ =>
      rw [represent_singleton, hopen.children w (mem_of_mem_cluster hc List.mem_cons_self)] at h2
      exact absurd h2 (by simp)
  | first :: second :: rest, _ =>
      show _ = ((first :: second :: rest).map (·.id)).flatMap warehouse.retrieve
      rw [List.flatMap_map]
      rfl

include hopen in
/-- Once its cluster was executed, a byte of a write is in its file. -/
theorem executed_byte {warehouse : Warehouse}
    (hfits : PayloadFits (fun l => warehouse.retrieve l.id) batch) {s : Storage ω}
    (hdata : ∀ c ∈ clusters S config batch,
      s.warehouse.retrieve (clusterHead c).id = clusterData warehouse c)
    {front back : List (Int × LabelData)} {m : Int × LabelData} (hsplit : order = front ++ m :: back)
    {e : List LabelData} (he : e ∈ clusters S config batch) (hwork : work m.2 = work (represent e))
    {w : LabelData} (hwe : w ∈ e) {p : Nat} (hlast : LastById batch w p)
    {name : List (List Char)} (hname : fileOf w.fileKey = some name) :
    byteAt ((executeOne workers m (runLabels workers front s)).2.files (workers m.1).root) name p =
      (warehouse.retrieve w.id)[p - start w]? := by
  have hm : m ∈ order := hsplit ▸ List.mem_append_right _ List.mem_cons_self
  obtain ⟨htype, hkey⟩ := represent_of_write he hwe hlast.write
  have hfile : fileOf m.2.fileKey = some name := by
    rw [fileKey_of_work hwork, hkey, hname]
  obtain ⟨hlo, hbyte⟩ := clusterData_getElem? hopen.plain hfits he (represent_write he htype) hwe
    hlast.range.1 hlast.range.2
  have hin : p - start (represent e) < (clusterData warehouse e).length := by
    rw [List.getElem?_eq_getElem (hlast.lt_length hfits)] at hbyte
    exact (List.getElem?_eq_some_iff.mp hbyte).1
  have hfound := found_cluster hopen hunits horder workers hdata hsplit List.mem_cons_self he hwork
  rw [executeOne_stores workers (order_io hopen hunits horder hm)
    ((type_of_work hwork).trans htype) hfile _ (by rw [start_of_work hwork]; exact hlo)
    (by rw [hfound, start_of_work hwork]; omega), hfound, start_of_work hwork, hbyte]

include hids hopen in
/-- When the data is in place and what touches a byte runs before, the run stores
the data of the batch. -/
theorem dataStored_of_kept (hkept : DataKept S config batch) {warehouse : Warehouse}
    (hfits : PayloadFits (fun l => warehouse.retrieve l.id) batch) {s : Storage ω}
    (hdata : ∀ c ∈ clusters S config batch,
      s.warehouse.retrieve (clusterHead c).id = clusterData warehouse c) :
    DataStored workers batch warehouse order s := by
  refine ⟨fun front m back hsplit _ h2 =>
    found_children hopen hunits horder workers hdata hsplit h2, ?_⟩
  intro m hm w p hw hlast name hname
  obtain ⟨e, he, hwork⟩ := order_cluster hunits horder hm
  -- `w` is a member of the cluster that `m` stands for
  have hwe : w ∈ e := by
    rw [hopen.originals he hwork] at hw
    obtain ⟨w', hw', hid⟩ := List.mem_map.mp hw
    exact hids.eq_of_id_eq (mem_of_mem_cluster he hw') hlast.mem hid ▸ hw'
  obtain ⟨front, back, hsplit⟩ := List.append_of_mem hm
  have hstored := executed_byte hopen hunits horder workers hfits hdata hsplit he hwork hwe hlast
    hname
  -- what runs later leaves the byte alone
  rw [List.getElem?_eq_getElem (hlast.lt_length hfits)] at hstored ⊢
  refine run_tail hopen hunits horder workers
    (P := fun s => byteAt (s.files (workers m.1).root) name p = some _) hdata hsplit ?_ hstored
  intro x hx c hc hxwork s' hs' hb
  have hxo : x ∈ order := hsplit ▸ List.mem_append_right _ (List.mem_cons_of_mem _ hx)
  refine executeOne_keeps workers (order_io hopen hunits horder hxo) ?_ hb ?_
  · intro hxw
    rw [hs', dataSize_of_work hxwork]
    exact clusterData_length hopen.plain hfits hc
      (represent_write hc ((type_of_work hxwork).symm.trans hxw))
  · intro hover
    have hne : c ≠ e := by
      rintro rfl
      have hsplit' : order = (front ++ [m]) ++ back := by
        rw [hsplit, List.append_assoc, List.singleton_append]
      exact id_ne_of_split hunits horder hsplit'
        (List.mem_append_right _ (List.mem_singleton_self m)) hx
        ((id_of_work hwork).trans (id_of_work hxwork).symm)
    have hbefore := hkept.last c hc e he hne w hwe p hlast
      ⟨(type_of_work hxwork).symm.trans hover.write,
        by rw [← fileKey_of_work hxwork, hover.file, hname],
        by rw [← start_of_work hxwork, ← finish_of_work hxwork]; exact hover.touches⟩
    exact not_after hunits horder hc he hbefore hsplit (id_of_work hwork) hx (id_of_work hxwork)

include hopen in
/-- An entangled merged write does not find the data of its other members. -/
theorem not_merged_of_entangled {c : List LabelData} (hc : c ∈ clusters S config batch)
    (h2 : 2 ≤ c.length) {warehouse : Warehouse}
    (hfits : PayloadFits (fun l => warehouse.retrieve l.id) batch) {s : Storage ω}
    (hdata : s.warehouse.retrieve (clusterHead c).id = warehouse.retrieve (clusterHead c).id)
    (hstored : DataStored workers batch warehouse order s) : False := by
  have hrun := isRun_of_two_le hc h2
  obtain ⟨m, hm, hwork⟩ := hunits.cluster c hc
  obtain ⟨front, back, hsplit⟩ := List.append_of_mem (horder.perm.mem_iff.mpr hm)
  have hfound := found_data hopen hunits horder workers hsplit List.mem_cons_self s
  have hkids : m.2.children = c.map (·.id) := by
    rw [children_of_work hwork, represent_of_two_le h2]
    rfl
  have hall := hstored.merged front m back hsplit
    ((type_of_work hwork).trans (represent_type c hrun.write))
    (by rw [hkids, List.length_map]; exact h2)
  rw [hfound, (id_of_work hwork).trans (represent_id c), hdata, hkids, List.flatMap_map] at hall
  obtain ⟨first, second, rest, rfl⟩ : ∃ first second rest, c = first :: second :: rest := by
    match c, h2 with
    | first :: second :: rest, _ => exact ⟨first, second, rest, rfl⟩
  have hsecond : second ∈ first :: second :: rest := List.mem_cons_of_mem _ List.mem_cons_self
  have hsize : (warehouse.retrieve second.id).length = second.dataSize.toNat :=
    hfits second (hrun.mem second hsecond) (hrun.write second hsecond)
  have hpos := (hopen.plain second (hrun.mem second hsecond)).nonempty
  rw [UInt64.lt_iff_toNat_lt, UInt64.toNat_zero] at hpos
  have hlen := congrArg List.length hall
  rw [List.flatMap_cons, List.flatMap_cons, List.length_append, List.length_append] at hlen
  have hfirst : (warehouse.retrieve (clusterHead (first :: second :: rest)).id).length =
    (warehouse.retrieve first.id).length := rfl
  omega

end Run

/-! ## A lost byte -/

/-- A write of zeros to a byte, or one that truncates its file, leaves the byte
zero or missing. -/
theorem executeOne_touches (workers : Int → Executor ω) {m : Int × LabelData} (h : FileIO m.2)
    {s : Storage ω} (hfits : (s.warehouse.retrieve m.2.id).length = m.2.dataSize.toNat)
    (hzero : ∀ b ∈ s.warehouse.retrieve m.2.id, b = 0) {name : List (List Char)} {p : Nat}
    (ht : Touches m.2 (some name) p) :
    byteAt ((executeOne workers m s).2.files (workers m.1).root) name p = none ∨
      byteAt ((executeOne workers m s).2.files (workers m.1).root) name p = some 0 := by
  have hend : finish m.2 = start m.2 + m.2.dataSize.toNat := rfl
  obtain ⟨r, hrun⟩ := executeOne_write workers h ht.write ht.file s
  rw [hrun]
  show byteAt (Function.update s.files _ _ (workers m.1).root) name p = none ∨
    byteAt (Function.update s.files _ _ (workers m.1).root) name p = some 0
  rw [Function.update_self]
  have hoff : (labelRange m.2).offset.toNat = start m.2 := rfl
  by_cases hin : start m.2 ≤ p ∧ p < finish m.2
  · right
    have hlt : p - start m.2 < (s.warehouse.retrieve m.2.id).length := by omega
    rw [byteAt_put_inside (by omega) (by omega), hoff, List.getElem?_eq_getElem hlt,
      hzero _ (List.getElem_mem hlt)]
  · left
    have hstart : start m.2 = 0 := ht.range.resolve_right hin
    have hoffset : (labelRange m.2).offset = 0 := by
      rw [← UInt64.toNat_inj, hoff, hstart]
      rfl
    rw [hoffset]
    exact byteAt_put_truncates (by omega)

/-- Data of a cluster without `w` is zero when the data of every other label is. -/
theorem clusterData_zero {w : LabelData} {warehouse : Warehouse}
    (hzero : ∀ v ∈ batch, v ≠ w → ∀ b ∈ warehouse.retrieve v.id, b = 0) {c : List LabelData}
    (hc : c ∈ clusters S config batch) (hw : w ∉ c) : ∀ b ∈ clusterData warehouse c, b = 0 := by
  intro b hb
  obtain ⟨v, hv, hbv⟩ := List.mem_flatMap.mp hb
  exact hzero v (mem_of_mem_cluster hc hv) (fun heq => hw (heq ▸ hv)) b hbv

/-- What touches a byte after the write that has it leaves it zero or missing. -/
theorem overwritten_byte (hids : DistinctIds batch) (hopen : Openable batch)
    {units : List (List (Int × LabelData))} (hunits : RoutedUnits S config batch units)
    {order : List (Int × LabelData)} (horder : Interleaves units order) (workers : Int → Executor ω)
    {c e : List LabelData} (hc : c ∈ clusters S config batch) (he : e ∈ clusters S config batch)
    (hne : c ≠ e) {w : LabelData} (hwe : w ∈ e) {p : Nat} {name : List (List Char)}
    (htouch : Touches (represent c) (some name) p) {warehouse : Warehouse}
    (hfits : PayloadFits (fun l => warehouse.retrieve l.id) batch)
    (hzero : ∀ v ∈ batch, v ≠ w → ∀ b ∈ warehouse.retrieve v.id, b = 0) {s : Storage ω}
    (hdata : ∀ c ∈ clusters S config batch,
      s.warehouse.retrieve (clusterHead c).id = clusterData warehouse c)
    {front back : List (Int × LabelData)} {m x : Int × LabelData}
    (hsplit : order = front ++ x :: back) (hm : m ∈ front) (hmwork : work m.2 = work (represent e))
    (hxwork : work x.2 = work (represent c)) :
    byteAt ((runLabels workers order s).files (workers x.1).root) name p = none ∨
      byteAt ((runLabels workers order s).files (workers x.1).root) name p = some 0 := by
  have honly : ∀ f ∈ clusters S config batch, w ∈ f → f = e :=
    fun f hf hwf => cluster_unique hids hf he hwf hwe
  have hxo : x ∈ order := hsplit ▸ List.mem_append_right _ List.mem_cons_self
  have hxdata := found_cluster hopen hunits horder workers hdata hsplit List.mem_cons_self hc hxwork
  have hxtouch : Touches x.2 (some name) p := by
    refine ⟨(type_of_work hxwork).trans htouch.write, ?_, ?_⟩
    · rw [fileKey_of_work hxwork, htouch.file]
    · rw [start_of_work hxwork, finish_of_work hxwork]
      exact htouch.range
  have hafter := executeOne_touches workers (order_io hopen hunits horder hxo)
    (s := runLabels workers front s)
    (by
      rw [hxdata, dataSize_of_work hxwork]
      exact clusterData_length hopen.plain hfits hc (represent_write hc htouch.write))
    (by
      rw [hxdata]
      exact clusterData_zero hzero hc fun hwc => hne (honly c hc hwc)) hxtouch
  refine run_tail hopen hunits horder workers
    (P := fun s => byteAt (s.files (workers x.1).root) name p = none ∨
      byteAt (s.files (workers x.1).root) name p = some 0) hdata hsplit ?_ hafter
  intro y hy f hf hywork s' hs' hb
  have hyo : y ∈ order := hsplit ▸ List.mem_append_right _ (List.mem_cons_of_mem _ hy)
  refine executeOne_zeros workers (order_io hopen hunits horder hyo) (fun _ => ?_) hb
  rw [hs']
  refine clusterData_zero hzero hf fun hwf => ?_
  -- `e` ran before
  refine id_ne_of_split hunits horder hsplit hm (List.mem_cons_of_mem _ hy) ?_
  rw [id_of_work hywork, id_of_work hmwork, honly f hf hwf]

/-- What touches a byte and is not held back can run last, and then the byte is
not stored. -/
theorem lost_byte (hids : DistinctIds batch) (hopen : Openable batch)
    {units : List (List (Int × LabelData))} (hunits : RoutedUnits S config batch units)
    {c e : List LabelData} (hc : c ∈ clusters S config batch) (he : e ∈ clusters S config batch)
    (hne : c ≠ e) {w : LabelData} (hwe : w ∈ e) {p : Nat} (hlast : LastById batch w p)
    (htouch : Touches (represent c) (fileOf w.fileKey) p)
    (hfree : ¬RunsBefore S config batch (represent c) (represent e)) {warehouse : Warehouse}
    (hfits : PayloadFits (fun l => warehouse.retrieve l.id) batch)
    (hone : ∀ b ∈ warehouse.retrieve w.id, b = 1)
    (hzero : ∀ v ∈ batch, v ≠ w → ∀ b ∈ warehouse.retrieve v.id, b = 0)
    (workers : Int → Executor ω) {root : String} (hroot : ∀ i, (workers i).root = root)
    {s : Storage ω}
    (hdata : ∀ c ∈ clusters S config batch,
      s.warehouse.retrieve (clusterHead c).id = clusterData warehouse c) :
    ∃ order, Interleaves units order ∧ ¬DataStored workers batch warehouse order s := by
  have hmem : ∀ c ∈ clusters S config batch, represent c ∈ aggregated S config batch :=
    fun c hc => represent_mem_aggregated hc
  obtain ⟨m, hm, hmwork⟩ := hunits.cluster e he
  obtain ⟨x, hx, hxwork⟩ := hunits.cluster c hc
  have hids' : x.2.id ≠ m.2.id := by
    rw [id_of_work hxwork, id_of_work hmwork, represent_id, represent_id]
    exact fun heq => hne (cluster_eq_of_head_id hids hc he heq)
  -- an order in which `c` runs after `e`
  obtain ⟨order, horder, hsub⟩ := exists_interleaving (a := m) (b := x)
    (fun heq => hids' (congrArg (·.2.id) heq.symm)) hm hx (by
      intro u hu hsub
      refine hfree ((hunits.ordered _ (hmem c hc) _ (hmem e he)).mp ⟨u, hu, ?_⟩)
      rw [← id_of_work hxwork, ← id_of_work hmwork]
      exact hsub.map (·.2.id))
  refine ⟨order, horder, fun hstored => ?_⟩
  obtain ⟨first, second, hsplit, hmfirst, hxsecond⟩ := List.cons_sublist_iff.mp hsub
  obtain ⟨mid, back, rfl⟩ := List.append_of_mem (List.singleton_sublist.mp hxsecond)
  have hsplit' : order = (first ++ mid) ++ x :: back := by
    rw [hsplit, List.append_assoc]
  have hmo : m ∈ order := horder.perm.mem_iff.mpr hm
  obtain ⟨name, hname⟩ := Option.ne_none_iff_exists'.mp (hopen.file w hlast.mem)
  rw [hname] at htouch
  have hend := overwritten_byte hids hopen hunits horder workers hc he hne hwe htouch hfits hzero
    hdata hsplit' (List.mem_append_left _ hmfirst) hmwork hxwork
  have hbyte := hstored.stored m hmo w p
    (by rw [hopen.originals he hmwork]; exact List.mem_map_of_mem hwe) hlast name hname
  rw [hroot m.1, ← hroot x.1] at hbyte
  have hlt := hlast.lt_length hfits
  rw [List.getElem?_eq_getElem hlt, hone _ (List.getElem_mem hlt)] at hbyte
  rw [hbyte] at hend
  simp at hend

/-! ## The condition -/

/-- Ones for the bytes of `w`, zeros for those of every other label. -/
def marked (batch : List LabelData) (w : LabelData) : Warehouse := fun id =>
  (batch.find? (fun l => l.id = id)).map fun l =>
    List.replicate l.dataSize.toNat (if l = w then 1 else 0)

theorem retrieve_marked (hids : DistinctIds batch) (w : LabelData) {l : LabelData}
    (hl : l ∈ batch) :
    (marked batch w).retrieve l.id =
      List.replicate l.dataSize.toNat (if l = w then 1 else 0) := by
  have hfind : batch.find? (fun x => x.id = l.id) = some l := by
    cases hx : batch.find? (fun x => x.id = l.id) with
    | none => exact absurd (decide_eq_true rfl) (List.find?_eq_none.mp hx l hl)
    | some x =>
        have hid : x.id = l.id := by simpa using List.find?_some hx
        rw [hids.eq_of_id_eq (List.mem_of_find?_eq_some hx) hl hid]
  unfold Warehouse.retrieve marked
  rw [hfind]
  rfl

theorem marked_fits (hids : DistinctIds batch) (w : LabelData) :
    PayloadFits (fun l => (marked batch w).retrieve l.id) batch := by
  intro l hl _
  show ((marked batch w).retrieve l.id).length = l.dataSize.toNat
  rw [retrieve_marked hids w hl, List.length_replicate]

/-- Every file is there and empty. -/
def emptyFiles (warehouse : Warehouse) (locations : LocationCatalog) : Storage Unit :=
  { warehouse, files := fun _ _ => some [], locations, other := () }

section Result

variable {ρ : Type} (d : Dispatcher ρ) {cached refreshed : List WorkerInfo}

theorem dispatched_units (hids : DistinctIds batch) (hopen : Openable batch) (hcached : cached ≠ [])
    (hfind : SolverFinds d (usableWorkers cached refreshed)) {st : DispatchState ρ}
    (hsent : st.sent = []) :
    RoutedUnits S d.config batch (dispatchBatch S d cached refreshed batch st).units := by
  rw [dispatchBatch_of_ne_nil S d refreshed batch st hcached]
  exact routed_units d _ hfind hids hopen.kind hsent

/-- The data of a merged write is assembled where it is independent. -/
theorem dispatched_data (hids : DistinctIds batch) (hopen : Openable batch) (hcached : cached ≠ [])
    (st : DispatchState ρ) {c : List LabelData} (hc : c ∈ clusters S d.config batch) :
    (dispatchBatch S d cached refreshed batch st).warehouse.retrieve (clusterHead c).id =
      if 2 ≤ c.length ∧ ¬EntangledIn S d.config batch (represent c) then
        clusterData st.warehouse c
      else st.warehouse.retrieve (clusterHead c).id := by
  rw [dispatchBatch_of_ne_nil S d refreshed batch st hcached]
  exact routed_data d _ hids hopen.children st hc

/-- Where no merged write is entangled, every label has all its data. -/
theorem dispatched_clusterData (hids : DistinctIds batch) (hopen : Openable batch)
    (hcached : cached ≠ []) (halone : ∀ c ∈ clusters S d.config batch, 2 ≤ c.length →
      ¬EntangledIn S d.config batch (represent c))
    (st : DispatchState ρ) : ∀ c ∈ clusters S d.config batch,
    (dispatchBatch S d cached refreshed batch st).warehouse.retrieve (clusterHead c).id =
      clusterData st.warehouse c := by
  intro c hc
  rw [dispatched_data d hids hopen hcached st hc]
  match c, cluster_ne_nil hc with
  | [w], _ =>
      rw [if_neg (by simp), clusterData, List.flatMap_cons, List.flatMap_nil, List.append_nil]
      rfl
  | first :: second :: rest, _ => rw [if_pos ⟨by simp, halone _ hc (by simp)⟩]

/-- The data of a batch reaches storage exactly when no merged write is entangled
and whatever touches a byte that is last by id runs before its write. -/
theorem merged_data_iff (hids : DistinctIds batch) (hopen : Openable batch) (hcached : cached ≠ [])
    (hfind : SolverFinds d (usableWorkers cached refreshed)) (solver : ρ)
    (locations : LocationCatalog) (status : StatusCatalog) :
    DataReachesStorage S d cached refreshed batch solver locations status ↔
      DataKept S d.config batch := by
  have hunits : ∀ warehouse : Warehouse, RoutedUnits S d.config batch
      (dispatchBatch S d cached refreshed batch
        { solver, warehouse, locations, status }).units :=
    fun _ => dispatched_units d hids hopen hcached hfind rfl
  constructor
  · intro hreach
    -- one root, all files there: every order succeeds
    have hrun : ∀ (w : LabelData) (order : List (Int × LabelData)),
        Interleaves (dispatchBatch S d cached refreshed batch
          { solver, warehouse := marked batch w, locations, status }).units order →
        DataStored (fun i => fileExecutor i "") batch (marked batch w) order
          (emptyFiles (dispatchBatch S d cached refreshed batch
            { solver, warehouse := marked batch w, locations, status }).warehouse locations) := by
      intro w order horder
      refine hreach _ (marked_fits hids w) _ rfl Unit _ _ order rfl horder ?_
      refine allExecuted_of_files _ (fun m hm => ?_) fun _ _ => Option.some_ne_none _
      exact order_io hopen (hunits _) horder hm
    have halone : ∀ c ∈ clusters S d.config batch, 2 ≤ c.length →
        ¬EntangledIn S d.config batch (represent c) := by
      intro c hc h2 hent
      refine not_merged_of_entangled hopen (hunits _) (interleaves_flatten _) _ hc h2
        (marked_fits hids {}) ?_ (hrun {} _ (interleaves_flatten _))
      show (dispatchBatch S d cached refreshed batch _).warehouse.retrieve (clusterHead c).id = _
      rw [dispatched_data d hids hopen hcached _ hc, if_neg fun h => h.2 hent]
    refine ⟨halone, fun c hc e he hne w hwe p hlast htouch => ?_⟩
    by_contra hfree
    obtain ⟨order, horder, hnot⟩ := lost_byte hids hopen (hunits (marked batch w)) hc he hne hwe
      hlast htouch hfree (marked_fits hids w)
      (by
        rw [retrieve_marked hids w hlast.mem, if_pos rfl]
        exact fun b hb => List.eq_of_mem_replicate hb)
      (by
        intro v hv hvw
        rw [retrieve_marked hids w hv, if_neg hvw]
        exact fun b hb => List.eq_of_mem_replicate hb)
      (fun i => fileExecutor i "") (fun _ => rfl)
      (s := emptyFiles (dispatchBatch S d cached refreshed batch
        { solver, warehouse := marked batch w, locations, status }).warehouse locations)
      (dispatched_clusterData d hids hopen hcached halone _)
    exact hnot (hrun w order horder)
  · intro hkept warehouse hfits st hst ω workers s order hs horder _
    subst hst
    refine dataStored_of_kept hids hopen (hunits warehouse) horder workers hkept hfits ?_
    rw [hs]
    exact dispatched_clusterData d hids hopen hcached hkept.alone _

end Result

/-! ## Runs -/

/-- Two abutting writes of one file. -/
def abuttingPair : List LabelData :=
  [writeChunk 1 7 1 0 "a" 0 10, writeChunk 2 7 1 0 "a" 10 10]

theorem abuttingPair_openable : Openable abuttingPair := by
  have hpublished : ∀ l ∈ abuttingPair, FromLabelManager l := by
    intro l hl
    simp only [abuttingPair, List.mem_cons, List.not_mem_nil, or_false] at hl
    rcases hl with rfl | rfl
    · exact fromLabelManager_writeChunk _ _ _ _ _ (by decide) (by decide)
    · exact fromLabelManager_writeChunk _ _ _ _ _ (by decide) (by decide)
  exact ⟨hpublished, by decide, by decide⟩

theorem merged_data_abuttingPair :
    DataReachesStorage .insertion oneWorker [{ id := 1 }] [] abuttingPair () idle.locations
        idle.status ↔
      DataKept .insertion {} abuttingPair :=
  merged_data_iff oneWorker (by decide) abuttingPair_openable (by decide) (oneWorker_finds _) ()
    idle.locations idle.status

/-- The pair and a read of both. -/
def abuttingPairRead : List LabelData := abuttingPair ++ [readChunk 3 7 1 "a" 5 10]

theorem abuttingPairRead_not_stored :
    ¬DataReachesStorage .insertion oneWorker [{ id := 1 }] [] abuttingPairRead () idle.locations
      idle.status := by
  intro hreach
  have hstored := hreach (marked abuttingPairRead {}) (marked_fits (by decide) {}) _ rfl Unit
    (fun i => fileExecutor i "") (emptyFiles _ idle.locations) _ rfl (interleaves_flatten _)
    ⟨⟨_, rfl⟩, ⟨_, rfl⟩, trivial⟩
  have hmerged := hstored.merged [] _ _ rfl rfl (by decide)
  exact absurd hmerged (by decide)

end Labios
