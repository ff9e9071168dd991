import Labios.Client.Model
import Labios.Storage.Execution
import Labios.Storage.MergedRange

/-!
# Schedules and last writes

A schedule lists the labels of a batch by place: each label has a place, places
ascend, and labels that share a place write apart ranges. Running a schedule,
what an array holds at a byte before place `t` is what the last write placed
before `t` that covers the byte put there (`store_of_lastWrite`), or the old
content (`store_of_no_write`); and a read returns the bytes that stand there
before its own place (`returned_of_read`).

So two schedules of one batch mean the same when every read, and the end of the
batch, finds the same last write at every byte (`run_eq_of_same_lastWrites`),
and only then (`lastWrite_of_run_eq`).
-/

namespace Labios

open Foundation

/-- A listing of `batch` by place; a read keeps the place its id gives it. -/
structure Schedule (batch : List LabelData) (place : LabelData → Nat)
    (order : List LabelData) : Prop where
  perm : order.Perm batch
  reads : ∀ r ∈ batch, r.type = .read → place r = idKey r
  bound : ∀ l ∈ batch, place l < 2 ^ 64
  sorted : order.Pairwise fun a b => place a ≤ place b
  apart : ∀ a ∈ batch, ∀ b ∈ batch, a ≠ b → place a = place b →
    a.type = .write ∧ b.type = .write ∧ ∀ k p, Covers a k p → ¬Covers b k p

/-- `w` is the last write placed before `t` that covers byte `p` of file `k`. -/
structure LastWrite (batch : List LabelData) (place : LabelData → Nat) (k : String) (p t : Nat)
    (w : LabelData) : Prop where
  mem : w ∈ batch
  write : w.type = .write
  covers : Covers w k p
  before : place w < t
  last : ∀ x ∈ batch, x.type = .write → Covers x k p → place x < t → place x ≤ place w

/-- The byte a write puts at `p`. -/
def byteOf (payload : LabelData → List UInt8) (w : LabelData) (p : Nat) : UInt8 :=
  ((payload w)[p - start w]?).getD 0

section Run

variable {batch order : List LabelData} {place : LabelData → Nat}
  {payload : LabelData → List UInt8} {s : RunState} {k : String} {p t : Nat}

/-! ## One cell -/

theorem store_execute_write {w : LabelData} (h : PlainIO w) (hw : w.type = .write)
    (hlen : (payload w).length = w.dataSize.toNat) (hc : Covers w k p) :
    (execute payload s w).store k p = byteOf payload w p := by
  obtain ⟨rfl, hlo, hhi⟩ := hc
  have hget : (payload w)[p - start w]? = some (byteOf payload w p) := by
    have hlt : p - start w < (payload w).length := by
      simp only [finish] at hhi
      omega
    simp [byteOf, hlt]
  rw [execute_write h hw]
  exact overlay_inside _ _ hlo hget

theorem store_execute_of_not_covers {l : LabelData} (h : PlainIO l)
    (hlen : l.type = .write → (payload l).length = l.dataSize.toNat)
    (hno : ¬(l.type = .write ∧ Covers l k p)) :
    (execute payload s l).store k p = s.store k p := by
  rcases h.kind with hr | hw
  · rw [execute_read h hr]
  · rw [execute_write h hw]
    apply overlay_outside
    rintro ⟨rfl, hlo, hhi⟩
    rw [hlen hw] at hhi
    exact hno ⟨hw, rfl, hlo, hhi⟩

theorem returned_execute_of_ne {l : LabelData} (h : PlainIO l) {id : UInt64} (hid : l.id ≠ id) :
    (execute payload s l).returned id = s.returned id := by
  rcases h.kind with hr | hw
  · rw [execute_read h hr]
    exact Function.update_of_ne hid.symm _ _
  · rw [execute_write h hw]

/-! ## A prefix of a schedule -/

/-- The labels placed before `t`. -/
def placedBefore (place : LabelData → Nat) (order : List LabelData) (t : Nat) :
    List LabelData :=
  order.filter (fun l => place l < t)

theorem Schedule.mem_placedBefore (h : Schedule batch place order) {l : LabelData} :
    l ∈ placedBefore place order t ↔ l ∈ batch ∧ place l < t := by
  rw [placedBefore, List.mem_filter, h.perm.mem_iff, decide_eq_true_iff]

/-- What stands in front of a label that shares its place with none. -/
theorem Schedule.split (h : Schedule batch place order) {l : LabelData} (hl : l ∈ batch)
    (hnodup : batch.Nodup) (halone : ∀ x ∈ batch, place x = place l → x = l) :
    ∃ back, order = placedBefore place order (place l) ++ l :: back ∧ l ∉ back := by
  obtain ⟨front, back, hsplit⟩ := List.append_of_mem (h.perm.mem_iff.mpr hl)
  have hn : order.Nodup := h.perm.nodup_iff.mpr hnodup
  have hs := h.sorted
  rw [hsplit] at hn hs
  rw [List.pairwise_append, List.pairwise_cons] at hs
  rw [List.nodup_append, List.nodup_cons] at hn
  obtain ⟨_, ⟨hback, _⟩, hfront⟩ := hs
  have hfilter : placedBefore place order (place l) = front := by
    rw [placedBefore, hsplit, List.filter_append]
    have h1 : front.filter (fun x => place x < place l) = front := by
      rw [List.filter_eq_self]
      intro x hx
      have hle := hfront x hx l List.mem_cons_self
      have hne : place x ≠ place l := by
        intro he
        have hxl := halone x (h.perm.mem_iff.mp (hsplit ▸ List.mem_append_left _ hx)) he
        exact hn.2.2 x hx l List.mem_cons_self hxl
      exact decide_eq_true (Nat.lt_of_le_of_ne hle hne)
    have h2 : (l :: back).filter (fun x => place x < place l) = [] := by
      rw [List.filter_eq_nil_iff]
      intro x hx
      rcases List.mem_cons.mp hx with rfl | hx
      · simp
      · simpa using hback x hx
    rw [h1, h2, List.append_nil]
  exact ⟨back, by rw [hfilter]; exact hsplit, hn.2.1.1⟩

theorem Schedule.placedBefore_all (h : Schedule batch place order) :
    placedBefore place order (2 ^ 64) = order := by
  rw [placedBefore, List.filter_eq_self]
  exact fun l hl => decide_eq_true (h.bound l (h.perm.mem_iff.mp hl))

/-- Before place `t`, a byte holds what its last write put there. -/
theorem store_of_lastWrite (h : Schedule batch place order) (hnodup : batch.Nodup)
    (hplain : ∀ l ∈ batch, PlainIO l) (hfits : PayloadFits payload batch) {w : LabelData}
    (hw : LastWrite batch place k p t w) :
    ((placedBefore place order t).foldl (execute payload) s).store k p = byteOf payload w p := by
  obtain ⟨front, back, hsplit⟩ :=
    List.append_of_mem (h.mem_placedBefore.mpr ⟨hw.mem, hw.before⟩)
  have hsorted : (front ++ w :: back).Pairwise fun a b => place a ≤ place b :=
    hsplit ▸ h.sorted.sublist List.filter_sublist
  have hn : (front ++ w :: back).Nodup :=
    hsplit ▸ (h.perm.nodup_iff.mpr hnodup).filter _
  rw [List.pairwise_append, List.pairwise_cons] at hsorted
  rw [List.nodup_append, List.nodup_cons] at hn
  rw [hsplit]
  refine foldl_of_last (fun s => s.store k p) ?_ ?_ s
  · intro s
    exact store_execute_write (hplain w hw.mem) hw.write (hfits w hw.mem hw.write) hw.covers
  · intro b hb s
    obtain ⟨hbmem, hbt⟩ := h.mem_placedBefore.mp
      (hsplit ▸ List.mem_append_right front (List.mem_cons_of_mem w hb))
    apply store_execute_of_not_covers (hplain b hbmem) (hfits b hbmem)
    rintro ⟨hbw, hbc⟩
    -- a later write of the byte would share the place of `w`
    have hplace : place w = place b :=
      Nat.le_antisymm (hsorted.2.1.1 b hb) (hw.last b hbmem hbw hbc hbt)
    have hne : w ≠ b := fun he => hn.2.1.1 (he ▸ hb)
    exact (h.apart w hw.mem b hbmem hne hplace).2.2 k p hw.covers hbc

/-- A byte that no write placed before `t` covers keeps its content. -/
theorem store_of_no_write (h : Schedule batch place order)
    (hplain : ∀ l ∈ batch, PlainIO l) (hfits : PayloadFits payload batch)
    (hno : ∀ x ∈ batch, x.type = .write → Covers x k p → ¬place x < t) :
    ((placedBefore place order t).foldl (execute payload) s).store k p = s.store k p := by
  refine foldl_untouched (fun s => s.store k p) ?_ s
  intro l hl s
  obtain ⟨hmem, hlt⟩ := h.mem_placedBefore.mp hl
  exact store_execute_of_not_covers (hplain l hmem) (hfits l hmem)
    fun hc => hno l hmem hc.1 hc.2 hlt

/-- Where some write covers the byte, one is the last. -/
theorem Schedule.exists_lastWrite (h : Schedule batch place order)
    {x : LabelData} (hx : x ∈ batch) (hxw : x.type = .write) (hxc : Covers x k p)
    (hxt : place x < t) : ∃ w, LastWrite batch place k p t w := by
  obtain ⟨front, w, back, hsplit, ⟨hww, hwc⟩, hback⟩ :=
    exists_last (fun l => l.type = .write ∧ Covers l k p)
      ⟨x, h.mem_placedBefore.mpr ⟨hx, hxt⟩, hxw, hxc⟩
  have hsorted : (front ++ w :: back).Pairwise fun a b => place a ≤ place b :=
    hsplit ▸ h.sorted.sublist List.filter_sublist
  rw [List.pairwise_append] at hsorted
  have hw := h.mem_placedBefore.mp (hsplit ▸ List.mem_append_right front List.mem_cons_self)
  refine ⟨w, hw.1, hww, hwc, hw.2, ?_⟩
  intro y hy hyw hyc hyt
  have hin : y ∈ front ++ w :: back := hsplit ▸ h.mem_placedBefore.mpr ⟨hy, hyt⟩
  rcases List.mem_append.mp hin with hin | hin
  · exact hsorted.2.2 y hin w List.mem_cons_self
  · rcases List.mem_cons.mp hin with rfl | hin
    · exact Nat.le_refl _
    · exact absurd ⟨hyw, hyc⟩ (hback y hin)

/-- A read returns its range as it stands before the read's place. -/
theorem returned_of_read (h : Schedule batch place order) (hids : DistinctIds batch)
    (hplain : ∀ l ∈ batch, PlainIO l) {r : LabelData} (hr : r ∈ batch) (hread : r.type = .read) :
    (order.foldl (execute payload) s).returned r.id =
      some (slice ((placedBefore place order (place r)).foldl (execute payload) s).store
        r.fileKey (start r) r.dataSize.toNat) := by
  have halone : ∀ x ∈ batch, place x = place r → x = r := by
    intro x hx hplace
    by_contra hne
    have hw := (h.apart x hx r hr hne hplace).2.1
    rw [hread] at hw
    exact absurd hw (by simp)
  obtain ⟨back, hsplit, hnot⟩ := h.split hr hids.nodup halone
  conv_lhs => rw [hsplit]
  rw [List.foldl_append, List.foldl_cons]
  have hlater : ∀ b ∈ back, ∀ s, (execute payload s b).returned r.id = s.returned r.id := by
    intro b hb s
    have hmem : b ∈ batch := h.perm.mem_iff.mp
      (hsplit ▸ List.mem_append_right _ (List.mem_cons_of_mem r hb))
    exact returned_execute_of_ne (hplain b hmem)
      fun hid => hnot (hids.eq_of_id_eq hmem hr hid ▸ hb)
  refine (foldl_untouched (fun s : RunState => s.returned r.id) hlater _).trans ?_
  rw [execute_read (hplain r hr) hread]
  exact Function.update_self _ _ _

/-- Ids of no read keep their entry. -/
theorem returned_of_no_read (hplain : ∀ l ∈ batch, PlainIO l) (hperm : order.Perm batch)
    {id : UInt64} (hno : ∀ r ∈ batch, r.type = .read → r.id ≠ id) :
    (order.foldl (execute payload) s).returned id = s.returned id := by
  refine foldl_untouched (fun s => s.returned id) ?_ s
  intro l hl s
  have hmem := hperm.mem_iff.mp hl
  rcases (hplain l hmem).kind with hr | hw
  · exact returned_execute_of_ne (hplain l hmem) (hno l hmem hr)
  · rw [execute_write (hplain l hmem) hw]

end Run

/-! ## Two schedules of one batch -/

/-- Who looks at byte `p` of file `k` before place `t`: a read placed at `t` that
covers it, or the end of the batch. -/
def Observed (batch : List LabelData) (k : String) (p t : Nat) : Prop :=
  t = 2 ^ 64 ∨ ∃ r ∈ batch, r.type = .read ∧ Covers r k p ∧ idKey r = t

section Compare

variable {batch order order' : List LabelData} {place place' : LabelData → Nat}

/-- Same last write at every observed byte: the runs are equal. -/
theorem run_eq_of_same_lastWrites (h : Schedule batch place order)
    (h' : Schedule batch place' order') (hids : DistinctIds batch)
    (hplain : ∀ l ∈ batch, PlainIO l)
    (hsame : ∀ k p t, Observed batch k p t →
      ∀ w, LastWrite batch place k p t w ↔ LastWrite batch place' k p t w)
    {payload : LabelData → List UInt8} (hfits : PayloadFits payload batch) (s : RunState) :
    order.foldl (execute payload) s = order'.foldl (execute payload) s := by
  have hcell : ∀ k p t, Observed batch k p t →
      ((placedBefore place order t).foldl (execute payload) s).store k p =
        ((placedBefore place' order' t).foldl (execute payload) s).store k p := by
    intro k p t hobs
    by_cases hex : ∃ w, LastWrite batch place k p t w
    · obtain ⟨w, hw⟩ := hex
      rw [store_of_lastWrite h hids.nodup hplain hfits hw,
        store_of_lastWrite h' hids.nodup hplain hfits ((hsame k p t hobs w).mp hw)]
    · rw [store_of_no_write h hplain hfits, store_of_no_write h' hplain hfits]
      · intro x hx hxw hxc hxt
        obtain ⟨w, hw⟩ := h'.exists_lastWrite hx hxw hxc hxt
        exact hex ⟨w, (hsame k p t hobs w).mpr hw⟩
      · intro x hx hxw hxc hxt
        exact hex (h.exists_lastWrite hx hxw hxc hxt)
  ext1
  · funext k p
    have hend := hcell k p (2 ^ 64) (.inl rfl)
    rwa [h.placedBefore_all, h'.placedBefore_all] at hend
  · funext id
    by_cases hex : ∃ r ∈ batch, r.type = .read ∧ r.id = id
    · obtain ⟨r, hr, hread, rfl⟩ := hex
      rw [returned_of_read h hids hplain hr hread, returned_of_read h' hids hplain hr hread,
        h.reads r hr hread, h'.reads r hr hread]
      congr 1
      rw [slice_congr]
      intro p hlo hhi
      exact hcell r.fileKey p (idKey r) (.inr ⟨r, hr, hread, ⟨rfl, hlo, hhi⟩, rfl⟩)
    · have hno : ∀ r ∈ batch, r.type = .read → r.id ≠ id :=
        fun r hr hread hid => hex ⟨r, hr, hread, hid⟩
      rw [returned_of_no_read hplain h.perm hno, returned_of_no_read hplain h'.perm hno]

/-- Equal runs have equal cells wherever somebody looks. -/
theorem cell_eq_of_run_eq (h : Schedule batch place order) (h' : Schedule batch place' order')
    (hids : DistinctIds batch) (hplain : ∀ l ∈ batch, PlainIO l)
    {payload : LabelData → List UInt8} {s : RunState}
    (hrun : order.foldl (execute payload) s = order'.foldl (execute payload) s)
    {k : String} {p t : Nat} (hobs : Observed batch k p t) :
    ((placedBefore place order t).foldl (execute payload) s).store k p =
      ((placedBefore place' order' t).foldl (execute payload) s).store k p := by
  rcases hobs with rfl | ⟨r, hr, hread, ⟨rfl, hlo, hhi⟩, rfl⟩
  · rw [h.placedBefore_all, h'.placedBefore_all, hrun]
  · have hslice := congrArg (fun run => run.returned r.id) hrun
    rw [returned_of_read h hids hplain hr hread, returned_of_read h' hids hplain hr hread,
      h.reads r hr hread,
      h'.reads r hr hread] at hslice
    exact slice_congr.mp (Option.some.inj hslice) p hlo hhi

/-- Data that marks one write: its bytes are ones, every other write's zeros. -/
def markedData (batch : List LabelData) (w : LabelData) (id : UInt64) : List UInt8 :=
  List.replicate (((batch.find? (fun l => l.id = id)).elim 0 (·.dataSize)).toNat)
    (if id = w.id then 1 else 0)

theorem markedData_eq (hids : DistinctIds batch) {w l : LabelData} (hl : l ∈ batch) :
    markedData batch w l.id =
      List.replicate l.dataSize.toNat (if l.id = w.id then 1 else 0) := by
  have hfind : batch.find? (fun x => x.id = l.id) = some l := by
    have hsome : (batch.find? (fun x => x.id = l.id)).isSome := by
      rw [List.find?_isSome]
      exact ⟨l, hl, by simp⟩
    obtain ⟨x, hx⟩ := Option.isSome_iff_exists.mp hsome
    have hid : x.id = l.id := by simpa using List.find?_some hx
    rw [hx, hids.eq_of_id_eq (List.mem_of_find?_eq_some hx) hl hid]
  rw [markedData, hfind]
  rfl

/-- Runs that agree on marked data agree on the last writes. -/
theorem lastWrite_of_cell_eq (h : Schedule batch place order)
    (h' : Schedule batch place' order') (hids : DistinctIds batch)
    (hplain : ∀ l ∈ batch, PlainIO l) {k : String} {p t : Nat} {w : LabelData}
    {payload : LabelData → List UInt8} (hpayload : ∀ l ∈ batch, payload l = markedData batch w l.id)
    {s : RunState} (hzero : s.store k p = 0) (hw : LastWrite batch place k p t w)
    (hcell : ((placedBefore place order t).foldl (execute payload) s).store k p =
      ((placedBefore place' order' t).foldl (execute payload) s).store k p) :
    LastWrite batch place' k p t w := by
  have hfits : PayloadFits payload batch := by
    intro l hl _
    rw [hpayload l hl, markedData_eq hids hl, List.length_replicate]
  have hbyte : ∀ x ∈ batch, x.type = .write → Covers x k p →
      byteOf payload x p = if x.id = w.id then 1 else 0 := by
    intro x hx _ hc
    have hlt : p - start x < x.dataSize.toNat := by
      obtain ⟨_, hlo, hhi⟩ := hc
      simp only [finish] at hhi
      omega
    rw [byteOf, hpayload x hx, markedData_eq hids hx, List.getElem?_replicate, if_pos hlt]
    rfl
  rw [store_of_lastWrite h hids.nodup hplain hfits hw, hbyte w hw.mem hw.write hw.covers,
    if_pos rfl] at hcell
  by_cases hex : ∃ x ∈ batch, x.type = .write ∧ Covers x k p ∧ place' x < t
  · obtain ⟨x, hx, hxw, hxc, hxt⟩ := hex
    obtain ⟨v, hv⟩ := h'.exists_lastWrite hx hxw hxc hxt
    rw [store_of_lastWrite h' hids.nodup hplain hfits hv, hbyte v hv.mem hv.write hv.covers] at hcell
    by_cases hid : v.id = w.id
    · exact hids.eq_of_id_eq hv.mem hw.mem hid ▸ hv
    · rw [if_neg hid] at hcell
      exact absurd hcell (by decide)
  · have hno := store_of_no_write (s := s) h' hplain hfits (k := k) (p := p) (t := t)
      fun x hx hxw hxc hxt => hex ⟨x, hx, hxw, hxc, hxt⟩
    rw [hno, hzero] at hcell
    exact absurd hcell (by decide)

end Compare
end Labios

/-!
## What aggregation does to the meaning of a batch

A merged write does at once, at the place of its lowest-offset member, what the
members do one by one (`execute_represent`). So running the aggregated batch in
id order is running the batch in another schedule, the one that places every
write at the id of the head of its run (`aggregated_run`).

Whether the two schedules mean the same is then a matter of last writes:
`aggregation_preserves_iff`.
-/

namespace Labios

open Foundation

variable {S : StdSort} {config : ShufflerConfig} {batch : List LabelData}

/-- The data a label carries: its own, or its children's in children order. -/
def carried (staged : UInt64 → List UInt8) (l : LabelData) : List UInt8 :=
  (originals l).flatMap staged

/-! ## A run is one write -/

/-- Writing a run one by one is one overlay of the concatenation. -/
theorem foldl_execute_run {payload : LabelData → List UInt8} (rest : List LabelData)
    (w : LabelData) (hplain : ∀ l ∈ w :: rest, PlainIO l)
    (hwrite : ∀ l ∈ w :: rest, l.type = .write)
    (hlen : ∀ l ∈ w :: rest, (payload l).length = l.dataSize.toNat)
    (hkey : ∀ l ∈ w :: rest, l.fileKey = w.fileKey)
    (hchain : (w :: rest).IsChain fun a b => start b = finish a) (s : RunState) :
    (w :: rest).foldl (execute payload) s =
      { s with
        store := overlay s.store w.fileKey (start w) ((w :: rest).flatMap payload) } := by
  induction rest generalizing w s with
  | nil =>
      rw [List.foldl_cons, List.foldl_nil,
        execute_write (hplain w List.mem_cons_self) (hwrite w List.mem_cons_self)]
      simp
  | cons v rest ih =>
      have hw := List.mem_cons_self (a := w) (l := v :: rest)
      have hv : v ∈ w :: v :: rest := List.mem_cons_of_mem _ List.mem_cons_self
      rw [List.isChain_cons_cons] at hchain
      have hrest : ∀ l ∈ v :: rest, l.fileKey = v.fileKey := by
        intro l hl
        rw [hkey l (List.mem_cons_of_mem _ hl), hkey v hv]
      rw [List.foldl_cons, ih v (fun l hl => hplain l (List.mem_cons_of_mem _ hl))
        (fun l hl => hwrite l (List.mem_cons_of_mem _ hl))
        (fun l hl => hlen l (List.mem_cons_of_mem _ hl)) hrest hchain.2,
        execute_write (hplain w hw) (hwrite w hw), hkey v hv, hchain.1]
      have hend : finish w = start w + (payload w).length := by
        rw [hlen w hw]
        rfl
      dsimp only
      rw [hend, overlay_append, List.flatMap_cons]
      rfl

/-- A cluster's representative does what the cluster does. -/
theorem execute_represent (hplain : ∀ l ∈ batch, PlainIO l)
    (hchildren : ∀ l ∈ batch, l.children = []) {staged : UInt64 → List UInt8}
    (hfits : PayloadFits (fun l => staged l.id) batch) {c : List LabelData}
    (hc : c ∈ clusters S config batch) (s : RunState) :
    execute (carried staged) s (represent c) = c.foldl (execute (carried staged)) s := by
  rcases Nat.lt_or_ge c.length 2 with hlt | hge
  · obtain ⟨l, rfl⟩ := List.length_eq_one_iff.mp (Nat.le_antisymm (Nat.le_of_lt_succ hlt)
      (List.length_pos_iff.mpr (cluster_ne_nil hc)))
    rfl
  · have hrun := isRun_of_two_le hc hge
    have hcarried : ∀ l ∈ c, carried staged l = staged l.id := by
      intro l hl
      simp [carried, originals, hchildren l (hrun.mem l hl)]
    have hflat : carried staged (represent c) = c.flatMap (carried staged) := by
      rw [carried, originals_represent (cluster_ne_nil hc)
        fun l hl => hchildren l (hrun.mem l hl), List.flatMap_map]
      exact List.flatMap_congr fun l hl => (hcarried l hl).symm
    rw [represent_of_two_le hge] at hflat ⊢
    obtain ⟨w, rest, rfl⟩ := List.exists_cons_of_ne_nil (cluster_ne_nil hc)
    have hw := hplain w (hrun.mem w List.mem_cons_self)
    have hww := hrun.write w List.mem_cons_self
    rw [foldl_execute_run rest w (fun l hl => hplain l (hrun.mem l hl)) hrun.write
      (fun l hl => by rw [hcarried l hl]; exact hfits l (hrun.mem l hl) (hrun.write l hl))
      (fun l hl => hrun.fileKey l hl w List.mem_cons_self) (run_chain hplain hrun), ← hflat]
    have hpath : (w.destination.path?).getD "" = w.fileKey := by
      rw [hw.destination_eq hww]
      rfl
    rw [← hpath, start_write hww]
    rfl

/-! ## The schedule of the aggregated batch -/

/-- The cluster a label lies in. -/
def clusterOf (S : StdSort) (config : ShufflerConfig) (batch : List LabelData) (l : LabelData) :
    List LabelData :=
  ((clusters S config batch).find? (fun c => l ∈ c)).getD [l]

/-- Where aggregation places a label: at the id of the head of its run. -/
def runPlace (S : StdSort) (config : ShufflerConfig) (batch : List LabelData)
    (l : LabelData) : Nat :=
  idKey (clusterHead (clusterOf S config batch l))

theorem clusterOf_eq (h : DistinctIds batch) {c : List LabelData}
    (hc : c ∈ clusters S config batch) {l : LabelData} (hl : l ∈ c) :
    clusterOf S config batch l = c := by
  unfold clusterOf
  cases hfind : (clusters S config batch).find? (fun c => l ∈ c) with
  | none =>
      have := List.find?_eq_none.mp hfind c hc
      simp [hl] at this
  | some d =>
      have hld : l ∈ d := by simpa using List.find?_some hfind
      exact (cluster_unique h hc (List.mem_of_find?_eq_some hfind) hl hld).symm

/-- The clusters in the order in which their representatives run. -/
def clustersInOrder (S : StdSort) (config : ShufflerConfig) (batch : List LabelData) :
    List (List LabelData) :=
  S.sortBy (fun c => idKey (clusterHead c)) (clusters S config batch)

theorem sortBy_aggregate (h : DistinctIds batch) :
    S.sortBy idKey (aggregate S config batch).output =
      (clustersInOrder S config batch).map represent := by
  have hkey : ∀ c : List LabelData, idKey (represent c) = idKey (clusterHead c) := by
    intro c
    rw [idKey, represent_id]
    rfl
  have hids : ((clusters S config batch).map (fun c => idKey (clusterHead c))).Nodup := by
    have hout : ((aggregate S config batch).output.map idKey).Nodup :=
      (aggregate_distinctIds h).idKey_nodup
    rw [aggregate_output, List.map_map] at hout
    exact (List.map_congr_left fun c _ => hkey c) ▸ hout
  refine S.sortBy_eq_of_perm idKey ?_ ?_
  · rw [aggregate_output]
    exact (S.perm _ _).map _
  · rw [List.pairwise_map]
    refine (S.sorted_lt _ hids).imp ?_
    intro c d hlt
    rwa [hkey, hkey]

/-- Running the aggregated batch is running the batch cluster by cluster. -/
theorem aggregated_run (h : DistinctIds batch) (hplain : ∀ l ∈ batch, PlainIO l)
    (hchildren : ∀ l ∈ batch, l.children = []) {staged : UInt64 → List UInt8}
    (hfits : PayloadFits (fun l => staged l.id) batch) (s : RunState) :
    (S.sortBy idKey (aggregate S config batch).output).foldl (execute (carried staged)) s =
      (clustersInOrder S config batch).flatten.foldl (execute (carried staged)) s := by
  rw [sortBy_aggregate h, List.foldl_map, List.foldl_flatten]
  apply List.foldl_ext
  intro s c hc
  exact execute_represent hplain hchildren hfits ((S.mem_sortBy _ _ _).mp hc) s

theorem idSchedule (S : StdSort) (h : DistinctIds batch) :
    Schedule batch idKey (S.sortBy idKey batch) where
  perm := S.perm idKey batch
  reads _ _ _ := rfl
  bound l _ := l.id.toNat_lt
  sorted := S.sorted idKey batch
  apart _ ha _ hb hne hid := absurd (h.eq_of_id_eq ha hb (UInt64.toNat_inj.mp hid)) hne

theorem runSchedule (S : StdSort) (config : ShufflerConfig) (h : DistinctIds batch)
    (hplain : ∀ l ∈ batch, PlainIO l) :
    Schedule batch (runPlace S config batch) (clustersInOrder S config batch).flatten where
  perm := ((S.perm _ _).flatten).trans (clusters_flatten_perm S config batch)
  reads := by
    intro r hr hread
    obtain ⟨c, hc, hrc⟩ := exists_cluster S config hr
    rw [runPlace, clusterOf_eq h hc hrc]
    rcases cluster_cases hc with ⟨l, rfl, _⟩ | ⟨_, hrun⟩
    · rw [List.mem_singleton.mp hrc]
      rfl
    · rw [hrun.write r hrc] at hread
      exact absurd hread (by simp)
  bound l _ := UInt64.toNat_lt _
  sorted := by
    have hplace : ∀ c ∈ clustersInOrder S config batch, ∀ l ∈ c,
        runPlace S config batch l = idKey (clusterHead c) := by
      intro c hc l hl
      rw [runPlace, clusterOf_eq h ((S.mem_sortBy _ _ _).mp hc) hl]
    rw [List.pairwise_flatten]
    constructor
    · intro c hc
      apply List.pairwise_of_forall_mem_list
      intro a ha b hb
      rw [hplace c hc a ha, hplace c hc b hb]
    · refine (S.sorted _ _).imp_of_mem ?_
      intro c d hc hd hle a ha b hb
      rw [hplace c hc a ha, hplace d hd b hb]
      exact hle
  apart := by
    intro a ha b hb hne hplace
    obtain ⟨c, hc, hac⟩ := exists_cluster S config ha
    obtain ⟨d, hd, hbd⟩ := exists_cluster S config hb
    rw [runPlace, runPlace, clusterOf_eq h hc hac, clusterOf_eq h hd hbd] at hplace
    obtain rfl := cluster_eq_of_head_id h hc hd (UInt64.toNat_inj.mp hplace)
    rcases cluster_cases hc with ⟨l, rfl, _⟩ | ⟨_, hrun⟩
    · exact absurd ((List.mem_singleton.mp hac).trans (List.mem_singleton.mp hbd).symm) hne
    · refine ⟨hrun.write a hac, hrun.write b hbd, ?_⟩
      have hapart : c.Pairwise fun x y => ∀ k p, Covers x k p → ¬Covers y k p := by
        refine (run_apart hplain hrun).imp ?_
        rintro x y hxy k p ⟨_, _, hxp⟩ ⟨_, hyp, _⟩
        omega
      have : Std.Symm fun x y : LabelData => ∀ k p, Covers x k p → ¬Covers y k p :=
        ⟨fun x y hxy k p hy hx => hxy k p hx hy⟩
      exact hapart.forall hac hbd hne

/-! ## The condition -/

/-- Running what `aggregate` returns in id order has the effect of running the
batch in id order, whatever the data and the stores. -/
def AggregationPreserves (S : StdSort) (config : ShufflerConfig) (batch : List LabelData) : Prop :=
  ∀ staged : UInt64 → List UInt8, PayloadFits (fun l => staged l.id) batch → ∀ s,
    (S.sortBy idKey (aggregate S config batch).output).foldl (execute (carried staged)) s =
      (S.sortBy idKey batch).foldl (execute (carried staged)) s

/-- For every read, and for the end of the batch, the last write before it at
each byte is the same whether a write is placed at its own id or at the id of
the first write of its abutting run. -/
def LastWritesKept (S : StdSort) (config : ShufflerConfig) (batch : List LabelData) : Prop :=
  ∀ k p t, Observed batch k p t → ∀ w,
    LastWrite batch idKey k p t w ↔ LastWrite batch (runPlace S config batch) k p t w

theorem carried_eq (hchildren : ∀ l ∈ batch, l.children = []) (staged : UInt64 → List UInt8)
    {l : LabelData} (hl : l ∈ batch) : carried staged l = staged l.id := by
  simp [carried, originals, hchildren l hl]

/-- **Aggregation preserves meaning** exactly when it keeps the last writes. -/
theorem aggregation_preserves_iff (h : DistinctIds batch) (hplain : ∀ l ∈ batch, PlainIO l)
    (hchildren : ∀ l ∈ batch, l.children = []) :
    AggregationPreserves S config batch ↔ LastWritesKept S config batch := by
  have hid := idSchedule S h
  have hrun := runSchedule S config h hplain
  constructor
  · intro hpres k p t hobs w
    -- mark the write in question, over arrays of zeros
    have hfits : PayloadFits (fun l => markedData batch w l.id) batch := by
      intro l hl _
      dsimp only
      rw [markedData_eq h hl, List.length_replicate]
    have heq := hpres (markedData batch w) hfits ⟨fun _ _ => 0, fun _ => none⟩
    rw [aggregated_run h hplain hchildren hfits] at heq
    have hpayload : ∀ l ∈ batch, carried (markedData batch w) l = markedData batch w l.id :=
      fun l hl => carried_eq hchildren _ hl
    have hcell := cell_eq_of_run_eq hid hrun h hplain heq.symm hobs
    exact ⟨fun hw => lastWrite_of_cell_eq hid hrun h hplain hpayload rfl hw hcell,
      fun hw => lastWrite_of_cell_eq hrun hid h hplain hpayload rfl hw hcell.symm⟩
  · intro hkept staged hfits s
    have hfits' : PayloadFits (carried staged) batch := by
      intro l hl hw
      rw [carried_eq hchildren staged hl]
      exact hfits l hl hw
    rw [aggregated_run h hplain hchildren hfits]
    exact (run_eq_of_same_lastWrites hid hrun h hplain hkept hfits' s).symm

/-- A write, a read of its bytes, and a later write that abuts the first from
below: the merged write takes the later id and runs after the read. -/
def movedPastRead : List LabelData :=
  [writeChunk 1 7 1 0 "a" 10 10, readChunk 2 7 1 "a" 10 10, writeChunk 3 7 1 0 "a" 0 10]

theorem movedPastRead_plain : ∀ l ∈ movedPastRead, PlainIO l := by
  intro l hl
  simp only [movedPastRead, List.mem_cons, List.not_mem_nil, or_false] at hl
  rcases hl with rfl | rfl | rfl
  · exact (fromLabelManager_writeChunk 1 7 1 0 "a" (by decide) (by decide)).plain
  · exact (fromLabelManager_readChunk 2 7 1 "a" (by decide) (by decide)).plain
  · exact (fromLabelManager_writeChunk 3 7 1 0 "a" (by decide) (by decide)).plain

theorem aggregation_preserves_movedPastRead :
    AggregationPreserves .insertion {} movedPastRead ↔
      LastWritesKept .insertion {} movedPastRead :=
  aggregation_preserves_iff (by decide) movedPastRead_plain (by decide)

theorem movedPastRead_not_preserved : ¬AggregationPreserves .insertion {} movedPastRead := by
  intro hpres
  have heq := hpres (fun id => List.replicate 10 (if id = 1 then 1 else 3))
    (by unfold PayloadFits; decide) ⟨fun _ _ => 0, fun _ => none⟩
  have hread := congrArg (fun run => run.returned 2) heq
  revert hread
  decide

end Labios
