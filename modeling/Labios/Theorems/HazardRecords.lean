import Labios.Shuffler.Dependencies

/-!
# Recorded hazards

The pair loop of `detect_dependencies` takes every pair that is neither write then
read nor write then write for a read then a write, so a delete is never a mutation of
its own kind; and the ends of the ranges that it compares wrap.
`hazard_exact_iff` says for which pairs the record is the right one.
-/

namespace Labios

open Foundation

variable {S : StdSort} {granularity : String} {labels : List LabelData} {a b : LabelData}

/-- The byte is in the range, which ends at `2 ^ 64`. -/
def OffsetRange.Has (r : OffsetRange) (byte : UInt64) : Prop :=
  r.offset.toNat ≤ byte.toNat ∧ byte.toNat < r.offset.toNat + r.length.toNat

/-- The ranges of the two labels share a byte. -/
def ShareByte (a b : LabelData) : Prop :=
  ∃ byte, (labelRange a).Has byte ∧ (labelRange b).Has byte

def Mutates (l : LabelData) : Prop := l.type = .write ∨ l.type = .delete

/-- A read, a write or a delete. -/
def ReadsOrMutates (l : LabelData) : Prop := l.type = .read ∨ Mutates l

/-- What detection adds to the dependencies of `b` on `a`. -/
def Records (S : StdSort) (granularity : String) (labels : List LabelData) (a b : LabelData)
    (records : List LabelDependency) : Prop :=
  ∃ b' ∈ detectDependencies S granularity labels, b'.id = b.id ∧
    (b'.dependencies.drop b.dependencies.length).filter (fun d => d.labelId = a.id) = records

/-- Each range starts before the end that the code computes for the other one. -/
def EndsSeen (a b : LabelData) : Prop :=
  (labelRange a).offset.toNat <
      ((labelRange b).offset.toNat + (labelRange b).length.toNat) % 2 ^ 64 ∧
    (labelRange b).offset.toNat <
      ((labelRange a).offset.toNat + (labelRange a).length.toNat) % 2 ^ 64

/-! ## Ranges -/

theorem shareByte_iff : ShareByte a b ↔
    0 < (labelRange a).length.toNat ∧ 0 < (labelRange b).length.toNat ∧
      (labelRange a).offset.toNat <
        (labelRange b).offset.toNat + (labelRange b).length.toNat ∧
      (labelRange b).offset.toNat <
        (labelRange a).offset.toNat + (labelRange a).length.toNat := by
  unfold ShareByte OffsetRange.Has
  constructor
  · rintro ⟨byte, ha, hb⟩
    omega
  · rintro ⟨ha, hb, hab, hba⟩
    -- the later of the two starts is in both
    by_cases hle : (labelRange a).offset.toNat ≤ (labelRange b).offset.toNat
    · exact ⟨(labelRange b).offset, by omega, by omega⟩
    · exact ⟨(labelRange a).offset, by omega, by omega⟩

/-- The test of the code: no range is empty, and each starts before the computed
end of the other one. -/
theorem rangesOverlap_iff : rangesOverlap (labelRange a) (labelRange b) = true ↔
    ShareByte a b ∧ EndsSeen a b := by
  rw [shareByte_iff]
  unfold rangesOverlap EndsSeen
  have hzero : ∀ r : OffsetRange, (r.length == 0) = true ↔ r.length.toNat = 0 := fun r => by
    rw [beq_iff_eq, ← UInt64.toNat_inj]
    rfl
  have hlow := (labelRange a).offset.toNat_lt
  have hlow' := (labelRange b).offset.toNat_lt
  by_cases hempty : ((labelRange a).length == 0 || (labelRange b).length == 0) = true
  · rw [if_pos hempty]
    rw [Bool.or_eq_true, hzero, hzero] at hempty
    exact iff_of_false Bool.false_ne_true (by omega)
  · rw [if_neg hempty]
    rw [Bool.or_eq_true, hzero, hzero] at hempty
    rw [Bool.and_eq_true, decide_eq_true_iff, decide_eq_true_iff, UInt64.lt_iff_toNat_lt,
      UInt64.lt_iff_toNat_lt, UInt64.toNat_add, UInt64.toNat_add]
    omega

/-! ## The record of one pair -/

instance (l : LabelData) : Decidable (Mutates l) := inferInstanceAs (Decidable (_ ∨ _))

instance (a b : LabelData) : Decidable (ShareByte a b) := decidable_of_iff _ shareByte_iff.symm

/-- The dependencies that `b`, the later label, should get on `a`. -/
def expectedRecords (a b : LabelData) : List LabelDependency :=
  if ¬ShareByte a b then []
  else if Mutates a ∧ Mutates b then [⟨a.id, .waw⟩]
  else if Mutates a then [⟨a.id, .raw⟩]
  else if Mutates b then [⟨a.id, .war⟩]
  else []

/-- Of the entries of different ids, those of `a` come from `a`. -/
theorem filter_filterMap_unique {peers : List LabelData}
    {f : LabelData → Option LabelDependency}
    (hid : ∀ e d, f e = some d → d.labelId = e.id) (ha : a ∈ peers)
    (hother : ∀ e ∈ peers, e.id = a.id → e = a) (hnodup : peers.Nodup) :
    (peers.filterMap f).filter (fun d => d.labelId = a.id) = (f a).toList := by
  obtain ⟨front, back, rfl⟩ := List.append_of_mem ha
  -- the entries in front of `a` and behind it are of other labels
  have hnone : ∀ part : List LabelData, a ∉ part → (∀ e ∈ part, e ∈ front ++ a :: back) →
      (part.filterMap f).filter (fun d => d.labelId = a.id) = [] := by
    intro part hnot hsub
    rw [List.filter_eq_nil_iff]
    intro d hd hsame
    obtain ⟨e, he, hed⟩ := List.mem_filterMap.mp hd
    have heid : e.id = a.id := (hid e d hed).symm.trans (of_decide_eq_true hsame)
    exact hnot (hother e (hsub e he) heid ▸ he)
  obtain ⟨-, hback, hcross⟩ := List.nodup_append.mp hnodup
  have hfrontNot : a ∉ front := fun hmem => hcross a hmem a List.mem_cons_self rfl
  have hbackNot : a ∉ back := (List.nodup_cons.mp hback).1
  have hfront := hnone front hfrontNot fun e he => List.mem_append_left _ he
  have hrest := hnone back hbackNot fun e he =>
    List.mem_append_right _ (List.mem_cons_of_mem _ he)
  rw [List.filterMap_append, List.filter_append, hfront, List.nil_append]
  cases hfa : f a with
  | none => rw [List.filterMap_cons_none hfa, hrest, Option.toList_none]
  | some d =>
    have hda : d.labelId = a.id := hid a d hfa
    rw [List.filterMap_cons_some hfa, List.filter_cons_of_pos (by simpa using hda), hrest,
      Option.toList_some]

/-- Detection adds to `b` what the pair loop finds for the pair, once. -/
theorem records_iff (h : DistinctIds labels) (ha : a ∈ labels) (hb : b ∈ labels)
    (hgroup : groupKey a granularity = groupKey b granularity) (hlt : a.id < b.id)
    (records : List LabelDependency) :
    Records S granularity labels a b records ↔ (hazardDependency a b).toList = records := by
  have hpeer : a ∈ earlierPeers S granularity labels b :=
    mem_earlierPeers.mpr ⟨ha, hgroup, hlt⟩
  have hpeers : (earlierPeers S granularity labels b).Nodup := by
    refine List.Nodup.filter _ ((S.perm idKey _).nodup_iff.mpr ?_)
    exact h.nodup.filter _
  have hids : ∀ e d, hazardDependency e b = some d → d.labelId = e.id := by
    intro e d hd
    obtain ⟨hazard, -, rfl⟩ := Option.map_eq_some_iff.mp hd
    rfl
  have hrecords : (hazardsOf S granularity labels b).filter (fun d => d.labelId = a.id) =
      (hazardDependency a b).toList := by
    refine filter_filterMap_unique hids hpeer (fun e he heq => ?_) hpeers
    exact h.eq_of_id_eq (mem_earlierPeers.mp he).1 ha heq
  unfold Records
  rw [detectDependencies_eq h]
  constructor
  · rintro ⟨b', hb', hid, rfl⟩
    obtain ⟨l, hl, rfl⟩ := List.mem_map.mp hb'
    obtain rfl := h.eq_of_id_eq hl hb hid
    have hdrop : ((withHazards S granularity labels l).dependencies.drop
        l.dependencies.length) = hazardsOf S granularity labels l := List.drop_left
    rw [hdrop, hrecords]
  · intro heq
    refine ⟨_, List.mem_map_of_mem hb, rfl, ?_⟩
    have hdrop : ((withHazards S granularity labels b).dependencies.drop
        b.dependencies.length) = hazardsOf S granularity labels b := List.drop_left
    rw [hdrop, hrecords, heq]

/-- The code compares the types only where it sees an overlap. -/
theorem hazardDependency_eq_none (h : ¬(ShareByte a b ∧ EndsSeen a b)) :
    hazardDependency a b = none := by
  unfold hazardDependency hazardBetween
  rw [if_pos]
  · rfl
  · rw [Bool.not_eq_true', ← Bool.not_eq_true, rangesOverlap_iff]
    exact h

/-- The pair loop finds what it should if and only if no dependency is due, or both
ends are seen and neither a delete comes first nor a delete follows a write. -/
theorem hazardDependency_iff (ha : ReadsOrMutates a) (hb : ReadsOrMutates b) :
    (hazardDependency a b).toList = expectedRecords a b ↔
      ¬ShareByte a b ∨ (a.type = .read ∧ b.type = .read) ∨
        (EndsSeen a b ∧ a.type ≠ .delete ∧ ¬(a.type = .write ∧ b.type = .delete)) := by
  by_cases hshare : ShareByte a b
  · by_cases hends : EndsSeen a b
    · -- what is left is the comparison of the types
      have hoverlap := rangesOverlap_iff.mpr ⟨hshare, hends⟩
      unfold hazardDependency hazardBetween expectedRecords
      rw [hoverlap]
      rcases ha with ha | ha | ha <;> rcases hb with hb | hb | hb <;>
        simp [Mutates, ha, hb, hshare, hends]
    · -- the code sees no overlap, so it is right for two reads only
      unfold expectedRecords
      rw [hazardDependency_eq_none fun hboth => hends hboth.2]
      rcases ha with ha | ha | ha <;> rcases hb with hb | hb | hb <;>
        simp [Mutates, ha, hb, hshare, hends]
  · rw [hazardDependency_eq_none fun hboth => hshare hboth.1, expectedRecords, if_pos hshare]
    exact iff_of_true rfl (Or.inl hshare)

/-- For every two reads, writes or deletes of one group with ids in order, detection
records the due dependency, once, or none, if and only if no byte is shared, or both
read, or both computed ends lie behind the other start and neither a delete comes
first nor a delete follows a write. -/
theorem hazard_exact_iff (h : DistinctIds labels) (ha : a ∈ labels) (hb : b ∈ labels)
    (hgroup : groupKey a granularity = groupKey b granularity) (hlt : a.id < b.id)
    (hatype : ReadsOrMutates a) (hbtype : ReadsOrMutates b) :
    Records S granularity labels a b (expectedRecords a b) ↔
      ¬ShareByte a b ∨ (a.type = .read ∧ b.type = .read) ∨
        (EndsSeen a b ∧ a.type ≠ .delete ∧ ¬(a.type = .write ∧ b.type = .delete)) := by
  rw [records_iff h ha hb hgroup hlt, hazardDependency_iff hatype hbtype]

/-- Labels 1 and 2 of one file. -/
def firstWrite : LabelData :=
  { id := 1, type := .write, fileKey := "f", destination := filePath "f" 0 10 }

def thenRead : LabelData :=
  { id := 2, type := .read, fileKey := "f", source := filePath "f" 5 10 }

def thenDelete : LabelData :=
  { id := 2, type := .delete, fileKey := "f", destination := filePath "f" 5 10 }

/-- A write and a read behind it. -/
theorem hazard_exact_raw :
    Records StdSort.insertion "per-file" [firstWrite, thenRead] firstWrite thenRead
      [⟨1, .raw⟩] :=
  (hazard_exact_iff (S := StdSort.insertion) (by decide) (by decide) (by decide) (by decide)
    (by decide) (Or.inr (Or.inl rfl)) (Or.inl rfl)).mpr
      (Or.inr (Or.inr ⟨by unfold EndsSeen; decide, by decide, by decide⟩))

/-- A delete behind a write is recorded as WAR. -/
theorem hazard_delete_war :
    expectedRecords firstWrite thenDelete = [⟨1, .waw⟩] ∧
      Records StdSort.insertion "per-file" [firstWrite, thenDelete] firstWrite thenDelete
        [⟨1, .war⟩] ∧
      ¬Records StdSort.insertion "per-file" [firstWrite, thenDelete] firstWrite thenDelete
        [⟨1, .waw⟩] := by
  have hiff : ∀ records, Records StdSort.insertion "per-file" [firstWrite, thenDelete] firstWrite
      thenDelete records ↔ (hazardDependency firstWrite thenDelete).toList = records :=
    records_iff (by decide) (by decide) (by decide) (by decide) (by decide)
  rw [hiff, hiff]
  decide

end Labios
