import Labios.Shuffler.Clusters
import Labios.Storage.Execution

/-!
# The range of a merged write

The writes of a run lie one after the other, so the merged write covers exactly
what they cover (`covers_represent`), and the concatenation of their data has
each byte at its place (`getElem?_flatMap_run`).
-/

namespace Labios

open Foundation

variable {S : StdSort} {config : ShufflerConfig} {batch : List LabelData}


theorem start_write {w : LabelData} (hw : w.type = .write) :
    start w = (destOffset w).toNat := by
  unfold start labelRange
  rw [hw]
  rfl

theorem start_of_abuts {w v : LabelData} (hw : PlainIO w) (hww : w.type = .write)
    (hvw : v.type = .write) (hab : abuts w v = true) : start v = finish w := by
  have hb := hw.bounded
  have hoff : destOffset v = destOffset w + w.dataSize := beq_iff_eq.mp hab
  have hstart : start w = (labelRange w).offset.toNat := rfl
  rw [finish, start_write hvw, hoff, UInt64.toNat_add, ← start_write hww,
    Nat.mod_eq_of_lt (by omega)]

/-- In a run each write starts where the one before it ends. -/
theorem run_chain (hplain : ∀ l ∈ batch, PlainIO l) {c : List LabelData} (hc : IsRun S batch c) :
    c.IsChain fun a b => start b = finish a := by
  refine List.IsChain.imp_of_mem_imp ?_ hc.chain
  intro a b ha hb hab
  exact start_of_abuts (hplain a (hc.mem a ha)) (hc.write a ha) (hc.write b hb) hab

/-- The writes of a run, in order, lie one after the other. -/
theorem run_apart (hplain : ∀ l ∈ batch, PlainIO l) {c : List LabelData} (hc : IsRun S batch c) :
    c.Pairwise fun a b => finish a ≤ start b := by
  have : IsTrans LabelData fun a b => finish a ≤ start b :=
    ⟨fun a b d hab hbd => Nat.le_trans hab (Nat.le_trans (Nat.le_add_right _ _) hbd)⟩
  exact ((run_chain hplain hc).imp fun a b h => Nat.le_of_eq h.symm).pairwise

/-! ## Extent -/

/-- The sizes of a run add up to where its last write ends. -/
theorem run_extent (rest : List LabelData) (w : LabelData) (hplain : ∀ l ∈ w :: rest, PlainIO l)
    (hchain : (w :: rest).IsChain fun a b => start b = finish a) (base : Nat) (acc : UInt64)
    (hacc : base + acc.toNat = start w) :
    base + ((w :: rest).foldl (fun total v => total + v.dataSize) acc).toNat < 2 ^ 64 ∧
      ∀ p, start w ≤ p ∧
          p < base + ((w :: rest).foldl (fun total v => total + v.dataSize) acc).toNat ↔
        ∃ v ∈ w :: rest, start v ≤ p ∧ p < finish v := by
  have hw := hplain w List.mem_cons_self
  have hbound : start w + w.dataSize.toNat < 2 ^ 64 := hw.bounded
  have hstep : base + (acc + w.dataSize).toNat = finish w := by
    rw [UInt64.toNat_add, Nat.mod_eq_of_lt (by omega), finish]
    omega
  induction rest generalizing w acc with
  | nil =>
      rw [List.foldl_cons, List.foldl_nil, hstep]
      refine ⟨hbound, fun p => ?_⟩
      simp
  | cons v rest ih =>
      rw [List.isChain_cons_cons] at hchain
      have hv : v ∈ w :: v :: rest := List.mem_cons_of_mem _ List.mem_cons_self
      have hvp := hplain v hv
      have hvb : start v + v.dataSize.toNat < 2 ^ 64 := hvp.bounded
      have hnext : base + (acc + w.dataSize).toNat = start v := hstep.trans hchain.1.symm
      have hvstep : base + (acc + w.dataSize + v.dataSize).toNat = finish v := by
        rw [UInt64.toNat_add, Nat.mod_eq_of_lt (by omega), finish]
        omega
      obtain ⟨hlt, hcover⟩ := ih v (fun l hl => hplain l (List.mem_cons_of_mem _ hl)) hchain.2
        (acc + w.dataSize) hnext hvp hvb hvstep
      rw [List.foldl_cons]
      refine ⟨hlt, fun p => ?_⟩
      have hmid := hw.start_lt_finish
      have hfirst := hcover (start v)
      have hin : start v < base +
          ((v :: rest).foldl (fun total v => total + v.dataSize) (acc + w.dataSize)).toNat :=
        (hfirst.mpr ⟨v, List.mem_cons_self, Nat.le_refl _, hvp.start_lt_finish⟩).2
      have hat := hcover p
      rw [List.exists_mem_cons_iff, ← hat]
      omega

/-- The representative of a cluster is a plain label. -/
theorem represent_plain (hplain : ∀ l ∈ batch, PlainIO l) {c : List LabelData}
    (hc : c ∈ clusters S config batch) :
    PlainIO (represent c) ∧ start (represent c) = start (clusterHead c) ∧
      ∀ p, start (represent c) ≤ p ∧ p < finish (represent c) ↔
        ∃ w ∈ c, start w ≤ p ∧ p < finish w := by
  rcases Nat.lt_or_ge c.length 2 with hlt | hge
  · obtain ⟨l, rfl⟩ := List.length_eq_one_iff.mp (Nat.le_antisymm (Nat.le_of_lt_succ hlt)
      (List.length_pos_iff.mpr (cluster_ne_nil hc)))
    refine ⟨hplain l (mem_of_mem_cluster hc List.mem_cons_self), rfl, fun p => ?_⟩
    simp
  · have hrun := isRun_of_two_le hc hge
    obtain ⟨w, rest, rfl⟩ := List.exists_cons_of_ne_nil (cluster_ne_nil hc)
    have hw := hplain w (hrun.mem w List.mem_cons_self)
    have hww := hrun.write w List.mem_cons_self
    have hstart : start (represent (w :: rest)) = start w := by
      rw [represent_of_two_le hge, start_write hww]
      rfl
    obtain ⟨hlt, hcover⟩ := run_extent rest w (fun l hl => hplain l (hrun.mem l hl))
      (run_chain hplain hrun) (start w) 0 rfl
    have hsize : (represent (w :: rest)).dataSize = totalSize (w :: rest) := by
      rw [represent_of_two_le hge]
      rfl
    have hfinish : finish (represent (w :: rest)) =
        start w + (totalSize (w :: rest)).toNat := by
      rw [finish, hstart, hsize]
    have hcovers : ∀ p, start (represent (w :: rest)) ≤ p ∧ p < finish (represent (w :: rest)) ↔
        ∃ v ∈ w :: rest, start v ≤ p ∧ p < finish v := by
      intro p
      rw [hstart, hfinish]
      exact hcover p
    refine ⟨⟨.inr (represent_type _ hrun.write), ?_, ?_, ?_⟩, hstart, hcovers⟩
    · have hpath : (w.destination.path?).getD "" = w.fileKey := by
        rw [hw.destination_eq hww]
        rfl
      rw [represent_of_two_le hge]
      show filePath ((w.destination.path?).getD "") _ _ = _
      rw [hpath]
      rfl
    · have hin := (hcovers (start w)).mpr ⟨w, List.mem_cons_self, Nat.le_refl _, hw.start_lt_finish⟩
      rw [hstart, finish, hstart] at hin
      rw [UInt64.lt_iff_toNat_lt, UInt64.toNat_zero]
      omega
    · show start (represent (w :: rest)) + _ < _
      rw [hstart, hsize]
      exact hlt

/-- A merged write covers what its members cover. -/
theorem covers_represent (hplain : ∀ l ∈ batch, PlainIO l) {c : List LabelData}
    (hc : c ∈ clusters S config batch) (p : Nat) :
    start (represent c) ≤ p ∧ p < finish (represent c) ↔ ∃ w ∈ c, start w ≤ p ∧ p < finish w :=
  (represent_plain hplain hc).2.2 p

/-! ## Data -/

/-- In the concatenation of a run's data, each member's bytes are at their place. -/
theorem getElem?_flatMap_run (data : LabelData → List UInt8) (rest : List LabelData)
    (w : LabelData) (hplain : ∀ l ∈ w :: rest, PlainIO l)
    (hlen : ∀ l ∈ w :: rest, (data l).length = l.dataSize.toNat)
    (hchain : (w :: rest).IsChain fun a b => start b = finish a) {v : LabelData}
    (hv : v ∈ w :: rest) {p : Nat} (hlo : start v ≤ p) (hhi : p < finish v) :
    start w ≤ p ∧ ((w :: rest).flatMap data)[p - start w]? = (data v)[p - start v]? := by
  induction rest generalizing w with
  | nil =>
      obtain rfl := List.mem_singleton.mp hv
      refine ⟨hlo, ?_⟩
      rw [List.flatMap_cons, List.flatMap_nil, List.append_nil]
  | cons u rest ih =>
      rw [List.isChain_cons_cons] at hchain
      have hw : (data w).length = w.dataSize.toNat := hlen w List.mem_cons_self
      have hend : finish w = start w + w.dataSize.toNat := rfl
      rcases List.mem_cons.mp hv with rfl | hv
      · refine ⟨hlo, ?_⟩
        rw [List.flatMap_cons, List.getElem?_append_left (by omega)]
      · obtain ⟨hu, hget⟩ := ih u (fun l hl => hplain l (List.mem_cons_of_mem _ hl))
          (fun l hl => hlen l (List.mem_cons_of_mem _ hl)) hchain.2 hv
        have hstep := hchain.1
        refine ⟨by omega, ?_⟩
        rw [List.flatMap_cons, List.getElem?_append_right (by omega), ← hget]
        congr 1
        omega

/-- The concatenation of a run's data is as long as the sizes add up to. -/
theorem length_flatMap_run (data : LabelData → List UInt8) (rest : List LabelData) (w : LabelData)
    (hplain : ∀ l ∈ w :: rest, PlainIO l)
    (hlen : ∀ l ∈ w :: rest, (data l).length = l.dataSize.toNat)
    (hchain : (w :: rest).IsChain fun a b => start b = finish a) (base : Nat) (acc : UInt64)
    (hacc : base + acc.toNat = start w) :
    ((w :: rest).foldl (fun total v => total + v.dataSize) acc).toNat =
      acc.toNat + ((w :: rest).flatMap data).length := by
  have hw := (hplain w List.mem_cons_self).bounded
  have hstart : start w = (labelRange w).offset.toNat := rfl
  have hadd : (acc + w.dataSize).toNat = acc.toNat + w.dataSize.toNat := by
    rw [UInt64.toNat_add, Nat.mod_eq_of_lt (by omega)]
  have hsize := hlen w List.mem_cons_self
  induction rest generalizing w acc with
  | nil =>
      rw [List.foldl_cons, List.foldl_nil, hadd, List.flatMap_cons, List.flatMap_nil,
        List.append_nil, hsize]
  | cons u rest ih =>
      rw [List.isChain_cons_cons] at hchain
      have hu := (hplain u (List.mem_cons_of_mem _ List.mem_cons_self)).bounded
      have hustart : start u = (labelRange u).offset.toNat := rfl
      have hnext : base + (acc + w.dataSize).toNat = start u := by
        rw [hadd, hchain.1, finish]
        omega
      have hrest := ih u (fun l hl => hplain l (List.mem_cons_of_mem _ hl))
        (fun l hl => hlen l (List.mem_cons_of_mem _ hl)) hchain.2 (acc + w.dataSize) hnext hu
        hustart (by rw [UInt64.toNat_add, Nat.mod_eq_of_lt (by omega)])
        (hlen u (List.mem_cons_of_mem _ List.mem_cons_self))
      rw [List.foldl_cons, hrest, hadd, List.flatMap_cons (x := w), List.length_append, hsize]
      omega

end Labios
