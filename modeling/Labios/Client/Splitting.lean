import Labios.Client.Model
import Labios.Foundation.Tiling
import Labios.Shuffler.Model
import Labios.Storage.Warehouse

/-!
# Splitting a request into labels

`label_count` of `labios/label_manager.cpp` beside the chunk loop of `publish_write` and
`publish_read`. The chunks tile the request (`chunks_tiles`), none is longer than the limit
(`chunks_le`), and there are as many as the request divided by the limit, rounded up
(`length_chunks`). `label_count` computes that quotient with a sum that may wrap
(`labelCount_eq_iff`).
-/

namespace Labios

open Foundation

/-- `label_count`; the sum wraps at `2 ^ 64`, as in the code. -/
def labelCount (maxLabelSize dataSize : UInt64) : UInt64 :=
  if dataSize == 0 then 0 else (dataSize + maxLabelSize - 1) / maxLabelSize

/-- `label_count` divides by the limit unless there is nothing to split. -/
def DividesByZero (maxLabelSize dataSize : UInt64) : Prop := dataSize ≠ 0 ∧ maxLabelSize = 0

/-- A run of the loop `while (remaining > 0)` that ends, and the chunks it took. -/
inductive SplitLoop (maxLabelSize : UInt64) : UInt64 → UInt64 → List (UInt64 × UInt64) → Prop
  | done (pos : UInt64) : SplitLoop maxLabelSize pos 0 []
  | turn {pos remaining chunkSize : UInt64} {rest : List (UInt64 × UInt64)}
      (hrem : remaining ≠ 0)
      (hchunk : chunkSize = if maxLabelSize < remaining then maxLabelSize else remaining)
      (hrest : SplitLoop maxLabelSize (pos + chunkSize) (remaining - chunkSize) rest) :
      SplitLoop maxLabelSize pos remaining ((pos, chunkSize) :: rest)

/-- The chunk as positions. -/
def chunkRange (chunk : UInt64 × UInt64) : Nat × Nat := (chunk.1.toNat, chunk.2.toNat)

/-- `content_.stage` of one label. -/
def stageOne (warehouse : Warehouse) (p : Publication) : Warehouse :=
  match p.staged with
  | some data => warehouse.stage p.label.id data
  | none => warehouse

/-- The warehouse after all labels were published. -/
def stageAll (warehouse : Warehouse) (publications : List Publication) : Warehouse :=
  publications.foldl stageOne warehouse

/-! ## The chunk loop -/

variable {maxLabelSize : UInt64}

theorem chunkLoop_zero (maxLabelSize : UInt64) (fuel : Nat) (pos : UInt64) :
    chunkLoop maxLabelSize fuel pos 0 = [] := by
  cases fuel with
  | zero => rfl
  | succ fuel => rfl

theorem chunkLoop_tiles (hmax : 0 < maxLabelSize) {fuel : Nat} {pos remaining : UInt64}
    (hfuel : remaining.toNat ≤ fuel) (hbound : pos.toNat + remaining.toNat < 2 ^ 64) :
    Tiles pos.toNat ((chunkLoop maxLabelSize fuel pos remaining).map chunkRange)
      (pos.toNat + remaining.toNat) := by
  induction fuel generalizing pos remaining with
  | zero =>
      show pos.toNat = pos.toNat + remaining.toNat
      omega
  | succ fuel ih =>
      by_cases hrem : remaining = 0
      · subst hrem
        rw [chunkLoop_zero]
        exact (Nat.add_zero _).symm
      · obtain ⟨size, hsize, hpos, hloop⟩ := chunkLoop_succ hmax fuel pos hrem
        have hle : size.toNat ≤ remaining.toNat := hsize ▸ Nat.min_le_left _ _
        have hadd := toNat_add_of_bound (show pos.toNat + size.toNat < 2 ^ 64 by omega)
        have hsub := toNat_sub_of_bound hle
        have hrest : Tiles (pos + size).toNat _ _ :=
          ih (show (remaining - size).toNat ≤ fuel by omega) (by omega)
        rw [hadd, hsub, show pos.toNat + size.toNat + (remaining.toNat - size.toNat) =
          pos.toNat + remaining.toNat by omega] at hrest
        rw [hloop]
        exact ⟨rfl, hpos, hrest⟩

theorem chunkLoop_le (hmax : 0 < maxLabelSize) (fuel : Nat) (pos remaining : UInt64) :
    ∀ chunk ∈ chunkLoop maxLabelSize fuel pos remaining,
      chunk.2.toNat ≤ maxLabelSize.toNat := by
  induction fuel generalizing pos remaining with
  | zero => intro chunk hc; cases hc
  | succ fuel ih =>
      by_cases hrem : remaining = 0
      · subst hrem
        intro chunk hc
        cases hc
      · obtain ⟨size, hsize, -, hloop⟩ := chunkLoop_succ hmax fuel pos hrem
        intro chunk hc
        rw [hloop] at hc
        rcases List.mem_cons.mp hc with rfl | hc
        · exact hsize ▸ Nat.min_le_right _ _
        · exact ih _ _ chunk hc

/-- Taking one chunk off lowers the rounded-up quotient by one. -/
theorem ceilDiv_sub {m n : Nat} (hm : 0 < m) (hn : 0 < n) :
    (n + m - 1) / m = (n - min n m + m - 1) / m + 1 := by
  by_cases hlt : m < n
  · rw [Nat.min_eq_right (Nat.le_of_lt hlt),
      show n + m - 1 = n - m + m - 1 + m by omega, Nat.add_div_right _ hm]
  · rw [Nat.min_eq_left (Nat.le_of_not_lt hlt), Nat.sub_self, Nat.zero_add,
      Nat.div_eq_of_lt (show m - 1 < m by omega), show n + m - 1 = n - 1 + m by omega,
      Nat.add_div_right _ hm, Nat.div_eq_of_lt (show n - 1 < m by omega)]

theorem length_chunkLoop (hmax : 0 < maxLabelSize) {fuel : Nat} {pos remaining : UInt64}
    (hfuel : remaining.toNat ≤ fuel) :
    (chunkLoop maxLabelSize fuel pos remaining).length =
      (remaining.toNat + maxLabelSize.toNat - 1) / maxLabelSize.toNat := by
  have hmax' : 0 < maxLabelSize.toNat := UInt64.lt_iff_toNat_lt.mp hmax
  induction fuel generalizing pos remaining with
  | zero =>
      rw [Nat.le_zero.mp hfuel, Nat.zero_add, Nat.div_eq_of_lt (by omega)]
      rfl
  | succ fuel ih =>
      by_cases hrem : remaining = 0
      · subst hrem
        rw [chunkLoop_zero, UInt64.toNat_zero, Nat.zero_add, Nat.div_eq_of_lt (by omega)]
        rfl
      · obtain ⟨size, hsize, hpos, hloop⟩ := chunkLoop_succ hmax fuel pos hrem
        have hle : size.toNat ≤ remaining.toNat := hsize ▸ Nat.min_le_left _ _
        have hsub := toNat_sub_of_bound hle
        rw [hloop, List.length_cons, ih (by omega), hsub, hsize,
          ← ceilDiv_sub hmax' (by omega)]

/-! ## Runs of the loop -/

/-- With a positive limit the loop ends, with the chunks of the model. -/
theorem splitLoop_chunkLoop (hmax : 0 < maxLabelSize) {fuel : Nat} {pos remaining : UInt64}
    (hfuel : remaining.toNat ≤ fuel) :
    SplitLoop maxLabelSize pos remaining (chunkLoop maxLabelSize fuel pos remaining) := by
  induction fuel generalizing pos remaining with
  | zero =>
      obtain rfl : remaining = 0 := UInt64.toNat_inj.mp (Nat.le_zero.mp hfuel)
      exact .done pos
  | succ fuel ih =>
      by_cases hrem : remaining = 0
      · subst hrem
        rw [chunkLoop_zero]
        exact .done pos
      · have hsize : (if maxLabelSize < remaining then maxLabelSize else remaining).toNat =
            min remaining.toNat maxLabelSize.toNat := by
          split
          next hlt =>
              exact (Nat.min_eq_right (Nat.le_of_lt (UInt64.lt_iff_toNat_lt.mp hlt))).symm
          next hge =>
              exact (Nat.min_eq_left (UInt64.le_iff_toNat_le.mp (UInt64.not_lt.mp hge))).symm
        have hmax' : 0 < maxLabelSize.toNat := UInt64.lt_iff_toNat_lt.mp hmax
        have hrem' : remaining.toNat ≠ 0 := fun he => hrem (UInt64.toNat_inj.mp he)
        have hsub := toNat_sub_of_bound (hsize.trans_le (Nat.min_le_left _ _))
        rw [chunkLoop, if_neg (by simpa using hrem)]
        exact .turn hrem rfl (ih (by omega))

/-- With the limit 0 every turn takes nothing, and the loop does not end. -/
theorem not_splitLoop_zero {pos remaining : UInt64} {chunks : List (UInt64 × UInt64)}
    (hrem : remaining ≠ 0) : ¬SplitLoop 0 pos remaining chunks := by
  intro h
  induction h with
  | done pos => exact hrem rfl
  | @turn pos remaining chunkSize rest hne hchunk _ ih =>
      have hzero : chunkSize = 0 := by
        rw [hchunk, if_pos (UInt64.pos_iff_ne_zero.mpr hne)]
      exact ih (by rwa [hzero, UInt64.sub_zero])

/-! ## The chunks of a request -/

theorem chunks_tiles (hmax : 0 < maxLabelSize) (size : UInt64) :
    Tiles 0 ((chunks maxLabelSize size).map chunkRange) size.toNat := by
  have hbound : (0 : UInt64).toNat + size.toNat < 2 ^ 64 := by
    rw [UInt64.toNat_zero, Nat.zero_add]
    exact size.toNat_lt
  have h := chunkLoop_tiles hmax (Nat.le_refl size.toNat) hbound
  rwa [UInt64.toNat_zero, Nat.zero_add] at h

theorem chunks_le (hmax : 0 < maxLabelSize) (size : UInt64) :
    ∀ chunk ∈ chunks maxLabelSize size, chunk.2.toNat ≤ maxLabelSize.toNat :=
  chunkLoop_le hmax _ _ _

theorem length_chunks (hmax : 0 < maxLabelSize) (size : UInt64) :
    (chunks maxLabelSize size).length =
      (size.toNat + maxLabelSize.toNat - 1) / maxLabelSize.toNat :=
  length_chunkLoop hmax (Nat.le_refl _)

/-! ## The separate count -/

theorem toNat_labelCount_of_bound (hmax : 0 < maxLabelSize) {size : UInt64}
    (hbound : size.toNat + maxLabelSize.toNat - 1 < 2 ^ 64) (hsize : size ≠ 0) :
    (labelCount maxLabelSize size).toNat =
      (size.toNat + maxLabelSize.toNat - 1) / maxLabelSize.toNat := by
  have hmax' : 0 < maxLabelSize.toNat := UInt64.lt_iff_toNat_lt.mp hmax
  have hsize' : size.toNat ≠ 0 := fun he => hsize (UInt64.toNat_inj.mp he)
  have hlt := size.toNat_lt
  rw [labelCount, if_neg (by simpa using hsize), UInt64.toNat_div, UInt64.toNat_sub,
    UInt64.toNat_add]
  show (2 ^ 64 - 1 + (size.toNat + maxLabelSize.toNat) % 2 ^ 64) % 2 ^ 64 / _ = _
  congr 1
  omega

/-- A sum that wraps is below the limit, so the quotient is zero. -/
theorem labelCount_of_wrap (hmax : 0 < maxLabelSize) {size : UInt64}
    (hwrap : 2 ^ 64 ≤ size.toNat + maxLabelSize.toNat - 1) :
    (labelCount maxLabelSize size).toNat = 0 := by
  have hmax' : 0 < maxLabelSize.toNat := UInt64.lt_iff_toNat_lt.mp hmax
  have hlt := size.toNat_lt
  have hlt' := maxLabelSize.toNat_lt
  have hsize : size ≠ 0 := by
    rintro rfl
    rw [UInt64.toNat_zero] at hwrap
    omega
  rw [labelCount, if_neg (by simpa using hsize), UInt64.toNat_div, UInt64.toNat_sub,
    UInt64.toNat_add]
  refine Nat.div_eq_of_lt ?_
  show (2 ^ 64 - 1 + (size.toNat + maxLabelSize.toNat) % 2 ^ 64) % 2 ^ 64 < _
  omega

/-- `label_count` is the number of chunks unless its sum wraps. -/
theorem labelCount_eq_iff (hmax : 0 < maxLabelSize) (size : UInt64) :
    (chunks maxLabelSize size).length = (labelCount maxLabelSize size).toNat ↔
      size.toNat = 0 ∨ size.toNat + maxLabelSize.toNat - 1 < 2 ^ 64 := by
  have hmax' : 0 < maxLabelSize.toNat := UInt64.lt_iff_toNat_lt.mp hmax
  rw [length_chunks hmax]
  by_cases hsize : size = 0
  · subst hsize
    rw [UInt64.toNat_zero, Nat.zero_add, Nat.div_eq_of_lt (by omega)]
    exact ⟨fun _ => .inl rfl, fun _ => rfl⟩
  · have hsize' : size.toNat ≠ 0 := fun he => hsize (UInt64.toNat_inj.mp he)
    by_cases hbound : size.toNat + maxLabelSize.toNat - 1 < 2 ^ 64
    · rw [toNat_labelCount_of_bound hmax hbound hsize]
      exact ⟨fun _ => .inr hbound, fun _ => rfl⟩
    · rw [labelCount_of_wrap hmax (Nat.le_of_not_lt hbound)]
      have hpos : 0 < (size.toNat + maxLabelSize.toNat - 1) / maxLabelSize.toNat :=
        Nat.div_pos (by omega) hmax'
      constructor
      · intro he
        omega
      · rintro (he | hlt)
        · exact absurd he hsize'
        · exact absurd hlt hbound

/-! ## What is staged -/

theorem retrieve_stageOne_of_ne (warehouse : Warehouse) (p : Publication) {id : UInt64}
    (h : id ≠ p.label.id) : (stageOne warehouse p).retrieve id = warehouse.retrieve id := by
  unfold stageOne
  cases p.staged with
  | none => rfl
  | some data => exact warehouse.retrieve_stage_of_ne p.label.id data h

theorem retrieve_stageAll_of_notMem {publications : List Publication} (warehouse : Warehouse)
    {id : UInt64} (h : id ∉ publications.map (·.label.id)) :
    (stageAll warehouse publications).retrieve id = warehouse.retrieve id := by
  induction publications generalizing warehouse with
  | nil => rfl
  | cons p rest ih =>
      rw [List.map_cons, List.mem_cons, not_or] at h
      show (stageAll (stageOne warehouse p) rest).retrieve id = _
      rw [ih _ h.2, retrieve_stageOne_of_ne warehouse p h.1]

/-- With distinct ids every label finds what was staged for it. -/
theorem retrieve_stageAll {publications : List Publication} (warehouse : Warehouse)
    (hids : (publications.map (·.label.id)).Nodup) {p : Publication} (hp : p ∈ publications)
    {data : List UInt8} (hdata : p.staged = some data) :
    (stageAll warehouse publications).retrieve p.label.id = data := by
  induction publications generalizing warehouse with
  | nil => cases hp
  | cons q rest ih =>
      rw [List.map_cons, List.nodup_cons] at hids
      show (stageAll (stageOne warehouse q) rest).retrieve p.label.id = data
      rcases List.mem_cons.mp hp with rfl | hp
      · rw [retrieve_stageAll_of_notMem _ hids.1, stageOne, hdata]
        exact warehouse.retrieve_stage p.label.id data
      · exact ih _ hids.2 hp

end Labios
