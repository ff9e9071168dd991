import Labios.Foundation.ByteStore
import Labios.Shuffler.Dependencies

/-!
# Executing reads and writes over byte arrays

The meaning a batch of reads and writes has by itself: one byte array per path,
a write overlays its payload, a read returns the bytes of its range. `execute`
is one label, a fold of `execute` a whole run.

`PlainIO` is the shape `publish_write` and `publish_read` give a label. Two plain
labels commute unless they name one file and conflict (`execute_comm`): the
detector's overlap test is exactly the interference of the byte arrays.
-/

namespace Labios

open Foundation

/-- The arrays, and what each read has returned. -/
@[ext] structure RunState where
  store : Store String UInt8
  returned : UInt64 → Option (List UInt8)

/-- One label; `payload` is the data a write carries. -/
def execute (payload : LabelData → List UInt8) (s : RunState) (l : LabelData) : RunState :=
  match l.type, l.destination, l.source with
  | .write, .filePath dst, _ =>
      { s with store := overlay s.store dst.path dst.offset.toNat (payload l) }
  | .read, _, .filePath src =>
      { s with
        returned := Function.update s.returned l.id
          (some (slice s.store src.path src.offset.toNat l.dataSize.toNat)) }
  | _, _, _ => s

/-- The pointer that says where a label reads or writes. -/
def address (l : LabelData) : Pointer :=
  match l.type with
  | .write => l.destination
  | _ => l.source

/-- A read or write of a non-empty range of the file its file key names. -/
structure PlainIO (l : LabelData) : Prop where
  kind : l.type = .read ∨ l.type = .write
  address : address l = filePath l.fileKey (labelRange l).offset l.dataSize
  nonempty : 0 < l.dataSize
  bounded : (labelRange l).offset.toNat + l.dataSize.toNat < 2 ^ 64

/-- The first byte of a label's range. -/
def start (l : LabelData) : Nat := (labelRange l).offset.toNat

/-- The byte after a label's range. -/
def finish (l : LabelData) : Nat := start l + l.dataSize.toNat

/-- The label's range holds byte `p` of file `k`. -/
def Covers (l : LabelData) (k : String) (p : Nat) : Prop :=
  l.fileKey = k ∧ start l ≤ p ∧ p < finish l

instance (l : LabelData) (k : String) (p : Nat) : Decidable (Covers l k p) :=
  inferInstanceAs (Decidable (_ ∧ _))

namespace PlainIO

variable {l a b : LabelData}

theorem start_lt_finish (h : PlainIO l) : start l < finish l := by
  have := UInt64.lt_iff_toNat_lt.mp h.nonempty
  simp only [finish, UInt64.toNat_zero] at this ⊢
  omega

theorem range_eq (h : PlainIO l) : labelRange l = ⟨(labelRange l).offset, l.dataSize⟩ := by
  have haddr := h.address
  unfold labelRange Labios.address at *
  rcases h.kind with hk | hk
  · rw [hk] at haddr ⊢
    dsimp only at haddr ⊢
    rw [haddr]
    rfl
  · rw [hk] at haddr ⊢
    dsimp only at haddr ⊢
    rw [haddr]
    rfl

theorem source_eq (h : PlainIO l) (hr : l.type = .read) :
    l.source = filePath l.fileKey (labelRange l).offset l.dataSize := by
  have haddr := h.address
  rwa [Labios.address, hr] at haddr

theorem destination_eq (h : PlainIO l) (hw : l.type = .write) :
    l.destination = filePath l.fileKey (labelRange l).offset l.dataSize := by
  have haddr := h.address
  rwa [Labios.address, hw] at haddr

/-- No sum of the overlap test wraps, so it compares the ranges. -/
theorem overlap_iff (ha : PlainIO a) (hb : PlainIO b) :
    rangesOverlap (labelRange a) (labelRange b) = true ↔
      start a < finish b ∧ start b < finish a := by
  have hpa := UInt64.lt_iff_toNat_lt.mp ha.nonempty
  have hpb := UInt64.lt_iff_toNat_lt.mp hb.nonempty
  have hza : ¬a.dataSize = 0 := fun he => by simp [he] at hpa
  have hzb : ¬b.dataSize = 0 := fun he => by simp [he] at hpb
  have hba := ha.bounded
  have hbb := hb.bounded
  rw [ha.range_eq, hb.range_eq]
  unfold rangesOverlap start finish start
  simp only [beq_iff_eq, hza, hzb, Bool.or_eq_true, or_self, if_false, Bool.and_eq_true,
    decide_eq_true_eq, UInt64.lt_iff_toNat_lt, UInt64.toNat_add]
  rw [Nat.mod_eq_of_lt hba, Nat.mod_eq_of_lt hbb]

end PlainIO

/-! ## One step -/

variable {payload : LabelData → List UInt8} {s : RunState} {l a b : LabelData}

theorem execute_write (h : PlainIO l) (hw : l.type = .write) :
    execute payload s l = { s with store := overlay s.store l.fileKey (start l) (payload l) } := by
  unfold execute
  rw [hw, h.destination_eq hw]
  rfl

theorem execute_read (h : PlainIO l) (hr : l.type = .read) :
    execute payload s l =
      { s with
        returned := Function.update s.returned l.id
          (some (slice s.store l.fileKey (start l) l.dataSize.toNat)) } := by
  unfold execute
  rw [hr, h.source_eq hr]
  rfl

/-- Each write carries as many bytes as it says. -/
def PayloadFits (payload : LabelData → List UInt8) (batch : List LabelData) : Prop :=
  ∀ l ∈ batch, l.type = .write → (payload l).length = l.dataSize.toNat

/-- Plain labels that do not conflict within one file touch apart cells. -/
theorem apart_of_not_conflict (ha : PlainIO a) (hb : PlainIO b)
    (hnr : ¬(a.type = .read ∧ b.type = .read))
    (hfree : a.fileKey = b.fileKey → ¬Conflict a b) (hk : a.fileKey = b.fileKey) :
    finish a ≤ start b ∨ finish b ≤ start a := by
  have hno : ¬(start a < finish b ∧ start b < finish a) := by
    rw [← ha.overlap_iff hb]
    exact fun ho => hfree hk ⟨ho, hnr⟩
  omega

/-- Plain labels with distinct ids that do not conflict within one file commute. -/
theorem execute_comm (ha : PlainIO a) (hb : PlainIO b) (hid : a.id ≠ b.id)
    (hla : a.type = .write → (payload a).length = a.dataSize.toNat)
    (hlb : b.type = .write → (payload b).length = b.dataSize.toNat)
    (hfree : a.fileKey = b.fileKey → ¬Conflict a b) :
    execute payload (execute payload s a) b = execute payload (execute payload s b) a := by
  rcases ha.kind with hra | hwa
  · rcases hb.kind with hrb | hwb
    · -- two reads: two entries of the reply map
      rw [execute_read ha hra, execute_read hb hrb, execute_read hb hrb, execute_read ha hra]
      ext1
      · rfl
      · exact Function.update_comm hid _ _ _
    · -- the read does not see the write
      have hapart := apart_of_not_conflict ha hb (by simp [hwb]) hfree
      rw [execute_read ha hra, execute_write hb hwb, execute_write hb hwb, execute_read ha hra]
      ext1
      · rfl
      · dsimp only
        rw [slice_overlay]
        intro hk
        rw [hlb hwb]
        exact hapart hk
  · rcases hb.kind with hrb | hwb
    · have hapart := apart_of_not_conflict ha hb (by simp [hwa]) hfree
      rw [execute_write ha hwa, execute_read hb hrb, execute_read hb hrb, execute_write ha hwa]
      ext1
      · rfl
      · dsimp only
        rw [slice_overlay]
        intro hk
        rw [hla hwa]
        exact (hapart hk.symm).symm
    · have hapart := apart_of_not_conflict ha hb (by simp [hwa]) hfree
      rw [execute_write ha hwa, execute_write hb hwb, execute_write hb hwb, execute_write ha hwa]
      ext1
      · apply overlay_comm
        intro hk
        rw [hla hwa, hlb hwb]
        exact hapart hk
      · rfl

end Labios
