import Labios.Adapter.Tracked
import Labios.Foundation.Machine

/-!
# File offsets that stay valid

`off_t` is signed, the stored offset is not, and the code checks nothing but the sign of the
sum in `lseek`. That sum overflows for a target from `2 ^ 63` on; a read or write moves the
descriptor there, and `pwrite` and `pread` take a negative offset
(`offsets_leave_range`). As long as every call stays below `2 ^ 63`, and all but `lseek` at or
above 0, nothing overflows, the offset and every range of a label or a cached region is in
`[0, 2 ^ 63)`, and `lseek` refuses a negative target (`offsets_stay_valid`).
-/

namespace Labios

open Foundation

/-! ## Calls on one descriptor -/

inductive OffsetCall where
  | lseek (offset : Int64) (whence : Int)
  | read (count : UInt64)
  | write (data : List UInt8)
  | pread (count : UInt64) (offset : Int64)
  | pwrite (data : List UInt8) (offset : Int64)
  deriving DecidableEq, Repr

namespace TrackedAdapter

/-- A call; a signed overflow has no result. -/
def offsetCall (session : Session) (outcomes : Outcomes) (fd : Int) (s : TrackedAdapter) :
    OffsetCall → Option (PosixReply × TrackedAdapter)
  | .lseek offset whence => s.lseek fd offset whence
  | .read count => some (s.read session outcomes fd count)
  | .write data => some (s.write session outcomes fd data)
  | .pread count offset => some (s.pread session outcomes fd count offset)
  | .pwrite data offset => some (s.pwrite session outcomes fd data offset)

def offsetStep (session : Session) (outcomes : Outcomes) (fd : Int) (s : TrackedAdapter)
    (c : OffsetCall) : Option TrackedAdapter :=
  (s.offsetCall session outcomes fd c).map (·.2)

/-- The stored offset. -/
def offsetOf (s : TrackedAdapter) (fd : Int) : Nat := (s.fds.get fd).elim 0 (·.offset.toNat)

/-- The size that `SEEK_END` counts from. -/
def sizeOf (s : TrackedAdapter) (fd : Int) : Int :=
  (s.fds.get fd).elim 0 fun state => (s.fileSize state.filepath).toInt

/-- The position that a call goes to, or where its range starts and ends. -/
def positions (fd : Int) (s : TrackedAdapter) : OffsetCall → List Int
  | .lseek offset whence =>
      if whence = 0 then [offset.toInt]
      else if whence = 1 then [s.offsetOf fd + offset.toInt]
      else if whence = 2 then [s.sizeOf fd + offset.toInt]
      else []
  | .read count => [(s.offsetOf fd : Int), s.offsetOf fd + count.toNat]
  | .write data => [(s.offsetOf fd : Int), s.offsetOf fd + data.length]
  | .pread count offset => [offset.toInt, offset.toInt + count.toNat]
  | .pwrite data offset => [offset.toInt, offset.toInt + data.length]

end TrackedAdapter

/-- The call is an `lseek`. -/
def OffsetCall.seeks : OffsetCall → Bool
  | .lseek _ _ => true
  | _ => false

/-! ## What is in range -/

/-- The ranges of a file that a label reads or writes. -/
def LabelData.InRange (l : LabelData) : Prop :=
  ∀ p : FilePath, l.source = .filePath p ∨ l.destination = .filePath p →
    p.offset.toNat + p.length.toNat < 2 ^ 63

namespace TrackedAdapter

/-- The stored offset, the size in the catalog, and the ranges of all cached regions and all
labels are in `[0, 2 ^ 63)`. -/
structure InRange (s : TrackedAdapter) (path : String) (fd : Int) : Prop where
  oneFile : s.OneFile path fd
  offset : s.offsetOf fd < 2 ^ 63
  size : (s.metadata path).bytes < 2 ^ 63
  staged : ∀ r ∈ s.content.staged fd, r.1 + r.2.length < 2 ^ 63
  labels : ∀ l ∈ s.labels, l.InRange

/-- A call whose position is out of range fails, and leaves the offset. -/
def Refuses (fd : Int) (s : TrackedAdapter) (c : OffsetCall) (reply : PosixReply)
    (s' : TrackedAdapter) : Prop :=
  (∃ p ∈ s.positions fd c, p < 0 ∨ 2 ^ 63 ≤ p) →
    reply.value = -1 ∧ s'.offsetOf fd = s.offsetOf fd

/-- A call that does not overflow, refuses what is out of range, and keeps the rest in range. -/
def Sound (session : Session) (outcomes : Outcomes) (path : String) (fd : Int)
    (s : TrackedAdapter) (c : OffsetCall) : Prop :=
  ∃ reply s', s.offsetCall session outcomes fd c = some (reply, s') ∧ s.Refuses fd c reply s' ∧
    s'.InRange path fd

/-- No position reaches `2 ^ 63`, and only `lseek` goes below 0. -/
def Fits (fd : Int) (s : TrackedAdapter) (c : OffsetCall) : Prop :=
  ∀ p ∈ s.positions fd c, p < 2 ^ 63 ∧ (c.seeks = true ∨ 0 ≤ p)

instance Fits.decidable (fd : Int) (s : TrackedAdapter) (c : OffsetCall) :
    Decidable (Fits fd s c) :=
  inferInstanceAs (Decidable (∀ p ∈ s.positions fd c, _))

end TrackedAdapter

/-! ## Labels -/

theorem chunkLoop_within (maxLabelSize : UInt64) (fuel : Nat) (pos remaining : UInt64)
    (hbound : pos.toNat + remaining.toNat < 2 ^ 64) :
    ∀ chunk ∈ chunkLoop maxLabelSize fuel pos remaining,
      chunk.1.toNat + chunk.2.toNat ≤ pos.toNat + remaining.toNat := by
  induction fuel generalizing pos remaining with
  | zero => intro chunk hc; cases hc
  | succ fuel ih =>
      intro chunk hc
      rw [chunkLoop] at hc
      dsimp only at hc
      have hle : (if maxLabelSize < remaining then maxLabelSize else remaining).toNat ≤
          remaining.toNat := by
        split
        next hlt => exact Nat.le_of_lt (UInt64.lt_iff_toNat_lt.mp hlt)
        next => exact Nat.le_refl _
      generalize (if maxLabelSize < remaining then maxLabelSize else remaining) = size at hc hle
      split at hc
      · cases hc
      · have hadd := toNat_add_of_bound (show pos.toNat + size.toNat < 2 ^ 64 by omega)
        have hsub := toNat_sub_of_bound hle
        rcases List.mem_cons.mp hc with rfl | hc
        · exact Nat.add_le_add_left hle _
        · have hrest := ih (pos + size) (remaining - size) (by omega) chunk hc
          omega

/-- The chunks of a range in range are in range. -/
theorem chunk_inRange {maxLabelSize offset size : UInt64}
    (hrange : offset.toNat + size.toNat < 2 ^ 63) {chunk : UInt64 × UInt64}
    (hc : chunk ∈ chunks maxLabelSize size) :
    (offset + chunk.1).toNat + chunk.2.toNat < 2 ^ 63 := by
  have hzero : (0 : UInt64).toNat = 0 := rfl
  have hwithin := chunkLoop_within maxLabelSize size.toNat 0 size (by omega) chunk hc
  rw [toNat_add_of_bound (by omega)]
  omega

theorem publishWrite_inRange (session : Session) (ids : Nat → UInt64) (filepath : String)
    {offset : UInt64} {data : List UInt8} (hrange : offset.toNat + data.length < 2 ^ 63) :
    ∀ q ∈ publishWrite session.maxLabelSize session.appId ids session.now session.buffer
      filepath offset data, q.label.InRange := by
  intro q hq
  obtain ⟨i, hi, rfl⟩ := List.mem_mapIdx.mp hq
  have hsize : (UInt64.ofNat data.length).toNat = data.length := by
    rw [UInt64.toNat_ofNat', Nat.mod_eq_of_lt (by omega)]
  intro p hp
  rcases hp with hsource | hdest
  · cases hsource
  · obtain rfl := Pointer.filePath.inj hdest
    exact chunk_inRange (by omega) (List.getElem_mem hi)

theorem publishRead_inRange (session : Session) (ids : Nat → UInt64) (filepath : String)
    {offset size : UInt64} (hrange : offset.toNat + size.toNat < 2 ^ 63) :
    ∀ q ∈ publishRead session.maxLabelSize session.appId ids session.now filepath offset size,
      q.label.InRange := by
  intro q hq
  obtain ⟨i, hi, rfl⟩ := List.mem_mapIdx.mp hq
  intro p hp
  rcases hp with hsource | hdest
  · obtain rfl := Pointer.filePath.inj hsource
    exact chunk_inRange hrange (List.getElem_mem hi)
  · cases hdest

namespace TrackedAdapter

/-! ## One call -/

variable {session : Session} {outcomes : Outcomes} {s : TrackedAdapter} {path : String}
  {fd : Int} {state : FileState}

theorem offsetOf_of_get (hget : s.fds.get fd = some state) :
    s.offsetOf fd = state.offset.toNat := by
  unfold offsetOf
  rw [hget]
  rfl

theorem offsetOf_moveTo (h : s.OneFile path fd) (offset : UInt64) :
    (s.moveTo true fd offset).offsetOf fd = offset.toNat := by
  obtain ⟨state, hget, -⟩ := h.get
  unfold offsetOf moveTo
  rw [if_pos rfl]
  dsimp only
  rw [FdTable.get_setOffset_self, hget]
  rfl

theorem InRange.moveTo (h : s.InRange path fd) (updateOffset : Bool) {offset : UInt64}
    (hoffset : offset.toNat < 2 ^ 63) : (s.moveTo updateOffset fd offset).InRange path fd := by
  cases updateOffset with
  | false => exact h
  | true =>
      exact
        { oneFile := h.oneFile.moveTo true offset
          offset := by rw [offsetOf_moveTo h.oneFile]; exact hoffset
          size := h.size
          staged := h.staged
          labels := h.labels }

/-- Publishing regions in range keeps all in range, also when a publish fails. -/
theorem InRange.publishRegions (h : s.InRange path fd) (session : Session) (outcomes : Outcomes)
    {regions : List FlushRegion}
    (hregions : ∀ r ∈ regions, r.filepath = path ∧ r.offset.toNat + r.data.length < 2 ^ 63) :
    (publishRegions session outcomes s regions).2.InRange path fd := by
  induction regions generalizing s with
  | nil => exact h
  | cons r rest ih =>
      obtain ⟨hpath, hrange⟩ := hregions r List.mem_cons_self
      have hlabels : ∀ l ∈ (s.publishWrite session outcomes r).2.labels, l.InRange := by
        intro l hl
        rcases List.mem_append.mp hl with hl | hl
        · exact h.labels l hl
        · obtain ⟨q, hq, rfl⟩ := List.mem_map.mp hl
          exact publishWrite_inRange session _ r.filepath hrange q hq
      have hpublished : (s.publishWrite session outcomes r).2.InRange path fd :=
        { oneFile := ⟨h.oneFile.file, h.oneFile.opened, h.oneFile.cached⟩
          offset := h.offset
          size := h.size
          staged := h.staged
          labels := hlabels }
      rw [TrackedAdapter.publishRegions]
      dsimp only
      split
      · refine ih ?_ fun r' hr' => hregions r' (List.mem_cons_of_mem r hr')
        have hstop : r.stop < 2 ^ 63 := by
          have hlength : (UInt64.ofNat r.data.length).toNat = r.data.length := by
            rw [UInt64.toNat_ofNat', Nat.mod_eq_of_lt (by omega)]
          unfold FlushRegion.stop
          rw [toNat_add_of_bound (by omega)]
          omega
        have hsize := h.size
        have htracked := (bytes_trackWrite_le_iff (s.metadata path) r (2 ^ 63 - 1)).mpr
          ⟨by omega, by omega⟩
        refine { hpublished with oneFile := ?_, size := ?_ }
        · exact ⟨h.oneFile.file, h.oneFile.opened, h.oneFile.cached⟩
        · show (Function.update s.metadata r.filepath _ path).bytes < 2 ^ 63
          rw [hpath, Function.update_self]
          show ((s.metadata path).trackWrite r.offset (UInt64.ofNat r.data.length)).bytes < 2 ^ 63
          omega
      · exact hpublished

/-- A write in range leaves regions in range, in the cache and to publish. -/
theorem InRange.store (h : s.InRange path fd) (hstate : state.filepath = path)
    (session : Session) {data : List UInt8} {offset : UInt64}
    (hrange : offset.toNat + data.length < 2 ^ 63) :
    (s.store session state fd data offset).2.InRange path fd ∧
      ∀ r ∈ (s.store session state fd data offset).1,
        r.filepath = path ∧ r.offset.toNat + r.data.length < 2 ^ 63 := by
  have hafter : ∀ r ∈ s.content.afterWrite fd offset data, r.1 + r.2.length < 2 ^ 63 := by
    intro r hr
    rcases ContentManager.mem_afterWrite.mp hr with rfl | ⟨hr, -⟩
    · exact hrange
    · exact h.staged r hr
  have hcontent : ∀ cm : ContentManager, cm.Holds path →
      (∀ r ∈ cm.staged fd, r.1 + r.2.length < 2 ^ 63) →
      InRange { s with content := cm } path fd := by
    intro cm hholds hstaged
    exact
      { oneFile := ⟨h.oneFile.file, h.oneFile.opened, hholds⟩
        offset := h.offset
        size := h.size
        staged := hstaged
        labels := h.labels }
  unfold TrackedAdapter.store
  rw [hstate]
  by_cases hsmall : UInt64.ofNat data.length < session.labelMinSize
  · rw [if_pos hsmall]
    rcases ContentManager.cacheWrite_cases h.oneFile.cached fd offset data with
      ⟨cm, hwrite, hholds, hstaged⟩ | ⟨cm, hwrite, hholds, hstaged⟩
    · rw [hwrite]
      refine ⟨hcontent cm hholds ?_, fun r hr => absurd hr List.not_mem_nil⟩
      rw [hstaged, Function.update_self]
      exact hafter
    · rw [hwrite]
      refine ⟨hcontent cm hholds ?_, fun r hr => ?_⟩
      · rw [hstaged, Function.update_self]
        exact fun r hr => absurd hr List.not_mem_nil
      · obtain ⟨region, hregion, rfl⟩ := List.mem_map.mp hr
        have hbound := hafter region hregion
        refine ⟨rfl, ?_⟩
        show (UInt64.ofNat region.1).toNat + region.2.length < 2 ^ 63
        rw [UInt64.toNat_ofNat', Nat.mod_eq_of_lt (by omega)]
        exact hbound
  · rw [if_neg hsmall]
    refine ⟨h, fun r hr => ?_⟩
    rw [List.mem_singleton.mp hr]
    exact ⟨rfl, hrange⟩

theorem InRange.flushAndPublish (h : s.InRange path fd) (session : Session)
    (outcomes : Outcomes) : (s.flushAndPublish session outcomes fd).2.InRange path fd := by
  obtain ⟨cm, hflush, hholds, hstaged⟩ := ContentManager.flush_eq h.oneFile.cached fd
  have hflushed : InRange { s with content := cm } path fd :=
    { oneFile := ⟨h.oneFile.file, h.oneFile.opened, hholds⟩
      offset := h.offset
      size := h.size
      staged := by
        show ∀ r ∈ cm.staged fd, _
        rw [hstaged, Function.update_self]
        exact fun r hr => absurd hr List.not_mem_nil
      labels := h.labels }
  unfold TrackedAdapter.flushAndPublish
  rw [hflush]
  refine hflushed.publishRegions session outcomes fun r hr => ?_
  obtain ⟨region, hregion, rfl⟩ := List.mem_map.mp hr
  have hbound := h.staged region hregion
  refine ⟨rfl, ?_⟩
  show (UInt64.ofNat region.1).toNat + region.2.length < 2 ^ 63
  rw [UInt64.toNat_ofNat', Nat.mod_eq_of_lt (by omega)]
  exact hbound

theorem InRange.doWrite (h : s.InRange path fd) (hstate : state.filepath = path)
    (session : Session) (outcomes : Outcomes) {data : List UInt8} {off : Int64}
    (hlow : 0 ≤ off.toInt) (hhigh : off.toInt + data.length < 2 ^ 63) (updateOffset : Bool) :
    (s.doWrite session outcomes state fd data off updateOffset).2.InRange path fd := by
  have hoff := toNat_toUInt64 hlow
  unfold TrackedAdapter.doWrite
  split
  · exact h
  · obtain ⟨hstored, hregions⟩ := h.store hstate session
      (show off.toUInt64.toNat + data.length < 2 ^ 63 by omega)
    have hpublished := hstored.publishRegions session outcomes hregions
    dsimp only
    split
    · refine hpublished.moveTo updateOffset ?_
      have hlength : (UInt64.ofNat data.length).toNat = data.length := by
        rw [UInt64.toNat_ofNat', Nat.mod_eq_of_lt (by omega)]
      rw [toNat_add_of_bound (by omega)]
      omega
    · exact hpublished

/-- A read brings no more bytes than were asked for. -/
theorem InRange.load (h : s.InRange path fd) (state : FileState) (session : Session)
    (outcomes : Outcomes) {count offset : UInt64} (hrange : offset.toNat + count.toNat < 2 ^ 63) :
    (s.load session outcomes state fd count offset).2.InRange path fd ∧
      ∀ data ∈ (s.load session outcomes state fd count offset).1, data.length ≤ count.toNat := by
  have hflushed := h.flushAndPublish session outcomes
  unfold TrackedAdapter.load
  split
  next data hcached =>
    have hlength := (Option.filter_eq_some_iff.mp hcached).2
    refine ⟨h, fun data' hdata => ?_⟩
    obtain rfl := Option.some.inj hdata
    exact Nat.le_of_eq (by simpa using hlength)
  next =>
    dsimp only
    split
    · refine ⟨?_, fun data hdata => ?_⟩
      · have hlabels : ∀ l ∈ ((s.flushAndPublish session outcomes fd).2.publishRead session
            outcomes state.filepath offset count).2.labels, l.InRange := by
          intro l hl
          rcases List.mem_append.mp hl with hl | hl
          · exact hflushed.labels l hl
          · obtain ⟨q, hq, rfl⟩ := List.mem_map.mp hl
            exact publishRead_inRange session _ state.filepath hrange q hq
        exact
          { oneFile := ⟨hflushed.oneFile.file, hflushed.oneFile.opened, hflushed.oneFile.cached⟩
            offset := hflushed.offset
            size := hflushed.size
            staged := hflushed.staged
            labels := hlabels }
      · obtain ⟨bytes, -, rfl⟩ := Option.map_eq_some_iff.mp hdata
        rw [List.length_take]
        exact Nat.min_le_left _ _
    · exact ⟨hflushed, fun data hdata => by cases hdata⟩

theorem InRange.doRead (h : s.InRange path fd) (state : FileState) (session : Session)
    (outcomes : Outcomes) {count : UInt64} {off : Int64}
    (hlow : 0 ≤ off.toInt) (hhigh : off.toInt + count.toNat < 2 ^ 63) (updateOffset : Bool) :
    (s.doRead session outcomes state fd count off updateOffset).2.InRange path fd := by
  have hoff := toNat_toUInt64 hlow
  obtain ⟨hloaded, hbytes⟩ := h.load state session outcomes
    (show off.toUInt64.toNat + count.toNat < 2 ^ 63 by omega)
  unfold TrackedAdapter.doRead
  split
  · exact h
  · generalize s.load session outcomes state fd count off.toUInt64 = loaded at hloaded hbytes
    obtain ⟨found, s'⟩ := loaded
    cases found with
    | none => exact hloaded
    | some data =>
        have hlength := hbytes data rfl
        refine hloaded.moveTo updateOffset ?_
        have hdata : (UInt64.ofNat data.length).toNat = data.length := by
          rw [UInt64.toNat_ofNat', Nat.mod_eq_of_lt (by omega)]
        rw [toNat_add_of_bound (by omega)]
        omega

/-- A position below `2 ^ 63` is gone to, or refused if it is negative. -/
theorem seekTo_spec (h : s.InRange path fd) (newPos : Int64) :
    (s.seekTo fd newPos).2.InRange path fd ∧
      (newPos.toInt < 0 → (s.seekTo fd newPos).1.value = -1 ∧
        (s.seekTo fd newPos).2.offsetOf fd = s.offsetOf fd) := by
  unfold seekTo
  by_cases hneg : newPos.toInt < 0
  · rw [if_pos hneg]
    exact ⟨h, fun _ => ⟨rfl, rfl⟩⟩
  · rw [if_neg hneg]
    exact ⟨h.moveTo true (toNat_toUInt64_lt (by omega)), fun hlt => absurd hlt hneg⟩

/-- A sum that `lseek` goes to; it starts from a number that is not negative. -/
theorem seekBy_sound (h : s.InRange path fd) {base : Int64} (offset : Int64)
    (hbase : 0 ≤ base.toInt) (hfits : base.toInt + offset.toInt < 2 ^ 63) :
    ∃ reply s', (checkedAdd base offset).map (s.seekTo fd) = some (reply, s') ∧
      s'.InRange path fd ∧
      (base.toInt + offset.toInt < 0 → reply.value = -1 ∧ s'.offsetOf fd = s.offsetOf fd) := by
  have hlow := offset.le_toInt
  obtain ⟨hkept, hrefused⟩ := seekTo_spec h (base + offset)
  have hsum := toInt_add_of_fits (a := base) (b := offset) (by omega) hfits
  rw [hsum] at hrefused
  exact ⟨_, _, by rw [checkedAdd_of_fits (by omega) hfits]; rfl, hkept, hrefused⟩

theorem lseek_sound (h : s.InRange path fd) (session : Session) (outcomes : Outcomes)
    (offset : Int64) (whence : Int) (hfits : Fits fd s (.lseek offset whence)) :
    Sound session outcomes path fd s (.lseek offset whence) := by
  obtain ⟨state, hget, hstate⟩ := h.oneFile.get
  have hoffset := h.offset
  have hposition := offsetOf_of_get hget
  have hcurrent : state.offset.toInt64.toInt = s.offsetOf fd := by
    rw [hposition]
    exact toInt_toInt64 (by omega)
  have hsize : s.sizeOf fd = (s.fileSize state.filepath).toInt := by
    unfold sizeOf
    rw [hget]
    rfl
  -- the size is below `2 ^ 63`, so that it is not negative
  have hfile : 0 ≤ (s.fileSize state.filepath).toInt := by
    unfold fileSize
    rw [toInt64_nonneg_iff, hstate]
    unfold FileMeta.getFileInfo
    cases (s.metadata path).isThere with
    | none => exact Nat.two_pow_pos 63
    | some isThere => exact h.size
  unfold Fits positions at hfits
  unfold Sound Refuses offsetCall lseek positions
  rw [hget]
  dsimp only
  by_cases hset : whence = 0
  · simp only [if_pos hset, List.mem_singleton, forall_eq, exists_eq_left] at hfits ⊢
    obtain ⟨hkept, hrefused⟩ := seekTo_spec h offset
    exact ⟨_, _, rfl, fun hout => hrefused (by omega), hkept⟩
  · simp only [if_neg hset] at hfits ⊢
    by_cases hcur : whence = 1
    · simp only [if_pos hcur, List.mem_singleton, forall_eq, exists_eq_left] at hfits ⊢
      obtain ⟨reply, s', hcall, hkept, hrefused⟩ := seekBy_sound h offset
        (show 0 ≤ state.offset.toInt64.toInt by omega) (by omega)
      exact ⟨reply, s', hcall, fun hout => hrefused (by omega), hkept⟩
    · simp only [if_neg hcur] at hfits ⊢
      by_cases hend : whence = 2
      · simp only [if_pos hend, List.mem_singleton, forall_eq, exists_eq_left] at hfits ⊢
        obtain ⟨reply, s', hcall, hkept, hrefused⟩ := seekBy_sound h offset hfile
          (by omega)
        exact ⟨reply, s', hcall, fun hout => hrefused (by omega), hkept⟩
      · simp only [if_neg hend] at hfits ⊢
        exact ⟨_, _, rfl, fun ⟨p, hp, _⟩ => absurd hp List.not_mem_nil, h⟩

/-- A call that meets the condition is sound. -/
theorem sound_of_fits (h : s.InRange path fd) (session : Session) (outcomes : Outcomes)
    {c : OffsetCall} (hfits : Fits fd s c) : Sound session outcomes path fd s c := by
  obtain ⟨state, hget, hstate⟩ := h.oneFile.get
  have hoffset := h.offset
  have hposition := offsetOf_of_get hget
  have hcurrent : state.offset.toInt64.toInt = s.offsetOf fd := by
    rw [hposition]
    exact toInt_toInt64 (by omega)
  -- nothing but `lseek` is refused
  have hwithin : c.seeks = false → ∀ reply s', s.Refuses fd c reply s' := by
    rintro hseeks reply s' ⟨p, hp, hout⟩
    obtain ⟨hhigh, hlow⟩ := hfits p hp
    rw [hseeks] at hlow
    rcases hlow with hlow | hlow
    · cases hlow
    · omega
  cases c with
  | lseek offset whence => exact lseek_sound h session outcomes offset whence hfits
  | read count =>
      have hrange := hfits _ (List.mem_cons_of_mem _ (List.mem_singleton.mpr rfl))
      refine ⟨_, _, rfl, hwithin rfl _ _, ?_⟩
      rw [hget]
      exact h.doRead state session outcomes (by omega) (by omega) true
  | write data =>
      have hrange := hfits _ (List.mem_cons_of_mem _ (List.mem_singleton.mpr rfl))
      refine ⟨_, _, rfl, hwithin rfl _ _, ?_⟩
      rw [hget]
      exact h.doWrite hstate session outcomes (by omega) (by omega) true
  | pread count offset =>
      have hstart := hfits _ List.mem_cons_self
      have hrange := hfits _ (List.mem_cons_of_mem _ (List.mem_singleton.mpr rfl))
      refine ⟨_, _, rfl, hwithin rfl _ _, ?_⟩
      rw [hget]
      exact h.doRead state session outcomes (by simpa [OffsetCall.seeks] using hstart.2)
        hrange.1 false
  | pwrite data offset =>
      have hstart := hfits _ List.mem_cons_self
      have hrange := hfits _ (List.mem_cons_of_mem _ (List.mem_singleton.mpr rfl))
      refine ⟨_, _, rfl, hwithin rfl _ _, ?_⟩
      rw [hget]
      exact h.doWrite hstate session outcomes (by simpa [OffsetCall.seeks] using hstart.2)
        hrange.1 false

/-! ## Every run -/

theorem inRange_openFile (session : Session) (metadata : String → FileMeta) (path : String)
    (flags : UInt32) (hfd : 0 ≤ fd)
    (hsize : ((metadata path).trackOpen flags).bytes < 2 ^ 63) :
    ((fresh session metadata).openFile path flags fd).2.InRange path fd := by
  have hfile := oneFile_openFile session metadata path flags hfd
  rw [openFile_fresh session metadata path flags hfd] at hfile ⊢
  refine ⟨hfile, ?_, ?_, ?_, fun l hl => absurd hl List.not_mem_nil⟩
  · unfold offsetOf FdTable.get
    show (((FdTable.allocate {} path flags fd).2.table.lookup fd).map _).elim 0 _ < _
    unfold FdTable.allocate
    rw [if_neg (by omega)]
    dsimp only [track]
    rw [AList.lookup_insert, Option.map_some, Option.elim_some, Function.update_self]
    exact Nat.two_pow_pos 63
  · unfold track
    dsimp only
    rw [Function.update_self]
    exact hsize
  · intro r hr
    cases hr

/-- In a run whose calls meet the condition, every call has a result and keeps all in range. -/
theorem exec_inRange (h : s.InRange path fd) {calls : List OffsetCall}
    (halong : Along (offsetStep session outcomes fd) (Fits fd) s calls) :
    ∃ t, exec (offsetStep session outcomes fd) s calls = some t ∧ t.InRange path fd := by
  induction calls generalizing s with
  | nil => exact ⟨s, rfl, h⟩
  | cons c rest ih =>
      obtain ⟨hfits, hrest⟩ := halong
      obtain ⟨reply, s', hcall, -, hkept⟩ := sound_of_fits h session outcomes hfits
      have hstep : offsetStep session outcomes fd s c = some s' := by
        unfold offsetStep
        rw [hcall]
        rfl
      obtain ⟨t, ht, hend⟩ := ih hkept (hrest s' hstep)
      exact ⟨t, by rw [exec, hstep]; exact ht, hend⟩

/-- **Offsets stay valid.** For every file with a size below `2 ^ 63`, every sequence of calls on
a descriptor of it and whatever becomes of the requests: if every call meets the condition in
the state it finds, then every call is sound, the run ends, and all is in range. -/
theorem offsets_stay_valid (session : Session) (outcomes : Outcomes)
    (metadata : String → FileMeta) (path : String) (flags : UInt32) (fd : Int) (hfd : 0 ≤ fd)
    (hsize : ((metadata path).trackOpen flags).bytes < 2 ^ 63) (calls : List OffsetCall)
    (halong : Along (offsetStep session outcomes fd) (Fits fd)
      ((fresh session metadata).openFile path flags fd).2 calls) :
    Along (offsetStep session outcomes fd) (Sound session outcomes path fd)
        ((fresh session metadata).openFile path flags fd).2 calls ∧
      ∃ t, exec (offsetStep session outcomes fd)
          ((fresh session metadata).openFile path flags fd).2 calls = some t ∧
        t.InRange path fd := by
  have hopened := inRange_openFile session metadata path flags hfd hsize
  refine ⟨?_, exec_inRange hopened halong⟩
  refine Along.of_invariant (I := fun s => s.InRange path fd) (fun {s c s'} h hfits hstep => ?_)
    (fun h hfits => sound_of_fits h session outcomes hfits) hopened halong
  obtain ⟨reply, t, hcall, -, hkept⟩ := sound_of_fits h session outcomes hfits
  unfold offsetStep at hstep
  rw [hcall] at hstep
  obtain rfl := Option.some.inj hstep
  exact hkept

/-- Writes and reads that follow one another, a seek past the end, one back to a negative
position, which is refused, and a write that fails. -/
theorem offsets_stay_valid_seeking :
    let s := ((fresh fourByteSession fun _ => {}).openFile "/f" oCreat 3).2
    let outcomes : Outcomes := { written := fun n => n = 0, read := fun _ => some [1] }
    let calls : List OffsetCall := [.write [1, 2, 3, 4], .pwrite [5] 2, .lseek 100 2,
      .lseek (-200) 1, .read 8, .write [6, 7, 8, 9]]
    Along (offsetStep fourByteSession outcomes 3) (Sound fourByteSession outcomes "/f" 3) s calls ∧
      ∃ t, exec (offsetStep fourByteSession outcomes 3) s calls = some t ∧ t.InRange "/f" 3 :=
  offsets_stay_valid fourByteSession { written := fun n => n = 0, read := fun _ => some [1] }
    (fun _ => {}) "/f" oCreat 3 (by decide) (by decide) _ (by decide +kernel)

/-- At the greatest offset a seek by one overflows, and a write of one byte moves the descriptor
to `2 ^ 63`; a write at -1 is published at `2 ^ 64 - 1`. -/
theorem offsets_leave_range :
    let s := ((fresh fourByteSession fun _ => {}).openFile "/f" oCreat 3).2
    let step := offsetStep fourByteSession .succeeding 3
    (exec step s [.lseek 9223372036854775807 0, .lseek 1 1]).isNone = true ∧
      (exec step s [.lseek 9223372036854775807 0, .write [1]]).map (·.offsetOf 3) =
        some (2 ^ 63) ∧
      (s.offsetCall fourByteSession .succeeding 3 (.pwrite [1, 2, 3, 4] (-1))).map
        (fun r => (r.1.value, r.2.writes.map (·.offset.toNat))) = some (4, [2 ^ 64 - 1]) ∧
      ¬Along step (Sound fourByteSession .succeeding "/f" 3) s
        [.lseek 9223372036854775807 0, .lseek 1 1] := by
  refine ⟨by decide +kernel, by decide +kernel, by decide +kernel, fun halong => ?_⟩
  obtain ⟨-, hnext⟩ := halong
  obtain ⟨⟨reply, s', hcall, -⟩, -⟩ := hnext _ rfl
  have hsome := (congrArg Option.isSome hcall).trans Option.isSome_some
  exact absurd hsome (by decide +kernel)

end TrackedAdapter
end Labios
