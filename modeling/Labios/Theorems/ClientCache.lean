import Labios.Client.CacheCalls
import Labios.Foundation.Machine
import Mathlib.Algebra.BigOperators.Group.List.Basic

/-!
# The cache of a client

Reads that the cache answers, and what is left of the writes when it is flushed.
-/

/-!
## What a read of the cache answers

`cache_read` starts at the last region that begins at or before the request, copies what
it finds in the order of the offsets, and answers when the lengths that it copied add up
to the request. A region further in front is overlooked, bytes that two regions share are
counted twice, and where regions overlap the one that begins last is believed.
-/

namespace Labios

open ContentManager

/-! ## Counting bytes -/

/-- How many regions cover the bytes of a range, byte by byte. -/
def coverings (regions : List Region) (offset count : Nat) : Nat :=
  ((List.range' offset count).map fun p => regions.countP fun r => r.Covers p).sum

theorem sum_covers (r : Region) (offset count : Nat) :
    ((List.range' offset count).map fun p => if r.Covers p then 1 else 0).sum =
      overlapLength offset (offset + count) r := by
  induction count with
  | zero =>
      unfold overlapLength
      simp
  | succ count ih =>
      rw [List.range'_1_concat, List.map_append, List.sum_append, ih]
      simp only [List.map_cons, List.map_nil, List.sum_cons, List.sum_nil]
      by_cases hc : r.Covers (offset + count)
      · obtain ⟨hlo, hhi⟩ := hc
        rw [if_pos ⟨hlo, hhi⟩]
        unfold overlapLength
        omega
      · rw [if_neg hc]
        unfold Region.Covers at hc
        unfold overlapLength
        omega

/-- Byte by byte or region by region, the sum is the same. -/
theorem coverings_eq (regions : List Region) (offset count : Nat) :
    coverings regions offset count =
      (regions.map (overlapLength offset (offset + count))).sum := by
  unfold coverings
  induction regions with
  | nil => simp
  | cons r rest ih =>
      simp only [List.countP_cons, decide_eq_true_eq]
      rw [List.sum_map_add, ih, sum_covers, List.map_cons, List.sum_cons, Nat.add_comm]

/-- Where every byte is covered there are as many coverings as bytes. -/
theorem le_coverings {regions : List Region} {offset count : Nat}
    (h : ∀ p, offset ≤ p → p < offset + count → ∃ r ∈ regions, r.Covers p) :
    count ≤ coverings regions offset count := by
  unfold coverings
  induction count with
  | zero => exact Nat.zero_le _
  | succ count ih =>
      rw [List.range'_1_concat, List.map_append, List.sum_append]
      have hfront := ih fun p hlo hhi => h p hlo (by omega)
      obtain ⟨r, hr, hc⟩ := h (offset + count) (by omega) (by omega)
      have hlast : 0 < regions.countP fun r => r.Covers (offset + count) :=
        List.countP_pos_iff.mpr ⟨r, hr, by simpa using hc⟩
      simp only [List.map_cons, List.map_nil, List.sum_cons, List.sum_nil]
      omega

namespace CacheRun

/-- An answer has the bytes that were written last since the last flush, and a request for
bytes that are all stored is answered. -/
def ExactRead (s : CacheRun) (fd : Int) (offset size : UInt64) : Prop :=
  (∀ data, s.manager.cacheRead fd offset size = some data →
    data.length = size.toNat ∧
      ∀ i < size.toNat, data[i]? = lastAt s.recent (offset.toNat + i)) ∧
  ((∀ p, offset.toNat ≤ p → p < offset.toNat + size.toNat →
      ∃ r ∈ s.stored fd, r.Covers p) →
    (s.manager.cacheRead fd offset size).isSome = true)

/-- The regions from the predecessor of the offset on have all bytes of the range, and the
one that begins last over a byte has what was written there last. -/
def Newest (s : CacheRun) (fd : Int) (offset count : Nat) : Prop :=
  ∀ p, offset ≤ p → p < offset + count →
    (lastAt (s.manager.lookedAt fd offset) p).isSome = true ∧
      lastAt (s.manager.lookedAt fd offset) p = lastAt s.recent p

/-- Bytes that are covered twice do not make up for those that are not covered, and a byte
of the range is in no region at all. -/
def Short (s : CacheRun) (fd : Int) (offset count : Nat) : Prop :=
  coverings (s.manager.lookedAt fd offset) offset count < count ∧
    ∃ p, offset ≤ p ∧ p < offset + count ∧ ∀ r ∈ s.stored fd, ¬r.Covers p

/-- Bytes that are covered twice make up for some that are not covered, and these were all
written as zeros, which is what they are read as. -/
def ZerosMissed (s : CacheRun) (fd : Int) (offset count : Nat) : Prop :=
  count ≤ coverings (s.manager.lookedAt fd offset) offset count ∧
    ∀ p, offset ≤ p → p < offset + count →
      lastAt s.recent p = some ((lastAt (s.manager.lookedAt fd offset) p).getD 0)

variable {s : CacheRun} {fd : Int} {offset size : UInt64}

theorem answers_iff (h : s.ReadThrough fd) {o n : Nat} (hpos : 0 < n) :
    s.manager.Answers fd o n ↔ n ≤ coverings (s.manager.lookedAt fd o) o n := by
  rw [coverings_eq]
  unfold Answers
  -- a descriptor without a cache has no coverings
  refine and_iff_right_of_imp fun hle => ?_
  cases hl : s.manager.caches.lookup fd with
  | none =>
      unfold lookedAt at hle
      rw [hl] at hle
      simp only [List.map_nil, List.sum_nil] at hle
      omega
  | some cache => simpa using h.2 cache hl

/-- The answer, byte by byte. -/
theorem read_cases (h : s.ReadThrough fd)
    (hsized : ∀ r ∈ s.stored fd, r.1 + r.2.length < 2 ^ 64) (hpos : 0 < size.toNat)
    (hbound : offset.toNat + size.toNat < 2 ^ 64) :
    (size.toNat ≤ coverings (s.manager.lookedAt fd offset.toNat) offset.toNat size.toNat ∧
      ∃ data, s.manager.cacheRead fd offset size = some data ∧ data.length = size.toNat ∧
        ∀ i < size.toNat, data[i]? =
          some ((lastAt (s.manager.lookedAt fd offset.toNat) (offset.toNat + i)).getD 0)) ∨
    (coverings (s.manager.lookedAt fd offset.toNat) offset.toNat size.toNat < size.toNat ∧
      s.manager.cacheRead fd offset size = none) := by
  rw [cacheRead_eq hsized hpos hbound]
  by_cases hans : s.manager.Answers fd offset.toNat size.toNat
  · refine Or.inl ⟨(answers_iff h hpos).mp hans, _, if_pos hans, ?_, fun i hi => ?_⟩
    · rw [List.length_map, List.length_range']
    · rw [List.getElem?_map, List.getElem?_range' hi, Nat.one_mul]
      rfl
  · have hless := mt (answers_iff h hpos).mpr hans
    exact Or.inr ⟨by omega, if_neg hans⟩

theorem exactRead_iff (h : s.ReadThrough fd)
    (hsized : ∀ r ∈ s.stored fd, r.1 + r.2.length < 2 ^ 64) (hpos : 0 < size.toNat)
    (hbound : offset.toNat + size.toNat < 2 ^ 64) :
    s.ExactRead fd offset size ↔
      s.Newest fd offset.toNat size.toNat ∨ s.Short fd offset.toNat size.toNat ∨
        s.ZerosMissed fd offset.toNat size.toNat := by
  unfold ExactRead
  rcases read_cases h hsized hpos hbound with ⟨hmany, data, hread, hlength, hbytes⟩ | ⟨hfew, hread⟩
  · -- answered
    rw [hread]
    constructor
    · rintro ⟨hexact, -⟩
      -- whatever is answered is the byte of a region, or zero
      refine Or.inr (Or.inr ⟨hmany, fun p hlo hhi => ?_⟩)
      have hbyte := (hexact data rfl).2 (p - offset.toNat) (by omega)
      rw [hbytes _ (by omega), show offset.toNat + (p - offset.toNat) = p by omega] at hbyte
      exact hbyte.symm
    · rintro (hnewest | ⟨hfew, -⟩ | ⟨-, hzeros⟩)
      · refine ⟨fun data' hdata => ?_, fun _ => rfl⟩
        obtain rfl := Option.some.inj hdata
        refine ⟨hlength, fun i hi => ?_⟩
        obtain ⟨hsome, hsame⟩ := hnewest (offset.toNat + i) (by omega) (by omega)
        obtain ⟨b, hb⟩ := Option.isSome_iff_exists.mp hsome
        rw [hbytes i hi, ← hsame, hb]
        rfl
      · omega
      · refine ⟨fun data' hdata => ?_, fun _ => rfl⟩
        obtain rfl := Option.some.inj hdata
        refine ⟨hlength, fun i hi => ?_⟩
        rw [hbytes i hi, hzeros (offset.toNat + i) (by omega) (by omega)]
  · -- not answered
    rw [hread]
    constructor
    · rintro ⟨-, hanswered⟩
      refine Or.inr (Or.inl ⟨hfew, ?_⟩)
      by_contra hnone
      have hall : ∀ p, offset.toNat ≤ p → p < offset.toNat + size.toNat →
          ∃ r ∈ s.stored fd, r.Covers p := by
        intro p hlo hhi
        by_contra hp
        exact hnone ⟨p, hlo, hhi, fun r hr hc => hp ⟨r, hr, hc⟩⟩
      exact absurd (hanswered hall) Bool.false_ne_true
    · rintro (hnewest | ⟨-, p, hlo, hhi, hp⟩ | ⟨hmany, -⟩)
      · -- all bytes are there, so there are enough coverings
        have hmany : size.toNat ≤
            coverings (s.manager.lookedAt fd offset.toNat) offset.toNat size.toNat := by
          refine le_coverings fun p hlo hhi => ?_
          obtain ⟨b, hb⟩ := Option.isSome_iff_exists.mp (hnewest p hlo hhi).1
          obtain ⟨r, hr, hc, -⟩ := exists_of_lastAt hb
          exact ⟨r, hr, hc⟩
        omega
      · refine ⟨fun data hdata => (by cases hdata), fun hall => ?_⟩
        obtain ⟨r, hr, hc⟩ := hall p hlo hhi
        exact absurd hc (hp r hr)
      · omega

/-- After any calls on a descriptor that is read through, a read is exact in three cases and
in no other: the regions from the predecessor of the offset on have the newest of every
byte; they cover too little and a byte is indeed not stored; or what they miss was written
as zeros. -/
theorem reads_exact_iff (cm : ContentManager) (hpolicy : cm.defaultReadPolicy = .readThrough)
    (fd : Int) (filepath : String) (calls : List CacheCall)
    (hcalls : ∀ offset data, .write offset data ∈ calls → offset.toNat + data.length < 2 ^ 64)
    (offset size : UInt64) (hpos : 0 < size.toNat)
    (hbound : offset.toNat + size.toNat < 2 ^ 64) :
    ((start cm fd).run fd filepath calls).ExactRead fd offset size ↔
      ((start cm fd).run fd filepath calls).Newest fd offset.toNat size.toNat ∨
        ((start cm fd).run fd filepath calls).Short fd offset.toNat size.toNat ∨
          ((start cm fd).run fd filepath calls).ZerosMissed fd offset.toNat size.toNat := by
  have hsized : ∀ r ∈ ((start cm fd).run fd filepath calls).stored fd,
      r.1 + r.2.length < 2 ^ 64 := by
    have hnone : (start cm fd).stored fd = [] := by
      unfold stored start
      rw [staged_evict, Function.update_self]
    refine stored_of_calls filepath calls hcalls (keyed_start cm fd) ?_
    rw [hnone]
    exact fun r hr => absurd hr List.not_mem_nil
  exact exactRead_iff ((readThrough_start hpolicy).run filepath calls) hsized hpos hbound

/-- A descriptor that is read through, with a threshold that is not reached. -/
def after (calls : List CacheCall) : CacheRun :=
  (start { minLabelSize := 4096, defaultReadPolicy := .readThrough } 3).run 3 "/f" calls

/-- Two regions side by side. -/
theorem reads_exact_adjacent :
    (after [.write 0 [1, 1], .write 2 [2, 2]]).ExactRead 3 0 4 := by
  have hnewest : (after [.write 0 [1, 1], .write 2 [2, 2]]).Newest 3 0 4 := by
    have hall : ∀ p, p < 4 →
        (lastAt ((after [.write 0 [1, 1], .write 2 [2, 2]]).manager.lookedAt 3 0) p).isSome =
            true ∧
          lastAt ((after [.write 0 [1, 1], .write 2 [2, 2]]).manager.lookedAt 3 0) p =
            lastAt (after [.write 0 [1, 1], .write 2 [2, 2]]).recent p := by
      decide +kernel
    exact fun p _ hp => hall p (by simpa using hp)
  refine (reads_exact_iff { minLabelSize := 4096, defaultReadPolicy := .readThrough } rfl 3 "/f"
    [.write 0 [1, 1], .write 2 [2, 2]] ?_ 0 4 (by decide) (by decide)).mpr (.inl hnewest)
  intro offset data hmem
  simp only [List.mem_cons, CacheCall.write.injEq, List.not_mem_nil, or_false] at hmem
  rcases hmem with ⟨rfl, rfl⟩ | ⟨rfl, rfl⟩
  · decide
  · decide

/-- The older of two overlapping regions is believed, a region in front of the predecessor
is overlooked, and bytes that were never written are answered as zeros. -/
theorem overlaps_misread :
    ¬(after [.write 5 [1, 1], .write 4 [2, 2]]).ExactRead 3 4 2 ∧
      ¬(after [.write 0 [1, 1, 1, 1, 1], .write 1 [2]]).ExactRead 3 3 1 ∧
      ¬(after [.write 0 [1, 1, 1, 1], .write 1 [2, 2]]).ExactRead 3 0 6 := by
  refine ⟨fun h => ?_, fun h => ?_, fun h => ?_⟩
  · have hread := (h.1 [2, 1] (by decide +kernel)).2 1 (by decide)
    revert hread
    decide +kernel
  · have hread := h.2 fun p hlo hhi => ⟨(0, [1, 1, 1, 1, 1]), by decide +kernel,
      Nat.zero_le p, hhi.trans (by decide)⟩
    revert hread
    decide +kernel
  · have hread := (h.1 [1, 2, 2, 1, 0, 0] (by decide +kernel)).2 4 (by decide)
    revert hread
    decide +kernel

end CacheRun
end Labios

/-!
## What a flush makes of the writes

The cache keeps one region an offset and hands the regions out in the order of their
offsets. A region that begins inside a later write is handed out after it, and the end of
a region that a shorter one replaces is gone. Short of that, the regions that are handed
out make the file that the writes make.
-/

namespace Labios

open Foundation

namespace CacheRun

/-- What was handed out, and what a flush would hand out now, is worth the writes. -/
def Preserved (s : CacheRun) (fd : Int) : Prop :=
  ∀ content : List UInt8,
    writeAll content (s.flushed ++ (s.manager.flush fd).1.map FlushRegion.region) =
      writeAll content s.written

/-- A write loses no byte to the regions that are stored, and they lose none to it. -/
structure KeepsWrite (flushed stored : List Region) (w : Region) : Prop where
  /-- A region that begins behind the offset has the bytes of the write where it meets it. -/
  behind : ∀ p b, w.Covers p → lastAt (stored.filter fun r => w.1 < r.1) p = some b →
    lastAt [w] p = some b
  /-- A byte that only the replaced region had stands in those before it as well. -/
  replaced : ∀ p b, ¬w.Covers p → lastAt (stored.filter fun r => r.1 = w.1) p = some b →
    lastAt (stored.filter fun r => w.1 < r.1) p = none →
    lastAt (flushed ++ stored.filter fun r => r.1 < w.1) p = some b

def KeepsCall (s : CacheRun) (fd : Int) : CacheCall → Prop
  | .write offset data => KeepsWrite s.flushed (s.stored fd) (offset.toNat, data)
  | .flush => True

/-- Every call is so, where it is made. -/
def KeepsAll (fd : Int) (filepath : String) (s : CacheRun) (calls : List CacheCall) : Prop :=
  Along (fun s c => some (s.step fd filepath c)) (fun s c => s.KeepsCall fd c) s calls

variable {s : CacheRun} {fd : Int}

theorem preserved_iff (h : s.Keyed fd) :
    s.Preserved fd ↔ ∀ p, lastAt (s.flushed ++ s.stored fd) p = lastAt s.written p := by
  unfold Preserved
  rw [flush_regions h]
  exact writeAll_congr_iff

/-- The one byte where a write, the regions around it and the history may differ. -/
theorem keepsWrite_iff {flushed stored written : List Region} (w : Region)
    (hsplit : stored = (stored.filter fun r => r.1 < w.1) ++
      ((stored.filter fun r => r.1 = w.1) ++ stored.filter fun r => w.1 < r.1))
    (hsame : ∀ p, lastAt (flushed ++ stored) p = lastAt written p) :
    (∀ p, lastAt (flushed ++
        ((stored.filter fun r => r.1 < w.1) ++ w :: stored.filter fun r => w.1 < r.1)) p =
      lastAt (written ++ [w]) p) ↔ KeepsWrite flushed stored w := by
  -- before and after the write, the same layers from the newest down: behind, at and before it
  have hwritten : ∀ p, lastAt written p = (lastAt (stored.filter fun r => w.1 < r.1) p).or
      ((lastAt (stored.filter fun r => r.1 = w.1) p).or
        (lastAt (flushed ++ stored.filter fun r => r.1 < w.1) p)) := by
    intro p
    rw [← hsame p]
    conv => lhs; rw [hsplit]
    simp only [lastAt_append, Option.or_assoc]
  have hnow : ∀ p, lastAt (flushed ++
        ((stored.filter fun r => r.1 < w.1) ++ w :: stored.filter fun r => w.1 < r.1)) p =
      (lastAt (stored.filter fun r => w.1 < r.1) p).or ((lastAt [w] p).or
        (lastAt (flushed ++ stored.filter fun r => r.1 < w.1) p)) := by
    intro p
    rw [show w :: stored.filter (fun r => w.1 < r.1) =
      [w] ++ stored.filter (fun r => w.1 < r.1) from rfl]
    simp only [lastAt_append, Option.or_assoc]
  have hown : ∀ p, lastAt [w] p = if w.Covers p then w.2[p - w.1]? else none := fun p => rfl
  simp only [hnow, lastAt_concat]
  constructor
  · intro h
    refine ⟨fun p b hc hbehind => ?_, fun p b hc hsame' hbehind => ?_⟩
    · have hp := h p
      rw [if_pos hc, hbehind, Option.some_or] at hp
      rw [hown, if_pos hc, hp]
    · have hp := h p
      rw [if_neg hc, hwritten, hbehind, hsame', hown, if_neg hc] at hp
      simpa using hp
  · intro h p
    by_cases hc : w.Covers p
    · -- only a region behind the offset can hide the write
      rw [if_pos hc]
      cases hbehind : lastAt (stored.filter fun r => w.1 < r.1) p with
      | none =>
          rw [hown, if_pos hc, getElem?_of_covers hc]
          rfl
      | some b =>
          have hb := h.behind p b hc hbehind
          rw [hown, if_pos hc] at hb
          rw [hb]
          rfl
    · -- only a replaced region can take its byte along
      rw [if_neg hc, hwritten, hown, if_neg hc]
      cases hbehind : lastAt (stored.filter fun r => w.1 < r.1) p with
      | some b => rfl
      | none =>
          cases hreplaced : lastAt (stored.filter fun r => r.1 = w.1) p with
          | none => rfl
          | some b =>
              have hb := h.replaced p b hc hreplaced hbehind
              rw [hb]
              rfl

/-- One call. -/
theorem preserved_step_iff (h : s.Keyed fd) (hnow : s.Preserved fd) (filepath : String)
    (c : CacheCall) : (s.step fd filepath c).Preserved fd ↔ s.KeepsCall fd c := by
  rw [preserved_iff (h.step filepath c)]
  have hheld := held_step h filepath c
  have hsame := (preserved_iff h).mp hnow
  cases c with
  | write offset data =>
      rw [hheld]
      exact keepsWrite_iff (offset.toNat, data) (s.manager.staged_split fd offset.toNat) hsame
  | flush =>
      rw [hheld, (step_flush h filepath).2.2.1]
      exact iff_of_true hsame trivial

theorem preserved_run_iff (h : s.Keyed fd) (hnow : s.Preserved fd) (filepath : String)
    (calls : List CacheCall) :
    (∀ front, front <+: calls → (s.run fd filepath front).Preserved fd) ↔
      s.KeepsAll fd filepath calls := by
  have hstep : ∀ {s' : CacheRun} {c : CacheCall} {t : CacheRun},
      s'.Keyed fd ∧ s'.Preserved fd → some (s'.step fd filepath c) = some t →
        (t.Keyed fd ∧ t.Preserved fd ↔ s'.KeepsCall fd c) := by
    intro s' c t hs ht
    obtain rfl := Option.some.inj ht
    rw [and_iff_right (hs.1.step filepath c)]
    exact preserved_step_iff hs.1 hs.2 filepath c
  have hreached := Along.iff_reached hstep ⟨h, hnow⟩
    (exec_some (fun s c => s.step fd filepath c) s calls)
  refine Iff.trans ⟨fun hall front t hfront ht => ?_, fun hall front hfront => ?_⟩ hreached
  · obtain rfl := Option.some.inj ((exec_some _ s front).symm.trans ht)
    exact ⟨h.run filepath front, hall front hfront⟩
  · exact (hall front _ hfront (exec_some _ s front)).2

theorem preserved_start (cm : ContentManager) (fd : Int) : (start cm fd).Preserved fd := by
  rw [preserved_iff (keyed_start cm fd)]
  intro p
  unfold stored start
  rw [ContentManager.staged_evict, Function.update_self]
  rfl

/-- At every point of a sequence of calls a flush would complete what the writes make of a
file, exactly when no write loses bytes to the stored regions or takes bytes from them. -/
theorem flush_preserves_iff (cm : ContentManager) (fd : Int) (filepath : String)
    (calls : List CacheCall) :
    (∀ front, front <+: calls → ((start cm fd).run fd filepath front).Preserved fd) ↔
      (start cm fd).KeepsAll fd filepath calls :=
  preserved_run_iff (keyed_start cm fd) (preserved_start cm fd) filepath calls

/-- The second write is handed out before the first one that it overwrites. -/
theorem lowAfterHigh_notPreserved :
    let cm : ContentManager := { minLabelSize := 4096, defaultReadPolicy := .readThrough }
    let s := (start cm 3).run 3 "/f" [.write 5 [1, 1], .write 4 [2, 2]]
    (s.manager.flush 3).1 = [⟨"/f", 4, [2, 2]⟩, ⟨"/f", 5, [1, 1]⟩] ∧
      writeAll [] (s.flushed ++ (s.manager.flush 3).1.map FlushRegion.region) =
        [0, 0, 0, 0, 2, 1, 1] ∧
      writeAll [] s.written = [0, 0, 0, 0, 2, 2, 1] := by
  decide +kernel

end CacheRun
end Labios
