import Labios.Adapter.Failures
import Labios.Theorems.AdapterCoherence

/-!
# What a failed flush loses

When publishing or waiting for a region fails, are the bytes that were
acknowledged before still in the descriptor's cache, and does `close` return `0`
only when they were published?

Exactly when the conditions of `failedFlush_secures_iff` hold: nothing throws, the
call takes nothing out of the cache, or the exception is about the written region
itself and every other region came before it. The cache is emptied before the
first region is published, so a failing `fsync` always loses the region that threw
and those behind it (`failedFsync_loses`).
-/

namespace Labios

namespace Adapter

/-- `cache_read` fills the request. -/
def CacheHit (s : Adapter) (fd : Int) (count offset : UInt64) : Prop :=
  ((s.content.cacheRead fd offset count).filter fun data => data.length = count.toNat).isSome

/-- With this write the cache reaches `min_label_size`. -/
def Fills (s : Adapter) (filepath : String) (fd : Int) (data : List UInt8) (offset : UInt64) :
    Prop :=
  s.content.minLabelSize ≤ ((s.content.openCache fd filepath).assign offset data).totalBytes

/-! ## The conditions -/

def FlushSpared (fate : Nat → Fate) (s : Adapter) (fd : Int) : Prop :=
  NoneThrows true fate (s.content.staged fd).length

def ReadSpared (fate : Nat → Fate) (s : Adapter) (fd : Int) (count offset : UInt64) : Prop :=
  count = 0 ∨ s.CacheHit fd count offset ∨ s.FlushSpared fate fd

/-- Either no region throws, or the regions before the written one do not and they
are all that was staged. -/
def WriteSpared (session : Session) (fate : Nat → Fate) (s : Adapter) (state : FileState)
    (fd : Int) (data : List UInt8) (offset : UInt64) : Prop :=
  data ≠ [] → UInt64.ofNat data.length < session.labelMinSize →
    s.Fills state.filepath fd data offset →
      NoneThrows state.syncMode fate (s.content.afterWrite fd offset data).length ∨
        (∀ r ∈ s.content.staged fd, r.1 < offset.toNat) ∧
          NoneThrows state.syncMode fate (s.content.staged fd).length

/-- A close that is not the last publishes nothing. -/
def CloseSpared (fate : Nat → Fate) (s : Adapter) (fd : Int) : Prop :=
  ∀ state ∈ s.fds.get fd,
    if state.refCount = 1 then s.FlushSpared fate fd else s.content.staged fd = []

variable {session : Session} {fate : Nat → Fate} {s : Adapter} {fd : Int}

/-! ## One call -/

theorem fsyncWith_secures_iff (hkeyed : s.content.Keyed fd) {state : FileState}
    (hopen : s.fds.get fd = some state) :
    ((s.fsyncWith fate fd).value = -1 → (s.fsyncWith fate fd).Secures fd (s.content.staged fd)) ↔
      s.FlushSpared fate fd := by
  unfold fsyncWith FlushSpared
  rw [hopen]
  dsimp only
  rw [(flushWith_done fate s fd).2, secures_iff_publishes (flushWith_staged fate s fd),
    flushWith_publishes_iff fate hkeyed]
  exact ⟨fun h => by_contra fun hne => hne (h hne), fun h _ => h⟩

theorem doReadWith_secures_iff (hkeyed : s.content.Keyed fd) (arrived : Option Nat)
    (count offset : UInt64) (updateOffset : Bool) :
    ((s.doReadWith fate arrived fd count offset updateOffset).value = -1 →
      (s.doReadWith fate arrived fd count offset updateOffset).Secures fd
        (s.content.staged fd)) ↔ s.ReadSpared fate fd count offset := by
  unfold doReadWith ReadSpared CacheHit
  by_cases hcount : count = 0
  · simp [hcount]
  · rw [if_neg hcount]
    cases (s.content.cacheRead fd offset count).filter fun data => data.length = count.toNat with
    | some data =>
        simp only [Option.isSome_some, true_or, or_true, iff_true]
        intro h
        omega
    | none =>
        simp only [hcount, Option.isSome_none, Bool.false_eq_true, false_or]
        obtain ⟨hdone, hvalue⟩ := flushWith_done fate s fd
        have hpublishes := flushWith_publishes_iff fate hkeyed
        by_cases hnone : NoneThrows true fate (s.content.staged fd).length
        · -- the flush went through; only the read itself can fail
          rw [if_pos (hdone.mpr hnone)]
          refine ⟨fun _ => hnone, fun _ => ?_⟩
          cases arrived with
          | none =>
              intro _ r hr
              exact .inr (hpublishes.mpr hnone r hr)
          | some size =>
              intro h
              dsimp only at h
              omega
        · rw [if_neg fun h => hnone (hdone.mp h)]
          rw [hvalue, secures_iff_publishes (flushWith_staged fate s fd), hpublishes]
          exact ⟨fun h => h hnone, fun h => absurd h hnone⟩

theorem closeWith_publishes_iff (hkeyed : s.content.Keyed fd) :
    ((s.closeWith fate fd).value = 0 → (s.closeWith fate fd).Publishes (s.content.staged fd)) ↔
      s.CloseSpared fate fd := by
  unfold closeWith CloseSpared FlushSpared
  cases hopen : s.fds.get fd with
  | none => simp
  | some state =>
      have hlast := FdTable.release_last hopen
      dsimp only
      rw [hlast]
      by_cases hcount : state.refCount = 1
      · -- the flush does not look at the table
        have hflush := flushWith_publishes_iff (s := { s with fds := (s.fds.release fd).2 })
          fate hkeyed
        simp only [hcount, beq_self_eq_true, if_true, Option.mem_some_iff, forall_eq']
        rw [← hflush]
        exact ⟨fun h => h trivial, fun h _ => h⟩
      · simp only [hcount, beq_iff_eq, if_false, Option.mem_some_iff, forall_eq']
        constructor
        · intro h
          refine List.eq_nil_iff_forall_not_mem.mpr fun r hr => ?_
          obtain ⟨f, hf, -⟩ := h trivial r hr
          exact List.not_mem_nil hf
        · intro h _ r hr
          rw [h] at hr
          exact absurd hr List.not_mem_nil

/-! ## A write that flushes -/

/-- The regions that were staged before a write all left before an exception
exactly when only the written region is behind it. -/
theorem afterWrite_secured_iff (path : String) (hkeyed : s.content.Keyed fd) {offset : UInt64}
    {data : List UInt8} {front back : List Region}
    (hsplit : s.content.afterWrite fd offset data = front ++ back) (hback : back ≠ []) :
    (∀ r ∈ s.content.staged fd, ∃ f ∈ front.map (toFlush path), f.Holds r) ↔
      (∀ r ∈ s.content.staged fd, r.1 < offset.toNat) ∧
        (s.content.staged fd).length ≤ front.length := by
  have hsorted : (front ++ back).Pairwise fun a b => a.1 < b.1 := by
    have := (s.content.stage fd "" offset data).sorted_staged fd
    rwa [ContentManager.staged_stage, Function.update_self, hsplit] at this
  have hkeys : ∀ r ∈ front, r.1 < 2 ^ 64 := by
    intro r hr
    have hmem : r ∈ s.content.afterWrite fd offset data := by
      rw [hsplit]
      exact List.mem_append_left _ hr
    rcases ContentManager.mem_afterWrite.mp hmem with rfl | ⟨hstaged, -⟩
    · exact UInt64.toNat_lt offset
    · exact hkeyed r hstaged
  have hleft : ∀ r ∈ s.content.staged fd,
      (∃ f ∈ front.map (toFlush path), f.Holds r) ↔ r ∈ front :=
    fun r hr => exists_holds_iff hkeys (hkeyed r hr)
  constructor
  · intro hall
    have hsubset : ∀ r ∈ s.content.staged fd, r ∈ front := fun r hr => (hleft r hr).mp (hall r hr)
    -- behind the exception there is only the written region
    have hown : (offset.toNat, data) ∈ back := by
      obtain ⟨r, hr⟩ := List.exists_mem_of_ne_nil _ hback
      have hmem : r ∈ s.content.afterWrite fd offset data := by
        rw [hsplit]
        exact List.mem_append_right _ hr
      rcases ContentManager.mem_afterWrite.mp hmem with rfl | ⟨hstaged, -⟩
      · exact hr
      · exact absurd (hsubset r hstaged) (not_mem_front hsorted hr)
    refine ⟨fun r hr => (List.pairwise_append.mp hsorted).2.2 r (hsubset r hr) _ hown, ?_⟩
    have hnodup : (s.content.staged fd).Nodup := by
      refine (s.content.sorted_staged fd).imp ?_
      intro a b hlt heq
      rw [heq] at hlt
      exact lt_irrefl _ hlt
    exact (List.subperm_of_subset hnodup hsubset).length_le
  · rintro ⟨hbefore, hlength⟩ r hr
    rw [hleft r hr]
    have hbelow : (s.content.staged fd).filter (fun r => r.1 < offset.toNat) =
        s.content.staged fd :=
      List.filter_eq_self.mpr fun r hr => decide_eq_true (hbefore r hr)
    have habove : (s.content.staged fd).filter (fun r => offset.toNat < r.1) = [] := by
      refine List.filter_eq_nil_iff.mpr fun r hr => ?_
      have := hbefore r hr
      simp
      omega
    have hall : s.content.staged fd ++ [(offset.toNat, data)] = front ++ back := by
      rw [← hsplit, ContentManager.afterWrite, hbelow, habove]
    have htake : s.content.staged fd = front.take (s.content.staged fd).length := by
      have := congrArg (List.take (s.content.staged fd).length) hall
      rwa [List.take_left', List.take_append_of_le_length hlength] at this
      rfl
    rw [htake] at hr
    exact List.mem_of_mem_take hr

theorem doWriteWith_fills (fate : Nat → Fate) {state : FileState} {data : List UInt8} {offset : UInt64}
    (hdata : data ≠ []) (hsmall : UInt64.ofNat data.length < session.labelMinSize)
    (hfills : s.Fills state.filepath fd data offset) (updateOffset : Bool) :
    ∃ path front back, s.content.afterWrite fd offset data = front ++ back ∧
      ((s.doWriteWith session fate state fd data offset updateOffset).value = -1 ↔ back ≠ []) ∧
      (s.doWriteWith session fate state fd data offset updateOffset).published =
        front.map (toFlush path) ∧
      (s.doWriteWith session fate state fd data offset updateOffset).content.staged fd = [] ∧
      NoneThrows state.syncMode fate front.length ∧
      (back ≠ [] → (fate front.length).throws state.syncMode = true) ∧
      (NoneThrows state.syncMode fate (s.content.afterWrite fd offset data).length ↔
        back = []) := by
  have hcache : s.content.cacheWrite fd state.filepath offset data =
      (s.content.stage fd state.filepath offset data).flush fd := by
    rw [ContentManager.cacheWrite_eq]
    exact if_pos hfills
  have hafter : (s.content.stage fd state.filepath offset data).staged fd =
      s.content.afterWrite fd offset data := by
    rw [ContentManager.staged_stage, Function.update_self]
  obtain ⟨path, hregions⟩ := (s.content.stage fd state.filepath offset data).flush_fst fd
  rw [hafter] at hregions
  obtain ⟨front, back, hsplit, hrun, hnone, hback, hiff⟩ :=
    publishEach_regions state.syncMode fate path (s.content.afterWrite fd offset data)
  have hempty : ((s.content.stage fd state.filepath offset data).flush fd).2.staged fd = [] := by
    rw [ContentManager.staged_flush, Function.update_self]
  refine ⟨path, front, back, hsplit, ?_, ?_, ?_, hnone, hback, hiff⟩
  all_goals
    unfold doWriteWith
    rw [if_neg hdata, if_pos hsmall, hcache]
    dsimp only
    rw [hregions, hrun]
    dsimp only
  · cases back with
    | nil =>
        simp only [List.isEmpty_nil, if_true, ne_eq, not_true_eq_false, iff_false]
        omega
    | cons r rest => simp
  · split
    · rfl
    · rfl
  · split
    · exact hempty
    · exact hempty

theorem doWriteWith_secures_iff (hkeyed : s.content.Keyed fd) (state : FileState)
    (data : List UInt8) (offset : UInt64) (updateOffset : Bool) :
    ((s.doWriteWith session fate state fd data offset updateOffset).value = -1 →
      (s.doWriteWith session fate state fd data offset updateOffset).Secures fd
        (s.content.staged fd)) ↔ s.WriteSpared session fate state fd data offset := by
  unfold WriteSpared
  by_cases hdata : data = []
  · simp [hdata, doWriteWith]
  · by_cases hsmall : UInt64.ofNat data.length < session.labelMinSize
    · by_cases hfills : s.Fills state.filepath fd data offset
      · obtain ⟨path, front, back, hsplit, hvalue, hpublished, hcontent, hnone, hback, hiff⟩ :=
          doWriteWith_fills fate hdata hsmall hfills updateOffset
        rw [hvalue, secures_iff_publishes hcontent, hiff]
        unfold Attempt.Publishes
        rw [hpublished]
        simp only [hdata, hsmall, hfills, ne_eq, not_false_eq_true, forall_const]
        by_cases hempty : back = []
        · simp [hempty]
        · rw [afterWrite_secured_iff path hkeyed hsplit hempty]
          simp only [hempty, not_false_eq_true, forall_const, false_or]
          refine and_congr_right fun _ => ⟨fun hle i hi => hnone i (by omega), fun hall => ?_⟩
          by_contra hlt
          have := hall front.length (by omega)
          rw [hback hempty] at this
          cases this
      · -- the cache takes the region
        have hcache : s.content.cacheWrite fd state.filepath offset data =
            ([], s.content.stage fd state.filepath offset data) := by
          rw [ContentManager.cacheWrite_eq]
          exact if_neg hfills
        simp only [hfills, false_implies, implies_true, iff_true]
        unfold doWriteWith
        rw [if_neg hdata, if_pos hsmall, hcache]
        intro h
        simp [publishEach] at h
    · -- the cache is not touched
      simp only [hsmall, false_implies, implies_true, iff_true]
      intro _ r hr
      refine .inl ?_
      unfold doWriteWith
      rw [if_neg hdata, if_neg hsmall]
      dsimp only
      split
      · exact hr
      · exact hr

end Adapter

/-- **Failed flushes.** For every cache and every way in which its regions may fail:
an `fsync`, a read or a write that reports failure keeps or has published every
region that was staged, and `close` returns `0` only with all of them published,
exactly under these conditions. -/
theorem failedFlush_secures_iff (session : Session) (fate : Nat → Fate) (s : Adapter) (fd : Int)
    (hkeyed : s.content.Keyed fd) :
    (∀ state ∈ s.fds.get fd,
      ((s.fsyncWith fate fd).value = -1 →
        (s.fsyncWith fate fd).Secures fd (s.content.staged fd)) ↔ s.FlushSpared fate fd) ∧
    (∀ (arrived : Option Nat) (count offset : UInt64) (updateOffset : Bool),
      ((s.doReadWith fate arrived fd count offset updateOffset).value = -1 →
        (s.doReadWith fate arrived fd count offset updateOffset).Secures fd
          (s.content.staged fd)) ↔ s.ReadSpared fate fd count offset) ∧
    (∀ (state : FileState) (data : List UInt8) (offset : UInt64) (updateOffset : Bool),
      ((s.doWriteWith session fate state fd data offset updateOffset).value = -1 →
        (s.doWriteWith session fate state fd data offset updateOffset).Secures fd
          (s.content.staged fd)) ↔ s.WriteSpared session fate state fd data offset) ∧
    (((s.closeWith fate fd).value = 0 →
      (s.closeWith fate fd).Publishes (s.content.staged fd)) ↔ s.CloseSpared fate fd) :=
  ⟨fun _ hopen => Adapter.fsyncWith_secures_iff hkeyed hopen,
    Adapter.doReadWith_secures_iff hkeyed, Adapter.doWriteWith_secures_iff hkeyed,
    Adapter.closeWith_publishes_iff hkeyed⟩

/-! ## Two staged bytes -/

/-- One descriptor with two regions in its cache. -/
def cachedPair : Adapter :=
  (runCalls (Adapter.call tinySession) (Adapter.fresh tinySession fun _ => [])
    [.openFile "/data" 0 3, .pwrite 3 [1] 0, .pwrite 3 [2] 5]).2

/-- Only the third region throws: the one of a write behind the other two. -/
def thirdThrows : Nat → Fate := fun i => if i = 2 then .publishThrows else .published

theorem failedFlush_secures_iff_cachedPair :
    (cachedPair.fsyncWith thirdThrows 3).value = 0 ∧
      (cachedPair.doWriteWith tinySession thirdThrows { filepath := "/data" } 3 [3, 4] 8 false).value
        = -1 ∧
      (cachedPair.doWriteWith tinySession thirdThrows { filepath := "/data" } 3 [3, 4] 8
        false).Secures 3 (cachedPair.content.staged 3) ∧
      (cachedPair.closeWith thirdThrows 3).Publishes (cachedPair.content.staged 3) := by
  obtain ⟨-, -, hwrite, hclose⟩ :=
    failedFlush_secures_iff tinySession thirdThrows cachedPair 3 (by decide)
  have hvalue : (cachedPair.doWriteWith tinySession thirdThrows { filepath := "/data" } 3 [3, 4] 8
      false).value = -1 := by
    decide
  refine ⟨by decide, hvalue, (hwrite _ _ _ _).mpr ?_ hvalue, hclose.mpr ?_ (by decide)⟩
  · intro _ _ _
    exact .inr ⟨by decide, by decide⟩
  · intro state hstate
    obtain rfl := Option.some.inj hstate
    exact (by decide : NoneThrows true thirdThrows (cachedPair.content.staged 3).length)

/-- The first region throws: `fsync` reports it with both regions gone from the
cache and neither published, and `close` returns `0` all the same. -/
theorem failedFsync_loses :
    (cachedPair.fsyncWith (fun _ => .publishThrows) 3).value = -1 ∧
      ¬(cachedPair.fsyncWith (fun _ => .publishThrows) 3).Secures 3
        (cachedPair.content.staged 3) ∧
      (cachedPair.closeWith (fun _ => .waitThrows) 3).value = 0 ∧
      ¬(cachedPair.closeWith (fun _ => .waitThrows) 3).Publishes
        (cachedPair.content.staged 3) := by
  decide

end Labios
