import Labios.Client.SmallCache

/-!
# Calls on one descriptor's cache

Sequences of `cache_write` and `flush` on one descriptor, with what was handed out and
what was written. Some of the writes flush on their own, at `min_label_size` bytes.
-/

namespace Labios

inductive CacheCall
  | write (offset : UInt64) (data : List UInt8)
  | flush
  deriving DecidableEq, Repr

/-- The cache, with its history. -/
structure CacheRun where
  manager : ContentManager
  /-- The regions that were handed out, in this order. -/
  flushed : List Region := []
  /-- The writes, in the order of the calls. -/
  written : List Region := []
  /-- The writes since the last flush. -/
  recent : List Region := []

namespace CacheRun

/-- The descriptor has no cache yet. -/
def start (cm : ContentManager) (fd : Int) : CacheRun := { manager := cm.evict fd }

def step (fd : Int) (filepath : String) (s : CacheRun) : CacheCall → CacheRun
  | .write offset data =>
      let (regions, manager) := s.manager.cacheWrite fd filepath offset data
      { manager
        flushed := s.flushed ++ regions.map FlushRegion.region
        written := s.written ++ [(offset.toNat, data)]
        -- a flush hands out the region of this write at least
        recent := if regions = [] then s.recent ++ [(offset.toNat, data)] else [] }
  | .flush =>
      let (regions, manager) := s.manager.flush fd
      { manager
        flushed := s.flushed ++ regions.map FlushRegion.region
        written := s.written
        recent := [] }

def run (fd : Int) (filepath : String) (s : CacheRun) (calls : List CacheCall) : CacheRun :=
  calls.foldl (step fd filepath) s

/-- What is left in the cache. -/
def stored (s : CacheRun) (fd : Int) : List Region := s.manager.staged fd

variable {s : CacheRun} {fd : Int} {filepath : String} {c : CacheCall}

/-- Every offset is one of a write. -/
def Keyed (s : CacheRun) (fd : Int) : Prop := ∀ r ∈ s.stored fd, r.1 < 2 ^ 64

theorem keyed_start (cm : ContentManager) (fd : Int) : (start cm fd).Keyed fd := by
  intro r hr
  unfold stored start at hr
  rw [ContentManager.staged_evict, Function.update_self] at hr
  exact absurd hr List.not_mem_nil

theorem keyed_afterWrite (h : s.Keyed fd) (offset : UInt64) (data : List UInt8) :
    ∀ r ∈ s.manager.afterWrite fd offset data, r.1 < 2 ^ 64 := by
  intro r hr
  rcases ContentManager.mem_afterWrite.mp hr with rfl | ⟨hr, -⟩
  · exact offset.toNat_lt
  · exact h r hr

theorem flush_regions (h : s.Keyed fd) :
    (s.manager.flush fd).1.map FlushRegion.region = s.stored fd := by
  obtain ⟨path, hregions⟩ := s.manager.flush_fst fd
  rw [hregions]
  exact regions_toFlush h

/-- A write stores its region, or everything is handed out. -/
theorem step_write (h : s.Keyed fd) (filepath : String) (offset : UInt64) (data : List UInt8) :
    ((s.step fd filepath (.write offset data)).flushed = s.flushed ∧
      (s.step fd filepath (.write offset data)).stored fd = s.manager.afterWrite fd offset data ∧
      (s.step fd filepath (.write offset data)).recent = s.recent ++ [(offset.toNat, data)]) ∨
    ((s.step fd filepath (.write offset data)).flushed =
        s.flushed ++ s.manager.afterWrite fd offset data ∧
      (s.step fd filepath (.write offset data)).stored fd = [] ∧
      (s.step fd filepath (.write offset data)).recent = []) := by
  have hstage : (s.manager.stage fd filepath offset data).staged fd =
      s.manager.afterWrite fd offset data := by
    rw [ContentManager.staged_stage, Function.update_self]
  unfold step stored
  dsimp only
  rw [ContentManager.cacheWrite_eq]
  split
  · right
    obtain ⟨path, hregions⟩ := (s.manager.stage fd filepath offset data).flush_fst fd
    rw [hstage] at hregions
    rw [hregions, regions_toFlush (keyed_afterWrite h offset data)]
    refine ⟨rfl, ?_, if_neg ?_⟩
    · rw [ContentManager.staged_flush, Function.update_self]
    · unfold ContentManager.afterWrite
      simp
  · left
    exact ⟨List.append_nil _, hstage, if_pos rfl⟩

theorem step_flush (h : s.Keyed fd) (filepath : String) :
    (s.step fd filepath .flush).flushed = s.flushed ++ s.stored fd ∧
      (s.step fd filepath .flush).stored fd = [] ∧
      (s.step fd filepath .flush).written = s.written ∧
      (s.step fd filepath .flush).recent = [] := by
  unfold step
  dsimp only
  rw [flush_regions h]
  refine ⟨rfl, ?_, rfl, rfl⟩
  unfold stored
  rw [ContentManager.staged_flush, Function.update_self]

theorem Keyed.step (h : s.Keyed fd) (filepath : String) (c : CacheCall) :
    (s.step fd filepath c).Keyed fd := by
  unfold Keyed
  cases c with
  | write offset data =>
      rcases step_write h filepath offset data with ⟨-, hstored, -⟩ | ⟨-, hstored, -⟩
      · rw [hstored]
        exact keyed_afterWrite h offset data
      · rw [hstored]
        exact fun r hr => absurd hr List.not_mem_nil
  | flush =>
      rw [(step_flush h filepath).2.1]
      exact fun r hr => absurd hr List.not_mem_nil

theorem Keyed.run (h : s.Keyed fd) (filepath : String) (calls : List CacheCall) :
    (s.run fd filepath calls).Keyed fd := by
  induction calls generalizing s with
  | nil => exact h
  | cons c rest ih => exact ih (h.step filepath c)

/-- What was handed out and what is stored, after a call. -/
theorem held_step (h : s.Keyed fd) (filepath : String) (c : CacheCall) :
    (s.step fd filepath c).flushed ++ (s.step fd filepath c).stored fd =
      match c with
      | .write offset data => s.flushed ++ s.manager.afterWrite fd offset data
      | .flush => s.flushed ++ s.stored fd := by
  cases c with
  | write offset data =>
      rcases step_write h filepath offset data with ⟨hflushed, hstored, -⟩ | ⟨hflushed, hstored, -⟩
      · rw [hflushed, hstored]
      · rw [hflushed, hstored, List.append_nil]
  | flush =>
      obtain ⟨hflushed, hstored, -⟩ := step_flush h filepath
      rw [hflushed, hstored, List.append_nil]

/-- Stored regions are regions of writes. -/
theorem stored_of_calls {P : Region → Prop} (filepath : String) (calls : List CacheCall)
    (hwrites : ∀ offset data, .write offset data ∈ calls → P (offset.toNat, data))
    (h : s.Keyed fd) (hstored : ∀ r ∈ s.stored fd, P r) :
    ∀ r ∈ (s.run fd filepath calls).stored fd, P r := by
  induction calls generalizing s with
  | nil => exact hstored
  | cons c rest ih =>
      refine ih (fun offset data hmem => hwrites offset data (List.mem_cons_of_mem c hmem))
        (h.step filepath c) ?_
      cases c with
      | write offset data =>
          rcases step_write h filepath offset data with ⟨-, hnow, -⟩ | ⟨-, hnow, -⟩
          · rw [hnow]
            intro r hr
            rcases ContentManager.mem_afterWrite.mp hr with rfl | ⟨hr, -⟩
            · exact hwrites offset data List.mem_cons_self
            · exact hstored r hr
          · rw [hnow]
            exact fun r hr => absurd hr List.not_mem_nil
      | flush =>
          rw [(step_flush h filepath).2.1]
          exact fun r hr => absurd hr List.not_mem_nil

/-! ## The read policy -/

/-- The descriptor is, or will be, read through. -/
def ReadThrough (s : CacheRun) (fd : Int) : Prop :=
  s.manager.defaultReadPolicy = .readThrough ∧
    ∀ cache ∈ s.manager.caches.lookup fd, cache.readPolicy = .readThrough

theorem readThrough_flush {cm : ContentManager}
    (h : ∀ cache ∈ cm.caches.lookup fd, cache.readPolicy = .readThrough) :
    ∀ cache ∈ (cm.flush fd).2.caches.lookup fd, cache.readPolicy = .readThrough := by
  unfold ContentManager.flush
  cases hl : cm.caches.lookup fd with
  | none =>
      intro cache hcache
      rw [hl] at hcache
      cases hcache
  | some old =>
      intro cache hcache
      dsimp only at hcache
      rw [AList.lookup_insert] at hcache
      obtain rfl := Option.some.inj hcache
      exact h old hl

theorem readThrough_stage {cm : ContentManager} (hdefault : cm.defaultReadPolicy = .readThrough)
    (h : ∀ cache ∈ cm.caches.lookup fd, cache.readPolicy = .readThrough) (filepath : String)
    (offset : UInt64) (data : List UInt8) :
    ∀ cache ∈ (cm.stage fd filepath offset data).caches.lookup fd,
      cache.readPolicy = .readThrough := by
  intro cache hcache
  rw [ContentManager.lookup_stage_self] at hcache
  obtain rfl := Option.some.inj hcache
  show (cm.openCache fd filepath).readPolicy = .readThrough
  unfold ContentManager.openCache
  dsimp only
  split
  · exact hdefault
  · cases hl : cm.caches.lookup fd with
    | none => rfl
    | some old => exact h old hl

theorem ReadThrough.step (h : s.ReadThrough fd) (filepath : String) (c : CacheCall) :
    (s.step fd filepath c).ReadThrough fd := by
  obtain ⟨hdefault, hcache⟩ := h
  cases c with
  | write offset data =>
      have hstage := readThrough_stage hdefault hcache filepath offset data
      unfold ReadThrough CacheRun.step
      dsimp only
      rw [ContentManager.cacheWrite_eq]
      split
      · refine ⟨?_, readThrough_flush hstage⟩
        unfold ContentManager.flush
        split
        · exact hdefault
        · exact hdefault
      · exact ⟨hdefault, hstage⟩
  | flush =>
      refine ⟨?_, readThrough_flush hcache⟩
      show (s.manager.flush fd).2.defaultReadPolicy = _
      unfold ContentManager.flush
      split
      · exact hdefault
      · exact hdefault

theorem ReadThrough.run (h : s.ReadThrough fd) (filepath : String) (calls : List CacheCall) :
    (s.run fd filepath calls).ReadThrough fd := by
  induction calls generalizing s with
  | nil => exact h
  | cons c rest ih => exact ih (h.step filepath c)

theorem readThrough_start {cm : ContentManager} (h : cm.defaultReadPolicy = .readThrough) :
    (start cm fd).ReadThrough fd := by
  refine ⟨h, fun cache hcache => ?_⟩
  unfold start ContentManager.evict at hcache
  dsimp only at hcache
  rw [AList.lookup_erase] at hcache
  cases hcache

end CacheRun
end Labios
