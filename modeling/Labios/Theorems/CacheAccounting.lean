import Labios.Client.ManagerCalls
import Labios.Foundation.Entries
import Labios.Foundation.Machine

/-!
# The bytes of a cache

`cache_write` adjusts `total_bytes` of a cache, and `flush_all` goes by it. A number that went
below zero, or past `2 ^ 64`, would hide regions from the timer. `accounting_exact` says that
`total_bytes` is what is stored, whatever the calls.
-/

namespace Labios

open Foundation

/-! ## One cache -/

namespace FdCache

def storedBytes (cache : FdCache) : Nat := (cache.regions.entries.map (·.2.length)).sum

/-- `total_bytes` is what is stored, and the keys are offsets. -/
structure Accounted (cache : FdCache) : Prop where
  total : cache.totalBytes.toNat = cache.storedBytes
  offsets : ∀ r ∈ cache.regions.entries, r.1 < 2 ^ 64

variable {cache : FdCache} {offset : UInt64} {data old : List UInt8}

/-- The bytes beside those at an offset stay. -/
theorem storedBytes_split (cache : FdCache) (offset : UInt64) (data : List UInt8) :
    ∃ others, cache.storedBytes = others + ((cache.regions.get? offset.toNat).elim 0 List.length) ∧
      (cache.assign offset data).storedBytes = others + data.length := by
  refine ⟨((cache.regions.below offset.toNat).map (·.2.length)).sum +
    ((cache.regions.above offset.toNat).map (·.2.length)).sum, ?_, ?_⟩
  · unfold storedBytes
    rw [cache.regions.entries_split offset.toNat, cache.regions.filter_key offset.toNat]
    cases cache.regions.get? offset.toNat with
    | none => simp
    | some old =>
        simp
        omega
  · show ((cache.regions.insert offset.toNat data).entries.map (·.2.length)).sum = _
    rw [SortedMap.entries_insert]
    simp
    omega

/-- The subtraction of `cache_write` does not wrap. -/
theorem Accounted.replaced_le (h : cache.Accounted)
    (hold : cache.regions.get? offset.toNat = some old) :
    old.length ≤ cache.totalBytes.toNat := by
  obtain ⟨others, hbefore, -⟩ := cache.storedBytes_split offset []
  rw [hold, Option.elim_some] at hbefore
  rw [h.total]
  omega

theorem Accounted.assign (h : cache.Accounted)
    (hfits : cache.storedBytes + data.length < 2 ^ 64) : (cache.assign offset data).Accounted := by
  obtain ⟨others, hbefore, hafter⟩ := cache.storedBytes_split offset data
  have htotal := h.total
  constructor
  · rw [hafter]
    cases hold : cache.regions.get? offset.toNat with
    | none =>
        rw [hold, Option.elim_none] at hbefore
        have heq : (cache.assign offset data).totalBytes =
            cache.totalBytes + UInt64.ofNat data.length := by
          unfold FdCache.assign
          rw [hold]
        rw [heq, UInt64.toNat_add, UInt64.toNat_ofNat']
        omega
    | some old =>
        rw [hold, Option.elim_some] at hbefore
        have heq : (cache.assign offset data).totalBytes =
            cache.totalBytes - UInt64.ofNat old.length + UInt64.ofNat data.length := by
          unfold FdCache.assign
          rw [hold]
        have hlength : (UInt64.ofNat old.length).toNat = old.length := by
          rw [UInt64.toNat_ofNat', Nat.mod_eq_of_lt]
          omega
        have hle : UInt64.ofNat old.length ≤ cache.totalBytes := by
          rw [UInt64.le_iff_toNat_le, hlength]
          exact h.replaced_le hold
        rw [heq, UInt64.toNat_add, UInt64.toNat_sub_of_le _ _ hle, hlength, UInt64.toNat_ofNat']
        omega
  · intro r hr
    rcases SortedMap.mem_insert.mp hr with rfl | ⟨hr, -⟩
    · exact offset.toNat_lt
    · exact h.offsets r hr

theorem accounted_empty {filepath : String} {readPolicy : ReadPolicy} :
    ({ filepath, readPolicy } : FdCache).Accounted :=
  ⟨rfl, fun _ hr => absurd hr List.not_mem_nil⟩

theorem Accounted.flushLocked (cache : FdCache) : (flushLocked cache).2.Accounted :=
  accounted_empty

/-- A cache that stores a byte has bytes. -/
theorem Accounted.totalBytes_pos (h : cache.Accounted) {r : Region}
    (hr : r ∈ cache.regions.entries) (hbytes : r.2 ≠ []) : 0 < cache.totalBytes := by
  have hlength : 0 < r.2.length := List.length_pos_of_ne_nil hbytes
  obtain ⟨front, back, heq⟩ := List.append_of_mem hr
  rw [UInt64.lt_iff_toNat_lt, h.total, FdCache.storedBytes, heq, List.map_append, List.map_cons,
    List.sum_append, List.sum_cons]
  show 0 < _
  omega

end FdCache

/-! ## All caches -/

namespace ContentManager

variable {cm cm' : ContentManager} {fd : Int} {filepath : String} {offset : UInt64}
  {data : List UInt8}

def stored (cm : ContentManager) (fd : Int) : Nat := ((cm.caches.lookup fd).getD {}).storedBytes

/-- A write is in memory beside the regions of its cache. -/
def Fits (cm : ContentManager) : Call → Prop
  | .cacheWrite fd _ _ data => cm.stored fd + data.length < 2 ^ 64
  | _ => True

instance (cm : ContentManager) : (c : Call) → Decidable (cm.Fits c)
  | .cacheWrite fd _ _ data => inferInstanceAs (Decidable (cm.stored fd + data.length < 2 ^ 64))
  | .setReadPolicy _ _ | .cacheRead _ _ _ | .flush _ | .flushAll | .evict _ =>
      inferInstanceAs (Decidable True)

def step (cm : ContentManager) (c : Call) : Option ContentManager :=
  if cm.Fits c then some (cm.call c) else none

def Accounted (cm : ContentManager) : Prop :=
  ∀ fd cache, cm.caches.lookup fd = some cache → cache.Accounted

theorem accounted_insert {caches : AList fun _ : Int => FdCache} {cache : FdCache}
    (h : ∀ fd cache, caches.lookup fd = some cache → cache.Accounted) (hcache : cache.Accounted) :
    ∀ fd' cache', (caches.insert fd cache).lookup fd' = some cache' → cache'.Accounted := by
  intro fd' cache' hl
  rcases Foundation.lookup_insert_cases hl with ⟨-, rfl⟩ | ⟨-, hold⟩
  · exact hcache
  · exact h fd' cache' hold

theorem Accounted.getD (h : cm.Accounted) (fd : Int) :
    ((cm.caches.lookup fd).getD {}).Accounted := by
  cases hl : cm.caches.lookup fd with
  | none => exact FdCache.accounted_empty
  | some cache => exact h fd cache hl

theorem regions_openCache (cm : ContentManager) (fd : Int) (filepath : String) :
    (cm.openCache fd filepath).regions = ((cm.caches.lookup fd).getD {}).regions ∧
      (cm.openCache fd filepath).totalBytes = ((cm.caches.lookup fd).getD {}).totalBytes := by
  unfold openCache
  dsimp only
  split
  · exact ⟨rfl, rfl⟩
  · exact ⟨rfl, rfl⟩

theorem Accounted.openCache (h : cm.Accounted) (fd : Int) (filepath : String) :
    (cm.openCache fd filepath).Accounted := by
  obtain ⟨hregions, htotal⟩ := cm.regions_openCache fd filepath
  obtain ⟨hexact, hoffsets⟩ := h.getD fd
  refine ⟨?_, by rwa [hregions]⟩
  rw [htotal, hexact, FdCache.storedBytes, ← hregions]
  rfl

theorem Accounted.flush (h : cm.Accounted) (fd : Int) : (cm.flush fd).2.Accounted := by
  unfold ContentManager.flush
  split
  · exact h
  · next cache hl => exact accounted_insert h (FdCache.Accounted.flushLocked cache)

theorem Accounted.stage (h : cm.Accounted) (hfits : cm.Fits (.cacheWrite fd filepath offset data)) :
    (cm.stage fd filepath offset data).Accounted := by
  refine accounted_insert h ((h.openCache fd filepath).assign ?_)
  rw [FdCache.storedBytes, (cm.regions_openCache fd filepath).1]
  exact hfits

theorem Accounted.cacheWrite (h : cm.Accounted)
    (hfits : cm.Fits (.cacheWrite fd filepath offset data)) :
    (cm.cacheWrite fd filepath offset data).2.Accounted := by
  rw [cacheWrite_eq]
  split
  · exact (h.stage hfits).flush fd
  · exact h.stage hfits

theorem Accounted.step (h : cm.Accounted) {c : Call} (hstep : cm.step c = some cm') :
    cm'.Accounted := by
  unfold ContentManager.step at hstep
  split at hstep
  · next hfits =>
      obtain rfl := Option.some.inj hstep
      cases c with
      | setReadPolicy fd policy =>
          obtain ⟨hexact, hoffsets⟩ := h.getD fd
          exact accounted_insert h ⟨hexact, hoffsets⟩
      | cacheWrite fd filepath offset data => exact h.cacheWrite hfits
      | cacheRead fd offset size => exact h
      | flush fd => exact h.flush fd
      | flushAll => exact flushAll_kept (fun _ fd h => Accounted.flush h fd) h
      | evict fd =>
          intro fd' cache hl
          change (cm.caches.erase fd).lookup fd' = some cache at hl
          exact h fd' cache (Foundation.lookup_of_erase hl).2
  · cases hstep

/-- A write that hands out nothing leaves less than a label. -/
theorem lt_of_cacheWrite_eq_nil {cache : FdCache}
    (hwrite : (cm.cacheWrite fd filepath offset data).1 = [])
    (hcache : (cm.cacheWrite fd filepath offset data).2.caches.lookup fd = some cache) :
    cache.totalBytes < cm.minLabelSize := by
  rw [cacheWrite_eq] at hwrite hcache
  by_cases hfull : cm.minLabelSize ≤ ((cm.openCache fd filepath).assign offset data).totalBytes
  · rw [if_pos hfull] at hwrite
    -- the region of the write would be handed out
    have hregions : (((cm.openCache fd filepath).assign offset data).regions.entries.map
        (toFlush ((cm.openCache fd filepath).assign offset data).filepath)) = [] := by
      unfold ContentManager.flush at hwrite
      rw [lookup_stage_self] at hwrite
      exact hwrite
    have hmem : (offset.toNat, data) ∈
        ((cm.openCache fd filepath).assign offset data).regions.entries :=
      SortedMap.mem_insert.mpr (.inl rfl)
    rw [List.map_eq_nil_iff.mp hregions] at hmem
    exact absurd hmem List.not_mem_nil
  · rw [if_neg hfull] at hcache
    rw [lookup_stage_self] at hcache
    obtain rfl := Option.some.inj hcache
    exact UInt64.not_le.mp hfull

/-- What `flush_all` hands out. -/
theorem Accounted.mem_flushAll (h : cm.Accounted) {cache : FdCache} {r : Region}
    (hcache : cm.caches.lookup fd = some cache) (hr : r ∈ cache.regions.entries)
    (hbytes : r.2 ≠ []) :
    ∃ regions, (fd, regions) ∈ cm.flushAll.1 ∧
      ∃ f ∈ regions, f.filepath = cache.filepath ∧ f.region = r := by
  have hcached := h fd cache hcache
  refine ⟨_, ContentManager.mem_flushAll hcache (hcached.totalBytes_pos hr hbytes),
    toFlush cache.filepath r, ?_, rfl, region_toFlush (hcached.offsets r hr)⟩
  unfold ContentManager.flush
  rw [hcache]
  exact List.mem_map_of_mem hr

/-- **Accounting.** After any calls, `total_bytes` of a cache is the sum of the sizes of its
regions, and no less than the region that a write replaces; a write that hands out no region
leaves less than a label; and `flush_all` hands out every region that has a byte. -/
theorem accounting_exact {minLabelSize : UInt64} {defaultReadPolicy : ReadPolicy}
    {calls : List Call} (hrun : exec step (start minLabelSize defaultReadPolicy) calls = some cm) :
    (∀ fd cache, cm.caches.lookup fd = some cache →
      cache.totalBytes.toNat = cache.storedBytes ∧
        ∀ (offset : UInt64) old, cache.regions.get? offset.toNat = some old →
          old.length ≤ cache.totalBytes.toNat) ∧
      (∀ fd filepath offset data cache, (cm.cacheWrite fd filepath offset data).1 = [] →
        (cm.cacheWrite fd filepath offset data).2.caches.lookup fd = some cache →
          cache.totalBytes < cm.minLabelSize) ∧
      ∀ fd cache, cm.caches.lookup fd = some cache → ∀ r ∈ cache.regions.entries, r.2 ≠ [] →
        ∃ regions, (fd, regions) ∈ cm.flushAll.1 ∧
          ∃ f ∈ regions, f.filepath = cache.filepath ∧ f.region = r := by
  have h : cm.Accounted := by
    refine exec_kept (fun h hstep => Accounted.step h hstep) ?_ hrun
    intro fd cache hl
    cases hl
  refine ⟨fun fd cache hl => ⟨(h fd cache hl).total, fun _ _ => (h fd cache hl).replaced_le⟩,
    fun _ _ _ _ _ => lt_of_cacheWrite_eq_nil, fun _ _ hl _ => h.mem_flushAll hl⟩

/-- A region is replaced by a longer one, beside one without bytes. -/
def replacedRegion : List Call :=
  [.cacheWrite 3 "/f" 0 [1, 2], .cacheWrite 3 "/f" 9 [], .cacheWrite 3 "/f" 0 [3, 4, 5]]

theorem accounting_exact_replaced :
    ∃ cm cache, exec step (start 100 .readThrough) replacedRegion = some cm ∧
      cm.caches.lookup 3 = some cache ∧ cache.totalBytes.toNat = cache.storedBytes ∧
        cache.totalBytes = 3 := by
  have hsome : (exec step (start 100 .readThrough) replacedRegion).isSome := by decide
  obtain ⟨cm, hcm⟩ := Option.isSome_iff_exists.mp hsome
  have htotal : ((exec step (start 100 .readThrough) replacedRegion).bind fun cm =>
      (cm.caches.lookup 3).map (·.totalBytes)) = some 3 := by decide
  rw [hcm] at htotal
  obtain ⟨cache, hcache, hthree⟩ := Option.map_eq_some_iff.mp htotal
  exact ⟨cm, cache, hcm, hcache, ((accounting_exact hcm).1 3 cache hcache).1, hthree⟩

end ContentManager
end Labios
