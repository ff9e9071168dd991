import Labios.Foundation.SortedMap
import Labios.Storage.Staging
import Mathlib.Algebra.GroupWithZero.Nat
import Mathlib.Data.List.AList

/-!
# The small-I/O cache

The cache of `labios/content_manager.cpp`: per descriptor the regions of the
writes that are too small for a label, by their offset. `flush_locked` hands them
out in ascending order of the offsets, whatever the order of the writes.

Sums of lengths of regions in memory stay below `2 ^ 64`, so `covered` is a `Nat`
here. The locks are left out; `Adapter/FlushTimer` is about the timer.
-/

namespace Labios

open Foundation

inductive ReadPolicy where
  | readThrough
  | writeOnly
  deriving DecidableEq, Repr

structure FlushRegion where
  filepath : String
  offset : UInt64
  data : List UInt8
  deriving DecidableEq, Repr

structure FdCache where
  filepath : String := ""
  readPolicy : ReadPolicy := .readThrough
  regions : SortedMap Nat (List UInt8) := .empty
  totalBytes : UInt64 := 0

structure ContentManager where
  minLabelSize : UInt64
  defaultReadPolicy : ReadPolicy
  caches : AList fun _ : Int => FdCache := ∅

/-! ## Operations -/

def toFlush (filepath : String) (r : Region) : FlushRegion :=
  { filepath, offset := UInt64.ofNat r.1, data := r.2 }

def flushLocked (cache : FdCache) : List FlushRegion × FdCache :=
  (cache.regions.entries.map (toFlush cache.filepath),
    { cache with regions := .empty, totalBytes := 0 })

theorem flushLocked_regions {cache : FdCache} {filepath : String}
    (h : cache.filepath = filepath) :
    (flushLocked cache).1 = cache.regions.entries.map (toFlush filepath) := by
  rw [← h]
  rfl

def FlushRegion.region (f : FlushRegion) : Region := (f.offset.toNat, f.data)

theorem region_toFlush {path : String} {r : Region} (h : r.1 < 2 ^ 64) :
    (toFlush path r).region = r := by
  unfold FlushRegion.region toFlush
  dsimp only
  rw [UInt64.toNat_ofNat', Nat.mod_eq_of_lt h]

theorem regions_toFlush {path : String} {regions : List Region}
    (h : ∀ r ∈ regions, r.1 < 2 ^ 64) :
    (regions.map (toFlush path)).map FlushRegion.region = regions := by
  rw [List.map_map]
  refine (List.map_congr_left fun r hr => ?_).trans (List.map_id _)
  exact region_toFlush (h r hr)

/-- `caches_[fd]`, set up by the first write. -/
def ContentManager.openCache (cm : ContentManager) (fd : Int) (filepath : String) : FdCache :=
  let cache := (cm.caches.lookup fd).getD {}
  if cache.filepath = "" then { cache with filepath, readPolicy := cm.defaultReadPolicy }
  else cache

/-- The region at an offset is replaced. -/
def FdCache.assign (cache : FdCache) (offset : UInt64) (data : List UInt8) : FdCache :=
  let total :=
    match cache.regions.get? offset.toNat with
    | some old => cache.totalBytes - UInt64.ofNat old.length
    | none => cache.totalBytes
  { cache with
    regions := cache.regions.insert offset.toNat data
    totalBytes := total + UInt64.ofNat data.length }

def ContentManager.cacheWrite (cm : ContentManager) (fd : Int) (filepath : String)
    (offset : UInt64) (data : List UInt8) : List FlushRegion × ContentManager :=
  let cache := (cm.openCache fd filepath).assign offset data
  if cm.minLabelSize ≤ cache.totalBytes then
    let (regions, cache) := flushLocked cache
    (regions, { cm with caches := cm.caches.insert fd cache })
  else ([], { cm with caches := cm.caches.insert fd cache })

/-- The loop of `cache_read` over the regions that may overlap the request. -/
def readLoop (offset reqEnd : Nat) : List Region → List UInt8 → Nat → List UInt8 × Nat
  | [], result, covered => (result, covered)
  | r :: rest, result, covered =>
      let regEnd := (r.1 + r.2.length) % 2 ^ 64
      if reqEnd ≤ r.1 then (result, covered)
      else if regEnd ≤ offset then readLoop offset reqEnd rest result covered
      else
        let ovStart := max r.1 offset
        let ovLen := min regEnd reqEnd - ovStart
        readLoop offset reqEnd rest
          (writeAt result (ovStart - offset) ((r.2.drop (ovStart - r.1)).take ovLen))
          (covered + ovLen)

def ContentManager.cacheRead (cm : ContentManager) (fd : Int) (offset size : UInt64) :
    Option (List UInt8) :=
  match cm.caches.lookup fd with
  | none => none
  | some cache =>
      if cache.readPolicy = .writeOnly then none
      else
        let (result, covered) := readLoop offset.toNat (offset + size).toNat
          (cache.regions.fromFloor offset.toNat) (List.replicate size.toNat 0) 0
        if covered = 0 then none
        else if covered < size.toNat then none
        else some result

def ContentManager.flush (cm : ContentManager) (fd : Int) : List FlushRegion × ContentManager :=
  match cm.caches.lookup fd with
  | none => ([], cm)
  | some cache =>
      let (regions, cache) := flushLocked cache
      (regions, { cm with caches := cm.caches.insert fd cache })

/-- The timer's flush: every cache that has bytes. -/
def ContentManager.flushAll (cm : ContentManager) :
    List (Int × List FlushRegion) × ContentManager :=
  cm.caches.keys.foldl (fun out fd =>
    match out.2.caches.lookup fd with
    | none => out
    | some cache =>
        if 0 < cache.totalBytes then (out.1 ++ [(fd, (out.2.flush fd).1)], (out.2.flush fd).2)
        else out) ([], cm)

def ContentManager.evict (cm : ContentManager) (fd : Int) : ContentManager :=
  { cm with caches := cm.caches.erase fd }

/-! ## What is staged -/

namespace ContentManager

/-- A write whose region stays in the cache. -/
def stage (cm : ContentManager) (fd : Int) (filepath : String) (offset : UInt64)
    (data : List UInt8) : ContentManager :=
  { cm with caches := cm.caches.insert fd ((cm.openCache fd filepath).assign offset data) }

/-- A write stages its region, and from `min_label_size` bytes on flushes. -/
theorem cacheWrite_eq (cm : ContentManager) (fd : Int) (filepath : String) (offset : UInt64)
    (data : List UInt8) :
    cm.cacheWrite fd filepath offset data =
      if cm.minLabelSize ≤ ((cm.openCache fd filepath).assign offset data).totalBytes then
        (cm.stage fd filepath offset data).flush fd
      else ([], cm.stage fd filepath offset data) := by
  unfold cacheWrite flush stage
  dsimp only
  rw [AList.lookup_insert]
  dsimp only
  split
  · rw [AList.insert_insert]
  · rfl

/-- The regions of a descriptor, in the order of `flush_locked`. -/
def staged (cm : ContentManager) (fd : Int) : List Region :=
  match cm.caches.lookup fd with
  | none => []
  | some cache => cache.regions.entries

/-- The regions that `cache_read` looks at. -/
def lookedAt (cm : ContentManager) (fd : Int) (offset : Nat) : List Region :=
  match cm.caches.lookup fd with
  | none => []
  | some cache => cache.regions.fromFloor offset

/-- The regions of all other descriptors. -/
def stagedByOthers (cm : ContentManager) (fd : Int) : List Region :=
  (cm.caches.entries.filter fun e => e.1 ≠ fd).flatMap fun e => e.2.regions.entries

/-- Every cache belongs to the file. -/
def Holds (cm : ContentManager) (filepath : String) : Prop :=
  ∀ fd cache, cm.caches.lookup fd = some cache → cache.filepath = filepath

variable {cm : ContentManager} {fd fd' : Int} {filepath : String} {offset size : UInt64}
  {data : List UInt8} {r : Region}

theorem mem_stagedByOthers :
    r ∈ cm.stagedByOthers fd ↔ ∃ fd', fd' ≠ fd ∧ r ∈ cm.staged fd' := by
  unfold stagedByOthers staged
  rw [List.mem_flatMap]
  constructor
  · rintro ⟨⟨fd', cache⟩, he, hr⟩
    obtain ⟨he, hne⟩ := List.mem_filter.mp he
    refine ⟨fd', by simpa using hne, ?_⟩
    rw [AList.mem_lookup_iff.mpr he]
    exact hr
  · rintro ⟨fd', hne, hr⟩
    cases hcache : cm.caches.lookup fd' with
    | none =>
        rw [hcache] at hr
        exact absurd hr List.not_mem_nil
    | some cache =>
        rw [hcache] at hr
        exact ⟨⟨fd', cache⟩, List.mem_filter.mpr
          ⟨AList.mem_lookup_iff.mp hcache, by simpa using hne⟩, hr⟩

theorem staged_insert (cm : ContentManager) (fd : Int) (cache : FdCache) :
    staged { cm with caches := cm.caches.insert fd cache } =
      Function.update cm.staged fd cache.regions.entries := by
  funext fd'
  unfold staged
  by_cases h : fd' = fd
  · subst h
    rw [Function.update_self]
    dsimp only
    rw [AList.lookup_insert]
  · rw [Function.update_of_ne h]
    dsimp only
    rw [AList.lookup_insert_ne h]

theorem Holds.insert (h : cm.Holds filepath) {cache : FdCache} (hc : cache.filepath = filepath) :
    Holds { cm with caches := cm.caches.insert fd cache } filepath := by
  intro fd' cache' hl
  dsimp only at hl
  by_cases he : fd' = fd
  · subst he
    rw [AList.lookup_insert] at hl
    obtain rfl := Option.some.inj hl
    exact hc
  · rw [AList.lookup_insert_ne he] at hl
    exact h fd' cache' hl

/-- A cache without a path gets the one of the write. -/
theorem openCache_filepath
    (h : ∀ cache ∈ cm.caches.lookup fd, cache.filepath = "" ∨ cache.filepath = filepath) :
    (cm.openCache fd filepath).filepath = filepath := by
  unfold openCache
  dsimp only
  split
  · rfl
  · next hne =>
      cases hl : cm.caches.lookup fd with
      | none =>
          rw [hl] at hne
          exact absurd rfl hne
      | some cache =>
          rw [hl] at hne
          exact (h cache hl).resolve_left hne

theorem openCache_entries :
    (cm.openCache fd filepath).regions.entries = cm.staged fd := by
  unfold openCache staged
  cases cm.caches.lookup fd with
  | none => rfl
  | some cache =>
      dsimp only [Option.getD_some]
      by_cases hempty : cache.filepath = ""
      · rw [if_pos hempty]
      · rw [if_neg hempty]

/-- The regions that a write leaves for a later flush. -/
def afterWrite (cm : ContentManager) (fd : Int) (offset : UInt64) (data : List UInt8) :
    List Region :=
  (cm.staged fd).filter (fun r => r.1 < offset.toNat) ++
    (offset.toNat, data) :: (cm.staged fd).filter (fun r => offset.toNat < r.1)

theorem staged_stage (cm : ContentManager) (fd : Int) (filepath : String) (offset : UInt64)
    (data : List UInt8) :
    (cm.stage fd filepath offset data).staged =
      Function.update cm.staged fd (cm.afterWrite fd offset data) := by
  have hentries : ((cm.openCache fd filepath).assign offset data).regions.entries =
      cm.afterWrite fd offset data := by
    unfold FdCache.assign afterWrite
    dsimp only
    rw [SortedMap.entries_insert, SortedMap.below, SortedMap.above, openCache_entries]
  unfold stage
  rw [staged_insert, hentries]

theorem Holds.stage (h : cm.Holds filepath) (fd : Int) (offset : UInt64) (data : List UInt8) :
    (cm.stage fd filepath offset data).Holds filepath :=
  h.insert (openCache_filepath fun cache hcache => .inr (h fd cache hcache))

theorem flush_eq (h : cm.Holds filepath) (fd : Int) :
    ∃ cm', cm.flush fd = ((cm.staged fd).map (toFlush filepath), cm') ∧ cm'.Holds filepath ∧
      cm'.staged = Function.update cm.staged fd [] := by
  unfold flush
  cases hl : cm.caches.lookup fd with
  | none =>
      have hnone : cm.staged fd = [] := by rw [staged, hl]
      refine ⟨cm, by rw [hnone]; rfl, h, ?_⟩
      rw [← hnone, Function.update_eq_self]
  | some cache =>
      have hsome : cm.staged fd = cache.regions.entries := by rw [staged, hl]
      refine ⟨_, Prod.ext ?_ rfl, h.insert (h fd cache hl),
        staged_insert cm fd (flushLocked cache).2⟩
      rw [hsome]
      exact flushLocked_regions (h fd cache hl)

/-- A write stages its region, or hands out all of them. -/
theorem cacheWrite_cases (h : cm.Holds filepath) (fd : Int) (offset : UInt64)
    (data : List UInt8) :
    (∃ cm', cm.cacheWrite fd filepath offset data = ([], cm') ∧ cm'.Holds filepath ∧
      cm'.staged = Function.update cm.staged fd (cm.afterWrite fd offset data)) ∨
    (∃ cm', cm.cacheWrite fd filepath offset data =
        ((cm.afterWrite fd offset data).map (toFlush filepath), cm') ∧ cm'.Holds filepath ∧
      cm'.staged = Function.update cm.staged fd []) := by
  have hstage := cm.staged_stage fd filepath offset data
  rw [cacheWrite_eq]
  by_cases hfull : cm.minLabelSize ≤ ((cm.openCache fd filepath).assign offset data).totalBytes
  · rw [if_pos hfull]
    obtain ⟨cm', hflush, hholds, hstaged⟩ := flush_eq (h.stage fd offset data) fd
    rw [hstage, Function.update_self] at hflush
    rw [hstage, Function.update_idem] at hstaged
    exact .inr ⟨cm', hflush, hholds, hstaged⟩
  · rw [if_neg hfull]
    exact .inl ⟨_, rfl, h.stage fd offset data, hstage⟩

/-- A flush empties the regions of a descriptor, whatever their path. -/
theorem staged_flush (cm : ContentManager) (fd : Int) :
    (cm.flush fd).2.staged = Function.update cm.staged fd [] := by
  unfold flush
  cases hl : cm.caches.lookup fd with
  | none =>
      have hnone : cm.staged fd = [] := by rw [staged, hl]
      rw [← hnone, Function.update_eq_self]
  | some cache => exact staged_insert cm fd (flushLocked cache).2

theorem sorted_staged (cm : ContentManager) (fd : Int) :
    (cm.staged fd).Pairwise fun a b => a.1 < b.1 := by
  unfold staged
  cases cm.caches.lookup fd with
  | none => exact List.Pairwise.nil
  | some cache => exact cache.regions.sorted

/-- The regions that are flushed, in ascending order, under one path. -/
theorem flush_fst (cm : ContentManager) (fd : Int) :
    ∃ path, (cm.flush fd).1 = (cm.staged fd).map (toFlush path) := by
  unfold flush staged
  cases cm.caches.lookup fd with
  | none => exact ⟨"", rfl⟩
  | some cache => exact ⟨cache.filepath, rfl⟩

/-- A region that is flushed carries the path of its cache. -/
theorem mem_flush {region : FlushRegion} :
    region ∈ (cm.flush fd).1 ↔ ∃ cache ∈ cm.caches.lookup fd, ∃ r ∈ cm.staged fd,
      toFlush cache.filepath r = region := by
  unfold flush staged
  cases cm.caches.lookup fd with
  | none => simp
  | some cache => simp [flushLocked]

/-- A cache keeps its path over a flush. -/
theorem lookup_flush {cache : FdCache} (h : (cm.flush fd).2.caches.lookup fd' = some cache) :
    ∃ cache', cm.caches.lookup fd' = some cache' ∧ cache.filepath = cache'.filepath := by
  unfold flush at h
  cases hl : cm.caches.lookup fd with
  | none =>
      rw [hl] at h
      exact ⟨cache, h, rfl⟩
  | some cache' =>
      rw [hl] at h
      dsimp only at h
      by_cases hfd : fd' = fd
      · rw [hfd, AList.lookup_insert] at h
        rw [hfd]
        obtain rfl := Option.some.inj h
        exact ⟨cache', hl, rfl⟩
      · rw [AList.lookup_insert_ne hfd] at h
        exact ⟨cache, h, rfl⟩

theorem lookup_stage_self (cm : ContentManager) (fd : Int) (filepath : String) (offset : UInt64)
    (data : List UInt8) : (cm.stage fd filepath offset data).caches.lookup fd =
      some ((cm.openCache fd filepath).assign offset data) :=
  AList.lookup_insert _

theorem lookup_stage_of_ne (h : fd' ≠ fd) (filepath : String) (offset : UInt64)
    (data : List UInt8) :
    (cm.stage fd filepath offset data).caches.lookup fd' = cm.caches.lookup fd' :=
  AList.lookup_insert_ne h

/-- No other descriptor has a cache. -/
def Only (cm : ContentManager) (fd : Int) : Prop :=
  ∀ fd', fd' ≠ fd → cm.caches.lookup fd' = none

theorem Only.flush (h : cm.Only fd) : (cm.flush fd).2.Only fd := by
  intro fd' hne
  refine Option.eq_none_iff_forall_not_mem.mpr fun cache hcache => ?_
  obtain ⟨cache', hcache', -⟩ := lookup_flush hcache
  rw [h fd' hne] at hcache'
  cases hcache'

theorem Only.stage (h : cm.Only fd) (filepath : String) (offset : UInt64) (data : List UInt8) :
    (cm.stage fd filepath offset data).Only fd := by
  intro fd' hne
  rw [lookup_stage_of_ne hne]
  exact h fd' hne

theorem Only.cacheWrite (h : cm.Only fd) (filepath : String) (offset : UInt64)
    (data : List UInt8) : (cm.cacheWrite fd filepath offset data).2.Only fd := by
  rw [cacheWrite_eq]
  split
  · exact (h.stage filepath offset data).flush
  · exact h.stage filepath offset data

/-- With one descriptor the timer flushes that one, or nothing. -/
theorem flushAll_of_only (h : cm.Only fd) :
    (∃ regions, cm.flushAll = ([(fd, regions)], (cm.flush fd).2) ∧ (cm.flush fd).1 = regions) ∨
      cm.flushAll = ([], cm) := by
  have hkeys : ∀ fd' ∈ cm.caches.keys, fd' = fd := by
    intro fd' hmem
    by_contra hne
    exact AList.lookup_eq_none.mp (h fd' hne) (AList.mem_keys.mpr hmem)
  have hnodup := cm.caches.keys_nodup
  unfold flushAll
  cases hlist : cm.caches.keys with
  | nil => exact .inr rfl
  | cons first rest =>
      rw [hlist] at hkeys hnodup
      obtain rfl := hkeys first List.mem_cons_self
      have hrest : rest = [] := by
        refine List.eq_nil_iff_forall_not_mem.mpr fun fd' hmem => ?_
        rw [hkeys fd' (List.mem_cons_of_mem _ hmem)] at hmem
        exact (List.nodup_cons.mp hnodup).1 hmem
      rw [hrest, List.foldl_cons, List.foldl_nil]
      dsimp only
      split
      · exact .inr rfl
      · split
        · exact .inl ⟨_, rfl, rfl⟩
        · exact .inr rfl

/-- The regions of a descriptor after a write: its own, and those at other offsets. -/
theorem mem_afterWrite : r ∈ cm.afterWrite fd offset data ↔
    r = (offset.toNat, data) ∨ r ∈ cm.staged fd ∧ r.1 ≠ offset.toNat := by
  unfold afterWrite
  rw [List.mem_append, List.mem_cons, List.mem_filter, List.mem_filter, decide_eq_true_iff,
    decide_eq_true_iff, ne_iff_lt_or_gt]
  constructor
  · rintro (⟨hr, hlt⟩ | rfl | ⟨hr, hlt⟩)
    · exact .inr ⟨hr, .inl hlt⟩
    · exact .inl rfl
    · exact .inr ⟨hr, .inr hlt⟩
  · rintro (rfl | ⟨hr, hlt | hlt⟩)
    · exact .inr (.inl rfl)
    · exact .inl ⟨hr, hlt⟩
    · exact .inr (.inr ⟨hr, hlt⟩)

/-- The regions of a descriptor around an offset. -/
theorem staged_split (cm : ContentManager) (fd : Int) (k : Nat) :
    cm.staged fd = (cm.staged fd).filter (fun r => r.1 < k) ++
      ((cm.staged fd).filter (fun r => r.1 = k) ++ (cm.staged fd).filter (fun r => k < r.1)) := by
  unfold staged
  cases cm.caches.lookup fd with
  | none => rfl
  | some cache => exact cache.regions.entries_split k

/-- A write that meets no region behind it, and replaces none that is longer, comes
last for every byte. -/
theorem lastAt_afterWrite (hne : data ≠ [])
    (hown : ∀ r ∈ cm.staged fd, r.Meets offset.toNat (offset.toNat + data.length) →
      r.1 < offset.toNat ∨ r.1 = offset.toNat ∧ r.2.length ≤ data.length) (p : Nat) :
    lastAt (cm.afterWrite fd offset data) p =
      lastAt (cm.staged fd ++ [(offset.toNat, data)]) p := by
  rw [cm.staged_split fd offset.toNat]
  refine lastAt_restage (fun r hr => ?_) (fun r hr hmeets => ?_) p
  · obtain ⟨hr, heq⟩ := List.mem_filter.mp hr
    have heq : r.1 = offset.toNat := by simpa using heq
    by_cases hmeets : r.Meets offset.toNat (offset.toNat + data.length)
    · rcases hown r hr hmeets with hlt | ⟨-, hle⟩
      · omega
      · omega
    · have hpos := List.length_pos_iff.mpr hne
      unfold Region.Meets at hmeets
      omega
  · obtain ⟨hr, hlt⟩ := List.mem_filter.mp hr
    have hlt : offset.toNat < r.1 := by simpa using hlt
    rcases hown r hr hmeets with hlt' | ⟨heq, -⟩
    · omega
    · omega

theorem staged_evict (cm : ContentManager) (fd : Int) :
    (cm.evict fd).staged = Function.update cm.staged fd [] := by
  funext fd'
  unfold staged evict
  by_cases h : fd' = fd
  · subst h
    rw [Function.update_self]
    dsimp only
    rw [AList.lookup_erase]
  · rw [Function.update_of_ne h]
    dsimp only
    rw [AList.lookup_erase_ne h]

theorem Holds.evict (h : cm.Holds filepath) (fd : Int) : (cm.evict fd).Holds filepath := by
  intro fd' cache hl
  unfold ContentManager.evict at hl
  dsimp only at hl
  by_cases he : fd' = fd
  · subst he
    rw [AList.lookup_erase] at hl
    exact absurd hl (by simp)
  · rw [AList.lookup_erase_ne he] at hl
    exact h fd' cache hl

/-! ## Reads -/

/-- The bytes that a region has of the range from `first` up to `stop`. -/
def overlapLength (first stop : Nat) (r : Region) : Nat :=
  min (r.1 + r.2.length) stop - max r.1 first

/-- The overlap lengths add up to the size, so that `cache_read` answers. -/
def Answers (cm : ContentManager) (fd : Int) (offset count : Nat) : Prop :=
  (cm.caches.lookup fd).any (fun cache => cache.readPolicy = .readThrough) = true ∧
    count ≤ ((cm.lookedAt fd offset).map (overlapLength offset (offset + count))).sum

instance (cm : ContentManager) (fd : Int) (offset count : Nat) :
    Decidable (cm.Answers fd offset count) := inferInstanceAs (Decidable (_ ∧ _))

end ContentManager

section ReadLoop

variable {offset reqEnd : Nat} {regions : List Region}

/-- The loop copies, for every byte, the last region that covers it, and adds up
the overlap lengths. -/
theorem readLoop_spec (result : List UInt8) (covered : Nat)
    (hsorted : regions.Pairwise fun a b => a.1 < b.1)
    (hsized : ∀ r ∈ regions, r.1 + r.2.length < 2 ^ 64) (hlength : offset + result.length = reqEnd) :
    (readLoop offset reqEnd regions result covered).1.length = result.length ∧
      (∀ p, offset ≤ p → p < reqEnd →
        byteIn (readLoop offset reqEnd regions result covered).1 (p - offset) =
          (lastAt regions p).getD (byteIn result (p - offset))) ∧
      (readLoop offset reqEnd regions result covered).2 =
        covered + (regions.map (ContentManager.overlapLength offset reqEnd)).sum := by
  induction regions generalizing result covered with
  | nil => exact ⟨rfl, fun p _ _ => rfl, rfl⟩
  | cons r rest ih =>
      obtain ⟨hfirst, hrest⟩ := List.pairwise_cons.mp hsorted
      have hend : (r.1 + r.2.length) % 2 ^ 64 = r.1 + r.2.length :=
        Nat.mod_eq_of_lt (hsized r List.mem_cons_self)
      have hsized' : ∀ r' ∈ rest, r'.1 + r'.2.length < 2 ^ 64 :=
        fun r' hr' => hsized r' (List.mem_cons_of_mem _ hr')
      rw [readLoop, hend]
      dsimp only
      by_cases hpast : reqEnd ≤ r.1
      · -- this region and all behind it start past the range
        rw [if_pos hpast]
        have hpast' : ∀ r' ∈ r :: rest, reqEnd ≤ r'.1 := by
          intro r' hr'
          rcases List.mem_cons.mp hr' with rfl | hr'
          · exact hpast
          · exact hpast.trans (Nat.le_of_lt (hfirst r' hr'))
        refine ⟨rfl, fun p _ hp => ?_, ?_⟩
        · rw [lastAt_eq_none.mpr fun r' hr' hc => by
            have := hpast' r' hr'
            unfold Region.Covers at hc
            omega]
          rfl
        · have hzero : ((r :: rest).map (ContentManager.overlapLength offset reqEnd)).sum = 0 := by
            refine List.sum_eq_zero_iff_forall_eq_nat.mpr fun n hn => ?_
            obtain ⟨r', hr', rfl⟩ := List.mem_map.mp hn
            have := hpast' r' hr'
            unfold ContentManager.overlapLength
            omega
          rw [hzero]
          rfl
      · rw [if_neg hpast]
        by_cases hbefore : r.1 + r.2.length ≤ offset
        · rw [if_pos hbefore]
          obtain ⟨h1, h2, h3⟩ := ih result covered hrest hsized' hlength
          refine ⟨h1, fun p hlo hhi => ?_, ?_⟩
          · rw [h2 p hlo hhi, lastAt_cons, if_neg (by unfold Region.Covers; omega), Option.or_none]
          · rw [h3, List.map_cons, List.sum_cons]
            unfold ContentManager.overlapLength
            omega
        · rw [if_neg hbefore]
          -- the bytes of the region that are copied
          let piece := (r.2.drop (max r.1 offset - r.1)).take
            (min (r.1 + r.2.length) reqEnd - max r.1 offset)
          have hpiece : piece.length = min (r.1 + r.2.length) reqEnd - max r.1 offset := by
            simp only [piece, List.length_take, List.length_drop]
            omega
          have hkeep : (writeAt result (max r.1 offset - offset) piece).length = result.length :=
            length_writeAt_of_le (by omega)
          obtain ⟨h1, h2, h3⟩ := ih (writeAt result (max r.1 offset - offset) piece)
            (covered + (min (r.1 + r.2.length) reqEnd - max r.1 offset)) hrest hsized' (by omega)
          refine ⟨h1.trans hkeep, fun p hlo hhi => ?_, ?_⟩
          · rw [h2 p hlo hhi, lastAt_cons]
            cases lastAt rest p with
            | some b => rfl
            | none =>
                rw [Option.none_or, Option.getD_none]
                by_cases hc : r.Covers p
                · obtain ⟨hc1, hc2⟩ := hc
                  rw [if_pos ⟨hc1, hc2⟩, byteIn_writeAt_inside (by omega) (by omega)]
                  simp only [piece, byteIn]
                  rw [List.getElem?_take_of_lt (by omega), List.getElem?_drop,
                    show max r.1 offset - r.1 + (p - offset - (max r.1 offset - offset)) = p - r.1
                      by omega, getElem?_of_covers ⟨hc1, hc2⟩]
                  rfl
                · rw [if_neg hc, Option.getD_none]
                  unfold Region.Covers at hc
                  exact byteIn_writeAt_outside (by omega)
          · rw [h3, List.map_cons, List.sum_cons, ContentManager.overlapLength, Nat.add_assoc]

end ReadLoop

namespace ContentManager

variable {cm : ContentManager} {fd : Int} {offset size : UInt64}

theorem lookedAt_suffix (cm : ContentManager) (fd : Int) (offset : Nat) :
    ∃ front, cm.staged fd = front ++ cm.lookedAt fd offset := by
  unfold staged lookedAt
  cases cm.caches.lookup fd with
  | none => exact ⟨[], rfl⟩
  | some cache => exact cache.regions.entries_eq_append_fromFloor offset

/-- `cache_read` answers exactly when the overlap lengths reach the size, and
then with the last region that it looked at, zeros where there is none. -/
theorem cacheRead_eq (hsized : ∀ r ∈ cm.staged fd, r.1 + r.2.length < 2 ^ 64)
    (hpos : 0 < size.toNat) (hbound : offset.toNat + size.toNat < 2 ^ 64) :
    cm.cacheRead fd offset size =
      if cm.Answers fd offset.toNat size.toNat then
        some ((List.range' offset.toNat size.toNat).map fun p =>
          (lastAt (cm.lookedAt fd offset.toNat) p).getD 0)
      else none := by
  have hend : (offset + size).toNat = offset.toNat + size.toNat := by
    rw [UInt64.toNat_add, Nat.mod_eq_of_lt hbound]
  cases hl : cm.caches.lookup fd with
  | none =>
      have hnot : ¬cm.Answers fd offset.toNat size.toNat := by
        unfold Answers
        rw [hl]
        simp
      rw [if_neg hnot, cacheRead, hl]
  | some cache =>
      have hstaged : cm.staged fd = cache.regions.entries := by rw [staged, hl]
      have hlooked : cm.lookedAt fd offset.toNat = cache.regions.fromFloor offset.toNat := by
        rw [lookedAt, hl]
      rw [hstaged] at hsized
      obtain ⟨front, hfront⟩ := cache.regions.entries_eq_append_fromFloor offset.toNat
      obtain ⟨h1, h2, h3⟩ := readLoop_spec (List.replicate size.toNat 0) 0
        (cache.regions.sorted_fromFloor offset.toNat)
        (fun r hr => hsized r (by rw [hfront]; exact List.mem_append_right _ hr))
        (show offset.toNat + (List.replicate size.toNat 0).length = offset.toNat + size.toNat by
          rw [List.length_replicate])
      have hresult : (readLoop offset.toNat (offset.toNat + size.toNat)
          (cache.regions.fromFloor offset.toNat) (List.replicate size.toNat 0) 0).1 =
          (List.range' offset.toNat size.toNat).map fun p =>
            (lastAt (cm.lookedAt fd offset.toNat) p).getD 0 := by
        rw [List.length_replicate] at h1
        apply List.ext_getElem?
        intro k
        rw [List.getElem?_map]
        by_cases hk : k < size.toNat
        · have hbyte := h2 (offset.toNat + k) (by omega) (by omega)
          rw [Nat.add_sub_cancel_left] at hbyte
          rw [getElem?_eq_byteIn (by omega), hbyte, List.getElem?_range' hk, hlooked]
          simp [byteIn, hk]
        · rw [List.getElem?_eq_none (by omega), List.getElem?_eq_none (by simp; omega)]
          rfl
      rw [cacheRead, hl]
      dsimp only
      rw [hend, h3, hresult]
      have hanswers : cm.Answers fd offset.toNat size.toNat ↔ cache.readPolicy = .readThrough ∧
          size.toNat ≤ ((cache.regions.fromFloor offset.toNat).map
            (overlapLength offset.toNat (offset.toNat + size.toNat))).sum := by
        unfold Answers
        rw [hl, hlooked]
        simp
      cases hpolicy : cache.readPolicy with
      | writeOnly =>
          rw [hpolicy] at hanswers
          rw [if_pos rfl, if_neg fun h => absurd (hanswers.mp h).1 (by decide)]
      | readThrough =>
          rw [hpolicy] at hanswers
          rw [if_neg (by decide), Nat.zero_add]
          by_cases hfull : size.toNat ≤
              ((cache.regions.fromFloor offset.toNat).map
                (overlapLength offset.toNat (offset.toNat + size.toNat))).sum
          · rw [if_neg (by omega), if_neg (by omega), if_pos (hanswers.mpr ⟨rfl, hfull⟩)]
          · rw [if_neg fun h => hfull (hanswers.mp h).2]
            by_cases hzero : ((cache.regions.fromFloor offset.toNat).map
                (overlapLength offset.toNat (offset.toNat + size.toNat))).sum = 0
            · rw [if_pos hzero]
            · rw [if_neg hzero, if_pos (by omega)]

end ContentManager

end Labios
