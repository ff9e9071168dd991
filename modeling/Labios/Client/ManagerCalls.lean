import Labios.Client.SmallCache

/-!
# Calls on the small-I/O cache

All calls of `ContentManager` that look at or change the caches, on any descriptors, with
`set_read_policy`. What a flush keeps of a cache, `flush_all` keeps too (`map_lookup_flushAll`).
-/

namespace Labios

open Foundation

namespace ContentManager

def setReadPolicy (cm : ContentManager) (fd : Int) (policy : ReadPolicy) : ContentManager :=
  { cm with
    caches := cm.caches.insert fd { (cm.caches.lookup fd).getD {} with readPolicy := policy } }

inductive Call
  | setReadPolicy (fd : Int) (policy : ReadPolicy)
  | cacheWrite (fd : Int) (filepath : String) (offset : UInt64) (data : List UInt8)
  | cacheRead (fd : Int) (offset size : UInt64)
  | flush (fd : Int)
  | flushAll
  | evict (fd : Int)

def call (cm : ContentManager) : Call → ContentManager
  | .setReadPolicy fd policy => cm.setReadPolicy fd policy
  | .cacheWrite fd filepath offset data => (cm.cacheWrite fd filepath offset data).2
  | .cacheRead _ _ _ => cm
  | .flush fd => (cm.flush fd).2
  | .flushAll => cm.flushAll.2
  | .evict fd => cm.evict fd

/-- A manager that has just been constructed. -/
def start (minLabelSize : UInt64) (defaultReadPolicy : ReadPolicy) : ContentManager :=
  { minLabelSize, defaultReadPolicy }

def run (cm : ContentManager) (calls : List Call) : ContentManager := calls.foldl call cm

theorem run_append (cm : ContentManager) (front back : List Call) :
    cm.run (front ++ back) = (cm.run front).run back := List.foldl_append

/-! ## Flushes -/

variable {cm : ContentManager} {fd fd' : Int}

theorem lookup_flush_self {cache : FdCache} (h : cm.caches.lookup fd = some cache) :
    (cm.flush fd).2.caches.lookup fd = some (flushLocked cache).2 := by
  unfold flush
  rw [h]
  exact AList.lookup_insert _

theorem lookup_flush_of_ne (h : fd' ≠ fd) :
    (cm.flush fd).2.caches.lookup fd' = cm.caches.lookup fd' := by
  unfold flush
  cases cm.caches.lookup fd with
  | none => rfl
  | some cache => exact AList.lookup_insert_ne h

/-- What of a cache a flush leaves as it is. -/
theorem map_lookup_flush {γ : Type} {g : FdCache → γ}
    (hg : ∀ cache, g (flushLocked cache).2 = g cache) (cm : ContentManager) (fd fd' : Int) :
    ((cm.flush fd).2.caches.lookup fd').map g = (cm.caches.lookup fd').map g := by
  by_cases heq : fd' = fd
  · subst heq
    cases hlookup : cm.caches.lookup fd' with
    | none =>
        unfold flush
        rw [hlookup]
        exact congrArg _ hlookup
    | some cache => rw [lookup_flush_self hlookup, Option.map_some, Option.map_some, hg]
  · rw [lookup_flush_of_ne heq]

@[simp] theorem flush_minLabelSize (cm : ContentManager) (fd : Int) :
    (cm.flush fd).2.minLabelSize = cm.minLabelSize := by
  unfold flush
  split
  · rfl
  · rfl

@[simp] theorem flush_defaultReadPolicy (cm : ContentManager) (fd : Int) :
    (cm.flush fd).2.defaultReadPolicy = cm.defaultReadPolicy := by
  unfold flush
  split
  · rfl
  · rfl

/-- The step of the loop of `flush_all`. -/
def flushNext (out : List (Int × List FlushRegion) × ContentManager) (fd : Int) :
    List (Int × List FlushRegion) × ContentManager :=
  match out.2.caches.lookup fd with
  | none => out
  | some cache =>
      if 0 < cache.totalBytes then (out.1 ++ [(fd, (out.2.flush fd).1)], (out.2.flush fd).2)
      else out

theorem flushAll_eq (cm : ContentManager) : cm.flushAll = cm.caches.keys.foldl flushNext ([], cm) :=
  rfl

/-- A step flushes its descriptor, or does nothing. -/
theorem flushNext_snd (out : List (Int × List FlushRegion) × ContentManager) (fd : Int) :
    (flushNext out fd).2 = (out.2.flush fd).2 ∨ (flushNext out fd).2 = out.2 := by
  unfold flushNext
  split
  · exact .inr rfl
  · split
    · exact .inl rfl
    · exact .inr rfl

/-- What every flush keeps, the timer's flush keeps. -/
theorem flushAll_kept {P : ContentManager → Prop} (hkept : ∀ cm fd, P cm → P (cm.flush fd).2)
    (h : P cm) : P cm.flushAll.2 := by
  have hloop : ∀ (keys : List Int) (out : List (Int × List FlushRegion) × ContentManager),
      P out.2 → P (keys.foldl flushNext out).2 := by
    intro keys
    induction keys with
    | nil => exact fun out hout => hout
    | cons fd rest ih =>
        intro out hout
        refine ih _ ?_
        rcases flushNext_snd out fd with heq | heq
        · rw [heq]
          exact hkept _ _ hout
        · rwa [heq]
  rw [flushAll_eq]
  exact hloop _ _ h

theorem map_lookup_flushAll {γ : Type} {g : FdCache → γ}
    (hg : ∀ cache, g (flushLocked cache).2 = g cache) (cm : ContentManager) (fd : Int) :
    (cm.flushAll.2.caches.lookup fd).map g = (cm.caches.lookup fd).map g :=
  flushAll_kept (P := fun reached =>
    (reached.caches.lookup fd).map g = (cm.caches.lookup fd).map g)
    (fun reached fd' h => (map_lookup_flush hg reached fd' fd).trans h) rfl

/-- What the loop has handed out stays handed out. -/
theorem mem_foldl_flushNext {p : Int × List FlushRegion} (keys : List Int)
    {out : List (Int × List FlushRegion) × ContentManager} (hp : p ∈ out.1) :
    p ∈ (keys.foldl flushNext out).1 := by
  induction keys generalizing out with
  | nil => exact hp
  | cons key rest ih =>
      refine ih ?_
      unfold flushNext
      split
      · exact hp
      · split
        · exact List.mem_append_left _ hp
        · exact hp

/-- The loop hands out the regions of every descriptor that has bytes. -/
theorem mem_flushNext {keys : List Int} (hnodup : keys.Nodup)
    (out : List (Int × List FlushRegion) × ContentManager) {cache : FdCache} (hfd : fd ∈ keys)
    (hcache : out.2.caches.lookup fd = some cache) (hbytes : 0 < cache.totalBytes) :
    (fd, (out.2.flush fd).1) ∈ (keys.foldl flushNext out).1 := by
  induction keys generalizing out with
  | nil => exact absurd hfd List.not_mem_nil
  | cons key rest ih =>
      obtain ⟨hkey, hrest⟩ := List.nodup_cons.mp hnodup
      rw [List.foldl_cons]
      by_cases heq : fd = key
      · subst heq
        refine mem_foldl_flushNext rest ?_
        unfold flushNext
        rw [hcache]
        dsimp only
        rw [if_pos hbytes]
        exact List.mem_append_right _ (List.mem_singleton.mpr rfl)
      · have hmem : fd ∈ rest := (List.mem_cons.mp hfd).resolve_left heq
        -- the flush of another descriptor leaves this one alone
        have hsame : (flushNext out key).2.caches.lookup fd = out.2.caches.lookup fd := by
          rcases flushNext_snd out key with hstep | hstep
          · rw [hstep]
            exact lookup_flush_of_ne heq
          · rw [hstep]
        have hregions : ((flushNext out key).2.flush fd).1 = (out.2.flush fd).1 := by
          unfold flush
          rw [hsame, hcache]
        rw [← hregions]
        exact ih hrest _ hmem (hsame.trans hcache)

theorem mem_flushAll {cache : FdCache} (hcache : cm.caches.lookup fd = some cache)
    (hbytes : 0 < cache.totalBytes) : (fd, (cm.flush fd).1) ∈ cm.flushAll.1 := by
  have hfd : fd ∈ cm.caches.keys :=
    AList.mem_keys.mp (AList.lookup_isSome.mp (Option.isSome_of_mem hcache))
  rw [flushAll_eq]
  exact mem_flushNext cm.caches.keys_nodup ([], cm) hfd hcache hbytes

end ContentManager
end Labios
