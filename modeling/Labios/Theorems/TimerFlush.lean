import Labios.Client.SmallCache
import Labios.Foundation.Machine

/-!
# The flush timer beside the application

One descriptor of one path. The application writes, reads and calls `fsync`; the
thread of `start_flush_timer` takes all regions out of the cache from time to time.
Every access to the cache is one step under its lock; the regions that a step took
out are published one by one afterwards, by the thread that took them. What a thread
holds in between is neither in the cache nor published.

`Tracks` says where the newest bytes are: what is published, then what the timer
holds, then what the application holds, then what is staged.
-/

namespace Labios

open Foundation

/-- What was published: a region of the cache, or a read. -/
inductive Issued where
  | write (region : FlushRegion)
  | read (offset count : UInt64)
  deriving DecidableEq, Repr

/-- Where the application is, with the regions that it still has to publish. -/
inductive AppPhase where
  | idle
  | writing (regions : List FlushRegion)
  | missed (offset count : UInt64)
  | reading (offset count : UInt64) (regions : List FlushRegion)
  | syncing (regions : List FlushRegion)
  deriving DecidableEq, Repr

def AppPhase.hand : AppPhase → List FlushRegion
  | .idle | .missed _ _ => []
  | .writing regions | .reading _ _ regions | .syncing regions => regions

def AppPhase.withHand (rest : List FlushRegion) : AppPhase → AppPhase
  | .writing _ => .writing rest
  | .reading offset count _ => .reading offset count rest
  | .syncing _ => .syncing rest
  | phase => phase

structure TimerState where
  content : ContentManager
  app : AppPhase := .idle
  timer : List FlushRegion := []
  issued : List Issued := []
  written : List Region := []

inductive TimerAction where
  | cacheWrite (offset : UInt64) (data : List UInt8)
  | writeReturns
  | cacheRead (offset count : UInt64)
  | flushForRead
  | publishRead
  | flushForSync
  | syncReturns
  | appPublishes
  | timerFlushes
  | timerPublishes
  deriving DecidableEq, Repr

namespace TimerState

/-- One step of `do_write`, `do_read` or `fsync`, or of the timer's loop. -/
def step (fd : Int) (path : String) (s : TimerState) : TimerAction → Option TimerState
  | .cacheWrite offset data =>
      match s.app with
      | .idle =>
          if data ≠ [] ∧ UInt64.ofNat data.length < s.content.minLabelSize then
            let (regions, content) := s.content.cacheWrite fd path offset data
            some { s with
              content
              app := .writing regions
              written := s.written ++ [(offset.toNat, data)] }
          else none
      | _ => none
  | .writeReturns =>
      match s.app with
      | .writing [] => some { s with app := .idle }
      | _ => none
  | .cacheRead offset count =>
      match s.app with
      | .idle =>
          match (s.content.cacheRead fd offset count).filter
              fun data => data.length = count.toNat with
          | some _ => some s
          | none => some { s with app := .missed offset count }
      | _ => none
  | .flushForRead =>
      match s.app with
      | .missed offset count =>
          let (regions, content) := s.content.flush fd
          some { s with content, app := .reading offset count regions }
      | _ => none
  | .publishRead =>
      match s.app with
      | .reading offset count [] =>
          some { s with app := .idle, issued := s.issued ++ [.read offset count] }
      | _ => none
  | .flushForSync =>
      match s.app with
      | .idle =>
          let (regions, content) := s.content.flush fd
          some { s with content, app := .syncing regions }
      | _ => none
  | .syncReturns =>
      match s.app with
      | .syncing [] => some { s with app := .idle }
      | _ => none
  | .appPublishes =>
      match s.app.hand with
      | region :: rest =>
          some { s with app := s.app.withHand rest, issued := s.issued ++ [.write region] }
      | [] => none
  | .timerFlushes =>
      match s.timer with
      | [] =>
          let (flushed, content) := s.content.flushAll
          some { s with content, timer := flushed.flatMap (·.2) }
      | _ => none
  | .timerPublishes =>
      match s.timer with
      | region :: rest =>
          some { s with timer := rest, issued := s.issued ++ [.write region] }
      | [] => none

end TimerState

/-! ## What is where -/

def Issued.region? : Issued → Option Region
  | .write region => some region.region
  | .read _ _ => none

namespace TimerState

/-- The regions that were published, in this order. -/
def published (s : TimerState) : List Region := s.issued.filterMap Issued.region?

/-- What was taken out of the cache or is still there, oldest first. -/
def pending (fd : Int) (s : TimerState) : List Region :=
  s.timer.map FlushRegion.region ++ (s.app.hand.map FlushRegion.region ++ s.content.staged fd)

/-- Every byte was published as it was written last. -/
def UpToDate (s : TimerState) : Prop := ∀ p, lastAt s.published p = lastAt s.written p


end TimerState

/-- The phase follows a flush whose regions the application took. -/
def AppPhase.Flushed : AppPhase → Prop
  | .idle | .missed _ _ => False
  | .writing regions => regions ≠ []
  | .reading _ _ _ | .syncing _ => True

theorem AppPhase.flushed_of_hand {app : AppPhase} (h : app.hand ≠ []) : app.Flushed := by
  cases app with
  | idle => exact h rfl
  | missed offset count => exact h rfl
  | writing regions => exact h
  | reading offset count regions => trivial
  | syncing regions => trivial

structure Tracks (fd : Int) (path : String) (s : TimerState) : Prop where
  only : s.content.Only fd
  holds : s.content.Holds path
  keyed : ∀ r ∈ s.content.staged fd, r.1 < 2 ^ 64
  flushed : s.app.Flushed → s.content.staged fd = []
  newest : ∀ p, lastAt (s.published ++ s.pending fd) p = lastAt s.written p

/-! ## The condition -/

/-- No region in the timer's hands meets one that the application publishes, and
`fsync` returns and a read is published when the timer's hands are empty. A write
meets a staged region only if that starts before it, or where it starts and is not
longer. -/
def TimerState.Calm (fd : Int) (s : TimerState) : TimerAction → Prop
  | .cacheWrite offset data =>
      ∀ r ∈ s.content.staged fd, r.Meets offset.toNat (offset.toNat + data.length) →
        r.1 < offset.toNat ∨ r.1 = offset.toNat ∧ r.2.length ≤ data.length
  | .appPublishes =>
      ∀ region ∈ s.app.hand.head?, ∀ other ∈ s.timer,
        ¬other.region.Meets region.offset.toNat (region.offset.toNat + region.data.length)
  | .syncReturns | .publishRead => s.timer = []
  | .writeReturns | .cacheRead _ _ | .flushForRead | .flushForSync | .timerFlushes
  | .timerPublishes => True

instance TimerState.decidableCalm (fd : Int) (s : TimerState) :
    (a : TimerAction) → Decidable (s.Calm fd a)
  | .cacheWrite _ _ => inferInstanceAs (Decidable (∀ r ∈ s.content.staged fd, _))
  | .appPublishes => inferInstanceAs (Decidable (∀ region ∈ s.app.hand.head?, _))
  | .syncReturns | .publishRead => inferInstanceAs (Decidable (s.timer = []))
  | .writeReturns | .cacheRead _ _ | .flushForRead | .flushForSync | .timerFlushes
  | .timerPublishes => inferInstanceAs (Decidable True)

/-! ## Steps -/

section Steps

variable {fd : Int} {path : String} {s s' : TimerState}

theorem published_write (issued : List Issued) (region : FlushRegion) :
    (issued ++ [Issued.write region]).filterMap Issued.region? =
      issued.filterMap Issued.region? ++ [region.region] := by
  rw [List.filterMap_append]
  rfl

/-- A flush of the descriptor, as the regions that leave the cache. -/
theorem Tracks.flush_eq (h : Tracks fd path s) :
    ∃ content, s.content.flush fd = ((s.content.staged fd).map (toFlush path), content) ∧
      content.Only fd ∧ content.Holds path ∧ content.staged fd = [] := by
  obtain ⟨content, hflush, hholds, hstaged⟩ := ContentManager.flush_eq h.holds fd
  refine ⟨content, hflush, ?_, hholds, ?_⟩
  · have := h.only.flush
    rwa [hflush] at this
  · rw [hstaged, Function.update_self]

/-- The regions that the application takes out stay where they are in the order. -/
theorem Tracks.taken (h : Tracks fd path s) (hhand : s.app.hand = []) {content : ContentManager}
    {app : AppPhase} (hflush : s.content.flush fd =
      ((s.content.staged fd).map (toFlush path), content))
    (hhand' : app.hand = (s.content.staged fd).map (toFlush path)) :
    Tracks fd path { s with content, app } := by
  obtain ⟨content', hflush', honly, hholds, hstaged⟩ := h.flush_eq
  rw [hflush] at hflush'
  obtain rfl : content = content' := congrArg Prod.snd hflush'
  refine ⟨honly, hholds, fun r hr => ?_, fun _ => hstaged, fun p => ?_⟩
  · dsimp only at hr
    rw [hstaged] at hr
    exact absurd hr List.not_mem_nil
  · have hnewest := h.newest p
    unfold TimerState.pending at hnewest ⊢
    rw [hhand, List.map_nil, List.nil_append] at hnewest
    dsimp only
    rw [hhand', regions_toFlush h.keyed, hstaged, List.append_nil]
    exact hnewest

theorem Tracks.timerFlushes (h : Tracks fd path s) (hidle : s.timer = []) :
    Tracks fd path
      { s with content := s.content.flushAll.2, timer := s.content.flushAll.1.flatMap (·.2) } := by
  rcases ContentManager.flushAll_of_only h.only with ⟨regions, hall, hregions⟩ | hall
  · obtain ⟨content, hflush, honly, hholds, hstaged⟩ := h.flush_eq
    rw [hflush] at hall hregions
    dsimp only at hall hregions
    rw [hall, ← hregions]
    refine ⟨honly, hholds, fun r hr => ?_, fun _ => hstaged, fun p => ?_⟩
    · dsimp only at hr
      rw [hstaged] at hr
      exact absurd hr List.not_mem_nil
    · have hnewest := h.newest p
      unfold TimerState.pending at hnewest ⊢
      rw [hidle, List.map_nil, List.nil_append] at hnewest
      dsimp only
      rw [List.flatMap_singleton, regions_toFlush h.keyed, hstaged, List.append_nil]
      by_cases hhand : s.app.hand = []
      · rw [hhand, List.map_nil, List.nil_append] at hnewest
        rw [hhand, List.map_nil, List.append_nil]
        exact hnewest
      · -- behind a flush of the application there is nothing to take
        have hnone : s.content.staged fd = [] := h.flushed (AppPhase.flushed_of_hand hhand)
        rw [hnone, List.append_nil] at hnewest
        rw [hnone, List.nil_append]
        exact hnewest
  · rw [hall]
    dsimp only
    rw [List.flatMap_nil, ← hidle]
    exact h

/-- A region of the timer is the oldest one that is not published. -/
theorem Tracks.timerPublishes (h : Tracks fd path s) {region : FlushRegion}
    {rest : List FlushRegion} (htimer : s.timer = region :: rest) :
    Tracks fd path { s with timer := rest, issued := s.issued ++ [.write region] } := by
  refine ⟨h.only, h.holds, h.keyed, h.flushed, fun p => ?_⟩
  have hnewest := h.newest p
  unfold TimerState.pending TimerState.published at hnewest ⊢
  rw [htimer, List.map_cons, List.cons_append, ← List.singleton_append,
    ← List.append_assoc] at hnewest
  dsimp only
  rw [published_write]
  exact hnewest

theorem withHand_hand {app : AppPhase} {region : FlushRegion} {rest : List FlushRegion}
    (h : app.hand = region :: rest) (hands : List FlushRegion) :
    (app.withHand hands).hand = hands := by
  cases app with
  | idle => cases h
  | missed offset count => cases h
  | writing regions => rfl
  | reading offset count regions => rfl
  | syncing regions => rfl

/-- The application overtakes the timer, which holds nothing of the same bytes. -/
theorem Tracks.appPublishes (h : Tracks fd path s) {region : FlushRegion}
    {rest : List FlushRegion} (hhand : s.app.hand = region :: rest)
    (hfree : ∀ other ∈ s.timer,
      ¬other.region.Meets region.offset.toNat (region.offset.toNat + region.data.length)) :
    Tracks fd path
      { s with app := s.app.withHand rest, issued := s.issued ++ [.write region] } := by
  have hflushed : s.content.staged fd = [] :=
    h.flushed (AppPhase.flushed_of_hand (by rw [hhand]; exact List.cons_ne_nil region rest))
  refine ⟨h.only, h.holds, h.keyed, fun _ => hflushed, fun p => ?_⟩
  have hnewest := h.newest p
  unfold TimerState.pending TimerState.published at hnewest ⊢
  dsimp only
  rw [withHand_hand hhand, published_write, ← hnewest, hhand, List.map_cons]
  by_cases hcovers : region.region.Covers p
  · have htimer : lastAt (s.timer.map FlushRegion.region) p = none := by
      refine lastAt_eq_none.mpr fun r hr hc => ?_
      obtain ⟨other, hother, rfl⟩ := List.mem_map.mp hr
      exact hfree other hother (hc.meets hcovers.1 hcovers.2)
    simp only [lastAt_append, lastAt_cons, lastAt_nil, htimer, Option.or_none, Option.none_or,
      Option.or_assoc, List.cons_append]
  · simp only [lastAt_append, lastAt_cons, lastAt_nil, hcovers, if_false, Option.or_none,
      Option.none_or, Option.or_assoc, List.cons_append]

/-- A write is the newest for each of its bytes, staged or taken out again. -/
theorem Tracks.cacheWrite (h : Tracks fd path s) (hidle : s.app = .idle) {offset : UInt64}
    {data : List UInt8} (hne : data ≠ [])
    (hown : ∀ r ∈ s.content.staged fd, r.Meets offset.toNat (offset.toNat + data.length) →
      r.1 < offset.toNat ∨ r.1 = offset.toNat ∧ r.2.length ≤ data.length) :
    Tracks fd path { s with
      content := (s.content.cacheWrite fd path offset data).2
      app := .writing (s.content.cacheWrite fd path offset data).1
      written := s.written ++ [(offset.toNat, data)] } := by
  have hkeyed : ∀ r ∈ s.content.afterWrite fd offset data, r.1 < 2 ^ 64 := by
    intro r hr
    rcases ContentManager.mem_afterWrite.mp hr with rfl | ⟨hstaged, -⟩
    · exact UInt64.toNat_lt offset
    · exact h.keyed r hstaged
  -- wherever the regions are, they come last and the written one behind them
  have hlast : ∀ p, lastAt (s.published ++ (s.timer.map FlushRegion.region ++
      s.content.afterWrite fd offset data)) p =
        lastAt (s.written ++ [(offset.toNat, data)]) p := by
    intro p
    have hnewest := h.newest p
    unfold TimerState.pending at hnewest
    rw [hidle, show AppPhase.idle.hand.map FlushRegion.region = [] from rfl,
      List.nil_append] at hnewest
    rw [lastAt_append s.written, ← hnewest]
    simp only [lastAt_append, ContentManager.lastAt_afterWrite hne hown, Option.or_assoc]
  have honly := h.only.cacheWrite path offset data
  rcases ContentManager.cacheWrite_cases h.holds fd offset data with
    ⟨content, hwrite, hholds, hstaged⟩ | ⟨content, hwrite, hholds, hstaged⟩
  · rw [hwrite] at honly ⊢
    have hstaged' : content.staged fd = s.content.afterWrite fd offset data := by
      rw [hstaged, Function.update_self]
    refine ⟨honly, hholds, fun r hr => ?_, fun hflushed => absurd rfl hflushed, fun p => ?_⟩
    · dsimp only at hr
      rw [hstaged'] at hr
      exact hkeyed r hr
    · show lastAt (s.published ++ (s.timer.map FlushRegion.region ++
        ([] ++ content.staged fd))) p = _
      rw [hstaged', List.nil_append]
      exact hlast p
  · rw [hwrite] at honly ⊢
    have hstaged' : content.staged fd = [] := by rw [hstaged, Function.update_self]
    refine ⟨honly, hholds, fun r hr => ?_, fun _ => hstaged', fun p => ?_⟩
    · dsimp only at hr
      rw [hstaged'] at hr
      exact absurd hr List.not_mem_nil
    · show lastAt (s.published ++ (s.timer.map FlushRegion.region ++
        (((s.content.afterWrite fd offset data).map (toFlush path)).map FlushRegion.region ++
          content.staged fd))) p = _
      rw [hstaged', List.append_nil, regions_toFlush hkeyed]
      exact hlast p

/-- The regions stay where they are when only the phase moves on. -/
theorem Tracks.phase (h : Tracks fd path s) {app : AppPhase} (hhand : app.hand = s.app.hand)
    (hflushed : app.Flushed → s.app.Flushed) {issued : List Issued}
    (hissued : issued.filterMap Issued.region? = s.issued.filterMap Issued.region?) :
    Tracks fd path { s with app, issued } := by
  refine ⟨h.only, h.holds, h.keyed, fun hf => h.flushed (hflushed hf), fun p => ?_⟩
  have hnewest := h.newest p
  unfold TimerState.pending TimerState.published at hnewest ⊢
  dsimp only
  rw [hhand, hissued]
  exact hnewest

/-- Every step that meets the condition keeps the newest bytes in order. -/
theorem Tracks.step (h : Tracks fd path s) {a : TimerAction} (hcalm : s.Calm fd a)
    (hstep : s.step fd path a = some s') : Tracks fd path s' := by
  cases a with
  | cacheWrite offset data =>
      unfold TimerState.step at hstep
      cases happ : s.app with
      | idle =>
          rw [happ] at hstep
          dsimp only at hstep
          split at hstep
          · next hsmall =>
              obtain rfl := Option.some.inj hstep
              exact h.cacheWrite happ hsmall.1 hcalm
          · cases hstep
      | _ =>
          rw [happ] at hstep
          cases hstep
  | writeReturns =>
      unfold TimerState.step at hstep
      dsimp only at hstep
      split at hstep
      · next happ =>
          obtain rfl := Option.some.inj hstep
          exact h.phase (by rw [happ]; rfl) (fun hf => absurd hf id) rfl
      · cases hstep
  | cacheRead offset count =>
      unfold TimerState.step at hstep
      dsimp only at hstep
      split at hstep
      · next happ =>
          split at hstep
          · obtain rfl := Option.some.inj hstep
            exact h
          · obtain rfl := Option.some.inj hstep
            exact h.phase (by rw [happ]; rfl) (fun hf => absurd hf id) rfl
      · cases hstep
  | flushForRead =>
      unfold TimerState.step at hstep
      dsimp only at hstep
      split at hstep
      · next offset count happ =>
          obtain rfl := Option.some.inj hstep
          obtain ⟨content, hflush, -⟩ := h.flush_eq
          rw [hflush]
          exact h.taken (by rw [happ]; rfl) hflush rfl
      · cases hstep
  | publishRead =>
      unfold TimerState.step at hstep
      dsimp only at hstep
      split at hstep
      · next offset count happ =>
          obtain rfl := Option.some.inj hstep
          refine h.phase (by rw [happ]; rfl) (fun hf => absurd hf id) ?_
          rw [List.filterMap_append]
          exact List.append_nil _
      · cases hstep
  | flushForSync =>
      unfold TimerState.step at hstep
      dsimp only at hstep
      split at hstep
      · next happ =>
          obtain rfl := Option.some.inj hstep
          obtain ⟨content, hflush, -⟩ := h.flush_eq
          rw [hflush]
          exact h.taken (by rw [happ]; rfl) hflush rfl
      · cases hstep
  | syncReturns =>
      unfold TimerState.step at hstep
      dsimp only at hstep
      split at hstep
      · next happ =>
          obtain rfl := Option.some.inj hstep
          exact h.phase (by rw [happ]; rfl) (fun hf => absurd hf id) rfl
      · cases hstep
  | appPublishes =>
      unfold TimerState.step at hstep
      dsimp only at hstep
      split at hstep
      · next region rest hhand =>
          obtain rfl := Option.some.inj hstep
          exact h.appPublishes hhand (hcalm region (by rw [hhand]; rfl))
      · cases hstep
  | timerFlushes =>
      unfold TimerState.step at hstep
      dsimp only at hstep
      split at hstep
      · next hidle =>
          obtain rfl := Option.some.inj hstep
          exact h.timerFlushes hidle
      · cases hstep
  | timerPublishes =>
      unfold TimerState.step at hstep
      dsimp only at hstep
      split at hstep
      · next region rest htimer =>
          obtain rfl := Option.some.inj hstep
          exact h.timerPublishes htimer
      · cases hstep

end Steps

end Labios

/-!
## `fsync`, reads and the flush timer

Has everything been published that was written before `fsync`, or before a read that
misses the cache, and does the last publication of a byte carry what was written
last, whatever the timer does in between?

It does in calm runs (`flushTimer_keepsUp`). The timer empties the cache before it
publishes: until then `fsync` finds nothing and returns with nothing published, and
a newer region may be published before the older one in the timer's hands
(`timerHolds_overtaken`).
-/

namespace Labios

open Foundation

variable {fd : Int} {path : String} {s s' : TimerState} {a : TimerAction}

theorem tracks_fresh (content : ContentManager) (hfresh : content.caches = ∅) (fd : Int)
    (path : String) : Tracks fd path { content } := by
  have hlookup : ∀ fd', content.caches.lookup fd' = none := by
    intro fd'
    rw [hfresh]
    exact AList.lookup_empty fd'
  have hstaged : content.staged fd = [] := by rw [ContentManager.staged, hlookup]
  refine ⟨fun fd' _ => hlookup fd', fun fd' cache h => ?_, fun r hr => ?_, fun h => absurd h id,
    fun p => ?_⟩
  · rw [hlookup] at h
    cases h
  · rw [hstaged] at hr
    exact absurd hr List.not_mem_nil
  · show lastAt ([] ++ ([] ++ ([] ++ content.staged fd))) p = none
    rw [hstaged]
    rfl

/-- Where nothing is pending, what was published last was written last. -/
theorem Tracks.published_eq (h : Tracks fd path s) {p : Nat}
    (hnone : ∀ r ∈ s.pending fd, ¬r.Covers p) : lastAt s.published p = lastAt s.written p := by
  rw [← h.newest p, lastAt_append, lastAt_eq_none.mpr hnone, Option.none_or]

/-- The application has published what it took out, and the timer holds nothing. -/
theorem Tracks.upToDate (h : Tracks fd path s) (hcalm : s.Calm fd a)
    (hstep : s.step fd path a = some s') (ha : a = .syncReturns ∨ a = .publishRead) :
    s.UpToDate := by
  obtain ⟨htimer, hhand, hflushed⟩ :
      s.timer = [] ∧ s.app.hand = [] ∧ s.app.Flushed := by
    rcases ha with rfl | rfl
    · unfold TimerState.step at hstep
      dsimp only at hstep
      split at hstep
      · next happ =>
          rw [happ]
          exact ⟨hcalm, rfl, trivial⟩
      · cases hstep
    · unfold TimerState.step at hstep
      dsimp only at hstep
      split at hstep
      · next offset count happ =>
          rw [happ]
          exact ⟨hcalm, rfl, trivial⟩
      · cases hstep
  intro p
  refine h.published_eq fun r hr => ?_
  unfold TimerState.pending at hr
  rw [htimer, hhand, h.flushed hflushed] at hr
  exact absurd hr (by simp)

/-- **The flush timer.** In a calm run the last publication of a byte that is not
pending carries what was written last, and when `fsync` returns or a read that
misses the cache is published, nothing written before is missing. -/
theorem flushTimer_keepsUp (content : ContentManager) (hfresh : content.caches = ∅) (fd : Int)
    (path : String) (actions : List TimerAction) (s : TimerState)
    (hexec : exec (TimerState.step fd path) { content } actions = some s)
    (hcalm : Along (TimerState.step fd path) (TimerState.Calm fd) { content } actions) :
    (∀ p, (∀ r ∈ s.pending fd, ¬r.Covers p) → lastAt s.published p = lastAt s.written p) ∧
      ∀ a s', a = .syncReturns ∨ a = .publishRead → s.Calm fd a →
        s.step fd path a = some s' → s.UpToDate := by
  have htracks : Tracks fd path s :=
    exec_invariant (fun h hok hstep => h.step hok hstep) (tracks_fresh content hfresh fd path)
      hexec hcalm
  exact ⟨fun _ hnone => htracks.published_eq hnone,
    fun _ _ ha hok hstep => htracks.upToDate hok hstep ha⟩

/-! ## Runs -/

/-- A cache that flushes from four bytes on. -/
def fourByteCache : ContentManager := { minLabelSize := 4, defaultReadPolicy := .readThrough }

/-- The timer takes one region, the application writes and syncs another one, and
`fsync` can return behind the timer. -/
def calmSync : List TimerAction :=
  [.cacheWrite 0 [1], .writeReturns, .timerFlushes, .cacheWrite 6 [2], .writeReturns,
    .flushForSync, .appPublishes, .timerPublishes]

theorem flushTimer_keepsUp_calmSync :
    ∃ s s', exec (TimerState.step 3 "/data") { content := fourByteCache } calmSync =
        some s ∧ s.step 3 "/data" .syncReturns = some s' ∧ s.UpToDate := by
  obtain ⟨s', hexec⟩ := Option.isSome_iff_exists.mp (show (exec (TimerState.step 3 "/data")
    { content := fourByteCache } (calmSync ++ [.syncReturns])).isSome = true by decide)
  have halong : Along (TimerState.step 3 "/data") (TimerState.Calm 3)
      { content := fourByteCache } (calmSync ++ [.syncReturns]) := by decide
  obtain ⟨s, hfront, hback⟩ := exec_append hexec
  obtain ⟨hcalm, hlast⟩ := halong.append hfront
  obtain ⟨s'', hstep, -⟩ := exec_cons hback
  exact ⟨s, s'', hfront, hstep, (flushTimer_keepsUp fourByteCache rfl 3 "/data" _ s hfront
    hcalm).2 _ s'' (.inl rfl) hlast.1 hstep⟩

/-- `fsync` returns while the timer holds the only region, and a newer byte is
published before the older one. -/
theorem timerHolds_overtaken :
    (∃ s ∈ exec (TimerState.step 3 "/data") { content := fourByteCache }
        [.cacheWrite 0 [1], .writeReturns, .timerFlushes, .flushForSync],
      (s.step 3 "/data" .syncReturns).isSome ∧ lastAt s.published 0 = none ∧
        lastAt s.written 0 = some 1) ∧
    ∃ s ∈ exec (TimerState.step 3 "/data") { content := fourByteCache }
        [.cacheWrite 0 [1], .writeReturns, .timerFlushes, .cacheWrite 0 [2], .writeReturns,
          .flushForSync, .appPublishes, .syncReturns, .timerPublishes],
      s.pending 3 = [] ∧ lastAt s.published 0 = some 1 ∧ lastAt s.written 0 = some 2 := by
  decide

end Labios
