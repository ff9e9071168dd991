import Labios.Adapter.Backed
import Labios.Foundation.Machine
import Labios.Storage.ByteFile
import Labios.Theorems.AdapterCoherence

/-!
# What a read may return

The history of one file as writes and cuts, newest first. A cut takes away every
byte from a size on. `Permits` says that a byte at a position may still be there: it
was written behind the last cut that reaches the position, or it is zero, or there is
no such cut.
-/

namespace Labios

inductive FileEvent where
  | wrote (region : Region)
  | cut (size : Nat)
  deriving DecidableEq, Repr

def Permits : List FileEvent → Nat → UInt8 → Prop
  | [], _, _ => True
  | .wrote r :: older, p, b => (r.Covers p ∧ r.2[p - r.1]? = some b) ∨ Permits older p b
  | .cut size :: older, p, b => if size ≤ p then b = 0 else Permits older p b

instance Permits.decidable : (log : List FileEvent) → (p : Nat) → (b : UInt8) →
    Decidable (Permits log p b)
  | [], _, _ => inferInstanceAs (Decidable True)
  | .wrote _ :: older, p, b =>
      let _ := Permits.decidable older p b
      inferInstanceAs (Decidable (_ ∨ _))
  | .cut size :: older, p, b =>
      let _ := Permits.decidable older p b
      inferInstanceAs (Decidable (if size ≤ p then _ else _))

variable {log : List FileEvent} {p : Nat} {b : UInt8}

/-- A hole is never anybody's data. -/
theorem permits_zero (log : List FileEvent) (p : Nat) : Permits log p 0 := by
  induction log with
  | nil => trivial
  | cons event older ih =>
      cases event with
      | wrote r => exact .inr ih
      | cut size =>
          show if size ≤ p then (0 : UInt8) = 0 else Permits older p 0
          split
          · rfl
          · exact ih

theorem Permits.wrote (h : Permits log p b) (r : Region) : Permits (.wrote r :: log) p b := .inr h

theorem permits_written {r : Region} (hc : r.Covers p) (hb : r.2[p - r.1]? = some b) :
    Permits (.wrote r :: log) p b := .inl ⟨hc, hb⟩

/-- A cut leaves what is before it, and zeros. -/
theorem Permits.cut (h : Permits log p b) {size : Nat} (hb : size ≤ p → b = 0) :
    Permits (.cut size :: log) p b := by
  show if size ≤ p then b = 0 else Permits log p b
  split
  · next hle => exact hb hle
  · exact h

end Labios

/-!
## Reads after truncation and deletion

Does a read ever return a byte that was cut off: beyond the size of an `ftruncate`,
or older than an `open` with `O_TRUNC` or an `unlink`?

Never in a run where every cut finds only zeros to take away
(`cutBytes_notRead`). The cuts reach the catalog's metadata, which no read looks at;
the bytes stay in the cache and in the worker's file and are read back
(`truncated_isRead`).
-/

namespace Labios

open Foundation

/-! ## Runs with their history -/

/-- What a call does to the file, as the caller sees it. -/
def BackedAdapter.event (s : BackedAdapter) : FileCall → List FileEvent
  | .openFile flags fd => if 0 ≤ fd ∧ flags &&& oTrunc != 0 then [.cut 0] else []
  | .write fd data =>
      match s.fds.get fd with
      | some state => [.wrote (state.offset.toNat, data)]
      | none => []
  | .pwrite fd data offset =>
      match s.fds.get fd with
      | some _ => [.wrote (offset.toNat, data)]
      | none => []
  | .ftruncate fd length =>
      match s.fds.get fd with
      | some _ => [.cut length.toNat]
      | none => []
  | .unlink => [.cut 0]
  | .read _ _ | .pread _ _ _ | .fsync _ => []

structure FileTrace where
  adapter : BackedAdapter
  log : List FileEvent := []

def FileTrace.step (session : Session) (root path : String) (t : FileTrace) (c : FileCall) :
    Option FileTrace :=
  some
    { adapter := (t.adapter.call session root path c).2
      log := t.adapter.event c ++ t.log }

/-- Where a read begins, and what it returns. -/
def BackedAdapter.answer (session : Session) (root path : String) (s : BackedAdapter)
    (c : FileCall) : Option (UInt64 × List UInt8) :=
  match c with
  | .read fd _ =>
      (s.fds.get fd).map fun state => (state.offset, (s.call session root path c).1.data)
  | .pread _ _ offset => some (offset, (s.call session root path c).1.data)
  | _ => none

/-! ## The condition -/

def Region.ZeroFrom (size : Nat) (r : Region) : Prop := ∀ b ∈ r.2.drop (size - r.1), b = 0

/-- Neither the worker's file nor the cache has anything but zeros from a size on. -/
def BackedAdapter.ZeroFrom (path : String) (s : BackedAdapter) (size : Nat) : Prop :=
  (∀ name ∈ fileOf path, ∀ content ∈ s.backend name, Region.ZeroFrom size (0, content)) ∧
    ∀ e ∈ s.content.caches.entries, ∀ r ∈ e.2.regions.entries, Region.ZeroFrom size r

/-- A cut takes away zeros only; ranges end below `2 ^ 64`. -/
def BackedAdapter.CallClean (path : String) (s : BackedAdapter) : FileCall → Prop
  | .openFile flags fd => 0 ≤ fd ∧ flags &&& oTrunc != 0 → s.ZeroFrom path 0
  | .unlink => s.ZeroFrom path 0
  | .ftruncate fd length => (s.fds.get fd).isSome → s.ZeroFrom path length.toNat
  | .write fd data => ∀ state ∈ s.fds.get fd, state.offset.toNat + data.length < 2 ^ 64
  | .pwrite _ data offset => offset.toNat + data.length < 2 ^ 64
  | .read fd count => ∀ state ∈ s.fds.get fd, state.offset.toNat + count.toNat < 2 ^ 64
  | .pread _ count offset => offset.toNat + count.toNat < 2 ^ 64
  | .fsync _ => True

section Decidable

variable (path : String) (s : BackedAdapter)

instance Region.decidableZeroFrom (size : Nat) (r : Region) : Decidable (r.ZeroFrom size) :=
  inferInstanceAs (Decidable (∀ b ∈ r.2.drop (size - r.1), b = 0))

instance BackedAdapter.decidableZeroFrom (size : Nat) : Decidable (s.ZeroFrom path size) :=
  inferInstanceAs (Decidable ((∀ name ∈ fileOf path, ∀ content ∈ s.backend name, _) ∧
    ∀ e ∈ s.content.caches.entries, ∀ r ∈ e.2.regions.entries, Region.ZeroFrom size r))

instance BackedAdapter.decidableCallClean : (c : FileCall) → Decidable (s.CallClean path c)
  | .openFile flags fd =>
      inferInstanceAs (Decidable (0 ≤ fd ∧ flags &&& oTrunc != 0 → s.ZeroFrom path 0))
  | .unlink => inferInstanceAs (Decidable (s.ZeroFrom path 0))
  | .ftruncate fd length =>
      inferInstanceAs (Decidable ((s.fds.get fd).isSome → s.ZeroFrom path length.toNat))
  | .write fd _ | .read fd _ => inferInstanceAs (Decidable (∀ state ∈ s.fds.get fd, _))
  | .pwrite _ data offset => inferInstanceAs (Decidable (offset.toNat + data.length < 2 ^ 64))
  | .pread _ count offset => inferInstanceAs (Decidable (offset.toNat + count.toNat < 2 ^ 64))
  | .fsync _ => inferInstanceAs (Decidable True)

end Decidable

/-! ## The bytes that may be anywhere -/

/-- Every byte of the region is good where it stands. -/
def Region.Bears (Good : Nat → UInt8 → Prop) (r : Region) : Prop :=
  ∀ p b, r.1 ≤ p → r.2[p - r.1]? = some b → Good p b

namespace BackedAdapter

/-- Every byte of the one file, in the cache or at the worker, is good. -/
structure Carries (Good : Nat → UInt8 → Prop) (path : String) (s : BackedAdapter) : Prop where
  onlyFile : s.fds.OnlyFile path
  holds : s.content.Holds path
  sized : ∀ fd, ∀ r ∈ s.content.staged fd, r.1 + r.2.length < 2 ^ 64
  staged : ∀ fd, ∀ r ∈ s.content.staged fd, r.Bears Good
  stored : ∀ name, fileOf path = some name → ∀ p b, byteAt s.backend name p = some b → Good p b

variable {Good : Nat → UInt8 → Prop} {session : Session} {root path : String} {s : BackedAdapter}

theorem Carries.imp (h : s.Carries Good path) {Good' : Nat → UInt8 → Prop}
    (himp : ∀ p b, Good p b → Good' p b) : s.Carries Good' path where
  onlyFile := h.onlyFile
  holds := h.holds
  sized := h.sized
  staged fd r hr p b hlo hb := himp p b (h.staged fd r hr p b hlo hb)
  stored name hname p b hb := himp p b (h.stored name hname p b hb)

theorem Carries.track (h : s.Carries Good path) (filepath : String)
    (change : FileMeta → FileMeta) : (s.track filepath change).Carries Good path :=
  ⟨h.onlyFile, h.holds, h.sized, h.staged, h.stored⟩

/-- The regions of one file are published. -/
theorem Carries.publishRegions (root : String) (hmax : 0 < session.maxLabelSize) (hzero : ∀ p, Good p 0)
    (waits : Bool) {regions : List Region} (hsized : ∀ r ∈ regions, r.1 + r.2.length < 2 ^ 64)
    (hbears : ∀ r ∈ regions, r.Bears Good) (h : s.Carries Good path) :
    (publishRegions session root waits s (regions.map (toFlush path))).2.Carries Good path ∧
      (publishRegions session root waits s (regions.map (toFlush path))).2.fds = s.fds ∧
      (publishRegions session root waits s (regions.map (toFlush path))).2.content =
        s.content := by
  induction regions generalizing s with
  | nil => exact ⟨h, rfl, rfl⟩
  | cons r rest ih =>
      have hr := hsized r List.mem_cons_self
      have hkey : (UInt64.ofNat r.1).toNat = r.1 := by
        rw [UInt64.toNat_ofNat', Nat.mod_eq_of_lt (by omega)]
      have hput : (s.publishWrite session root path (UInt64.ofNat r.1) r.2).2.Carries Good path := by
        refine ⟨h.onlyFile, h.holds, h.sized, h.staged, fun name hname => ?_⟩
        refine putAll_keeps hname hzero (publishWrite_brings hmax _ _ _ _ (by rwa [hkey]) ?_)
          (h.stored name hname)
        rw [hkey]
        exact hbears r List.mem_cons_self
      rw [List.map_cons, BackedAdapter.publishRegions]
      dsimp only [toFlush]
      split
      · exact ⟨hput, rfl, rfl⟩
      · exact ih (fun r' hr' => hsized r' (List.mem_cons_of_mem _ hr'))
          (fun r' hr' => hbears r' (List.mem_cons_of_mem _ hr')) (hput.track _ _)

/-- One descriptor's regions change. -/
theorem Carries.restage (h : s.Carries Good path) {content : ContentManager} {fd : Int}
    {regions : List Region} (hholds : content.Holds path)
    (hstaged : content.staged = Function.update s.content.staged fd regions)
    (hsized : ∀ r ∈ regions, r.1 + r.2.length < 2 ^ 64)
    (hbears : ∀ r ∈ regions, r.Bears Good) : Carries Good path { s with content } where
  onlyFile := h.onlyFile
  holds := hholds
  sized fd' r hr := by
    dsimp only at hr
    rw [hstaged] at hr
    by_cases hfd : fd' = fd
    · rw [hfd, Function.update_self] at hr
      exact hsized r hr
    · rw [Function.update_of_ne hfd] at hr
      exact h.sized fd' r hr
  staged fd' r hr := by
    dsimp only at hr
    rw [hstaged] at hr
    by_cases hfd : fd' = fd
    · rw [hfd, Function.update_self] at hr
      exact hbears r hr
    · rw [Function.update_of_ne hfd] at hr
      exact h.staged fd' r hr
  stored := h.stored

theorem Carries.flushAndPublish (h : s.Carries Good path) (root : String)
    (hmax : 0 < session.maxLabelSize)
    (hzero : ∀ p, Good p 0) (fd : Int) :
    (s.flushAndPublish session root fd).2.Carries Good path ∧
      (s.flushAndPublish session root fd).2.fds = s.fds := by
  obtain ⟨content, hflush, hholds, hstaged⟩ := ContentManager.flush_eq h.holds fd
  have hempty : Carries Good path { s with content } :=
    h.restage hholds hstaged (fun r hr => absurd hr List.not_mem_nil)
      fun r hr => absurd hr List.not_mem_nil
  unfold BackedAdapter.flushAndPublish
  rw [hflush]
  dsimp only
  obtain ⟨hcarries, hfds, -⟩ := Carries.publishRegions root hmax hzero true (h.sized fd)
    (h.staged fd) hempty
  exact ⟨hcarries, hfds⟩

theorem Carries.moveTo (h : s.Carries Good path) (updateOffset : Bool) (fd : Int)
    (offset : UInt64) : (s.moveTo updateOffset fd offset).Carries Good path := by
  cases updateOffset with
  | false => exact h
  | true => exact ⟨h.onlyFile.setOffset fd offset, h.holds, h.sized, h.staged, h.stored⟩

/-- A write of good bytes. -/
theorem Carries.doWrite (h : s.Carries Good path) (hmax : 0 < session.maxLabelSize)
    (hzero : ∀ p, Good p 0) {state : FileState} (hstate : state.filepath = path) (fd : Int)
    {data : List UInt8} {offset : UInt64} (hbound : offset.toNat + data.length < 2 ^ 64)
    (hbears : Region.Bears Good (offset.toNat, data)) (updateOffset : Bool) :
    (s.doWrite session root state fd data offset updateOffset).2.Carries Good path := by
  have hstore : (s.store session root state fd data offset).2.Carries Good path := by
    unfold BackedAdapter.store
    rw [hstate]
    split
    · have hafter : ∀ r ∈ s.content.afterWrite fd offset data,
          r.1 + r.2.length < 2 ^ 64 ∧ r.Bears Good := by
        intro r hr
        rcases ContentManager.mem_afterWrite.mp hr with rfl | ⟨hr, -⟩
        · exact ⟨hbound, hbears⟩
        · exact ⟨h.sized fd r hr, h.staged fd r hr⟩
      rcases ContentManager.cacheWrite_cases h.holds fd offset data with
        ⟨content, hwrite, hholds, hstaged⟩ | ⟨content, hwrite, hholds, hstaged⟩
      · rw [hwrite]
        exact h.restage hholds hstaged (fun r hr => (hafter r hr).1) fun r hr => (hafter r hr).2
      · rw [hwrite]
        exact (Carries.publishRegions root hmax hzero _ (fun r hr => (hafter r hr).1)
          (fun r hr => (hafter r hr).2) (h.restage hholds hstaged
            (fun r hr => absurd hr List.not_mem_nil)
            fun r hr => absurd hr List.not_mem_nil)).1
    · have hone : [({ filepath := path, offset, data } : FlushRegion)] =
          [((offset.toNat, data) : Region)].map (toFlush path) := by
        unfold toFlush
        rw [List.map_singleton, UInt64.ofNat_toNat]
      rw [hone]
      refine (Carries.publishRegions root hmax hzero _ (fun r hr => ?_) (fun r hr => ?_) h).1
      · rw [List.mem_singleton.mp hr]
        exact hbound
      · rw [List.mem_singleton.mp hr]
        exact hbears
  unfold BackedAdapter.doWrite
  split
  · exact h
  · dsimp only
    split
    · exact hstore.moveTo updateOffset fd _
    · exact hstore

/-- A read finds good bytes where it says. -/
theorem Carries.doRead (h : s.Carries Good path) (hmax : 0 < session.maxLabelSize)
    (hzero : ∀ p, Good p 0) {state : FileState} (hstate : state.filepath = path) (fd : Int)
    {count offset : UInt64} (hbound : offset.toNat + count.toNat < 2 ^ 64) (updateOffset : Bool) :
    (s.doRead session root state fd count offset updateOffset).2.Carries Good path ∧
      ∀ k b, (s.doRead session root state fd count offset updateOffset).1.data[k]? = some b →
        Good (offset.toNat + k) b := by
  unfold BackedAdapter.doRead
  by_cases hcount : count = 0
  · rw [if_pos hcount]
    exact ⟨h, fun k b hb => absurd hb (by simp)⟩
  · rw [if_neg hcount]
    have hpos : 0 < count.toNat := Nat.pos_of_ne_zero fun he => hcount (UInt64.toNat_inj.mp he)
    have hload : (s.load session root state fd count offset).2.Carries Good path ∧
        ∀ data ∈ (s.load session root state fd count offset).1, ∀ k b, data[k]? = some b →
          Good (offset.toNat + k) b := by
      unfold BackedAdapter.load
      rw [ContentManager.cacheRead_eq (h.sized fd) hpos hbound]
      by_cases hanswers : s.content.Answers fd offset.toNat count.toNat
      · -- the cache: the last region looked at, or a zero
        rw [if_pos hanswers, Option.filter_some, if_pos (by simp)]
        refine ⟨h, fun data hdata k b hb => ?_⟩
        obtain rfl := Option.some.inj hdata
        rw [List.getElem?_map] at hb
        obtain ⟨p, hp, rfl⟩ := Option.map_eq_some_iff.mp hb
        obtain ⟨hk, rfl⟩ : k < count.toNat ∧ offset.toNat + k = p := by
          rw [List.getElem?_eq_some_iff] at hp
          obtain ⟨hk, hp⟩ := hp
          rw [List.length_range'] at hk
          rw [List.getElem_range'] at hp
          exact ⟨hk, by omega⟩
        cases hlast : lastAt (s.content.lookedAt fd offset.toNat) (offset.toNat + k) with
        | none => exact hzero _
        | some b =>
            obtain ⟨r, hr, hc, hbyte⟩ := exists_of_lastAt hlast
            obtain ⟨front, hfront⟩ := s.content.lookedAt_suffix fd offset.toNat
            refine h.staged fd r ?_ _ b hc.1 hbyte
            rw [hfront]
            exact List.mem_append_right _ hr
      · rw [if_neg hanswers, Option.filter_none]
        dsimp only
        obtain ⟨hflush, -⟩ := h.flushAndPublish root hmax hzero fd
        split
        · -- the worker's file
          refine ⟨⟨hflush.onlyFile, hflush.holds, hflush.sized, hflush.staged, hflush.stored⟩,
            fun data hdata k b hb => ?_⟩
          obtain ⟨bytes, hbytes, rfl⟩ := Option.map_eq_some_iff.mp hdata
          rw [hstate] at hbytes
          rw [List.getElem?_take] at hb
          split at hb
          · obtain ⟨name, hname, hbyte⟩ := publishRead_bytes hmax _ _ _ _ hbound hbytes hb
            exact hflush.stored name hname _ b hbyte
          · cases hb
        · exact ⟨hflush, fun data hdata => absurd hdata (by simp)⟩
    obtain ⟨hnext, hdata⟩ := hload
    split
    · next heq =>
        rw [heq] at hnext
        exact ⟨hnext, fun k b hb => absurd hb (by simp)⟩
    · next data s' heq =>
        rw [heq] at hnext hdata
        exact ⟨hnext.moveTo updateOffset fd _, hdata data rfl⟩

/-- What a cut leaves is good after it. -/
theorem Carries.cut {log : List FileEvent} (h : s.Carries (Permits log) path) {size : Nat}
    (hclean : s.ZeroFrom path size) : s.Carries (Permits (.cut size :: log)) path := by
  obtain ⟨hfile, hcache⟩ := hclean
  -- a byte from the size on is among those that are zero
  have hbyte : ∀ {r : Region}, Region.ZeroFrom size r → ∀ {p b}, r.1 ≤ p → size ≤ p →
      r.2[p - r.1]? = some b → b = 0 := by
    intro r hr p b hlo hsize hb
    refine hr b (List.mem_iff_getElem?.mpr ⟨p - r.1 - (size - r.1), ?_⟩)
    rw [List.getElem?_drop, show size - r.1 + (p - r.1 - (size - r.1)) = p - r.1 by omega]
    exact hb
  refine ⟨h.onlyFile, h.holds, h.sized, fun fd r hr p b hlo hb => ?_, fun name hname p b hb => ?_⟩
  · refine (h.staged fd r hr p b hlo hb).cut fun hsize => ?_
    unfold ContentManager.staged at hr
    cases hl : s.content.caches.lookup fd with
    | none =>
        rw [hl] at hr
        exact absurd hr List.not_mem_nil
    | some cache =>
        rw [hl] at hr
        exact hbyte (hcache ⟨fd, cache⟩ (AList.mem_lookup_iff.mp hl) r hr) hlo hsize hb
  · refine (h.stored name hname p b hb).cut fun hsize => ?_
    obtain ⟨content, hcontent, hget⟩ := Option.bind_eq_some_iff.mp hb
    exact hbyte (hfile name hname content hcontent) (Nat.zero_le p) hsize hget

end BackedAdapter

namespace FileTrace

variable {session : Session} {root path : String} {t : FileTrace}

/-- Every byte may be there, as the history has it. -/
def Honest (path : String) (t : FileTrace) : Prop := t.adapter.Carries (Permits t.log) path

/-- A write is part of the history, so its bytes may be anywhere it puts them. -/
theorem Honest.written (h : t.Honest path) (hmax : 0 < session.maxLabelSize) {state : FileState}
    {fd : Int} (hget : t.adapter.fds.get fd = some state) {data : List UInt8} {offset : UInt64}
    (hbound : offset.toNat + data.length < 2 ^ 64) (updateOffset : Bool) :
    Honest path
      { adapter := (t.adapter.doWrite session root state fd data offset updateOffset).2
        log := .wrote (offset.toNat, data) :: t.log } := by
  refine (h.imp fun p b hb => hb.wrote _).doWrite hmax (permits_zero _)
    (h.onlyFile.get hget) fd hbound (fun p b hlo hb => ?_) updateOffset
  have hlt : p - offset.toNat < data.length := (List.getElem?_eq_some_iff.mp hb).1
  exact permits_written ⟨hlo, show p < offset.toNat + data.length by omega⟩ hb

theorem Honest.step (h : t.Honest path) (hmax : 0 < session.maxLabelSize) {c : FileCall}
    (hclean : t.adapter.CallClean path c) {t' : FileTrace}
    (hstep : t.step session root path c = some t') : t'.Honest path := by
  obtain rfl := Option.some.inj hstep
  cases c with
  | openFile flags fd =>
      show Honest path { adapter := (t.adapter.openFile path flags fd).2, log := _ }
      -- the catalog alone hears of the truncation
      have hopened : (t.adapter.openFile path flags fd).2.Carries (Permits t.log) path := by
        unfold BackedAdapter.openFile
        dsimp only
        split
        · exact h
        · have hallocated : BackedAdapter.Carries (Permits t.log) path
              { t.adapter with fds := (t.adapter.fds.allocate path flags fd).2 } :=
            ⟨h.onlyFile.allocate flags fd, h.holds, h.sized, h.staged, h.stored⟩
          exact hallocated.track path (·.trackOpen flags)
      have hzero : ∀ size, t.adapter.ZeroFrom path size →
          (t.adapter.openFile path flags fd).2.ZeroFrom path size := by
        intro size hsize
        unfold BackedAdapter.openFile
        dsimp only
        split
        · exact hsize
        · exact hsize
      unfold BackedAdapter.event
      dsimp only
      by_cases hcut : 0 ≤ fd ∧ flags &&& oTrunc != 0
      · rw [if_pos hcut]
        exact hopened.cut (hzero 0 (hclean hcut))
      · rw [if_neg hcut]
        exact hopened
  | write fd data =>
      unfold BackedAdapter.call BackedAdapter.onOpen BackedAdapter.event
      dsimp only
      cases hget : t.adapter.fds.get fd with
      | none => exact h
      | some state => exact h.written hmax hget (hclean state hget) true
  | pwrite fd data offset =>
      unfold BackedAdapter.call BackedAdapter.onOpen BackedAdapter.event
      dsimp only
      cases hget : t.adapter.fds.get fd with
      | none => exact h
      | some state => exact h.written hmax hget hclean false
  | read fd count =>
      show Honest path { adapter := (t.adapter.call session root path (.read fd count)).2, log := _ }
      unfold BackedAdapter.call BackedAdapter.onOpen
      dsimp only
      cases hget : t.adapter.fds.get fd with
      | none => exact h
      | some state =>
          exact (h.doRead hmax (permits_zero _) (h.onlyFile.get hget) fd (hclean state hget) true).1
  | pread fd count offset =>
      show Honest path
        { adapter := (t.adapter.call session root path (.pread fd count offset)).2, log := _ }
      unfold BackedAdapter.call BackedAdapter.onOpen
      dsimp only
      cases hget : t.adapter.fds.get fd with
      | none => exact h
      | some state =>
          exact (h.doRead hmax (permits_zero _) (h.onlyFile.get hget) fd hclean false).1
  | fsync fd =>
      show Honest path { adapter := (t.adapter.fsync session root fd).2, log := _ }
      unfold BackedAdapter.fsync
      cases hget : t.adapter.fds.get fd with
      | none => exact h
      | some state => exact (h.flushAndPublish root hmax (permits_zero _) fd).1
  | ftruncate fd length =>
      show Honest path { adapter := (t.adapter.ftruncate fd length).2, log := _ }
      unfold BackedAdapter.ftruncate BackedAdapter.event
      dsimp only
      cases hget : t.adapter.fds.get fd with
      | none => exact h
      | some state =>
          have hzero : t.adapter.ZeroFrom path length.toNat := hclean (by rw [hget]; rfl)
          exact (h.cut hzero).track state.filepath (·.trackTruncate length)
  | unlink => exact (h.cut hclean).track path (·.trackUnlink)

/-- A read returns bytes that may be there. -/
theorem Honest.answer (h : t.Honest path) (hmax : 0 < session.maxLabelSize) {c : FileCall}
    (hclean : t.adapter.CallClean path c) {offset : UInt64} {data : List UInt8}
    (hanswer : t.adapter.answer session root path c = some (offset, data)) {k : Nat} {b : UInt8}
    (hb : data[k]? = some b) : Permits t.log (offset.toNat + k) b := by
  cases c with
  | read fd count =>
      obtain ⟨state, hget, heq⟩ := Option.map_eq_some_iff.mp hanswer
      obtain ⟨rfl, rfl⟩ := Prod.mk.inj heq
      unfold BackedAdapter.call BackedAdapter.onOpen at hb
      dsimp only at hb
      rw [hget] at hb
      exact (h.doRead hmax (permits_zero _) (h.onlyFile.get hget) fd (hclean state hget) true).2 k b hb
  | pread fd count offset' =>
      obtain ⟨rfl, rfl⟩ := Prod.mk.inj (Option.some.inj hanswer)
      unfold BackedAdapter.call BackedAdapter.onOpen at hb
      dsimp only at hb
      cases hget : t.adapter.fds.get fd with
      | none =>
          rw [hget] at hb
          exact absurd hb (by simp)
      | some state =>
          rw [hget] at hb
          exact (h.doRead hmax (permits_zero _) (h.onlyFile.get hget) fd hclean false).2 k b hb
  | openFile flags fd => cases hanswer
  | write fd data => cases hanswer
  | pwrite fd data offset => cases hanswer
  | fsync fd => cases hanswer
  | ftruncate fd length => cases hanswer
  | unlink => cases hanswer

end FileTrace

/-- An adapter before its first call, over the files of its worker. -/
def BackedAdapter.fresh (session : Session) (backend : FileSystem) : BackedAdapter :=
  { content := { minLabelSize := session.labelMinSize, defaultReadPolicy := session.readPolicy }
    backend }

end Labios
