import Labios.Adapter.Appends
import Labios.Foundation.Entries
import Labios.Foundation.Machine

/-!
# Append mode

A descriptor that is opened with `O_APPEND` starts at offset 0 and writes where it stands, like
any other. Through a second open, or into a file that is not empty, a write goes over bytes
that are there (`second_append_overwrites`). Every write goes to the end of the file exactly
when each that is not empty goes through an open through which all bytes of the file were
written (`append_placed_iff`).
-/

namespace Labios

open Foundation

namespace AppendRun

variable {session : Session} {outcomes : Outcomes} {path : String} {s s' : AppendRun}
  {c : AppendCall}

/-- What holds as long as every write goes to the end. -/
structure Kept (s : AppendRun) (path : String) : Prop where
  file : s.adapter.fds.OnlyFile path
  cached : s.adapter.content.Holds path
  unshared : s.adapter.fds.Unshared
  offsets : ∀ fd, (s.adapter.fds.get fd).map (·.offset.toNat) = s.log.through.lookup fd
  bound : ∀ fd count, s.log.through.lookup fd = some count → count < 2 ^ 63
  staged : ∀ fd, ∀ r ∈ s.adapter.content.staged fd,
    ∃ count, s.log.through.lookup fd = some count ∧ r.1 < count

theorem Kept.get (h : s.Kept path) {fd : Int} {count : Nat}
    (hcount : s.log.through.lookup fd = some count) :
    ∃ state, s.adapter.fds.get fd = some state ∧ state.filepath = path ∧
      state.offset.toNat = count := by
  have hoffset := h.offsets fd
  rw [hcount] at hoffset
  obtain ⟨state, hget, hcount'⟩ := Option.map_eq_some_iff.mp hoffset
  exact ⟨state, hget, h.file.get hget, hcount'⟩

theorem Kept.get_none (h : s.Kept path) {fd : Int} (hnone : s.log.through.lookup fd = none) :
    s.adapter.fds.get fd = none ∧ s.adapter.content.staged fd = [] := by
  have hoffset := h.offsets fd
  rw [hnone] at hoffset
  refine ⟨Option.map_eq_none_iff.mp hoffset, List.eq_nil_iff_forall_not_mem.mpr fun r hr => ?_⟩
  obtain ⟨count, hcount, -⟩ := h.staged fd r hr
  rw [hnone] at hcount
  cases hcount

/-- The regions of an open descriptor are at offsets that a number of 64 bits holds. -/
theorem Kept.staged_lt (h : s.Kept path) {fd : Int} {count : Nat}
    (hcount : s.log.through.lookup fd = some count) :
    ∀ r ∈ s.adapter.content.staged fd, r.1 < count ∧ r.1 < 2 ^ 64 := by
  intro r hr
  obtain ⟨count', hcount', hlt⟩ := h.staged fd r hr
  obtain rfl := Option.some.inj (hcount.symm.trans hcount')
  have hbound := h.bound fd count hcount
  exact ⟨hlt, by omega⟩

/-! ## Opens and closes -/

/-- An open gets a number that is not in use. -/
theorem step_openFile {flags : AppendFlags} {fd : Int}
    (hstep : s.step session outcomes path (.openFile flags fd) = some s') :
    s.log.through.lookup fd = none ∧
      s' = { adapter := (s.adapter.openFile path flags.flags fd).2
             log := s.log.openFile flags.flags fd } := by
  by_cases hfree : s.log.through.lookup fd = none
  · exact ⟨hfree, (Option.some.inj ((if_pos hfree).symm.trans hstep)).symm⟩
  · exact absurd ((if_neg hfree).symm.trans hstep) (by simp)

theorem Kept.openFile (h : s.Kept path) (flags : AppendFlags) {fd : Int}
    (hfree : s.log.through.lookup fd = none) :
    Kept { adapter := (s.adapter.openFile path flags.flags fd).2,
           log := s.log.openFile flags.flags fd } path ∧
      held { adapter := (s.adapter.openFile path flags.flags fd).2,
             log := s.log.openFile flags.flags fd } = s.held ∧
      (s.log.openFile flags.flags fd).writes = s.log.writes := by
  by_cases hfd : fd < 0
  · have hadapter : (s.adapter.openFile path flags.flags fd).2 = s.adapter := by
      unfold TrackedAdapter.openFile FdTable.allocate
      rw [if_pos hfd]
      rfl
    have hlog : s.log.openFile flags.flags fd = s.log := if_pos hfd
    rw [hadapter, hlog]
    exact ⟨h, rfl, rfl⟩
  · have hallocate : (s.adapter.fds.allocate path flags.flags fd).1 = fd := by
      unfold FdTable.allocate
      rw [if_neg hfd]
    have hadapter : (s.adapter.openFile path flags.flags fd).2 =
        { s.adapter with fds := (s.adapter.fds.allocate path flags.flags fd).2 }.track path
          (·.trackOpen flags.flags) := by
      unfold TrackedAdapter.openFile
      dsimp only
      rw [hallocate, if_neg hfd]
    have hlog : s.log.openFile flags.flags fd =
        { s.log with
          size := if flags.flags &&& oTrunc != 0 then 0 else s.log.size
          through := s.log.through.insert fd 0 } := if_neg hfd
    obtain ⟨-, hnone⟩ := h.get_none hfree
    rw [hadapter, hlog]
    refine ⟨⟨h.file.allocate flags.flags fd, h.cached, h.unshared.allocate path flags.flags fd,
      fun fd' => ?_, fun fd' count hcount => ?_, fun fd' r hr => ?_⟩, ?_, rfl⟩
    · refine (h.unshared.get_allocate path flags.flags (by omega) fd').trans ?_
      dsimp only
      by_cases he : fd' = fd
      · rw [if_pos he, he, AList.lookup_insert]
      · rw [if_neg he, AList.lookup_insert_ne he]
        exact h.offsets fd'
    · dsimp only at hcount
      rcases Foundation.lookup_insert_cases hcount with ⟨-, rfl⟩ | ⟨-, hold⟩
      · exact Nat.two_pow_pos 63
      · exact h.bound fd' count hold
    · obtain ⟨count, hcount, hlt⟩ := h.staged fd' r hr
      have he : fd' ≠ fd := by
        rintro rfl
        rw [hfree] at hcount
        cases hcount
      exact ⟨count, by dsimp only; rw [AList.lookup_insert_ne he]; exact hcount, hlt⟩
    · have hkeys : fd ∉ s.log.through.keys := fun hmem =>
        AList.lookup_eq_none.mp hfree (AList.mem_keys.mpr hmem)
      show s.adapter.writes.map FlushRegion.region ++
        (s.log.through.insert fd 0).keys.flatMap s.adapter.content.staged = s.held
      rw [AList.keys_insert, List.erase_of_not_mem hkeys, List.flatMap_cons, hnone]
      rfl

/-- A close of a number that is not open does nothing. -/
theorem Kept.close_none (h : s.Kept path) (session : Session) (outcomes : Outcomes) {fd : Int}
    (hnone : s.log.through.lookup fd = none) :
    (s.adapter.close session outcomes fd).2 = s.adapter ∧ s.log.close fd = s.log := by
  obtain ⟨hget, -⟩ := h.get_none hnone
  have hkeys : fd ∉ s.log.through.keys := fun hmem =>
    AList.lookup_eq_none.mp hnone (AList.mem_keys.mpr hmem)
  have herase : s.log.through.erase fd = s.log.through :=
    AList.ext (List.kerase_of_notMem_keys hkeys)
  constructor
  · unfold TrackedAdapter.close
    rw [hget]
  · unfold AppendLog.close
    rw [herase]

/-- A close publishes what its descriptor has in the cache, and evicts it. -/
theorem Kept.close_some (h : s.Kept path) (session : Session)
    (hall : ∀ n, outcomes.written n = true) {fd : Int} {count : Nat}
    (hcount : s.log.through.lookup fd = some count) :
    (s.adapter.close session outcomes fd).2.fds = (s.adapter.fds.release fd).2 ∧
      (s.adapter.close session outcomes fd).2.content.Holds path ∧
      (s.adapter.close session outcomes fd).2.content.staged =
        Function.update s.adapter.content.staged fd [] ∧
      (s.adapter.close session outcomes fd).2.writes.map FlushRegion.region =
        s.adapter.writes.map FlushRegion.region ++ s.adapter.content.staged fd := by
  obtain ⟨state, hget, -, -⟩ := h.get hcount
  obtain ⟨hfds, hholds, hstaged, hwrites⟩ := TrackedAdapter.flushAndPublish_all session hall
    (s := { s.adapter with fds := (s.adapter.fds.release fd).2 }) h.cached fd
  unfold TrackedAdapter.close
  rw [hget]
  dsimp only
  rw [h.unshared.release_fst (FdTable.opened_of_get hget), if_pos rfl]
  dsimp only
  refine ⟨hfds, hholds.evict fd, ?_, ?_⟩
  · rw [ContentManager.staged_evict, hstaged, Function.update_idem]
  · rw [hwrites, List.map_append, regions_toFlush fun r hr => (h.staged_lt hcount r hr).2]

theorem Kept.close (h : s.Kept path) (session : Session)
    (hall : ∀ n, outcomes.written n = true) (fd : Int) :
    Kept { adapter := (s.adapter.close session outcomes fd).2, log := s.log.close fd } path ∧
      (held { adapter := (s.adapter.close session outcomes fd).2,
              log := s.log.close fd }).Perm s.held := by
  cases hcount : s.log.through.lookup fd with
  | none =>
      obtain ⟨hadapter, hlog⟩ := h.close_none session outcomes hcount
      rw [hadapter, hlog]
      exact ⟨h, List.Perm.refl _⟩
  | some count =>
      obtain ⟨hfds, hholds, hstaged, hwrites⟩ := h.close_some session hall hcount
      have hlog : (s.log.close fd).through = s.log.through.erase fd := rfl
      refine ⟨⟨?_, hholds, ?_, fun fd' => ?_, fun fd' count' hc => ?_, fun fd' r hr => ?_⟩, ?_⟩
      · dsimp only
        rw [hfds]
        exact h.file.release fd
      · dsimp only
        rw [hfds]
        exact h.unshared.release fd
      · dsimp only
        rw [hfds, h.unshared.get_release fd fd', hlog]
        by_cases he : fd' = fd
        · rw [if_pos he, he, AList.lookup_erase]
        · rw [if_neg he, AList.lookup_erase_ne he]
          exact h.offsets fd'
      · dsimp only at hc
        rw [hlog] at hc
        exact h.bound fd' count' (Foundation.lookup_of_erase hc).2
      · dsimp only at hr ⊢
        rw [hstaged] at hr
        rw [hlog]
        by_cases he : fd' = fd
        · rw [he, Function.update_self] at hr
          cases hr
        · rw [Function.update_of_ne he] at hr
          rw [AList.lookup_erase_ne he]
          exact h.staged fd' r hr
      · have hothers := flatMap_update_perm s.adapter.content.staged s.log.through.keys_nodup
          (AppendLog.mem_keys hcount) (s.adapter.content.staged fd)
        rw [Function.update_eq_self] at hothers
        unfold held
        dsimp only
        rw [hwrites, hstaged, hlog, AList.keys_erase,
          flatMap_erase_update s.adapter.content.staged s.log.through.keys_nodup,
          List.append_assoc]
        exact hothers.symm.append_left _

/-! ## Writes -/

/-- A write at an offset where its descriptor has nothing in the cache adds its region to what is
published and cached. -/
theorem store_staged {s : TrackedAdapter} {state : FileState} {fd : Int}
    (hcached : s.content.Holds path) (hstate : state.filepath = path) (session : Session)
    (data : List UInt8) (offset : UInt64)
    (hfree : ∀ r ∈ s.content.staged fd, r.1 ≠ offset.toNat ∧ r.1 < 2 ^ 64) :
    (s.store session state fd data offset).2.content.Holds path ∧
      (s.store session state fd data offset).2.writes = s.writes ∧
      ∃ kept, (s.store session state fd data offset).2.content.staged =
          Function.update s.content.staged fd kept ∧
        (((s.store session state fd data offset).1.map FlushRegion.region) ++ kept).Perm
          ((offset.toNat, data) :: s.content.staged fd) := by
  have hafter : (s.content.afterWrite fd offset data).Perm
      ((offset.toNat, data) :: s.content.staged fd) := by
    have hnone : (s.content.staged fd).filter (fun r => r.1 = offset.toNat) = [] :=
      List.filter_eq_nil_iff.mpr fun r hr => by simpa using (hfree r hr).1
    have hsplit := s.content.staged_split fd offset.toNat
    rw [hnone, List.nil_append] at hsplit
    unfold ContentManager.afterWrite
    conv_rhs => rw [hsplit]
    exact List.perm_middle
  unfold TrackedAdapter.store
  rw [hstate]
  by_cases hsmall : UInt64.ofNat data.length < session.labelMinSize
  · rw [if_pos hsmall]
    rcases ContentManager.cacheWrite_cases hcached fd offset data with
      ⟨cm, hwrite, hholds, hstaged⟩ | ⟨cm, hwrite, hholds, hstaged⟩
    · rw [hwrite]
      exact ⟨hholds, rfl, _, hstaged, hafter⟩
    · rw [hwrite]
      refine ⟨hholds, rfl, _, hstaged, ?_⟩
      rw [List.append_nil, regions_toFlush]
      · exact hafter
      · intro r hr
        rcases ContentManager.mem_afterWrite.mp hr with rfl | ⟨hr, -⟩
        · exact offset.toNat_lt
        · exact (hfree r hr).2
  · rw [if_neg hsmall]
    exact ⟨hcached, rfl, s.content.staged fd, (Function.update_eq_self _ _).symm,
      List.Perm.refl _⟩

/-- A write that is not empty publishes or caches its bytes where the descriptor stands, and moves
it behind them. -/
theorem Kept.write (h : s.Kept path) (session : Session)
    (hall : ∀ n, outcomes.written n = true) {fd : Int} {count : Nat}
    (hcount : s.log.through.lookup fd = some count) {data : List UInt8}
    (hdata : data ≠ []) :
    ∃ kept, (s.adapter.write session outcomes fd data).2.fds =
        s.adapter.fds.setOffset fd (UInt64.ofNat count + UInt64.ofNat data.length) ∧
      (s.adapter.write session outcomes fd data).2.content.Holds path ∧
      (s.adapter.write session outcomes fd data).2.content.staged =
        Function.update s.adapter.content.staged fd kept ∧
      (∀ r ∈ kept, r.1 ≤ count) ∧
      ((s.adapter.write session outcomes fd data).2.writes.map FlushRegion.region ++
        s.log.through.keys.flatMap
          (s.adapter.write session outcomes fd data).2.content.staged).Perm
        ((count, data) :: s.held) := by
  obtain ⟨state, hget, hstate, hoffset⟩ := h.get hcount
  have hbefore := h.staged_lt hcount
  obtain ⟨hholds, hwrites, kept, hstaged, hperm⟩ := store_staged (s := s.adapter) h.cached hstate
    session data state.offset fun r hr => by
      have hlt := hbefore r hr
      exact ⟨by omega, hlt.2⟩
  let stored := s.adapter.store session state fd data state.offset
  let published := TrackedAdapter.publishRegions session outcomes stored.2 stored.1
  obtain ⟨hdone, hpublished, -⟩ := TrackedAdapter.publishRegions_all session hall
    stored.1 (s := stored.2)
  have hadapter : (s.adapter.write session outcomes fd data).2 =
      published.2.moveTo true fd (state.offset + UInt64.ofNat data.length) := by
    unfold TrackedAdapter.write TrackedAdapter.doWrite
    rw [hget]
    dsimp only
    rw [if_neg hdata, UInt64.toUInt64_toInt64, hdone, if_pos rfl]
  have hfds : published.2.fds = s.adapter.fds := by
    rw [TrackedAdapter.publishRegions_fds, TrackedAdapter.store_fds]
  have hcontent : published.2.content = stored.2.content :=
    TrackedAdapter.publishRegions_content session outcomes _ _
  have hnumber : UInt64.ofNat count = state.offset := by
    rw [← hoffset, UInt64.ofNat_toNat]
  rw [hadapter, hnumber]
  refine ⟨kept, ?_, ?_, ?_, fun r hr => ?_, ?_⟩
  · show published.2.fds.setOffset fd _ = _
    rw [hfds]
  · rw [TrackedAdapter.moveTo_content, hcontent]
    exact hholds
  · rw [TrackedAdapter.moveTo_content, hcontent]
    exact hstaged
  · rcases List.mem_cons.mp (hperm.subset (List.mem_append_right _ hr)) with rfl | hr
    · exact Nat.le_of_eq hoffset
    · exact Nat.le_of_lt (hbefore r hr).1
  · rw [TrackedAdapter.moveTo_content, hcontent, hstaged]
    show (published.2.writes.map FlushRegion.region ++ _).Perm _
    rw [hpublished, hwrites, List.map_append]
    rw [hoffset] at hperm
    exact held_write_perm s.log.through.keys_nodup (AppendLog.mem_keys hcount) hperm

/-- What a write adds to what is held, whether or not the log takes it. -/
theorem Kept.held_write (h : s.Kept path) (session : Session)
    (hall : ∀ n, outcomes.written n = true) {fd : Int} {count : Nat}
    (hcount : s.log.through.lookup fd = some count) {data : List UInt8}
    (hdata : data ≠ []) :
    (held { adapter := (s.adapter.write session outcomes fd data).2,
            log := s.log.write fd data }).Perm ((count, data) :: s.held) := by
  obtain ⟨kept, -, -, -, -, hperm⟩ := h.write session hall hcount hdata
  have hkeys : (s.log.write fd data).through.keys.Perm s.log.through.keys := by
    unfold AppendLog.write
    rw [hcount]
    dsimp only
    split
    · rw [AList.keys_insert]
      exact (List.perm_cons_erase (AppendLog.mem_keys hcount)).symm
    · exact List.Perm.refl _
  exact ((hkeys.flatMap_right _).append_left _).trans hperm

theorem Kept.placed_write_iff (h : s.Kept path) (session : Session)
    (hall : ∀ n, outcomes.written n = true)
    (hplaced : s.Placed) {fd : Int} {count : Nat}
    (hcount : s.log.through.lookup fd = some count) {data : List UInt8} (hdata : data ≠ []) :
    Placed { adapter := (s.adapter.write session outcomes fd data).2,
             log := s.log.write fd data } ↔
      count = s.log.size ∧ s.log.size + data.length < 2 ^ 63 := by
  have hheld := h.held_write session hall hcount hdata
  have hbefore : ((count, data) :: s.held).Perm ((count, data) :: s.log.writes) :=
    hplaced.cons _
  have hlog : (s.log.write fd data).writes =
      if s.log.size + data.length < 2 ^ 63 then s.log.writes ++ [(s.log.size, data)]
      else s.log.writes := by
    unfold AppendLog.write
    rw [hcount]
    dsimp only
    by_cases hroom : s.log.size + data.length < 2 ^ 63
    · rw [if_pos ⟨hdata, hroom⟩, if_pos hroom]
    · rw [if_neg fun hand => hroom hand.2, if_neg hroom]
  show (held _).Perm (s.log.write fd data).writes ↔ _
  rw [hlog]
  by_cases hroom : s.log.size + data.length < 2 ^ 63
  · rw [if_pos hroom, and_iff_left hroom]
    have hlast : (s.log.writes ++ [(s.log.size, data)]).Perm
        ((s.log.size, data) :: s.log.writes) := List.perm_append_singleton _ _
    constructor
    · intro hperm
      have hcons := (hheld.trans hbefore).symm.trans (hperm.trans hlast)
      exact (Prod.mk.inj (cons_perm_cons_iff.mp hcons)).1
    · rintro rfl
      exact (hheld.trans hbefore).trans hlast.symm
  · rw [if_neg hroom]
    refine iff_of_false (fun hperm => ?_) fun hand => hroom hand.2
    have hlength := ((hheld.trans hbefore).symm.trans hperm).length_eq
    rw [List.length_cons] at hlength
    omega

theorem Kept.kept_write (h : s.Kept path) (session : Session)
    (hall : ∀ n, outcomes.written n = true) {fd : Int} {count : Nat}
    (hcount : s.log.through.lookup fd = some count) {data : List UInt8}
    (hdata : data ≠ []) (hsame : count = s.log.size)
    (hroom : s.log.size + data.length < 2 ^ 63) :
    Kept { adapter := (s.adapter.write session outcomes fd data).2,
           log := s.log.write fd data } path := by
  obtain ⟨state, hget, -, -⟩ := h.get hcount
  obtain ⟨kept, hfds, hholds, hstaged, hkept, -⟩ :=
    h.write session hall hcount hdata
  have hpos := List.length_pos_iff.mpr hdata
  have hlog : (s.log.write fd data).through =
      s.log.through.insert fd (count + data.length) := by
    unfold AppendLog.write
    rw [hcount]
    dsimp only
    rw [if_pos ⟨hdata, hroom⟩]
  have hstop : (UInt64.ofNat count + UInt64.ofNat data.length).toNat = count + data.length := by
    rw [UInt64.toNat_add, UInt64.toNat_ofNat', UInt64.toNat_ofNat', Nat.mod_eq_of_lt (by omega),
      Nat.mod_eq_of_lt (by omega), Nat.mod_eq_of_lt (by omega)]
  refine ⟨?_, hholds, ?_, fun fd' => ?_, fun fd' count' hc => ?_, fun fd' r hr => ?_⟩
  · dsimp only
    rw [hfds]
    exact h.file.setOffset fd _
  · dsimp only
    rw [hfds]
    exact h.unshared.setOffset fd _
  · dsimp only
    rw [hfds, h.unshared.get_setOffset (FdTable.opened_of_get hget), hlog, hstop]
    by_cases he : fd' = fd
    · rw [if_pos he, he, AList.lookup_insert]
    · rw [if_neg he, AList.lookup_insert_ne he]
      exact h.offsets fd'
  · dsimp only at hc
    rw [hlog] at hc
    rcases Foundation.lookup_insert_cases hc with ⟨-, rfl⟩ | ⟨-, hold⟩
    · omega
    · exact h.bound fd' count' hold
  · dsimp only at hr ⊢
    rw [hstaged] at hr
    rw [hlog]
    by_cases he : fd' = fd
    · rw [he, Function.update_self] at hr
      have hle := hkept r hr
      exact ⟨_, by rw [he, AList.lookup_insert], by omega⟩
    · rw [Function.update_of_ne he] at hr
      rw [AList.lookup_insert_ne he]
      exact h.staged fd' r hr

/-- A write through no open descriptor, or of no bytes, does nothing. -/
theorem Kept.write_eq (h : s.Kept path) (session : Session) (outcomes : Outcomes) {fd : Int}
    {data : List UInt8}
    (hidle : s.log.through.lookup fd = none ∨ data = []) :
    (s.adapter.write session outcomes fd data).2 = s.adapter ∧ s.log.write fd data = s.log := by
  unfold TrackedAdapter.write AppendLog.write
  cases hcount : s.log.through.lookup fd with
  | none =>
      rw [(h.get_none hcount).1]
      exact ⟨rfl, rfl⟩
  | some count =>
      obtain ⟨state, hget, -, -⟩ := h.get hcount
      rcases hidle with hnone | rfl
      · rw [hcount] at hnone
        cases hnone
      · rw [hget]
        dsimp only
        rw [TrackedAdapter.doWrite, if_pos rfl, if_neg fun hand => hand.1 rfl]
        exact ⟨rfl, rfl⟩

/-! ## Every run -/

/-- A call keeps every write in its place exactly when it meets the condition. -/
theorem placed_step_iff (hall : ∀ n, outcomes.written n = true) (h : s.Kept path)
    (hplaced : s.Placed) (hstep : s.step session outcomes path c = some s') :
    s'.Placed ↔ s.GoesToEnd c := by
  cases c with
  | openFile flags fd =>
      obtain ⟨hfree, rfl⟩ := step_openFile hstep
      obtain ⟨-, hheld, hwrites⟩ := h.openFile flags hfree
      refine iff_of_true ?_ True.intro
      unfold Placed
      rw [hheld]
      show s.held.Perm (s.log.openFile flags.flags fd).writes
      rw [hwrites]
      exact hplaced
  | close fd =>
      obtain rfl := Option.some.inj hstep
      obtain ⟨-, hheld⟩ := h.close session hall fd
      exact iff_of_true (hheld.trans hplaced) True.intro
  | write fd data =>
      obtain rfl := Option.some.inj hstep
      have hgoes : s.GoesToEnd (.write fd data) ↔ ∀ count ∈ s.log.through.lookup fd, data ≠ [] →
          count = s.log.size ∧ s.log.size + data.length < 2 ^ 63 := Iff.rfl
      rw [hgoes]
      by_cases hidle : s.log.through.lookup fd = none ∨ data = []
      · obtain ⟨hadapter, hlog⟩ := h.write_eq session outcomes hidle
        rw [hadapter, hlog]
        refine iff_of_true hplaced fun count hcount hdata => ?_
        rcases hidle with hnone | hempty
        · rw [hnone] at hcount
          cases hcount
        · exact absurd hempty hdata
      · obtain ⟨hopen, hdata⟩ := not_or.mp hidle
        obtain ⟨count, hcount⟩ := Option.ne_none_iff_exists'.mp hopen
        rw [h.placed_write_iff session hall hplaced hcount hdata, hcount]
        simp only [Option.mem_some_iff, forall_eq', ne_eq, hdata, not_false_eq_true, true_imp_iff]

theorem Kept.step (hall : ∀ n, outcomes.written n = true) (h : s.Kept path)
    (hgoes : s.GoesToEnd c) (hstep : s.step session outcomes path c = some s') :
    s'.Kept path := by
  cases c with
  | openFile flags fd =>
      obtain ⟨hfree, rfl⟩ := step_openFile hstep
      exact (h.openFile flags hfree).1
  | close fd =>
      obtain rfl := Option.some.inj hstep
      exact (h.close session hall fd).1
  | write fd data =>
      obtain rfl := Option.some.inj hstep
      by_cases hidle : s.log.through.lookup fd = none ∨ data = []
      · obtain ⟨hadapter, hlog⟩ := h.write_eq session outcomes hidle
        rw [hadapter, hlog]
        exact h
      · obtain ⟨hopen, hdata⟩ := not_or.mp hidle
        obtain ⟨count, hcount⟩ := Option.ne_none_iff_exists'.mp hopen
        obtain ⟨hsame, hroom⟩ := hgoes count hcount hdata
        exact h.kept_write session hall hcount hdata hsame hroom

theorem kept_start (session : Session) (metadata : String → FileMeta) (path : String) :
    (start session metadata path).Kept path := by
  refine ⟨fun fd address h => ?_, fun fd cache h => ?_,
    ⟨fun fd address h => ?_, fun fd fd' address h => ?_, fun fd address h => ?_⟩, fun fd => rfl,
    fun fd count h => ?_, fun fd r hr => ?_⟩
  · cases h
  · cases h
  · cases h
  · cases h
  · cases h
  · cases h
  · cases hr

/-- **Append mode.** For every file, every sequence of opens with `O_APPEND`, writes and closes,
and all publishes succeeding: at every point every write so far is published, or cached to be
published, at the end that the file had, exactly when every write that is not empty goes
through an open through which all bytes of the file were written. -/
theorem append_placed_iff (session : Session) (outcomes : Outcomes)
    (hall : ∀ n, outcomes.written n = true) (metadata : String → FileMeta) (path : String)
    (calls : List AppendCall) {t : AppendRun}
    (hexec : exec (step session outcomes path) (start session metadata path) calls = some t) :
    (∀ front s, front <+: calls →
        exec (step session outcomes path) (start session metadata path) front = some s →
        s.Placed) ↔
      Along (step session outcomes path) GoesToEnd (start session metadata path) calls :=
  Along.iff_observed (I := fun s => s.Kept path)
    (fun h hgoes hstep => h.step hall hgoes hstep)
    (fun h hplaced hstep => placed_step_iff hall h hplaced hstep)
    (kept_start session metadata path) (List.Perm.refl _) hexec

/-- The flags of `fopen` with the mode `"a"`. -/
def fopenAppend : AppendFlags := .ofFopen "a" (by decide) (by decide)

/-- One open writes, past the cache and into it, beside one that does not; then a third one
empties the file and writes. -/
def oneOpenAtATime : List AppendCall :=
  [.openFile fopenAppend 3, .openFile fopenAppend 4, .write 3 [1, 2, 3, 4, 5], .write 3 [6],
    .close 4, .write 3 [7, 8], .close 3,
    .openFile { flags := oWronly ||| oTrunc ||| oAppend, appends := by decide } 3,
    .write 3 [9]]

theorem oneOpenAtATime_placed :
    ∃ t, exec (step fourByteSession .succeeding "/f") (start fourByteSession (fun _ => {}) "/f")
        oneOpenAtATime = some t ∧ t.Placed :=
  ⟨_, rfl, (append_placed_iff fourByteSession .succeeding (fun _ => rfl) (fun _ => {}) "/f"
    oneOpenAtATime rfl).mpr (by decide +kernel) _ _ (List.prefix_refl _) rfl⟩

/-- A second open goes over the bytes of the first one. -/
theorem second_append_overwrites :
    let calls : List AppendCall := [.openFile fopenAppend 3, .write 3 [1, 2], .close 3,
      .openFile fopenAppend 3, .write 3 [9], .close 3]
    let step := step fourByteSession .succeeding "/f"
    let s := start fourByteSession (fun _ => {}) "/f"
    (exec step s calls).map (fun t => (t.adapter.writes.map FlushRegion.region, t.log.writes)) =
        some ([(0, [1, 2]), (0, [9])], [(0, [1, 2]), (2, [9])]) ∧
      ¬∀ front t, front <+: calls → exec step s front = some t → t.Placed := by
  refine ⟨by decide +kernel, fun hall => ?_⟩
  have hplaced := hall _ _ (List.prefix_refl _) rfl
  exact absurd hplaced (by decide +kernel)

end AppendRun
end Labios
