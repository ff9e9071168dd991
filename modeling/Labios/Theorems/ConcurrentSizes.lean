import Labios.Catalog.FileMeta
import Labios.Foundation.Entries
import Labios.Foundation.Machine
import Mathlib.Algebra.Group.Nat.Defs

/-!
# Writes that are tracked at the same time

`track_write` of `labios/catalog_manager.cpp` as the commands that it sends: it marks the
file as existing, reads the size, writes its own end if that is greater, and stamps the
time. The commands of all calls on one file interleave.
-/

namespace Labios

open Foundation

/-- The command that a call sends next. -/
inductive TrackPhase
  | marking
  | reading
  | writing
  | stamping
  | returned
  deriving DecidableEq, Repr

structure TrackCall where
  offset : UInt64
  size : UInt64
  phase : TrackPhase := .marking
  deriving DecidableEq, Repr

namespace TrackCall

def stop (c : TrackCall) : UInt64 := c.offset + c.size

/-- What the call does to the size is done. -/
def Settled (c : TrackCall) : Prop := c.phase = .stamping ∨ c.phase = .returned

instance Settled.decidable (c : TrackCall) : Decidable c.Settled :=
  inferInstanceAs (Decidable (_ ∨ _))

end TrackCall

structure TrackState where
  file : FileMeta
  calls : List TrackCall
  deriving DecidableEq, Repr

namespace TrackState

def start (file : FileMeta) (writes : List (UInt64 × UInt64)) : TrackState :=
  { file, calls := writes.map fun w => { offset := w.1, size := w.2 } }

def size (s : TrackState) : UInt64 := s.file.size.getD 0

def setPhase (s : TrackState) (i : Nat) (c : TrackCall) (phase : TrackPhase) : TrackState :=
  { s with calls := s.calls.set i { c with phase } }

/-- The `i`-th call sends its next command. -/
def step (s : TrackState) (i : Nat) : Option TrackState :=
  match s.calls[i]? with
  | none => none
  | some c =>
      match c.phase with
      | .marking =>
          some ({ s with file := { s.file with isThere := some true } }.setPhase i c .reading)
      -- the comparison takes no command: the size is only known as it was read
      | .reading =>
          some (s.setPhase i c (if s.size < c.stop then .writing else .stamping))
      | .writing =>
          some ({ s with file := { s.file with size := some c.stop } }.setPhase i c .stamping)
      | .stamping => some (s.setPhase i c .returned)
      | .returned => none

def AllReturned (s : TrackState) : Prop := ∀ c ∈ s.calls, c.phase = .returned

/-- A call on its own does what `trackWrite` says. -/
theorem exec_alone (file : FileMeta) (offset size : UInt64) :
    ∃ run s, exec step (start file [(offset, size)]) run = some s ∧ s.AllReturned ∧
      s.file = file.trackWrite offset size := by
  by_cases hlt : file.size.getD 0 < offset + size
  · refine ⟨[0, 0, 0, 0], ⟨⟨some true, some (offset + size)⟩, [⟨offset, size, .returned⟩]⟩,
      ?_, ?_, ?_⟩
    · simp [exec, step, start, setPhase, TrackState.size, TrackCall.stop, hlt]
    · simp [AllReturned]
    · simp [FileMeta.trackWrite, hlt]
  · refine ⟨[0, 0, 0], ⟨⟨some true, file.size⟩, [⟨offset, size, .returned⟩]⟩, ?_, ?_, ?_⟩
    · simp [exec, step, start, setPhase, TrackState.size, TrackCall.stop, hlt]
    · simp [AllReturned]
    · simp [FileMeta.trackWrite, hlt]

variable {s s' : TrackState} {i : Nat}

/-- All that a step can do. -/
theorem step_cases (h : s.step i = some s') :
    ∃ c phase, s.calls[i]? = some c ∧ s'.calls = s.calls.set i { c with phase } ∧
      (c.phase = .marking ∧ phase = .reading ∧
          s'.file = { s.file with isThere := some true } ∨
        c.phase = .reading ∧ s.size < c.stop ∧ phase = .writing ∧ s'.file = s.file ∨
        c.phase = .reading ∧ ¬s.size < c.stop ∧ phase = .stamping ∧ s'.file = s.file ∨
        c.phase = .writing ∧ phase = .stamping ∧
          s'.file = { s.file with size := some c.stop } ∨
        c.phase = .stamping ∧ phase = .returned ∧ s'.file = s.file) := by
  unfold step at h
  cases hc : s.calls[i]? with
  | none =>
      rw [hc] at h
      cases h
  | some c =>
      rw [hc] at h
      dsimp only at h
      cases hphase : c.phase with
      | marking =>
          rw [hphase] at h
          obtain rfl := Option.some.inj h
          exact ⟨c, .reading, rfl, rfl, .inl ⟨hphase, rfl, rfl⟩⟩
      | reading =>
          rw [hphase] at h
          obtain rfl := Option.some.inj h
          by_cases hlt : s.size < c.stop
          · rw [if_pos hlt]
            exact ⟨c, .writing, rfl, rfl, .inr (.inl ⟨hphase, hlt, rfl, rfl⟩)⟩
          · rw [if_neg hlt]
            exact ⟨c, .stamping, rfl, rfl, .inr (.inr (.inl ⟨hphase, hlt, rfl, rfl⟩))⟩
      | writing =>
          rw [hphase] at h
          obtain rfl := Option.some.inj h
          exact ⟨c, .stamping, rfl, rfl, .inr (.inr (.inr (.inl ⟨hphase, rfl, rfl⟩)))⟩
      | stamping =>
          rw [hphase] at h
          obtain rfl := Option.some.inj h
          exact ⟨c, .returned, rfl, rfl, .inr (.inr (.inr (.inr ⟨hphase, rfl, rfl⟩)))⟩
      | returned =>
          rw [hphase] at h
          cases h

/-- The arguments of the calls. -/
def writes (s : TrackState) : List (UInt64 × UInt64) := s.calls.map fun c => (c.offset, c.size)

theorem step_writes (h : s.step i = some s') : s'.writes = s.writes := by
  obtain ⟨c, phase, hc, hcalls, -⟩ := step_cases h
  unfold writes
  apply List.ext_getElem?
  intro j
  rw [List.getElem?_map, List.getElem?_map, hcalls]
  by_cases hij : i = j
  · subst hij
    rw [List.getElem?_set_self (List.getElem?_eq_some_iff.mp hc).1, hc]
    rfl
  · rw [List.getElem?_set_ne hij]

theorem writes_start (file : FileMeta) (writes : List (UInt64 × UInt64)) :
    (start file writes).writes = writes := by
  unfold TrackState.writes start
  rw [List.map_map]
  exact List.map_id _

/-- A call that is past its first command has marked the file. -/
def Marked (s : TrackState) : Prop :=
  ∀ c ∈ s.calls, c.phase ≠ .marking → s.file.isThere = some true

theorem Marked.step (h : s.Marked) (hstep : s.step i = some s') : s'.Marked := by
  obtain ⟨c, phase, hc, hcalls, hcase⟩ := step_cases hstep
  have hold := h c (List.mem_of_getElem? hc)
  unfold Marked
  rw [hcalls]
  rcases hcase with ⟨-, -, hfile⟩ | ⟨hphase, -, -, hfile⟩ | ⟨hphase, -, -, hfile⟩ |
    ⟨hphase, -, hfile⟩ | ⟨hphase, -, hfile⟩
  · rw [hfile]
    exact fun _ _ _ => rfl
  all_goals
    rw [hfile]
    refine forall_set h fun _ => hold ?_
    rw [hphase]
    decide

end TrackState
end Labios

/-!
## The size of a file with many writers

`track_write` compares its end with a size that it has read, and writes it in a later
command. Between the two another call may have made the size greater, and it is taken
back. When no call finds a greater size than its own end where it writes, the size is at
every time the greatest of the ends so far.
-/

namespace Labios

open Foundation

namespace TrackState

/-- The size is the greatest of what it was at first and of the ends of the calls that have
done with it. -/
structure Tracks (file : FileMeta) (s : TrackState) : Prop where
  initial : (file.size.getD 0).toNat ≤ s.size.toNat
  settled : ∀ c ∈ s.calls, c.Settled → c.stop.toNat ≤ s.size.toNat
  attained : s.size = file.size.getD 0 ∨ ∃ c ∈ s.calls, c.Settled ∧ c.stop = s.size

/-- A call that writes its end finds no greater size. -/
def Raises (s : TrackState) (i : Nat) : Prop :=
  ∀ c ∈ s.calls[i]?, c.phase = .writing → s.size.toNat ≤ c.stop.toNat

instance Raises.decidable (s : TrackState) (i : Nat) : Decidable (s.Raises i) :=
  inferInstanceAs (Decidable (∀ c ∈ s.calls[i]?, _))

variable {file : FileMeta} {s s' : TrackState} {i : Nat}

/-- A step that leaves the size keeps it the greatest, if the call has it behind itself. -/
theorem Tracks.of_size (h : Tracks file s) {c d : TrackCall} (hc : s.calls[i]? = some c)
    (hcalls : s'.calls = s.calls.set i d) (hsize : s'.size = s.size)
    (hnew : d.Settled → d.stop.toNat ≤ s.size.toNat) (hkept : c.Settled → d.Settled)
    (hstop : d.stop = c.stop) : Tracks file s' := by
  refine ⟨by rw [hsize]; exact h.initial, ?_, ?_⟩
  · rw [hcalls, hsize]
    exact forall_set h.settled hnew
  · rw [hcalls, hsize]
    rcases h.attained with hsame | hsome
    · exact .inl hsame
    · rcases exists_set hc hsome with ⟨hset, hval⟩ | hrest
      · exact .inr ⟨d, mem_set_self hc, hkept hset, hstop.trans hval⟩
      · exact .inr hrest

theorem tracks_step_iff (h : Tracks file s) (hstep : s.step i = some s') :
    Tracks file s' ↔ s.Raises i := by
  obtain ⟨c, phase, hc, hcalls, hcase⟩ := step_cases hstep
  have hraises : s.Raises i ↔ (c.phase = .writing → s.size.toNat ≤ c.stop.toNat) := by
    unfold Raises
    rw [hc]
    simp
  rw [hraises]
  rcases hcase with ⟨hphase, rfl, hfile⟩ | ⟨hphase, -, rfl, hfile⟩ | ⟨hphase, hge, rfl, hfile⟩ |
    ⟨hphase, rfl, hfile⟩ | ⟨hphase, rfl, hfile⟩
  · refine iff_of_true (h.of_size hc hcalls ?_ ?_ ?_ rfl) (by simp [hphase])
    · unfold size
      rw [hfile]
    · simp [TrackCall.Settled]
    · simp [TrackCall.Settled, hphase]
  · refine iff_of_true (h.of_size hc hcalls ?_ ?_ ?_ rfl) (by simp [hphase])
    · unfold size
      rw [hfile]
    · simp [TrackCall.Settled]
    · simp [TrackCall.Settled, hphase]
  · -- the size is already as great
    refine iff_of_true (h.of_size hc hcalls ?_ ?_ ?_ rfl) (by simp [hphase])
    · unfold size
      rw [hfile]
    · intro _
      exact Nat.le_of_not_lt fun hlt => hge (UInt64.lt_iff_toNat_lt.mpr hlt)
    · simp [TrackCall.Settled]
  · -- the end is written, whatever the size is
    have hsize : s'.size = c.stop := by
      unfold size
      rw [hfile]
      rfl
    have hunsettled : ¬c.Settled := by simp [TrackCall.Settled, hphase]
    constructor
    · -- a greater size belongs to a call that is done, or was there before
      intro h' _
      rw [← hsize]
      rcases h.attained with hsame | hsome
      · rw [hsame]
        exact h'.initial
      · rcases exists_set hc hsome with ⟨hset, -⟩ | ⟨d, hd, hset, hval⟩
        · exact absurd hset hunsettled
        · rw [← hval]
          refine h'.settled d ?_ hset
          rw [hcalls]
          exact hd
    · intro hraise
      have hle := hraise hphase
      refine ⟨?_, ?_, .inr ⟨{ c with phase := .stamping }, ?_, .inl rfl, hsize.symm⟩⟩
      · rw [hsize]
        exact Nat.le_trans h.initial hle
      · rw [hcalls, hsize]
        exact forall_set (fun d hd hset => Nat.le_trans (h.settled d hd hset) hle) fun _ =>
          Nat.le_refl _
      · rw [hcalls]
        exact mem_set_self hc
  · refine iff_of_true (h.of_size hc hcalls ?_ ?_ ?_ rfl) (by simp [hphase])
    · unfold size
      rw [hfile]
    · exact fun _ => h.settled c (List.mem_of_getElem? hc) (.inl hphase)
    · exact fun _ => .inr rfl

theorem unsettled_start {writes : List (UInt64 × UInt64)} :
    ∀ c ∈ (start file writes).calls, c.phase = .marking := by
  intro c hc
  obtain ⟨w, -, rfl⟩ := List.mem_map.mp hc
  rfl

theorem tracks_start (file : FileMeta) (writes : List (UInt64 × UInt64)) :
    Tracks file (start file writes) := by
  refine ⟨Nat.le_refl _, fun c hc hset => ?_, .inl rfl⟩
  unfold TrackCall.Settled at hset
  rw [unsettled_start c hc] at hset
  rcases hset with hset | hset <;> cases hset

/-- The greatest of the initial size and of all ends. -/
def greatest (initial : Nat) (writes : List (UInt64 × UInt64)) : Nat :=
  (writes.map fun w => w.1.toNat + w.2.toNat).foldr max initial

section Greatest

variable {initial v : Nat} {writes : List (UInt64 × UInt64)}

theorem greatest_le (hinitial : initial ≤ v) (hall : ∀ w ∈ writes, w.1.toNat + w.2.toNat ≤ v) :
    greatest initial writes ≤ v := by
  unfold greatest
  induction writes with
  | nil => exact hinitial
  | cons w rest ih =>
      rw [List.map_cons, List.foldr_cons]
      exact Nat.max_le.mpr ⟨hall w List.mem_cons_self,
        ih fun x hx => hall x (List.mem_cons_of_mem w hx)⟩

theorem initial_le_greatest : initial ≤ greatest initial writes := by
  unfold greatest
  induction writes with
  | nil => exact Nat.le_refl initial
  | cons w rest ih =>
      rw [List.map_cons, List.foldr_cons]
      exact Nat.le_trans ih (Nat.le_max_right ..)

theorem le_greatest {w : UInt64 × UInt64} (hw : w ∈ writes) :
    w.1.toNat + w.2.toNat ≤ greatest initial writes := by
  unfold greatest
  induction writes with
  | nil => exact absurd hw List.not_mem_nil
  | cons x rest ih =>
      rw [List.map_cons, List.foldr_cons]
      rcases List.mem_cons.mp hw with rfl | hw
      · exact Nat.le_max_left ..
      · exact Nat.le_trans (ih hw) (Nat.le_max_right ..)

theorem eq_greatest (hinitial : initial ≤ v) (hall : ∀ w ∈ writes, w.1.toNat + w.2.toNat ≤ v)
    (hattained : v = initial ∨ ∃ w ∈ writes, w.1.toNat + w.2.toNat = v) :
    v = greatest initial writes := by
  refine Nat.le_antisymm ?_ (greatest_le hinitial hall)
  rcases hattained with rfl | ⟨w, hw, rfl⟩
  · exact initial_le_greatest
  · exact le_greatest hw

end Greatest

/-- When all calls have returned, the size that is tracked is the greatest. -/
theorem info_of_tracks {writes : List (UInt64 × UInt64)}
    (hends : ∀ w ∈ writes, w.1.toNat + w.2.toNat < 2 ^ 64) (hne : writes ≠ [])
    (h : Tracks file s) (hmarked : s.Marked) (hwrites : s.writes = writes)
    (hreturned : s.AllReturned) :
    ∃ info, s.file.getFileInfo = some info ∧ info.isThere = true ∧
      info.size.toNat = greatest (file.size.getD 0).toNat writes := by
  subst hwrites
  have hstop : ∀ c ∈ s.calls, c.stop.toNat = c.offset.toNat + c.size.toNat := by
    intro c hc
    have hend := hends (c.offset, c.size) (List.mem_map.mpr ⟨c, hc, rfl⟩)
    unfold TrackCall.stop
    rw [UInt64.toNat_add, Nat.mod_eq_of_lt hend]
  -- there is a call, and it has marked the file before it returned
  have hthere : s.file.isThere = some true := by
    obtain ⟨c, hc⟩ := List.exists_mem_of_ne_nil s.calls fun hnil => hne (by
      unfold writes
      rw [hnil]
      rfl)
    exact hmarked c hc (by rw [hreturned c hc]; decide)
  refine ⟨{ isThere := true, size := s.size }, ?_, rfl, ?_⟩
  · unfold FileMeta.getFileInfo
    rw [hthere]
    rfl
  · refine eq_greatest h.initial ?_ ?_
    · intro w hw
      obtain ⟨c, hc, rfl⟩ := List.mem_map.mp hw
      rw [← hstop c hc]
      exact h.settled c hc (.inr (hreturned c hc))
    · rcases h.attained with hsame | ⟨c, hc, -, hval⟩
      · exact .inl (congrArg UInt64.toNat hsame)
      · refine .inr ⟨(c.offset, c.size), List.mem_map.mpr ⟨c, hc, rfl⟩, ?_⟩
        rw [← hval, hstop c hc]

/-- In every interleaving in which a call that writes its end never finds a greater size,
the size is the greatest end after all calls have returned; and only in these is it at every
time the greatest of the ends of the calls that have done with it. -/
theorem sizes_tracked (file : FileMeta) (writes : List (UInt64 × UInt64)) (hne : writes ≠ [])
    (hends : ∀ w ∈ writes, w.1.toNat + w.2.toNat < 2 ^ 64) (run : List Nat) (s : TrackState)
    (hexec : exec step (start file writes) run = some s) :
    (Along step Raises (start file writes) run → s.AllReturned →
      ∃ info, s.file.getFileInfo = some info ∧ info.isThere = true ∧
        info.size.toNat = greatest (file.size.getD 0).toNat writes) ∧
    ((∀ front s', front <+: run → exec step (start file writes) front = some s' →
        Tracks file s') ↔ Along step Raises (start file writes) run) := by
  have hiff := Along.iff_reached tracks_step_iff (tracks_start file writes) hexec
  refine ⟨fun halong hreturned => ?_, hiff⟩
  have hmarked : s.Marked := by
    refine exec_kept Marked.step ?_ hexec
    exact fun c hc hphase => absurd (unsettled_start c hc) hphase
  have hwrites : s.writes = writes := by
    refine exec_kept (I := fun t => t.writes = writes) (fun ht hstep => ?_)
      (writes_start file writes) hexec
    exact (step_writes hstep).trans ht
  exact info_of_tracks hends hne (hiff.mpr halong run s (List.prefix_refl _) hexec) hmarked
    hwrites hreturned

/-- The first call reads before the second one writes, but the sizes grow. -/
theorem sizes_tracked_growing :
    ∃ s, exec step (start {} [(0, 100), (100, 100)]) [0, 1, 0, 0, 1, 1, 0, 1] = some s ∧
      ∃ info, s.file.getFileInfo = some info ∧ info.isThere = true ∧
        info.size.toNat = greatest 0 [(0, 100), (100, 100)] := by
  refine ⟨⟨⟨some true, some 200⟩, [⟨0, 100, .returned⟩, ⟨100, 100, .returned⟩]⟩, by decide, ?_⟩
  refine (sizes_tracked {} [(0, 100), (100, 100)] (by decide) (fun w hw => ?_)
    [0, 1, 0, 0, 1, 1, 0, 1] _ (by decide)).1 (by decide) fun c hc => ?_
  · rcases List.mem_cons.mp hw with rfl | hw
    · decide
    · rw [List.mem_singleton.mp hw]
      decide
  · rcases List.mem_cons.mp hc with rfl | hc
    · rfl
    · rw [List.mem_singleton.mp hc]

/-- Both calls read 0, the greater end is written first, and the smaller one replaces it. -/
theorem size_takenBack :
    exec step (start {} [(0, 100), (100, 100)]) [0, 1, 0, 1, 1, 0, 0, 1] =
        some ⟨⟨some true, some 100⟩, [⟨0, 100, .returned⟩, ⟨100, 100, .returned⟩]⟩ ∧
      FileMeta.getFileInfo ⟨some true, some 100⟩ = some { isThere := true, size := 100 } ∧
      greatest 0 [(0, 100), (100, 100)] = 200 := by
  decide

end TrackState
end Labios
