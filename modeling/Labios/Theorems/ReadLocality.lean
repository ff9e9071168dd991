import Labios.Dispatcher.Homes
import Labios.Dispatcher.Policy

/-!
# Read locality

A read of bytes that were written goes to a worker that has them as they were
written last. The dispatcher keeps this up as long as each file has one home; a
supertask is placed by the solver alone, and where it takes a file to another
worker, the entries of the old home stay in the catalog (`moved_read_is_stale`).
On the worker's side a write at the start of a longer file cuts it.
-/

namespace Labios

open Foundation

section Runs

variable {ρ : Type} (S : StdSort) (d : Dispatcher ρ) (intakes : Nat → Intake)
  (roots : Int → String)

/-- Byte `p` of the file was put by a batch before the label's. -/
def PutBefore (s : LoopState ρ OwnStorage) (x : Handling) (p : Nat) : Prop :=
  ∃ h ∈ s.lines.executed, h.turn < x.turn ∧ ∃ r ∈ s.storage.written,
    r.worker = h.worker ∧ r.label = h.label ∧ r.label.fileKey = x.label.fileKey ∧ r.region.Covers p

instance (s : LoopState ρ OwnStorage) (x : Handling) (p : Nat) : Decidable (PutBefore s x p) := by
  unfold PutBefore Written.region
  infer_instance

/-- Every read that was sent after all its bytes were written waits for a worker
whose own files hold the last write of each. -/
def ReadsLatest (s : LoopState ρ OwnStorage) : Prop :=
  ∀ w, ∀ x ∈ s.lines.line w, x.label.type = .read →
    (∀ p, start x.label ≤ p → p < finish x.label → PutBefore s x p) →
      ∀ p, start x.label ≤ p → p < finish x.label →
        ∃ name b, fileOf x.label.fileKey = some name ∧
          lastAt (regionsOf s.storage.written x.label.fileKey) p = some b ∧
          byteAt (s.storage.storage.files (roots w)) name p = some b

/-- The label that a worker is about to execute keeps the bytes of its file. -/
def KeepsFile (w : Int) (s : LoopState ρ OwnStorage) : Prop :=
  match s.owed w, s.lines.waiting w with
  | [], (x :: _) :: _ => Keeps roots w x.label s.storage
  | _, _ => True

instance (w : Int) (s : LoopState ρ OwnStorage) : Decidable (KeepsFile roots w s) := by
  unfold KeepsFile
  split
  · infer_instance
  · infer_instance

/-- Each batch is executed before the next is taken. -/
inductive BatchwiseStep : LoopState ρ OwnStorage → LoopState ρ OwnStorage → Prop
  | dispatcher {s} (h : Drained s) : BatchwiseStep s (dispatcherStep S d intakes s)
  | worker {w s s'} (h : workerStep (executeOwn roots) w s = some s') : BatchwiseStep s s'

abbrev BatchwiseRun : LoopState ρ OwnStorage → LoopState ρ OwnStorage → Prop :=
  Relation.ReflTransGen (BatchwiseStep S d intakes roots)

/-- A step in a state that meets the condition. -/
inductive PlacedStep : LoopState ρ OwnStorage → LoopState ρ OwnStorage → Prop
  | dispatcher {s} (h : Drained s) (hplaced : WellPlaced d s) :
      PlacedStep s (dispatcherStep S d intakes s)
  | worker {w s s'} (h : workerStep (executeOwn roots) w s = some s')
      (hkeeps : KeepsFile roots w s) : PlacedStep s s'

abbrev PlacedRun : LoopState ρ OwnStorage → LoopState ρ OwnStorage → Prop :=
  Relation.ReflTransGen (PlacedStep S d intakes roots)

/-- Nothing was dispatched yet. -/
structure Unstarted {σ : Type} (s : LoopState ρ σ) : Prop where
  progress : s.progress = {}
  locations : ∀ k, s.dispatch.locations.Unplaced k
  lines : s.lines = {}
  owed : ∀ w, s.owed w = []

/-! ## The invariant -/

/-- Every file has a home, and every logged write is stored there. -/
structure Local (home : String → Option Int) (s : LoopState ρ OwnStorage) : Prop where
  homed : Homed home s
  logged : ∀ r ∈ s.storage.written,
    r.label.type = .write ∧ ∃ h ∈ s.lines.executed, h.worker = r.worker ∧ h.label = r.label
  stored : Stored roots s.storage

variable {S d intakes roots} {home : String → Option Int} {s : LoopState ρ OwnStorage}

theorem Local.home_of_written (h : Local roots home s) {r : Written}
    (hr : r ∈ s.storage.written) : home r.label.fileKey = some r.worker := by
  obtain ⟨hw, x, hx, hworker, hlabel⟩ := h.logged r hr
  have hhome := h.homed.executed x hx (by rw [hlabel]; exact hw)
  rwa [hlabel, hworker] at hhome

/-- The dispatcher stores nothing and executes nothing. -/
theorem dispatcherStep_keeps {σ : Type} (s : LoopState ρ σ) :
    (dispatcherStep S d intakes s).storage = s.storage ∧
      (dispatcherStep S d intakes s).lines.executed = s.lines.executed := by
  have hmove := dispatcherStep_moves S d intakes s
  generalize dispatcherStep S d intakes s = s' at hmove ⊢
  cases hmove with
  | locate _ => exact ⟨rfl, rfl⟩
  | publish _ => exact ⟨rfl, rfl⟩
  | look _ _ => exact ⟨rfl, rfl⟩
  | direct _ _ _ => exact ⟨rfl, rfl⟩
  | supertask _ _ _ => exact ⟨rfl, rfl⟩
  | independent _ _ _ => exact ⟨rfl, rfl⟩
  | take _ _ _ _ _ => exact ⟨rfl, rfl⟩

/-- A worker executes the label at the head of its line. -/
theorem Local.execute (h : Local roots home s) {w : Int} {x : Handling} (hx : x ∈ s.lines.line w)
    (hkeeps : Keeps roots w x.label s.storage) {s' : LoopState ρ OwnStorage}
    (hhomed : Homed home s') (hlog : s'.lines.executed = s.lines.executed ++ [x])
    (hstorage : s'.storage = (executeOwn roots w x.label s.storage).2) : Local roots home s' := by
  obtain ⟨hworker, -, hstands⟩ := h.homed.line w x hx
  refine ⟨hhomed, ?_, ?_⟩
  · have hold : ∀ r ∈ s.storage.written, r.label.type = .write ∧
        ∃ y ∈ s'.lines.executed, y.worker = r.worker ∧ y.label = r.label := by
      intro r hr
      obtain ⟨hw, y, hy, hsame⟩ := h.logged r hr
      exact ⟨hw, y, hlog ▸ List.mem_append_left _ hy, hsame⟩
    rw [hstorage]
    rcases executeOwn_cases roots w hstands.pointer s.storage with
      ⟨name, hw, -, hrun⟩ | ⟨hwritten, -⟩
    · rw [hrun]
      intro r hr
      rcases List.mem_append.mp hr with hr | hr
      · exact hold r hr
      · rw [List.mem_singleton.mp hr]
        exact ⟨hw, x, hlog ▸ List.mem_append_right _ (List.mem_singleton_self x), hworker, rfl⟩
    · rw [hwritten]
      exact hold
  · rw [hstorage]
    refine h.stored.execute hstands.pointer (fun hw r hr hkey => ?_) hkeeps
    have hhome := h.home_of_written hr
    rw [hkey, hstands.write hw] at hhome
    exact (Option.some.inj hhome).symm

theorem Local.step {s' : LoopState ρ OwnStorage} (h : Local roots home s)
    (hagg : d.config.aggregationEnabled = false) (hids : ∀ i, DistinctIds (intakes i).batch)
    (hlabels : ∀ i, ∀ l ∈ (intakes i).batch, FromLabelManager l)
    (hstep : PlacedStep S d intakes roots s s') : ∃ more, Local roots more s' := by
  cases hstep with
  | dispatcher hdrained hplaced =>
      obtain ⟨more, hmore⟩ := h.homed.dispatcherStep (S := S) hdrained hplaced hagg hids hlabels
      obtain ⟨hstorage, hexecuted⟩ : (dispatcherStep S d intakes s).storage = s.storage ∧
          (dispatcherStep S d intakes s).lines.executed = s.lines.executed :=
        dispatcherStep_keeps s
      refine ⟨more, hmore, ?_, ?_⟩
      · rw [hstorage, hexecuted]
        exact h.logged
      · rw [hstorage]
        exact h.stored
  | @worker w s s' hworker hkeeps =>
      have hhomed := h.homed.workerStep hworker
      refine ⟨home, ?_⟩
      cases workerStep_moves hworker with
      | record _ => exact ⟨hhomed, h.logged, h.stored⟩
      | finish _ => exact ⟨hhomed, h.logged, h.stored⟩
      | run howed hwaiting hexec =>
          unfold KeepsFile at hkeeps
          rw [howed, hwaiting] at hkeeps
          refine h.execute ?_ hkeeps hhomed rfl (congrArg Prod.snd hexec).symm
          rw [Lines.line, hwaiting]
          exact List.mem_cons_self
      | abandon howed hwaiting hexec =>
          unfold KeepsFile at hkeeps
          rw [howed, hwaiting] at hkeeps
          refine h.execute ?_ hkeeps hhomed rfl (congrArg Prod.snd hexec).symm
          rw [Lines.line, hwaiting]
          exact List.mem_cons_self

theorem Unstarted.homed {σ : Type} {s : LoopState ρ σ} (h : Unstarted s) :
    Homed (fun _ => none) s := by
  refine ⟨⟨fun k w hw => ?_, fun k e he => ?_⟩, fun k w hk => absurd hk (by simp), fun op hop => ?_,
    fun w c hc => ?_, fun w x hx => ?_, fun x hx => ?_, ?_⟩
  · rw [(h.locations k).whole] at hw
    exact absurd hw (by simp)
  · rw [(h.locations k).ranged] at he
    exact absurd he List.not_mem_nil
  · rw [h.progress] at hop
    exact absurd hop List.not_mem_nil
  · rw [h.owed w] at hc
    exact absurd hc List.not_mem_nil
  · rw [h.lines] at hx
    exact absurd hx List.not_mem_nil
  · rw [h.lines] at hx
    exact absurd hx List.not_mem_nil
  · rw [h.progress]
    exact ⟨fun _ hl => absurd hl List.not_mem_nil, fun _ hr => absurd hr List.not_mem_nil,
      fun _ ht => absurd ht List.not_mem_nil, fun _ hl => absurd hl List.not_mem_nil⟩

/-- A read waits at the home of its file. -/
theorem Local.readsLatest (h : Local roots home s) : ReadsLatest roots s := by
  intro w x hx hread hput p hlo hhi
  obtain ⟨-, hturn, hstands⟩ := h.homed.line w x hx
  obtain ⟨g, hg, hlt, r, hr, hworker, hlabel, hkey, hcovers⟩ := hput p hlo hhi
  have hearlier : s.Earlier x.label.fileKey :=
    ⟨g, hg, hturn ▸ hlt, by rw [← hlabel]; exact (h.logged r hr).1, by rw [← hlabel]; exact hkey⟩
  have hhome := hstands.read hread hearlier
  rw [← hkey, h.home_of_written hr] at hhome
  obtain rfl := Option.some.inj hhome
  obtain ⟨name, hname, hbytes⟩ := h.stored r hr
  rw [hkey] at hname hbytes
  cases hlast : lastAt (regionsOf s.storage.written x.label.fileKey) p with
  | some b => exact ⟨name, b, hname, rfl, hbytes p b hlast⟩
  | none =>
      have hmem : r.region ∈ regionsOf s.storage.written x.label.fileKey :=
        List.mem_map_of_mem (List.mem_filter.mpr ⟨hr, decide_eq_true hkey⟩)
      exact absurd hcovers (lastAt_eq_none.mp hlast r.region hmem)

/-- **Read locality.** In every run whose steps all meet the condition, a read that is
sent after all its bytes were written waits for a worker that holds the last write
of each. -/
theorem reads_latest (S : StdSort) (d : Dispatcher ρ) (intakes : Nat → Intake)
    (roots : Int → String) (hagg : d.config.aggregationEnabled = false)
    (hids : ∀ i, DistinctIds (intakes i).batch)
    (hlabels : ∀ i, ∀ l ∈ (intakes i).batch, FromLabelManager l)
    {start s : LoopState ρ OwnStorage} (hstart : Unstarted start)
    (hwritten : start.storage.written = []) (hrun : PlacedRun S d intakes roots start s) :
    ReadsLatest roots s := by
  have hlocal : ∃ home, Local roots home s := by
    induction hrun with
    | refl =>
        refine ⟨fun _ => none, hstart.homed, fun r hr => ?_, fun r hr => ?_⟩
        · rw [hwritten] at hr
          exact absurd hr List.not_mem_nil
        · rw [hwritten] at hr
          exact absurd hr List.not_mem_nil
    | tail _ hstep ih =>
        obtain ⟨home, h⟩ := ih
        exact h.step hagg hids hlabels hstep
  obtain ⟨home, h⟩ := hlocal
  exact h.readsLatest

end Runs

/-! ## Who has work -/

section Sent

variable {ρ σ : Type} {S : StdSort} {d : Dispatcher ρ} {intakes : Nat → Intake}
  {execute : Int → LabelData → σ → Option UInt64 × σ}

/-- Only a worker that was sent something has work. -/
structure WorkSent (s : LoopState ρ σ) : Prop where
  ops : ∀ w labels, .publish w labels ∈ s.progress.ops → w ∈ s.dispatch.sent.map (·.1)
  waiting : ∀ w, s.lines.waiting w ≠ [] → w ∈ s.dispatch.sent.map (·.1)
  owed : ∀ w, s.owed w ≠ [] → w ∈ s.dispatch.sent.map (·.1)

variable {s : LoopState ρ σ}

theorem Unstarted.workSent (h : Unstarted s) : WorkSent s := by
  refine ⟨fun w labels hop => ?_, fun w hw => ?_, fun w hw => absurd (h.owed w) hw⟩
  · rw [h.progress] at hop
    exact absurd hop List.not_mem_nil
  · rw [h.lines] at hw
    exact absurd rfl hw

theorem WorkSent.routed (h : WorkSent s) (p : Progress) {after : DispatchState ρ}
    (commands : List LocationCommand) (hmore : SentMore s.dispatch after) :
    WorkSent (s.routed p after commands) := by
  obtain ⟨new, hnew⟩ := hmore
  have hold : ∀ w ∈ s.dispatch.sent.map (·.1), w ∈ after.sent.map (·.1) := by
    intro w hw
    rw [hnew, List.map_append]
    exact List.mem_append_left _ hw
  refine ⟨fun w labels hop => ?_, fun w hw => hold w (h.waiting w hw),
    fun w hw => hold w (h.owed w hw)⟩
  rcases List.mem_append.mp hop with hop | hop
  · obtain ⟨c, -, heq⟩ := List.mem_map.mp hop
    exact absurd heq (by simp)
  · obtain ⟨m, hm, heq⟩ := List.mem_map.mp hop
    obtain ⟨rfl, -⟩ := DispatchOp.publish.inj heq
    exact List.mem_map_of_mem (List.mem_of_mem_drop hm)

theorem WorkSent.dispatcherStep (h : WorkSent s) : WorkSent (dispatcherStep S d intakes s) := by
  have hmove := dispatcherStep_moves S d intakes s
  generalize Labios.dispatcherStep S d intakes s = s' at hmove ⊢
  cases hmove with
  | locate hops =>
      exact ⟨fun w labels hop => h.ops w labels (hops ▸ List.mem_cons_of_mem _ hop), h.waiting,
        h.owed⟩
  | @publish w labels rest hops =>
      refine ⟨fun v others hop => h.ops v others (hops ▸ List.mem_cons_of_mem _ hop),
        fun v hv => ?_, h.owed⟩
      by_cases hvw : v = w
      · rw [hvw]
        exact h.ops w labels (hops ▸ List.mem_cons_self)
      · change Function.update s.lines.waiting w _ v ≠ [] at hv
        rw [Function.update_of_ne hvw] at hv
        exact h.waiting v hv
  | look hops _ =>
      refine ⟨fun w labels hop => ?_, h.waiting, h.owed⟩
      have hsame : ∀ (p : Progress) locations l rest,
          (p.lookUp locations l rest).ops = p.ops := by
        intro p locations l rest
        unfold Progress.lookUp
        split
        · dsimp only
          split
          · rfl
          · split
            · rfl
            · rfl
        · rfl
      change _ ∈ (Progress.lookUp _ _ _ _).ops at hop
      rw [hsame, hops] at hop
      exact absurd hop List.not_mem_nil
  | direct _ _ _ => exact h.routed _ _ ⟨_, rfl⟩
  | supertask _ _ _ => exact h.routed _ _ (routeSupertask_more ..)
  | independent _ _ _ => exact h.routed _ _ ⟨_, (routeIndependent_alone ..).sent⟩
  | take hops _ _ _ _ =>
      refine ⟨fun w labels hop => ?_, h.waiting, h.owed⟩
      change _ ∈ (Progress.take _ _ _ _).ops at hop
      unfold Progress.take at hop
      split at hop
      · rw [hops] at hop
        exact absurd hop List.not_mem_nil
      · dsimp only at hop
        rw [hops] at hop
        exact absurd hop List.not_mem_nil

theorem WorkSent.workerStep (h : WorkSent s) {w : Int} {s' : LoopState ρ σ}
    (hstep : workerStep execute w s = some s') : WorkSent s' := by
  have hwaiting : ∀ {messages : List (List Handling)}, s.lines.waiting w ≠ [] →
      ∀ v, Function.update s.lines.waiting w messages v ≠ [] →
        v ∈ s.dispatch.sent.map (·.1) := by
    intro messages hbusy v hv
    by_cases hvw : v = w
    · rw [hvw]
      exact h.waiting w hbusy
    · rw [Function.update_of_ne hvw] at hv
      exact h.waiting v hv
  have howed : ∀ {commands : List LocationCommand}, w ∈ s.dispatch.sent.map (·.1) →
      ∀ v, Function.update s.owed w commands v ≠ [] → v ∈ s.dispatch.sent.map (·.1) := by
    intro commands hw v hv
    by_cases hvw : v = w
    · rw [hvw]
      exact hw
    · rw [Function.update_of_ne hvw] at hv
      exact h.owed v hv
  cases workerStep_moves hstep with
  | record howes => exact ⟨h.ops, h.waiting, howed (h.owed w (by rw [howes]; simp))⟩
  | finish hw => exact ⟨h.ops, hwaiting (by rw [hw]; simp), h.owed⟩
  | run _ hw _ =>
      have hbusy : s.lines.waiting w ≠ [] := by rw [hw]; simp
      exact ⟨h.ops, hwaiting hbusy, howed (h.waiting w hbusy)⟩
  | abandon _ hw _ => exact ⟨h.ops, hwaiting (by rw [hw]; simp), h.owed⟩

end Sent

/-! ## Runs on fixed batches -/

/-- The dispatcher's turn, or a worker's. -/
inductive Mover
  | loop
  | worker (w : Int)

def freshLoop (warehouse : Warehouse) : LoopState (SolverState Unit) OwnStorage :=
  { dispatch := freshState
    storage :=
      { storage :=
          { warehouse
            files := fun _ _ => none
            locations := freshState.locations
            other := () } } }

theorem freshLoop_unstarted (warehouse : Warehouse) : Unstarted (freshLoop warehouse) :=
  ⟨rfl, fun _ => ⟨rfl, rfl⟩, rfl, fun _ => rfl⟩

/-- Labels one by one, round-robin, without aggregation. -/
def plainDispatcher : Dispatcher (SolverState Unit) :=
  (plainScheduling "round-robin").dispatcher { aggregationEnabled := false } 1 fun _ => ""

def twinRoots (w : Int) : String := if w = 1 then "one" else "two"

/-- What `Drained` asks, of the workers that were sent something. -/
def drainedNow (s : LoopState (SolverState Unit) OwnStorage) : Bool :=
  !(s.progress.ops.isEmpty && s.progress.looking.isEmpty && s.progress.direct.isEmpty &&
      s.progress.supertasks.isEmpty && s.progress.independent.isEmpty) ||
    (s.dispatch.sent.map (·.1)).all fun w => (s.lines.waiting w).isEmpty && (s.owed w).isEmpty

/-- The turns of a schedule, as long as every state passes the check. -/
def play (intakes : Nat → Intake)
    (check : Mover → LoopState (SolverState Unit) OwnStorage → Bool) :
    List Mover → LoopState (SolverState Unit) OwnStorage →
      Option (LoopState (SolverState Unit) OwnStorage)
  | [], s => some s
  | m :: rest, s =>
      if check m s then
        match m with
        | .loop => play intakes check rest (dispatcherStep .insertion plainDispatcher intakes s)
        | .worker w => (workerStep (executeOwn twinRoots) w s).bind (play intakes check rest)
      else none

variable {intakes : Nat → Intake} {s s' : LoopState (SolverState Unit) OwnStorage}

theorem drained_of_drainedNow (h : WorkSent s) (hnow : drainedNow s = true) : Drained s := by
  intro hops hlooking hdirect htasks hindependent w
  have hall : ∀ v ∈ s.dispatch.sent.map (·.1), s.lines.waiting v = [] ∧ s.owed v = [] := by
    unfold drainedNow at hnow
    rw [hops, hlooking, hdirect, htasks, hindependent] at hnow
    simpa using hnow
  refine ⟨?_, ?_⟩
  · by_contra hw
    exact hw (hall w (h.waiting w hw)).1
  · by_contra hw
    exact hw (hall w (h.owed w hw)).2

/-- A schedule whose states pass the check is a run of the steps that the check
admits. -/
theorem run_of_play {R : LoopState (SolverState Unit) OwnStorage →
      LoopState (SolverState Unit) OwnStorage → Prop}
    {check : Mover → LoopState (SolverState Unit) OwnStorage → Bool}
    (hloop : ∀ s, WorkSent s → check .loop s = true →
      R s (dispatcherStep .insertion plainDispatcher intakes s))
    (hworker : ∀ w s s', check (.worker w) s = true →
      workerStep (executeOwn twinRoots) w s = some s' → R s s')
    {moves : List Mover} (hsent : WorkSent s) (h : play intakes check moves s = some s') :
    Relation.ReflTransGen R s s' := by
  induction moves generalizing s with
  | nil => exact Option.some.inj h ▸ .refl
  | cons m rest ih =>
      unfold play at h
      by_cases hcheck : check m s = true
      · rw [if_pos hcheck] at h
        cases m with
        | loop => exact .head (hloop s hsent hcheck) (ih hsent.dispatcherStep h)
        | worker w =>
            obtain ⟨s₁, hstep, hrest⟩ := Option.bind_eq_some_iff.mp h
            exact .head (hworker w s s₁ hcheck hstep) (ih (hsent.workerStep hstep) hrest)
      · rw [if_neg hcheck] at h
        exact absurd h (by simp)

/-- A write, and in the next batch a read of it. -/
def writeThenRead : Nat → Intake
  | 0 => { batch := [writeChunk 1 7 1 0 "a" 0 2], cached := twins }
  | 1 => { batch := [readChunk 2 7 1 "a" 0 2], cached := twins }
  | _ => { batch := [], cached := twins }

/-- In between, a batch that writes and reads one byte: a supertask. -/
def moveThenRead : Nat → Intake
  | 0 => { batch := [writeChunk 1 7 1 0 "a" 0 2], cached := twins }
  | 1 => { batch := [writeChunk 2 7 1 0 "a" 0 1, readChunk 3 7 1 "a" 0 1], cached := twins }
  | 2 => { batch := [readChunk 4 7 1 "a" 0 1], cached := twins }
  | _ => { batch := [], cached := twins }

def twoStaged : Warehouse := fun id =>
  if id = 1 then some [1, 1] else if id = 2 then some [2] else none

def drainedMove (m : Mover) (s : LoopState (SolverState Unit) OwnStorage) : Bool :=
  match m with
  | .loop => drainedNow s
  | .worker _ => true

def placedMove (m : Mover) (s : LoopState (SolverState Unit) OwnStorage) : Bool :=
  match m with
  | .loop => drainedNow s && decide (WellPlaced plainDispatcher s)
  | .worker w => decide (KeepsFile twinRoots w s)

theorem reads_latest_writeThenRead :
    ∃ s : LoopState (SolverState Unit) OwnStorage,
      ((s.lines.line 1).map fun x => (x.turn, x.label.id)) = [(1, 2)] ∧
        ReadsLatest twinRoots s := by
  -- the write is routed, executed and recorded; then the read is routed
  have hplay : ((play writeThenRead placedMove
      (List.replicate 6 .loop ++ List.replicate 4 (.worker 1) ++ List.replicate 4 .loop)
      (freshLoop twoStaged)).map fun s => (s.lines.line 1).map fun x => (x.turn, x.label.id)) =
        some [(1, 2)] := by decide +kernel
  obtain ⟨s, hs, hline⟩ := Option.map_eq_some_iff.mp hplay
  have hrun : PlacedRun .insertion plainDispatcher writeThenRead twinRoots (freshLoop twoStaged)
      s := by
    refine run_of_play (fun s hsent hcheck => ?_) (fun w s s' hcheck hstep => ?_)
      (freshLoop_unstarted twoStaged).workSent hs
    · obtain ⟨hnow, hplaced⟩ := Bool.and_eq_true_iff.mp hcheck
      exact .dispatcher (drained_of_drainedNow hsent hnow) (of_decide_eq_true hplaced)
    · exact .worker hstep (of_decide_eq_true hcheck)
  refine ⟨s, hline, reads_latest .insertion plainDispatcher writeThenRead twinRoots rfl
    (fun i => ?_) (fun i l hl => ?_) (freshLoop_unstarted twoStaged) rfl hrun⟩
  · match i with
    | 0 => decide
    | 1 => decide
    | _ + 2 => exact List.nodup_nil
  · match i with
    | 0 =>
        obtain rfl := List.mem_singleton.mp hl
        exact fromLabelManager_writeChunk _ _ _ _ _ (by decide) (by decide)
    | 1 =>
        obtain rfl := List.mem_singleton.mp hl
        exact fromLabelManager_readChunk _ _ _ _ (by decide) (by decide)
    | _ + 2 => exact absurd hl List.not_mem_nil

/-- A worker has a read in its line, and not the last write of one of its bytes. -/
def StaleAt (roots : Int → String) (w : Int) (s : LoopState (SolverState Unit) OwnStorage) : Prop :=
  ∃ x ∈ s.lines.line w, x.label.type = .read ∧
    (∀ p < finish x.label, start x.label ≤ p → PutBefore s x p) ∧
    ∃ p < finish x.label, start x.label ≤ p ∧ ∀ name ∈ fileOf x.label.fileKey,
      byteAt (s.storage.storage.files (roots w)) name p ≠
        lastAt (regionsOf s.storage.written x.label.fileKey) p

instance (roots : Int → String) (w : Int) (s : LoopState (SolverState Unit) OwnStorage) :
    Decidable (StaleAt roots w s) := by
  unfold StaleAt
  infer_instance

theorem StaleAt.not_readsLatest {roots : Int → String} {w : Int} (h : StaleAt roots w s) :
    ¬ReadsLatest roots s := by
  obtain ⟨x, hx, hread, hput, p, hhi, hlo, hstale⟩ := h
  intro hlatest
  obtain ⟨name, b, hname, hlast, hbyte⟩ :=
    hlatest w x hx hread (fun p hlo hhi => hput p hhi hlo) p hlo hhi
  exact hstale name hname (hbyte.trans hlast.symm)

/-- The supertask goes to the second worker; the read after it follows the entry of
the first. -/
theorem moved_read_is_stale :
    ¬∀ s, BatchwiseRun .insertion plainDispatcher moveThenRead twinRoots (freshLoop twoStaged) s →
      ReadsLatest twinRoots s := by
  intro h
  have hplay : ((play moveThenRead drainedMove
      (List.replicate 6 .loop ++ List.replicate 4 (.worker 1) ++ List.replicate 5 .loop ++
        List.replicate 5 (.worker 2) ++ List.replicate 4 .loop) (freshLoop twoStaged)).map fun s =>
          decide (StaleAt twinRoots 1 s)) = some true := by decide +kernel
  obtain ⟨s, hs, hstale⟩ := Option.map_eq_some_iff.mp hplay
  have hrun : BatchwiseRun .insertion plainDispatcher moveThenRead twinRoots (freshLoop twoStaged)
      s :=
    run_of_play (fun s hsent hcheck => .dispatcher (drained_of_drainedNow hsent hcheck))
      (fun w s s' _ hstep => .worker hstep) (freshLoop_unstarted twoStaged).workSent hs
  exact (of_decide_eq_true hstale).not_readsLatest (h s hrun)

end Labios
