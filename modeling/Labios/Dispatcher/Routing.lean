import Labios.Catalog.Locations
import Labios.Catalog.Status
import Labios.Label.Basic
import Labios.Shuffler.Model
import Labios.Solver.Workers
import Labios.Storage.Warehouse

/-!
# The dispatcher

One turn of the batch loop of `services/labios-dispatcher.cpp`: shuffle the batch, then
send the direct-route labels (A), the supertasks (B) and the independent labels
(C) to workers, in that order. What the loop does in the warehouse, in the
catalog and on the bus is recorded in `DispatchState`.

The solver is a parameter, a function on a state of its own: `selectWorker` is
what it answers for one label. Names of reply inboxes are a supply.
-/

namespace Labios

open StatusCatalog

structure Dispatcher (ρ : Type) where
  config : ShufflerConfig
  /-- `scheduler.policy`. -/
  policy : String
  now : UInt64
  selectWorker : List WorkerInfo → Intent → ρ → Option Int × ρ
  /-- The name of the n-th reply inbox that the bus creates. -/
  inboxName : Nat → String

/-- A fan-out thread: it waits for one message on `inbox` and publishes it to
each of `replies`. -/
structure Fanout where
  inbox : String
  replies : List String
  deriving DecidableEq, Repr

structure DispatchState (ρ : Type) where
  solver : ρ
  warehouse : Warehouse
  locations : LocationCatalog
  status : StatusCatalog
  /-- `labios:supertask:<id>`, unpacked. -/
  supertasks : UInt64 → Option (List LabelData) := fun _ => none
  /-- What was published on `labios.worker.<id>`, oldest first. -/
  sent : List (Int × LabelData) := []
  fanouts : List Fanout := []

/-! ## Pieces -/

/-- `snapshot_worker`. -/
def snapshotWorker (workerId : Int) (workers : List WorkerInfo) : ScoreSnapshot :=
  match workers.find? (fun w => w.id = workerId) with
  | some w =>
      { availability := if w.available then 1 else 0
        capacity := w.capacity
        load := w.load
        speed := w.speed
        energy := w.energy
        tier := w.tier.level }
  | none => {}

def scheduleEntry (workerId : Int) (label : LabelData) : ScheduleEntry :=
  { labelId := label.id, workerId, flags := label.flags }

/-- `mark_label_shuffled` over a whole result. -/
def markShuffled (now : UInt64) (result : ShuffleResult) : ShuffleResult :=
  { result with
    directRoute := result.directRoute.map fun p => (markLabelShuffled p.1 now, p.2)
    supertasks := result.supertasks.map fun st =>
      { composite := markLabelShuffled st.composite now
        children := st.children.map (markLabelShuffled · now) }
    independent := result.independent.map (markLabelShuffled · now) }

/-- `set_location` for a write with a `FilePath`. -/
def recordWrite (workerId : Int) (locations : LocationCatalog) (label : LabelData) :
    LocationCatalog :=
  match label.type, label.destination with
  | .write, .filePath dst => locations.setLocation dst.path dst.offset dst.length workerId
  | _, _ => locations

/-- `get_location(dst->path)` for a write with a `FilePath`. -/
def writeLocation (locations : LocationCatalog) (label : LabelData) : Option Int :=
  match label.type, label.destination with
  | .write, .filePath dst => locations.whole dst.path
  | _, _ => none

/-- The staged bytes of the children, one after the other; each key is deleted
once it is read. -/
def combineChildren (warehouse : Warehouse) : List UInt64 → List UInt8 × Warehouse
  | [] => ([], warehouse)
  | id :: rest =>
      let (data, warehouse') := combineChildren (warehouse.remove id) rest
      (warehouse.retrieve id ++ data, warehouse')

section Route

variable {ρ : Type} (d : Dispatcher ρ) (workers : List WorkerInfo)

def mark (workerId : Int) (policy : String) (label : LabelData) : LabelData :=
  markLabelScheduled label (UInt32.ofInt workerId) policy (snapshotWorker workerId workers) d.now

def DispatchState.send (st : DispatchState ρ) (workerId : Int) (label : LabelData) :
    DispatchState ρ :=
  { st with sent := st.sent ++ [(workerId, label)] }

/-! ## (A) Direct-route labels -/

def routeDirect (st : DispatchState ρ) (route : LabelData × Int) : DispatchState ρ :=
  st.send route.2 (mark d workers route.2 "read-locality" route.1)

def routeDirects (st : DispatchState ρ) (routes : List (LabelData × Int)) : DispatchState ρ :=
  let st := routes.foldl (routeDirect d workers) st
  { st with
    status := st.status.scheduleBatch
      (routes.map fun r => scheduleEntry r.2 (mark d workers r.2 "read-locality" r.1)) }

/-! ## (B) Supertasks -/

def routeSupertask (st : DispatchState ρ) (task : Supertask) : DispatchState ρ :=
  match d.selectWorker workers task.composite.intent st.solver with
  | (none, solver) => { st with solver }
  | (some workerId, solver) =>
      let children := task.children.map (mark d workers workerId d.policy)
      let composite := mark d workers workerId d.policy task.composite
      let st := { st with
        solver
        supertasks := Function.update st.supertasks composite.id (some children)
        locations := children.foldl (recordWrite workerId) st.locations
        status := st.status.scheduleBatch
          ((children ++ [composite]).map (scheduleEntry workerId)) }
      st.send workerId composite

/-! ## (C) Independent labels -/

/-- Assembly of a merged write: its data, and the inbox that answers its
requesters. -/
def assemble (fanout : ReplyFanout) (st : DispatchState ρ) (label : LabelData) :
    LabelData × DispatchState ρ :=
  if label.children ≠ [] ∧ label.type = .write then
    let (combined, warehouse) := combineChildren st.warehouse label.children
    let st := { st with warehouse := warehouse.stage label.id combined }
    match fanout label.id with
    | none => (label, st)
    | some replies =>
        let inbox := d.inboxName st.fanouts.length
        ({ label with replyTo := inbox },
          { st with fanouts := st.fanouts ++ [{ inbox, replies }] })
  else (label, st)

/-- Where an independent label goes, and under which policy: to the worker that
wrote its file last, else to the solver's choice. -/
def placeIndependent (st : DispatchState ρ) (label : LabelData) : Option (Int × String) × ρ :=
  match (writeLocation st.locations label).filter (fun w => 0 < w) with
  | some workerId => (some (workerId, "write-locality"), st.solver)
  | none =>
      let (choice, solver) := d.selectWorker workers label.intent st.solver
      (choice.map fun workerId => (workerId, d.policy), solver)

/-- One independent label; the schedule entries are collected for the batch. -/
def routeIndependent (fanout : ReplyFanout) (acc : DispatchState ρ × List ScheduleEntry)
    (label : LabelData) : DispatchState ρ × List ScheduleEntry :=
  let (label, st) := assemble d fanout acc.1 label
  match placeIndependent d workers st label with
  | (none, solver) => ({ st with solver }, acc.2)
  | (some (workerId, policy), solver) =>
      let located := (writeLocation st.locations label).any (fun w => 0 < w)
      let label := mark d workers workerId policy label
      let st := { st with
        solver
        -- a write that follows its file is recorded by the worker alone
        locations := if located then st.locations else recordWrite workerId st.locations label }
      (st.send workerId label, acc.2 ++ [scheduleEntry workerId label])

def routeIndependents (fanout : ReplyFanout) (st : DispatchState ρ) (labels : List LabelData) :
    DispatchState ρ :=
  let (st, entries) := labels.foldl (routeIndependent d workers fanout) (st, [])
  { st with status := st.status.scheduleBatch entries }

/-! ## The batch -/

/-- Dispatch of a shuffle result. -/
def route (result : ShuffleResult) (st : DispatchState ρ) : DispatchState ρ :=
  let result := markShuffled d.now result
  let st := routeDirects d workers st result.directRoute
  let st := result.supertasks.foldl (routeSupertask d workers) st
  routeIndependents d workers result.replyFanout st result.independent

end Route

/-- The worker list at hand, or what a query returns once all were resumed. -/
def usableWorkers (cached refreshed : List WorkerInfo) : List WorkerInfo :=
  if cached.any (·.available) then cached else refreshed

/-- One batch; with no worker registered it is gone. -/
def dispatchBatch {ρ : Type} (S : Foundation.StdSort) (d : Dispatcher ρ)
    (cached refreshed : List WorkerInfo) (batch : List LabelData) (st : DispatchState ρ) :
    DispatchState ρ :=
  let result := shuffle S d.config batch (some st.locations.getLocation)
  if cached.isEmpty then st
  else route d (usableWorkers cached refreshed) result st

section DispatchBatch

variable {ρ : Type} (S : Foundation.StdSort) (d : Dispatcher ρ) {cached : List WorkerInfo}
  (refreshed : List WorkerInfo) (batch : List LabelData) (st : DispatchState ρ)

theorem dispatchBatch_nil : dispatchBatch S d [] refreshed batch st = st := rfl

theorem dispatchBatch_of_ne_nil (h : cached ≠ []) :
    dispatchBatch S d cached refreshed batch st =
      route d (usableWorkers cached refreshed)
        (shuffle S d.config batch (some st.locations.getLocation)) st := by
  unfold dispatchBatch
  exact if_neg (by simpa using h)

end DispatchBatch

end Labios

/-!
## What a routed batch puts on the bus

`request` of a label is what the marks of its life leave alone, so it names the
messages: a direct-route label is sent as it is, a supertask as its composite
with the children packed under its id, an independent label with the inbox that
assembly gives it (`route_spec`).

All of this is for a solver that always finds a worker.
-/

namespace Labios

open StatusCatalog

variable {ρ : Type} (d : Dispatcher ρ) (workers : List WorkerInfo)

/-- The solver always answers with a worker. -/
def SolverFinds : Prop := ∀ intent s, ∃ w s', d.selectWorker workers intent s = (some w, s')

/-- One worker, always chosen. -/
def oneWorker : Dispatcher Unit :=
  { config := {}
    policy := "round-robin"
    now := 1
    selectWorker := fun _ _ s => (some 1, s)
    inboxName := fun n => "_INBOX.fanout." ++ toString n }

theorem oneWorker_finds (workers : List WorkerInfo) : SolverFinds oneWorker workers :=
  fun _ s => ⟨1, s, rfl⟩

/-- Nothing staged, nothing located. -/
def idle : DispatchState Unit :=
  { solver := ()
    warehouse := fun _ => none
    locations := { whole := fun _ => none, ranged := fun _ => [] }
    status := fun _ => {} }

@[simp] theorem request_mark (workerId : Int) (policy : String) (l : LabelData) :
    request (mark d workers workerId policy l) = request l :=
  request_markLabelScheduled ..

theorem map_request_mark (workerId : Int) (policy : String) (ls : List LabelData) :
    (ls.map (mark d workers workerId policy)).map request = ls.map request := by
  rw [List.map_map]
  exact List.map_congr_left fun l _ => request_mark d workers workerId policy l

/-! ## Marked results -/

@[simp] theorem markShuffled_direct (now : UInt64) (R : ShuffleResult) :
    (markShuffled now R).directRoute.map (fun p => request p.1) =
      R.directRoute.map fun p => request p.1 := by
  simp [markShuffled]

@[simp] theorem markShuffled_independent (now : UInt64) (R : ShuffleResult) :
    (markShuffled now R).independent.map request = R.independent.map request := by
  simp [markShuffled]

/-- A supertask as far as requests go. -/
def requestTask (t : Supertask) : LabelData × List LabelData :=
  (request t.composite, t.children.map request)

@[simp] theorem markShuffled_supertasks (now : UInt64) (R : ShuffleResult) :
    (markShuffled now R).supertasks.map requestTask = R.supertasks.map requestTask := by
  simp [markShuffled, requestTask]

/-! ## The three parts -/

theorem routeDirects_sent (st : DispatchState ρ) (routes : List (LabelData × Int)) :
    (routeDirects d workers st routes).sent.map (fun m => request m.2) =
        st.sent.map (fun m => request m.2) ++ routes.map (fun p => request p.1) ∧
      (routeDirects d workers st routes).supertasks = st.supertasks ∧
      (routeDirects d workers st routes).fanouts = st.fanouts := by
  have hfold : (routes.foldl (routeDirect d workers) st).sent.map (fun m => request m.2) =
        st.sent.map (fun m => request m.2) ++ routes.map (fun p => request p.1) ∧
      (routes.foldl (routeDirect d workers) st).supertasks = st.supertasks ∧
      (routes.foldl (routeDirect d workers) st).fanouts = st.fanouts := by
    induction routes generalizing st with
    | nil => simp
    | cons r rest ih =>
        obtain ⟨hsent, hpacked, hfan⟩ := ih (routeDirect d workers st r)
        rw [List.foldl_cons, hsent, hpacked, hfan]
        simp [routeDirect, DispatchState.send]
  exact hfold

/-- One supertask: its composite is sent, its children are packed. -/
theorem routeSupertask_spec (hfind : SolverFinds d workers) (st : DispatchState ρ)
    (t : Supertask) :
    ((routeSupertask d workers st t).sent.map fun m => request m.2) =
        (st.sent.map fun m => request m.2) ++ [request t.composite] ∧
      (routeSupertask d workers st t).fanouts = st.fanouts ∧
      (∀ id, id ≠ t.composite.id →
        (routeSupertask d workers st t).supertasks id = st.supertasks id) ∧
      ((routeSupertask d workers st t).supertasks t.composite.id).map (·.map request) =
        some (t.children.map request) := by
  obtain ⟨w, s', hs⟩ := hfind t.composite.intent st.solver
  have hid : (mark d workers w d.policy t.composite).id = t.composite.id :=
    id_of_request (request_mark d workers w d.policy t.composite)
  unfold routeSupertask
  simp only [hs, DispatchState.send, hid]
  refine ⟨by simp, trivial, fun id hne => Function.update_of_ne hne _ _, ?_⟩
  rw [Function.update_self, Option.map_some, map_request_mark]

/-- The supertasks: every composite is sent, and with distinct composite ids
every pack stays. -/
theorem routeSupertasks_spec (hfind : SolverFinds d workers) (tasks : List Supertask)
    (hids : (tasks.map (·.composite.id)).Nodup) (st : DispatchState ρ) :
    ((tasks.foldl (routeSupertask d workers) st).sent.map fun m => request m.2) =
        (st.sent.map fun m => request m.2) ++ tasks.map (fun t => request t.composite) ∧
      (tasks.foldl (routeSupertask d workers) st).fanouts = st.fanouts ∧
      (∀ id, id ∉ tasks.map (·.composite.id) →
        (tasks.foldl (routeSupertask d workers) st).supertasks id = st.supertasks id) ∧
      ∀ t ∈ tasks,
        ((tasks.foldl (routeSupertask d workers) st).supertasks t.composite.id).map
          (·.map request) = some (t.children.map request) := by
  induction tasks generalizing st with
  | nil => exact ⟨by simp, rfl, fun _ _ => rfl, fun t ht => absurd ht List.not_mem_nil⟩
  | cons t rest ih =>
      rw [List.map_cons, List.nodup_cons] at hids
      obtain ⟨hsent, hfan, hother, hown⟩ := routeSupertask_spec d workers hfind st t
      obtain ⟨hsent', hfan', hother', hown'⟩ := ih hids.2 (routeSupertask d workers st t)
      rw [List.foldl_cons]
      refine ⟨?_, hfan'.trans hfan, ?_, ?_⟩
      · rw [hsent', hsent, List.append_assoc, List.map_cons, List.singleton_append]
      · intro id hid
        rw [List.map_cons, List.mem_cons, not_or] at hid
        rw [hother' id hid.2, hother id hid.1]
      · intro t' ht'
        rcases List.mem_cons.mp ht' with rfl | ht'
        · rw [hother' _ hids.1, hown]
        · exact hown' t' ht'

/-- The replies of a fan-out thread for a label, when assembly starts one. -/
def fannedOut (fanout : ReplyFanout) (l : LabelData) : Option (List String) :=
  if l.children ≠ [] ∧ l.type = .write then fanout l.id else none

/-- Independent labels with the inboxes that assembly gives them, and the
fan-out threads it starts; `n` inboxes exist already. -/
def assembled (fanout : ReplyFanout) : Nat → List LabelData → List (LabelData × Option Fanout)
  | _, [] => []
  | n, l :: rest =>
      match fannedOut fanout l with
      | none => (l, none) :: assembled fanout n rest
      | some replies =>
          ({ l with replyTo := d.inboxName n }, some { inbox := d.inboxName n, replies }) ::
            assembled fanout (n + 1) rest

/-- Assembly changes neither type nor id. -/
theorem assembled_type (fanout : ReplyFanout) (labels : List LabelData) (n : Nat)
    {p : LabelData × Option Fanout}
    (hp : p ∈ assembled d fanout n labels) :
    ∃ l ∈ labels, p.1.type = l.type ∧ p.1.id = l.id := by
  induction labels generalizing n with
  | nil => exact absurd hp List.not_mem_nil
  | cons l rest ih =>
      have hrest : ∀ n, p ∈ assembled d fanout n rest →
          ∃ l' ∈ l :: rest, p.1.type = l'.type ∧ p.1.id = l'.id := by
        intro n hp
        obtain ⟨l', hl', heq⟩ := ih n hp
        exact ⟨l', List.mem_cons_of_mem _ hl', heq⟩
      rw [assembled] at hp
      cases hout : fannedOut fanout l with
      | none =>
          rw [hout] at hp
          rcases List.mem_cons.mp hp with rfl | hp
          · exact ⟨_, List.mem_cons_self, rfl, rfl⟩
          · exact hrest n hp
      | some replies =>
          rw [hout] at hp
          rcases List.mem_cons.mp hp with rfl | hp
          · exact ⟨_, List.mem_cons_self, rfl, rfl⟩
          · exact hrest (n + 1) hp

/-- Assembly in terms of `fannedOut`. -/
theorem assemble_eq (fanout : ReplyFanout) (st : DispatchState ρ) (l : LabelData) :
    ((assemble d fanout st l).2.sent = st.sent ∧
        (assemble d fanout st l).2.supertasks = st.supertasks ∧
        (assemble d fanout st l).2.solver = st.solver) ∧
      match fannedOut fanout l with
      | none =>
          (assemble d fanout st l).1 = l ∧ (assemble d fanout st l).2.fanouts = st.fanouts
      | some replies =>
          (assemble d fanout st l).1 = { l with replyTo := d.inboxName st.fanouts.length } ∧
            (assemble d fanout st l).2.fanouts =
              st.fanouts ++ [{ inbox := d.inboxName st.fanouts.length, replies }] := by
  unfold assemble fannedOut
  by_cases hc : l.children ≠ [] ∧ l.type = .write
  · rw [if_pos hc, if_pos hc]
    cases fanout l.id with
    | none => simp
    | some replies => simp
  · rw [if_neg hc, if_neg hc]
    simp

/-- One independent label. -/
theorem routeIndependent_spec (hfind : SolverFinds d workers) (fanout : ReplyFanout)
    (acc : DispatchState ρ × List ScheduleEntry) (l : LabelData) :
    ((routeIndependent d workers fanout acc l).1.sent.map fun m => request m.2) =
        (acc.1.sent.map fun m => request m.2) ++ [request (assemble d fanout acc.1 l).1] ∧
      (routeIndependent d workers fanout acc l).1.supertasks = acc.1.supertasks ∧
      (routeIndependent d workers fanout acc l).1.fanouts =
        (assemble d fanout acc.1 l).2.fanouts := by
  obtain ⟨⟨hsent, hpacked, _⟩, -⟩ := assemble_eq d fanout acc.1 l
  rcases hasm : assemble d fanout acc.1 l with ⟨l', st⟩
  rw [hasm] at hsent hpacked
  dsimp only at hsent hpacked
  obtain ⟨w, policy, solver, hplace⟩ : ∃ w policy solver,
      placeIndependent d workers st l' = (some (w, policy), solver) := by
    unfold placeIndependent
    cases (writeLocation st.locations l').filter (fun w => 0 < w) with
    | some w => exact ⟨w, _, _, rfl⟩
    | none =>
        obtain ⟨w, s', hs⟩ := hfind l'.intent st.solver
        exact ⟨w, d.policy, s', by simp [hs]⟩
  unfold routeIndependent
  simp only [hasm, hplace, DispatchState.send]
  exact ⟨by simp [hsent], hpacked, trivial⟩

theorem routeIndependents_spec (hfind : SolverFinds d workers) (fanout : ReplyFanout)
    (st : DispatchState ρ) (labels : List LabelData) :
    ((routeIndependents d workers fanout st labels).sent.map fun m => request m.2) =
        (st.sent.map fun m => request m.2) ++
          (assembled d fanout st.fanouts.length labels).map (fun p => request p.1) ∧
      (routeIndependents d workers fanout st labels).supertasks = st.supertasks ∧
      (routeIndependents d workers fanout st labels).fanouts =
        st.fanouts ++ (assembled d fanout st.fanouts.length labels).filterMap (·.2) := by
  have hfold : ∀ acc : DispatchState ρ × List ScheduleEntry,
      (((labels.foldl (routeIndependent d workers fanout) acc).1.sent.map fun m => request m.2) =
          (acc.1.sent.map fun m => request m.2) ++
            (assembled d fanout acc.1.fanouts.length labels).map (fun p => request p.1) ∧
        (labels.foldl (routeIndependent d workers fanout) acc).1.supertasks =
          acc.1.supertasks ∧
        (labels.foldl (routeIndependent d workers fanout) acc).1.fanouts =
          acc.1.fanouts ++ (assembled d fanout acc.1.fanouts.length labels).filterMap (·.2)) := by
    induction labels with
    | nil =>
        intro acc
        simp [assembled]
    | cons l rest ih =>
        intro acc
        obtain ⟨hsent, hpacked, hfan⟩ := routeIndependent_spec d workers hfind fanout acc l
        obtain ⟨hsent', hpacked', hfan'⟩ := ih (routeIndependent d workers fanout acc l)
        obtain ⟨-, hasm⟩ := assemble_eq d fanout acc.1 l
        rw [List.foldl_cons, hsent', hpacked', hfan', hsent, hpacked, hfan, assembled]
        cases hout : fannedOut fanout l with
        | none =>
            rw [hout] at hasm
            obtain ⟨hl, hf⟩ := hasm
            rw [hl, hf]
            simp
        | some replies =>
            rw [hout] at hasm
            obtain ⟨hl, hf⟩ := hasm
            rw [hl, hf]
            simp
  exact hfold (st, [])

/-! ## The batch -/

theorem map_requestTask_ids {ts ts' : List Supertask}
    (h : ts.map requestTask = ts'.map requestTask) :
    ts.map (·.composite.id) = ts'.map (·.composite.id) := by
  have hid : ∀ t : Supertask, t.composite.id = (requestTask t).1.id := fun _ => rfl
  have hmap : ∀ us : List Supertask,
      us.map (·.composite.id) = (us.map requestTask).map (·.1.id) := by
    intro us
    rw [List.map_map]
    exact List.map_congr_left fun t _ => hid t
  rw [hmap, hmap, h]

section Batch

variable (R : ShuffleResult) (st : DispatchState ρ)

/-- The independent labels as they are sent. -/
def assembledBatch : List (LabelData × Option Fanout) :=
  assembled d R.replyFanout st.fanouts.length (markShuffled d.now R).independent

theorem route_spec (hfind : SolverFinds d workers)
    (hids : (R.supertasks.map (·.composite.id)).Nodup) :
    ((route d workers R st).sent.map fun m => request m.2) =
        (st.sent.map fun m => request m.2) ++ ((R.directRoute.map fun p => request p.1) ++
          (R.supertasks.map fun t => request t.composite) ++
          (assembledBatch d R st).map fun p => request p.1) ∧
      (route d workers R st).fanouts =
        st.fanouts ++ (assembledBatch d R st).filterMap (·.2) ∧
      ∀ t ∈ R.supertasks,
        ((route d workers R st).supertasks t.composite.id).map (·.map request) =
          some (t.children.map request) := by
  have htasks := markShuffled_supertasks d.now R
  have hids' : ((markShuffled d.now R).supertasks.map (·.composite.id)).Nodup := by
    rwa [map_requestTask_ids htasks]
  obtain ⟨hsent1, hpacked1, hfan1⟩ :=
    routeDirects_sent d workers st (markShuffled d.now R).directRoute
  obtain ⟨hsent2, hfan2, _, hown⟩ := routeSupertasks_spec d workers hfind
    (markShuffled d.now R).supertasks hids'
    (routeDirects d workers st (markShuffled d.now R).directRoute)
  obtain ⟨hsent3, hpacked3, hfan3⟩ := routeIndependents_spec d workers hfind R.replyFanout
    ((markShuffled d.now R).supertasks.foldl (routeSupertask d workers)
      (routeDirects d workers st (markShuffled d.now R).directRoute))
    (markShuffled d.now R).independent
  have hroute : route d workers R st = routeIndependents d workers R.replyFanout
      ((markShuffled d.now R).supertasks.foldl (routeSupertask d workers)
        (routeDirects d workers st (markShuffled d.now R).directRoute))
      (markShuffled d.now R).independent := rfl
  have hcomposites : (markShuffled d.now R).supertasks.map (fun t => request t.composite) =
      R.supertasks.map fun t => request t.composite := by
    have hfst := congrArg (List.map Prod.fst) htasks
    rwa [List.map_map, List.map_map] at hfst
  rw [hroute]
  refine ⟨?_, ?_, ?_⟩
  · rw [hsent3, hsent2, hsent1, hfan2, hfan1, markShuffled_direct, hcomposites]
    simp only [List.append_assoc]
    rfl
  · rw [hfan3, hfan2, hfan1]
    rfl
  · intro t ht
    rw [hpacked3]
    obtain ⟨t', ht', heq⟩ := List.mem_map.mp (htasks ▸ List.mem_map_of_mem ht)
    have hid : t'.composite.id = t.composite.id := id_of_request (congrArg Prod.fst heq)
    rw [← hid, hown t' ht']
    exact congrArg some (congrArg Prod.snd heq)

end Batch
end Labios
