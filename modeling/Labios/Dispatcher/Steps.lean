import Labios.Client.Uri
import Labios.Dispatcher.Program
import Labios.Dispatcher.Units
import Labios.Foundation.Lines

/-!
# The batch loop and the workers, step by step

`route` dispatches a batch at one stroke. Here the dispatcher goes from one access
to the location catalog or the bus to the next, and between two of its steps any
worker may take one of its own: run the next label of its line, or record the
location of what it wrote. `alone_dispatches` says that without the workers the
steps add up to `dispatchBatch`.
-/

namespace Labios

open Foundation LocationCommand StatusCatalog

/-! ## State -/

/-- What the loop takes from the buffer, and the worker lists it has then. -/
structure Intake where
  batch : List LabelData
  cached : List WorkerInfo
  refreshed : List WorkerInfo := cached

/-- A label in the hands of a worker; `turn` counts the batches. -/
structure Handling where
  turn : Nat
  worker : Int
  label : LabelData
  deriving DecidableEq

/-- An access of the dispatcher that routing a label leads to. -/
inductive DispatchOp
  | locate (command : LocationCommand)
  | publish (worker : Int) (labels : List LabelData)

/-- Where the dispatcher is. The accesses in `ops` come first; then reads are
looked up, and what is known of the batch is routed. -/
structure Progress where
  taken : Nat := 0
  ops : List DispatchOp := []
  looking : List LabelData := []
  /-- The read at the head of `looking` has no ranged entry. -/
  missed : Bool := false
  direct : List (LabelData × Int) := []
  supertasks : List Supertask := []
  independent : List LabelData := []
  fanout : ReplyFanout := fun _ => none
  workers : List WorkerInfo := []

structure LoopState (ρ σ : Type) where
  progress : Progress := {}
  dispatch : DispatchState ρ
  lines : Lines Handling := {}
  /-- Location commands that a worker has still to send for its last label. -/
  owed : Int → List LocationCommand := fun _ => []
  storage : σ

/-! ## The dispatcher -/

section Dispatcher

variable {ρ σ : Type} (S : StdSort) (d : Dispatcher ρ)

/-- Phases 1 to 3 of the shuffle; without a registered worker the batch is gone. -/
def Progress.take (p : Progress) (intake : Intake) : Progress :=
  if intake.cached.isEmpty then { p with taken := p.taken + 1 }
  else
    let result := shuffle S d.config intake.batch none
    { p with
      taken := p.taken + 1
      looking := result.independent
      supertasks := result.supertasks
      fanout := result.replyFanout
      workers := usableWorkers intake.cached intake.refreshed }

/-- Phase 4 for the first label that is left: a read asks for a ranged entry, then
for the file. -/
def Progress.lookUp (p : Progress) (locations : LocationCatalog) (l : LabelData)
    (rest : List LabelData) : Progress :=
  if l.type = .read then
    let found :=
      if p.missed then locations.whole l.fileKey
      else locations.findRanged l.fileKey (labelRange l).offset (labelRange l).length
    match found with
    | some w => { p with looking := rest, missed := false, direct := p.direct ++ [(l, w)] }
    | none =>
        if p.missed then
          { p with looking := rest, missed := false, independent := p.independent ++ [l] }
        else { p with missed := true }
  else { p with looking := rest, independent := p.independent ++ [l] }

/-- `mark_label_shuffled` over a supertask. -/
def shuffledTask (now : UInt64) (task : Supertask) : Supertask :=
  { composite := markLabelShuffled task.composite now
    children := task.children.map (markLabelShuffled · now) }

/-- The commands of `set_location` for a write with a `FilePath`. -/
def locating (workerId : Int) (l : LabelData) : List LocationCommand :=
  match l.type, l.destination with
  | .write, .filePath dst => settingLocation dst.path dst.offset dst.length workerId
  | _, _ => []

variable (workers : List WorkerInfo)

/-- What routing a supertask records. -/
def taskCommands (st : DispatchState ρ) (task : Supertask) : List LocationCommand :=
  match (d.selectWorker workers task.composite.intent st.solver).1 with
  | none => []
  | some w => task.children.flatMap (locating w)

/-- What routing an independent label records. -/
def aloneCommands (st : DispatchState ρ) (l : LabelData) : List LocationCommand :=
  match (placeIndependent d workers st l).1 with
  | none => []
  | some (w, _) =>
      if (writeLocation st.locations l).any (fun w => 0 < w) then [] else locating w l

/-- The accesses that lead from one state of the routing to the next. -/
def opsBetween (before after : DispatchState ρ) (commands : List LocationCommand) :
    List DispatchOp :=
  commands.map .locate ++
    (messagesOf before after).map fun m => .publish m.1 ((unpack after.supertasks m).map (·.2))

/-- One label or supertask is routed: its accesses are due, the locations wait
for them. -/
def LoopState.routed (s : LoopState ρ σ) (p : Progress) (after : DispatchState ρ)
    (commands : List LocationCommand) : LoopState ρ σ :=
  { s with
    progress := { p with ops := opsBetween s.dispatch after commands }
    dispatch := { after with locations := s.dispatch.locations } }

def LoopState.performed (s : LoopState ρ σ) (rest : List DispatchOp) : DispatchOp → LoopState ρ σ
  | .locate command =>
      { s with
        progress := { s.progress with ops := rest }
        dispatch := { s.dispatch with locations := command.apply s.dispatch.locations } }
  | .publish w labels =>
      { s with
        progress := { s.progress with ops := rest }
        lines := s.lines.push w (labels.map fun label =>
          { turn := s.progress.taken - 1, worker := w, label }) }

/-- The next step of the dispatcher. -/
def dispatcherStep (intakes : Nat → Intake) (s : LoopState ρ σ) : LoopState ρ σ :=
  let p := s.progress
  match p.ops with
  | op :: rest => s.performed rest op
  | [] =>
      match p.looking with
      | l :: rest => { s with progress := p.lookUp s.dispatch.locations l rest }
      | [] =>
          match p.direct with
          | r :: rest =>
              s.routed { p with direct := rest }
                (routeDirect d p.workers s.dispatch (markLabelShuffled r.1 d.now, r.2)) []
          | [] =>
              match p.supertasks with
              | t :: rest =>
                  let task := shuffledTask d.now t
                  s.routed { p with supertasks := rest }
                    (routeSupertask d p.workers s.dispatch task)
                    (taskCommands d p.workers s.dispatch task)
              | [] =>
                  match p.independent with
                  | l :: rest =>
                      let label := markLabelShuffled l d.now
                      s.routed { p with independent := rest }
                        (routeIndependent d p.workers p.fanout (s.dispatch, []) label).1
                        (aloneCommands d p.workers s.dispatch label)
                  | [] => { s with progress := p.take S d (intakes p.taken) }

/-! ### One case of the step at a time -/

variable {S d} {intakes : Nat → Intake} {s : LoopState ρ σ}

theorem dispatcherStep_op {op : DispatchOp} {rest : List DispatchOp}
    (h : s.progress.ops = op :: rest) :
    dispatcherStep S d intakes s = s.performed rest op := by
  simp only [dispatcherStep, h]

theorem dispatcherStep_look (hops : s.progress.ops = []) {l : LabelData} {rest : List LabelData}
    (h : s.progress.looking = l :: rest) :
    dispatcherStep S d intakes s =
      { s with progress := s.progress.lookUp s.dispatch.locations l rest } := by
  simp only [dispatcherStep, hops, h]

theorem dispatcherStep_direct (hops : s.progress.ops = []) (hlooking : s.progress.looking = [])
    {r : LabelData × Int} {rest : List (LabelData × Int)} (h : s.progress.direct = r :: rest) :
    dispatcherStep S d intakes s =
      s.routed { s.progress with direct := rest }
        (routeDirect d s.progress.workers s.dispatch (markLabelShuffled r.1 d.now, r.2)) [] := by
  simp only [dispatcherStep, hops, hlooking, h]

theorem dispatcherStep_supertask (hops : s.progress.ops = [])
    (hlooking : s.progress.looking = []) (hdirect : s.progress.direct = []) {t : Supertask}
    {rest : List Supertask} (h : s.progress.supertasks = t :: rest) :
    dispatcherStep S d intakes s =
      s.routed { s.progress with supertasks := rest }
        (routeSupertask d s.progress.workers s.dispatch (shuffledTask d.now t))
        (taskCommands d s.progress.workers s.dispatch (shuffledTask d.now t)) := by
  simp only [dispatcherStep, hops, hlooking, hdirect, h]

theorem dispatcherStep_independent (hops : s.progress.ops = [])
    (hlooking : s.progress.looking = []) (hdirect : s.progress.direct = [])
    (htasks : s.progress.supertasks = []) {l : LabelData} {rest : List LabelData}
    (h : s.progress.independent = l :: rest) :
    dispatcherStep S d intakes s =
      s.routed { s.progress with independent := rest }
        (routeIndependent d s.progress.workers s.progress.fanout (s.dispatch, [])
          (markLabelShuffled l d.now)).1
        (aloneCommands d s.progress.workers s.dispatch (markLabelShuffled l d.now)) := by
  simp only [dispatcherStep, hops, hlooking, hdirect, htasks, h]

theorem dispatcherStep_take (hops : s.progress.ops = []) (hlooking : s.progress.looking = [])
    (hdirect : s.progress.direct = []) (htasks : s.progress.supertasks = [])
    (h : s.progress.independent = []) :
    dispatcherStep S d intakes s =
      { s with progress := s.progress.take S d (intakes s.progress.taken) } := by
  simp only [dispatcherStep, hops, hlooking, hdirect, htasks, h]

end Dispatcher

/-! ## The workers -/

section Worker

variable {ρ σ : Type} (execute : Int → LabelData → σ → Option UInt64 × σ)

/-- What a worker records for a label that it executed. -/
def finishing (workerId : Int) (l : LabelData) (size : UInt64) : List LocationCommand :=
  if l.type = .write ∧ l.destUri ≠ "" then
    settingLocation (parseUri l.destUri).path 0 size workerId
  else locating workerId l

/-- The next step of a worker, if it has one. An execution that throws takes the
rest of its message with it. -/
def workerStep (w : Int) (s : LoopState ρ σ) : Option (LoopState ρ σ) :=
  match s.owed w, s.lines.waiting w with
  | command :: rest, _ =>
      some
        { s with
          owed := Function.update s.owed w rest
          dispatch := { s.dispatch with locations := command.apply s.dispatch.locations } }
  | [], [] => none
  | [], [] :: messages => some { s with lines := s.lines.finish w messages }
  | [], (x :: rest) :: messages =>
      match execute w x.label s.storage with
      | (some size, storage) =>
          some
            { s with
              lines := s.lines.run w x (rest :: messages)
              owed := Function.update s.owed w (finishing w x.label size)
              storage }
      | (none, storage) => some { s with lines := s.lines.run w x messages, storage }

end Worker

/-! ## Runs -/

section Runs

variable {ρ σ : Type} (S : StdSort) (d : Dispatcher ρ) (intakes : Nat → Intake)
  (execute : Int → LabelData → σ → Option UInt64 × σ)

/-- Dispatcher and workers move in any order. -/
inductive LoopStep : LoopState ρ σ → LoopState ρ σ → Prop
  | dispatcher (s) : LoopStep s (dispatcherStep S d intakes s)
  | worker {w s s'} (h : workerStep execute w s = some s') : LoopStep s s'

abbrev LoopRun : LoopState ρ σ → LoopState ρ σ → Prop :=
  Relation.ReflTransGen (LoopStep S d intakes execute)

end Runs

/-! ## What a step can do -/

section Moves

variable {ρ σ : Type} (S : StdSort) (d : Dispatcher ρ) (intakes : Nat → Intake)
  (execute : Int → LabelData → σ → Option UInt64 × σ)

/-- The moves of the dispatcher. -/
inductive DispatcherMove (s : LoopState ρ σ) : LoopState ρ σ → Prop
  | locate {command rest} (hops : s.progress.ops = .locate command :: rest) :
      DispatcherMove s (s.performed rest (.locate command))
  | publish {w labels rest} (hops : s.progress.ops = .publish w labels :: rest) :
      DispatcherMove s (s.performed rest (.publish w labels))
  | look {l rest} (hops : s.progress.ops = []) (hlooking : s.progress.looking = l :: rest) :
      DispatcherMove s { s with progress := s.progress.lookUp s.dispatch.locations l rest }
  | direct {r rest} (hops : s.progress.ops = []) (hlooking : s.progress.looking = [])
      (hdirect : s.progress.direct = r :: rest) :
      DispatcherMove s (s.routed { s.progress with direct := rest }
        (routeDirect d s.progress.workers s.dispatch (markLabelShuffled r.1 d.now, r.2)) [])
  | supertask {t rest} (hops : s.progress.ops = []) (hlooking : s.progress.looking = [])
      (htasks : s.progress.supertasks = t :: rest) :
      DispatcherMove s (s.routed { s.progress with supertasks := rest }
        (routeSupertask d s.progress.workers s.dispatch (shuffledTask d.now t))
        (taskCommands d s.progress.workers s.dispatch (shuffledTask d.now t)))
  | independent {l rest} (hops : s.progress.ops = []) (hlooking : s.progress.looking = [])
      (hindependent : s.progress.independent = l :: rest) :
      DispatcherMove s (s.routed { s.progress with independent := rest }
        (routeIndependent d s.progress.workers s.progress.fanout (s.dispatch, [])
          (markLabelShuffled l d.now)).1
        (aloneCommands d s.progress.workers s.dispatch (markLabelShuffled l d.now)))
  | take (hops : s.progress.ops = []) (hlooking : s.progress.looking = [])
      (hdirect : s.progress.direct = []) (htasks : s.progress.supertasks = [])
      (hindependent : s.progress.independent = []) :
      DispatcherMove s { s with progress := s.progress.take S d (intakes s.progress.taken) }

theorem dispatcherStep_moves (s : LoopState ρ σ) :
    DispatcherMove S d intakes s (dispatcherStep S d intakes s) := by
  cases hops : s.progress.ops with
  | cons op rest =>
      rw [dispatcherStep_op hops]
      cases op with
      | locate command => exact .locate hops
      | publish w labels => exact .publish hops
  | nil =>
      cases hlooking : s.progress.looking with
      | cons l rest =>
          rw [dispatcherStep_look hops hlooking]
          exact .look hops hlooking
      | nil =>
          cases hdirect : s.progress.direct with
          | cons r rest =>
              rw [dispatcherStep_direct hops hlooking hdirect]
              exact .direct hops hlooking hdirect
          | nil =>
              cases htasks : s.progress.supertasks with
              | cons t rest =>
                  rw [dispatcherStep_supertask hops hlooking hdirect htasks]
                  exact .supertask hops hlooking htasks
              | nil =>
                  cases hindependent : s.progress.independent with
                  | cons l rest =>
                      rw [dispatcherStep_independent hops hlooking hdirect htasks hindependent]
                      exact .independent hops hlooking hindependent
                  | nil =>
                      rw [dispatcherStep_take hops hlooking hdirect htasks hindependent]
                      exact .take hops hlooking hdirect htasks hindependent

/-- The moves of a worker. -/
inductive WorkerMove (w : Int) (s : LoopState ρ σ) : LoopState ρ σ → Prop
  | record {command rest} (howed : s.owed w = command :: rest) :
      WorkerMove w s { s with
        owed := Function.update s.owed w rest
        dispatch := { s.dispatch with locations := command.apply s.dispatch.locations } }
  | finish {messages} (hwaiting : s.lines.waiting w = [] :: messages) :
      WorkerMove w s { s with lines := s.lines.finish w messages }
  | run {x rest messages size storage} (howed : s.owed w = [])
      (hwaiting : s.lines.waiting w = (x :: rest) :: messages)
      (hexec : execute w x.label s.storage = (some size, storage)) :
      WorkerMove w s { s with
        lines := s.lines.run w x (rest :: messages)
        owed := Function.update s.owed w (finishing w x.label size)
        storage }
  | abandon {x rest messages storage} (howed : s.owed w = [])
      (hwaiting : s.lines.waiting w = (x :: rest) :: messages)
      (hexec : execute w x.label s.storage = (none, storage)) :
      WorkerMove w s { s with lines := s.lines.run w x messages, storage }

variable {execute}

theorem workerStep_moves {w : Int} {s s' : LoopState ρ σ} (h : workerStep execute w s = some s') :
    WorkerMove execute w s s' := by
  unfold workerStep at h
  cases howed : s.owed w with
  | cons command rest =>
      rw [howed] at h
      obtain rfl := Option.some.inj h
      exact .record howed
  | nil =>
      rw [howed] at h
      cases hwaiting : s.lines.waiting w with
      | nil =>
          rw [hwaiting] at h
          exact absurd h (by simp)
      | cons message messages =>
          rw [hwaiting] at h
          cases message with
          | nil =>
              obtain rfl := Option.some.inj h
              exact .finish hwaiting
          | cons x rest =>
              dsimp only at h
              rcases hexec : execute w x.label s.storage with ⟨_ | size, storage⟩
              · rw [hexec] at h
                obtain rfl := Option.some.inj h
                exact .abandon howed hwaiting hexec
              · rw [hexec] at h
                obtain rfl := Option.some.inj h
                exact .run howed hwaiting hexec

end Moves

/-! ## The dispatcher alone -/

section Alone

variable {ρ σ : Type} (S : StdSort) (d : Dispatcher ρ) (intakes : Nat → Intake)

/-- The dispatcher moves, no worker does. -/
abbrev AloneRun : LoopState ρ σ → LoopState ρ σ → Prop :=
  Relation.ReflTransGen fun s s' => s' = dispatcherStep S d intakes s

/-- The batch at hand is out. -/
structure Progress.Idle (p : Progress) : Prop where
  ops : p.ops = []
  looking : p.looking = []
  missed : p.missed = false
  direct : p.direct = []
  supertasks : p.supertasks = []
  independent : p.independent = []

/-- Equal in everything but the label catalog, which routing only writes. -/
def SameButStatus (a b : DispatchState ρ) : Prop := ∃ status, a = { b with status }

theorem SameButStatus.refl (a : DispatchState ρ) : SameButStatus a a := ⟨a.status, rfl⟩

/-- The messages for several workers, one after the other. -/
def pushAll (turn : Nat) (lines : Lines Handling) (messages : List (Int × List LabelData)) :
    Lines Handling :=
  messages.foldl (fun lines m => lines.push m.1 (m.2.map fun label =>
    { turn, worker := m.1, label })) lines

/-- The accesses that are due are made. -/
theorem alone_ops (commands : List LocationCommand) (messages : List (Int × List LabelData))
    (s : LoopState ρ σ)
    (hops : s.progress.ops = commands.map .locate ++ messages.map fun m => .publish m.1 m.2) :
    AloneRun S d intakes s
      { s with
        progress := { s.progress with ops := [] }
        dispatch := { s.dispatch with locations := applyAll commands s.dispatch.locations }
        lines := pushAll (s.progress.taken - 1) s.lines messages } := by
  induction commands generalizing s with
  | nil =>
      induction messages generalizing s with
      | nil =>
          have hsame : { s.progress with ops := [] } = s.progress :=
            congrArg (fun ops => { s.progress with ops }) hops.symm
          show AloneRun S d intakes s { s with progress := { s.progress with ops := [] } }
          rw [hsame]
      | cons m rest ih =>
          exact .head rfl (by rw [dispatcherStep_op hops]; exact ih _ rfl)
  | cons c rest ih =>
      exact .head rfl (by rw [dispatcherStep_op hops]; exact ih _ rfl)

/-- One label or supertask is routed, and its accesses are made. -/
theorem alone_routed (s : LoopState ρ σ) (p : Progress) {after : DispatchState ρ}
    {commands : List LocationCommand}
    (hlocations : applyAll commands s.dispatch.locations = after.locations) :
    ∃ messages, AloneRun S d intakes (s.routed p after commands)
        { s with
          progress := { p with ops := [] }
          dispatch := after
          lines := pushAll (p.taken - 1) s.lines messages } ∧
      messages.map (·.1) = (messagesOf s.dispatch after).map (·.1) := by
  refine ⟨(messagesOf s.dispatch after).map fun m =>
    (m.1, (unpack after.supertasks m).map (·.2)), ?_, ?_⟩
  · have hrun := alone_ops S d intakes commands
      ((messagesOf s.dispatch after).map fun m => (m.1, (unpack after.supertasks m).map (·.2)))
      (s.routed p after commands) (by
        rw [List.map_map]
        rfl)
    have hafter : { after with locations := applyAll commands s.dispatch.locations } = after := by
      rw [hlocations]
    have hend : { (s.routed p after commands).dispatch with
        locations := applyAll commands (s.routed p after commands).dispatch.locations } = after :=
      hafter
    rw [hend] at hrun
    exact hrun
  · rw [List.map_map]
    rfl

/-! ### Phase 4 -/

/-- The progress once a label is looked up. -/
def Progress.found (p : Progress) (locations : LocationCatalog) (l : LabelData)
    (rest : List LabelData) : Progress :=
  match readLocation (some locations.getLocation) l with
  | some w => { p with looking := rest, missed := false, direct := p.direct ++ [(l, w)] }
  | none => { p with looking := rest, missed := false, independent := p.independent ++ [l] }

theorem readLocation_of_read (find : LocationLookup) {l : LabelData} (h : l.type = .read) :
    readLocation (some find) l = find l.fileKey (labelRange l).offset (labelRange l).length := by
  unfold readLocation
  rw [h]

theorem readLocation_of_not_read (lookup : Option LocationLookup) {l : LabelData}
    (h : l.type ≠ .read) : readLocation lookup l = none := by
  unfold readLocation
  split
  · next hr => exact absurd hr h
  · rfl

theorem alone_look {s : LoopState ρ σ} (hops : s.progress.ops = [])
    (hmissed : s.progress.missed = false) {l : LabelData} {rest : List LabelData}
    (h : s.progress.looking = l :: rest) :
    AloneRun S d intakes s
      { s with progress := s.progress.found s.dispatch.locations l rest } := by
  have hstep : dispatcherStep S d intakes s = _ := dispatcherStep_look hops h
  unfold Progress.found
  unfold Progress.lookUp at hstep
  by_cases hread : l.type = .read
  · rw [if_pos hread, hmissed] at hstep
    rw [readLocation_of_read _ hread, LocationCatalog.getLocation_eq]
    dsimp only [Bool.false_eq_true, if_false] at hstep
    cases hranged : s.dispatch.locations.findRanged l.fileKey (labelRange l).offset
        (labelRange l).length with
    | some w =>
        rw [hranged] at hstep
        exact .single hstep.symm
    | none =>
        -- the second question is the file
        rw [hranged] at hstep
        have hmiss : { s with progress := { s.progress with missed := true } } =
            dispatcherStep S d intakes s := hstep.symm
        have hagain : dispatcherStep S d intakes
            { s with progress := { s.progress with missed := true } } =
              { s with progress := (Progress.lookUp { s.progress with missed := true }
                s.dispatch.locations l rest) } :=
          dispatcherStep_look (s := { s with progress := { s.progress with missed := true } })
            hops h
        unfold Progress.lookUp at hagain
        rw [if_pos hread] at hagain
        dsimp only [if_true] at hagain
        refine .head hmiss (.single ?_)
        rw [hagain, Option.none_or]
        cases s.dispatch.locations.whole l.fileKey with
        | some w => rfl
        | none => rfl
  · rw [if_neg hread] at hstep
    rw [readLocation_of_not_read _ hread]
    refine .single ?_
    rw [hstep, ← hmissed]

theorem alone_looks {s : LoopState ρ σ} (hops : s.progress.ops = [])
    (hmissed : s.progress.missed = false) {labels : List LabelData}
    (h : s.progress.looking = labels) :
    AloneRun S d intakes s
      { s with
        progress := { s.progress with
          looking := []
          direct := s.progress.direct ++ labels.filterMap fun l =>
            (readLocation (some s.dispatch.locations.getLocation) l).map fun w => (l, w)
          independent := s.progress.independent ++ labels.filter fun l =>
            (readLocation (some s.dispatch.locations.getLocation) l).isNone } } := by
  induction labels generalizing s with
  | nil =>
      have hsame : { s.progress with
          looking := []
          direct := s.progress.direct ++ []
          independent := s.progress.independent ++ [] } = s.progress := by
        rw [List.append_nil, List.append_nil, ← h]
      show AloneRun S d intakes s { s with progress := { s.progress with
          looking := []
          direct := s.progress.direct ++ []
          independent := s.progress.independent ++ [] } }
      rw [hsame]
  | cons l rest ih =>
      refine .trans (alone_look S d intakes hops hmissed h) ?_
      unfold Progress.found
      rw [List.filterMap_cons, List.filter_cons]
      cases hlocation : readLocation (some s.dispatch.locations.getLocation) l with
      | some w =>
          have hrest := ih (s := { s with progress := { s.progress with
            looking := rest, missed := false, direct := s.progress.direct ++ [(l, w)] } })
            hops rfl rfl
          dsimp only at hrest
          rw [List.append_assoc, ← hmissed] at hrest
          rw [← hmissed]
          exact hrest
      | none =>
          have hrest := ih (s := { s with progress := { s.progress with
            looking := rest, missed := false, independent := s.progress.independent ++ [l] } })
            hops rfl rfl
          dsimp only at hrest
          rw [List.append_assoc, ← hmissed] at hrest
          rw [← hmissed]
          exact hrest

/-! ### Routing -/

/-- Nothing that was sent is taken back. -/
def SentMore (before after : DispatchState ρ) : Prop := ∃ new, after.sent = before.sent ++ new

theorem messagesOf_trans {a b c : DispatchState ρ} (hab : SentMore a b) (hbc : SentMore b c) :
    SentMore a c ∧ messagesOf a c = messagesOf a b ++ messagesOf b c := by
  obtain ⟨front, hfront⟩ := hab
  obtain ⟨back, hback⟩ := hbc
  have hall : c.sent = a.sent ++ (front ++ back) := by
    rw [hback, hfront, List.append_assoc]
  refine ⟨⟨_, hall⟩, ?_⟩
  rw [messagesOf_append hall, messagesOf_append hfront, messagesOf_append hback]

theorem pushAll_append (turn : Nat) (lines : Lines Handling)
    (front back : List (Int × List LabelData)) :
    pushAll turn lines (front ++ back) = pushAll turn (pushAll turn lines front) back :=
  List.foldl_append ..

/-- The state after a phase: what it routed is out. -/
structure RoutedAll (s : LoopState ρ σ) (p : Progress) (after : DispatchState ρ)
    (s' : LoopState ρ σ) : Prop where
  run : AloneRun S d intakes s s'
  progress : s'.progress = p
  dispatch : s'.dispatch = after
  more : SentMore s.dispatch s'.dispatch
  lines : ∃ messages : List (Int × List LabelData),
    s'.lines = pushAll (p.taken - 1) s.lines messages ∧
      messages.map (·.1) = (messagesOf s.dispatch s'.dispatch).map (·.1)

/-- A phase of the routing: a list of the progress is worked off. -/
theorem alone_items {ι : Type} (f : DispatchState ρ → ι → DispatchState ρ)
    (commands : DispatchState ρ → ι → List LocationCommand) (put : List ι → Progress)
    (hstep : ∀ (s : LoopState ρ σ) i rest, s.progress = put (i :: rest) →
      dispatcherStep S d intakes s = s.routed (put rest) (f s.dispatch i) (commands s.dispatch i))
    (hops : ∀ rest, (put rest).ops = []) (htaken : ∀ rest, (put rest).taken = (put []).taken)
    (hlocations : ∀ st i, applyAll (commands st i) st.locations = (f st i).locations)
    (hmore : ∀ st i, SentMore st (f st i)) (items : List ι) {s : LoopState ρ σ}
    (h : s.progress = put items) :
    ∃ s', RoutedAll S d intakes s (put []) (items.foldl f s.dispatch)
      s' := by
  induction items generalizing s with
  | nil =>
      refine ⟨s, .refl, h, rfl, ⟨[], by simp⟩, [], rfl, ?_⟩
      show _ = List.map _ (List.drop _ _)
      rw [List.drop_length]
      rfl
  | cons i rest ih =>
      obtain ⟨messages, hrun, hparties⟩ := alone_routed S d intakes
        s (put rest) (hlocations s.dispatch i)
      have hsame : { put rest with ops := [] } = put rest :=
        congrArg (fun ops => { put rest with ops }) (hops rest).symm
      rw [hsame, ← hstep s i rest h] at hrun
      obtain ⟨s', hrest⟩ := ih (s := { s with
        progress := put rest
        dispatch := f s.dispatch i
        lines := pushAll ((put rest).taken - 1) s.lines messages }) rfl
      obtain ⟨hmore', hmessages⟩ := messagesOf_trans (hmore s.dispatch i) hrest.more
      obtain ⟨others, hlines, hothers⟩ := hrest.lines
      refine ⟨s', .trans (.head rfl hrun) hrest.run, hrest.progress, hrest.dispatch, hmore',
        messages ++ others, ?_, ?_⟩
      · rw [hlines, pushAll_append, htaken rest]
      · rw [List.map_append, hparties, hothers, hmessages, List.map_append]

theorem applyAll_locating (w : Int) (l : LabelData) (locations : LocationCatalog) :
    applyAll (locating w l) locations = recordWrite w locations l := by
  unfold locating recordWrite
  cases l.type with
  | write =>
      cases l.destination with
      | filePath dst => rfl
      | _ => rfl
  | _ => rfl

theorem applyAll_taskCommands (workers : List WorkerInfo) (st : DispatchState ρ)
    (task : Supertask) :
    applyAll (taskCommands d workers st task) st.locations =
      (routeSupertask d workers st task).locations := by
  have hfold : ∀ (w : Int) (children : List LabelData) (locations : LocationCatalog),
      applyAll (children.flatMap (locating w)) locations =
        (children.map (mark d workers w d.policy)).foldl (recordWrite w) locations := by
    intro w children
    induction children with
    | nil => exact fun _ => rfl
    | cons l rest ih =>
        intro locations
        rw [List.flatMap_cons, applyAll_append, applyAll_locating, ih, List.map_cons,
          List.foldl_cons, recordWrite_mark]
  unfold taskCommands routeSupertask
  rcases d.selectWorker workers task.composite.intent st.solver with ⟨_ | w, solver⟩
  · rfl
  · exact hfold w task.children st.locations

theorem applyAll_aloneCommands (workers : List WorkerInfo) (fanout : ReplyFanout)
    (st : DispatchState ρ) (l : LabelData) :
    applyAll (aloneCommands d workers st l) st.locations =
      (routeIndependent d workers fanout (st, []) l).1.locations := by
  rw [(routeIndependent_alone d workers fanout (st, []) l).locations]
  unfold aloneCommands recordPlaced
  dsimp only
  rcases (placeIndependent d workers st l).1 with _ | ⟨w, policy⟩
  · rfl
  · dsimp only
    split
    · rfl
    · exact applyAll_locating ..

theorem routeSupertask_more (workers : List WorkerInfo) (st : DispatchState ρ)
    (task : Supertask) : SentMore st (routeSupertask d workers st task) := by
  unfold routeSupertask
  rcases d.selectWorker workers task.composite.intent st.solver with ⟨_ | w, solver⟩
  · exact ⟨[], by simp⟩
  · exact ⟨_, rfl⟩

/-! ### The batch -/

theorem SameButStatus.foldl {ι : Type} {f g : DispatchState ρ → ι → DispatchState ρ}
    (hfg : ∀ a b i, SameButStatus a b → SameButStatus (f a i) (g b i)) (items : List ι)
    {a b : DispatchState ρ} (h : SameButStatus a b) :
    SameButStatus (items.foldl f a) (items.foldl g b) := by
  induction items generalizing a b with
  | nil => exact h
  | cons i rest ih => exact ih (hfg a b i h)

theorem routeSupertask_sameButStatus (workers : List WorkerInfo) {a b : DispatchState ρ}
    (task : Supertask) (h : SameButStatus a b) :
    SameButStatus (routeSupertask d workers a task) (routeSupertask d workers b task) := by
  obtain ⟨status, rfl⟩ := h
  unfold routeSupertask
  dsimp only
  rcases d.selectWorker workers task.composite.intent b.solver with ⟨_ | w, solver⟩
  · exact ⟨status, rfl⟩
  · exact ⟨_, rfl⟩

/-- Neither the entries nor the label catalog influence the routing. -/
theorem routeIndependent_sameButStatus (workers : List WorkerInfo) (fanout : ReplyFanout)
    {a b : DispatchState ρ} (entries others : List ScheduleEntry) (l : LabelData)
    (h : SameButStatus a b) :
    SameButStatus (routeIndependent d workers fanout (a, entries) l).1
      (routeIndependent d workers fanout (b, others) l).1 := by
  obtain ⟨status, rfl⟩ := h
  have hassemble : assemble d fanout { b with status } l =
      ((assemble d fanout b l).1, { (assemble d fanout b l).2 with status }) := by
    unfold assemble
    split
    · dsimp only
      cases fanout l.id with
      | none => rfl
      | some replies => rfl
    · rfl
  unfold routeIndependent
  rw [hassemble]
  rcases assemble d fanout b l with ⟨l', st⟩
  have hplace : placeIndependent d workers { st with status } l' =
      placeIndependent d workers st l' := rfl
  dsimp only
  rw [hplace]
  rcases placeIndependent d workers st l' with ⟨_ | ⟨w, policy⟩, solver⟩
  · exact ⟨status, rfl⟩
  · exact ⟨status, rfl⟩

theorem routeIndependents_sameButStatus (workers : List WorkerInfo) (fanout : ReplyFanout)
    {a b : DispatchState ρ} (labels : List LabelData) (h : SameButStatus a b) :
    SameButStatus
      (labels.foldl (fun st l => (routeIndependent d workers fanout (st, []) l).1) a)
      (routeIndependents d workers fanout b labels) := by
  have hfold : ∀ (a : DispatchState ρ) (acc : DispatchState ρ × List ScheduleEntry),
      SameButStatus a acc.1 →
        SameButStatus
          (labels.foldl (fun st l => (routeIndependent d workers fanout (st, []) l).1) a)
          (labels.foldl (routeIndependent d workers fanout) acc).1 := by
    induction labels with
    | nil => exact fun _ _ h => h
    | cons l rest ih =>
        exact fun a acc h => ih _ _ (routeIndependent_sameButStatus d workers fanout [] acc.2 l h)
  obtain ⟨status, hsame⟩ := hfold a (b, []) h
  exact ⟨status, hsame⟩

/-- Looking up what a shuffle without locations leaves gives the shuffle with them. -/
theorem shuffle_looked (S : StdSort) (config : ShufflerConfig) (batch : List LabelData)
    (find : LocationLookup) :
    shuffle S config batch (some find) =
      { shuffle S config batch none with
        directRoute := (shuffle S config batch none).independent.filterMap fun l =>
          (readLocation (some find) l).map fun w => (l, w)
        independent := (shuffle S config batch none).independent.filter fun l =>
          (readLocation (some find) l).isNone } := by
  have hleft : (shuffle S config batch none).independent =
      (buildSupertasks S config.depGranularity
        (detectDependencies S config.depGranularity (aggregate S config batch).output)).2 := by
    refine List.filter_eq_self.mpr fun l _ => ?_
    unfold readLocation
    split
    · next heq => exact absurd heq (by simp)
    · rfl
  rw [hleft]
  rfl

/-- The first phase: the reads whose location is known. -/
theorem alone_directs {routes : List (LabelData × Int)} {p : Progress} {s : LoopState ρ σ}
    (h : s.progress = { p with direct := routes }) (hops : p.ops = []) (hlooking : p.looking = []) :
    ∃ s', RoutedAll S d intakes s { p with direct := [] }
      (routes.foldl (fun st r => routeDirect d p.workers st (markLabelShuffled r.1 d.now, r.2))
        s.dispatch) s' := by
  refine alone_items S d intakes
    (fun st r => routeDirect d p.workers st (markLabelShuffled r.1 d.now, r.2)) (fun _ _ => [])
    (fun routes => { p with direct := routes }) (fun s r rest h => ?_) (fun _ => hops)
    (fun _ => rfl) (fun _ _ => rfl) (fun _ _ => ⟨_, rfl⟩) routes h
  rw [dispatcherStep_direct (by rw [h, hops]) (by rw [h, hlooking])
    (show s.progress.direct = r :: rest by rw [h]), h]

/-- The second phase: the supertasks. -/
theorem alone_supertasks {tasks : List Supertask} {p : Progress} {s : LoopState ρ σ}
    (h : s.progress = { p with supertasks := tasks }) (hops : p.ops = [])
    (hlooking : p.looking = []) (hdirect : p.direct = []) :
    ∃ s', RoutedAll S d intakes s { p with supertasks := [] }
      (tasks.foldl (fun st t => routeSupertask d p.workers st (shuffledTask d.now t))
        s.dispatch) s' := by
  refine alone_items S d intakes
    (fun st t => routeSupertask d p.workers st (shuffledTask d.now t))
    (fun st t => taskCommands d p.workers st (shuffledTask d.now t))
    (fun tasks => { p with supertasks := tasks }) (fun s t rest h => ?_) (fun _ => hops)
    (fun _ => rfl) (fun _ _ => applyAll_taskCommands ..) (fun _ _ => routeSupertask_more ..)
    tasks h
  rw [dispatcherStep_supertask (by rw [h, hops]) (by rw [h, hlooking]) (by rw [h, hdirect])
    (show s.progress.supertasks = t :: rest by rw [h]), h]

/-- The third phase: the labels that go alone. -/
theorem alone_independents {labels : List LabelData} {p : Progress} {s : LoopState ρ σ}
    (h : s.progress = { p with independent := labels }) (hops : p.ops = [])
    (hlooking : p.looking = []) (hdirect : p.direct = []) (htasks : p.supertasks = []) :
    ∃ s', RoutedAll S d intakes s { p with independent := [] }
      (labels.foldl (fun st l => (routeIndependent d p.workers p.fanout (st, [])
        (markLabelShuffled l d.now)).1) s.dispatch) s' := by
  refine alone_items S d intakes
    (fun st l => (routeIndependent d p.workers p.fanout (st, []) (markLabelShuffled l d.now)).1)
    (fun st l => aloneCommands d p.workers st (markLabelShuffled l d.now))
    (fun labels => { p with independent := labels }) (fun s l rest h => ?_) (fun _ => hops)
    (fun _ => rfl) (fun _ _ => applyAll_aloneCommands ..)
    (fun _ _ => ⟨_, (routeIndependent_alone ..).sent⟩) labels h
  rw [dispatcherStep_independent (by rw [h, hops]) (by rw [h, hlooking]) (by rw [h, hdirect])
    (by rw [h, htasks]) (show s.progress.independent = l :: rest by rw [h]), h]

/-- **The dispatcher alone.** Its steps through a batch add up to `dispatchBatch`:
the same labels go to the same workers, and but for the label catalog the state
is the same. -/
theorem alone_dispatches (S : StdSort) (d : Dispatcher ρ) (intakes : Nat → Intake)
    {s : LoopState ρ σ} (hidle : s.progress.Idle) :
    ∃ s', AloneRun S d intakes s s' ∧ s'.progress.Idle ∧
      s'.progress.taken = s.progress.taken + 1 ∧
      SameButStatus s'.dispatch
        (dispatchBatch S d (intakes s.progress.taken).cached (intakes s.progress.taken).refreshed
          (intakes s.progress.taken).batch s.dispatch) ∧
      ∃ messages : List (Int × List LabelData),
        s'.lines = pushAll s.progress.taken s.lines messages ∧
          messages.map (·.1) = (messagesOf s.dispatch s'.dispatch).map (·.1) := by
  obtain ⟨⟨taken, ops, looking, missed, direct, supertasks, independent, fanout₀, workers₀⟩,
    dispatch, lines, owed, storage⟩ := s
  obtain ⟨rfl, rfl, rfl, rfl, rfl, rfl⟩ := hidle
  have htake : dispatcherStep S d intakes ⟨⟨taken, [], [], false, [], [], [], fanout₀, workers₀⟩,
      dispatch, lines, owed, storage⟩ = _ := dispatcherStep_take rfl rfl rfl rfl rfl
  unfold Progress.take at htake
  unfold dispatchBatch
  dsimp only at htake ⊢
  by_cases hcached : (intakes taken).cached.isEmpty
  · -- the batch is gone
    rw [if_pos hcached] at htake ⊢
    refine ⟨_, .single htake.symm, ⟨rfl, rfl, rfl, rfl, rfl, rfl⟩, rfl, .refl _, [], rfl, ?_⟩
    show _ = List.map _ (List.drop _ _)
    rw [List.drop_length]
    rfl
  · rw [if_neg hcached] at htake ⊢
    generalize usableWorkers (intakes taken).cached (intakes taken).refreshed = workers at htake ⊢
    generalize (intakes taken).batch = batch at htake ⊢
    have hlooks := alone_looks S d intakes (s := ⟨⟨taken + 1, [],
      (shuffle S d.config batch none).independent, false, [],
      (shuffle S d.config batch none).supertasks, [],
      (shuffle S d.config batch none).replyFanout, workers⟩, dispatch, lines, owed, storage⟩)
      rfl rfl rfl
    dsimp only at hlooks
    rw [shuffle_looked S d.config batch dispatch.locations.getLocation]
    rw [List.nil_append, List.nil_append] at hlooks
    generalize shuffle S d.config batch none = left at htake hlooks ⊢
    generalize left.independent.filterMap (fun l =>
      (readLocation (some dispatch.locations.getLocation) l).map fun w => (l, w)) = routes at hlooks ⊢
    generalize left.independent.filter (fun l =>
      (readLocation (some dispatch.locations.getLocation) l).isNone) = alone at hlooks ⊢
    let p : Progress := ⟨taken + 1, [], [], false, routes, left.supertasks, alone,
      left.replyFanout, workers⟩
    obtain ⟨s₁, h₁⟩ := alone_directs S d intakes (p := p)
      (s := ⟨p, dispatch, lines, owed, storage⟩) rfl rfl rfl
    obtain ⟨s₂, h₂⟩ := alone_supertasks S d intakes (p := { p with direct := [] })
      h₁.progress rfl rfl rfl
    obtain ⟨s₃, h₃⟩ := alone_independents S d intakes
      (p := { p with direct := [], supertasks := [] }) h₂.progress rfl rfl rfl rfl
    obtain ⟨messages₁, hlines₁, hparties₁⟩ := h₁.lines
    obtain ⟨messages₂, hlines₂, hparties₂⟩ := h₂.lines
    obtain ⟨messages₃, hlines₃, hparties₃⟩ := h₃.lines
    obtain ⟨hmore, hsent₁₂⟩ := messagesOf_trans h₁.more h₂.more
    obtain ⟨-, hsent⟩ := messagesOf_trans hmore h₃.more
    dsimp only at hlines₁ hparties₁ hsent₁₂ hsent
    refine ⟨s₃, .head htake.symm (hlooks.trans (h₁.run.trans (h₂.run.trans h₃.run))),
      h₃.progress ▸ ⟨rfl, rfl, rfl, rfl, rfl, rfl⟩, h₃.progress ▸ rfl, ?_,
      messages₁ ++ messages₂ ++ messages₃, ?_, ?_⟩
    · have hdirects : SameButStatus s₁.dispatch (routeDirects d workers dispatch
          (routes.map fun p => (markLabelShuffled p.1 d.now, p.2))) := by
        rw [h₁.dispatch]
        unfold routeDirects
        rw [List.foldl_map]
        exact ⟨_, rfl⟩
      have htasks : SameButStatus s₂.dispatch
          ((left.supertasks.map (shuffledTask d.now)).foldl (routeSupertask d workers)
            (routeDirects d workers dispatch
              (routes.map fun p => (markLabelShuffled p.1 d.now, p.2)))) := by
        rw [h₂.dispatch, List.foldl_map]
        exact hdirects.foldl
          (fun a b t h => routeSupertask_sameButStatus d workers (shuffledTask d.now t) h) _
      have halone := routeIndependents_sameButStatus d workers left.replyFanout
        (alone.map (markLabelShuffled · d.now)) htasks
      rw [List.foldl_map, ← h₃.dispatch] at halone
      exact halone
    · rw [hlines₃, hlines₂, hlines₁, ← pushAll_append, ← pushAll_append, List.append_assoc,
        Nat.add_sub_cancel]
    · rw [List.map_append, List.map_append, hparties₁, hparties₂, hparties₃, hsent, hsent₁₂,
        List.map_append, List.map_append]

end Alone

end Labios
