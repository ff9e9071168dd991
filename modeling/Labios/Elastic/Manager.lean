import Labios.Client.IntText
import Labios.Elastic.Orchestrator
import Labios.Foundation.Machine
import Labios.Solver.RegistryProtocol
import Mathlib.Data.List.AList

/-!
# The elastic loop of the manager

What `main` of `services/labios-manager.cpp` wires together: a queue depth message goes to
`update_queue_depth`, and the thread evaluates with `evaluate_once`. Between two events of
the manager an evaluation runs as a whole: it is the run of the orchestrator in which nothing
else happens between its steps.
-/

namespace Labios.Elastic

open Foundation

namespace Orchestrator

/-- The handler of `labios.queue.depth`: what is no number is ignored. -/
def onQueueDepth (cfg : ElasticConfig) (s : Orchestrator) (msg : List Char) : Orchestrator :=
  match stoi msg with
  | none => s
  | some depth => s.updateQueueDepth cfg depth

/-! ## An evaluation that nothing interrupts -/

/-- The steps up to the decision, with the orders in which the maps are walked. -/
def evaluation (idle suspended : List Int) : List Event :=
  [.calls false, .reads idle, .reads suspended, .reads [], .reads [], .reads [], .decides]

/-- What `evaluate_once` hands to `evaluate`. -/
def snapshot (cfg : ElasticConfig) (s : Orchestrator) (idle suspended : List Int) :
    ElasticSnapshot where
  pressureCount := s.pressureCount
  pressureThreshold := cfg.pressureThreshold
  currentWorkers := s.mgr.workerCount
  minWorkers := cfg.minWorkers
  maxWorkers := cfg.maxWorkers
  idleWorkerIds := idle.filter fun id => (s.commissioned.lookup id).isSome
  suspendedWorkerIds := suspended
  lastCommission := s.lastCommissionTime
  cooldownMs := cfg.commissionCooldownMs

/-- The action that is taken. -/
def deployedOutcome (cfg : ElasticConfig) (s : Orchestrator) (idle suspended : List Int) :
    Outcome :=
  (evaluate (s.snapshot cfg idle suspended) s.now).outcome

variable {cfg : ElasticConfig} {s s' : Orchestrator} {idle suspended : List Int}

theorem exec_evaluation (h : exec (step cfg) s (evaluation idle suspended) = some s') :
    idle.Perm (s.mgr.decommissionableWorkers cfg.decommissionTimeoutMs s.now) ∧
      suspended.Perm s.mgr.suspendedWorkers ∧
        s' = s.carryOut false (s.deployedOutcome cfg idle suspended) := by
  obtain ⟨s₁, hcalls, h⟩ := exec_cons h
  simp only [step] at hcalls
  split at hcalls
  · obtain rfl := Option.some.inj hcalls
    obtain ⟨s₂, hidle, h⟩ := exec_cons h
    obtain ⟨seen, hseen, rfl⟩ := Option.map_eq_some_iff.mp hidle
    simp only [read, walked] at hseen
    split at hseen
    · next hperm =>
        obtain rfl := Option.some.inj hseen
        obtain ⟨s₃, hsuspended, h⟩ := exec_cons h
        obtain ⟨seen, hseen, rfl⟩ := Option.map_eq_some_iff.mp hsuspended
        simp only [read, walked] at hseen
        split at hseen
        · next hperm' =>
            obtain rfl := Option.some.inj hseen
            exact ⟨hperm, hperm', (Option.some.inj h).symm⟩
        · cases hseen
    · cases hseen
  · cases hcalls

/-- What carrying out a decision still takes; `containerId` is what `create_and_start`
returns, if it does not throw. -/
def finish (cfg : ElasticConfig) (s : Orchestrator) (containerId : Option String) :
    Option Orchestrator :=
  match s.phase with
  | .starting _ _ _ =>
      match containerId with
      | some containerId => exec (step cfg) s [.starts containerId, .advances, .advances]
      | none => exec (step cfg) s [.startFails]
  | .erasing wid =>
      if (s.commissioned.lookup wid).isSome then
        exec (step cfg) s [.advances, .advances, .advances]
      else exec (step cfg) s [.advances]
  | _ => some s

end Orchestrator

/-! ## The deployed loop -/

structure DeployedLoop where
  orch : Orchestrator := {}
  /-- The latest queue depth message. -/
  message : List Char := []

inductive LoopEvent
  | queueDepth (msg : List Char)
  | registers (info : WorkerInfo)
  | deregisters (id : Int)
  | scores (id : Int) (capacity load : Rat) (available : Bool)
  | ticks (now : Int)
  | evaluates (idle suspended : List Int) (containerId : Option String)

namespace DeployedLoop

def step (cfg : ElasticConfig) (s : DeployedLoop) : LoopEvent → Option DeployedLoop
  | .queueDepth msg => some { orch := s.orch.onQueueDepth cfg msg, message := msg }
  | .registers info => some { s with orch := s.orch.registers info }
  | .deregisters id =>
      some { s with orch := { s.orch with mgr := s.orch.mgr.deregisterWorker id } }
  | .scores id capacity load available =>
      (s.orch.step cfg (.scores id capacity load available)).map fun orch => { s with orch }
  | .ticks now => (s.orch.step cfg (.ticks now)).map fun orch => { s with orch }
  | .evaluates idle suspended containerId =>
      (exec (Orchestrator.step cfg) s.orch (Orchestrator.evaluation idle suspended)).bind
        fun decided => (decided.finish cfg containerId).map fun orch => { s with orch }

end DeployedLoop
end Labios.Elastic

/-!
## The messages between workers and manager

What `services/labios-worker.cpp` publishes of a worker, and how the handlers of
`services/labios-manager.cpp` read it: a field that is missing has its default, a conversion that
throws drops the message. The handlers run on a thread a subject; that of a score update copies the
row of its worker and writes it back in a second step.

A byte of a message is a character.
-/

namespace Labios.Elastic

open Foundation

/-! ## What a worker publishes -/

/-- The part of a worker's `Config` that it registers. -/
structure WorkerConfig where
  workerId : Int
  workerSpeed : Int := 1
  workerEnergy : Int := 1
  workerCapacity : List Char := "1GB".toList
  workerTier : Int := 0
  deriving DecidableEq

def registerMessage (cfg : WorkerConfig) : List Char :=
  (toString cfg.workerId).toList ++ ',' :: ((toString cfg.workerSpeed).toList ++
    ',' :: ((toString cfg.workerEnergy).toList ++ ',' :: (cfg.workerCapacity ++
      ',' :: (toString cfg.workerTier).toList)))

/-- The active labels over `kMaxQueueSize`, at most one. -/
def loadOf (activeLabels : Nat) : ℚ := min (roundBinary64 ((activeLabels : ℚ) / 100)) 1

/-- What is free of the storage; `none` where `std::filesystem::space` fails. -/
def capRatio : Option (UInt64 × UInt64) → ℚ
  | some (available, capacity) =>
      if 0 < capacity then
        roundBinary64 (roundBinary64 (available.toNat : ℚ) / roundBinary64 (capacity.toNat : ℚ))
      else 1
  | none => 1

structure WorkerReport where
  space : Option (UInt64 × UInt64)
  activeLabels : Nat
  suspended : Bool
  deriving DecidableEq

def scoreMessage (workerId : Int) (r : WorkerReport) : List Char :=
  (toString workerId).toList ++ ',' :: (fixedText (capRatio r.space) ++
    ',' :: (fixedText (loadOf r.activeLabels) ++ ',' :: (if !r.suspended then ['1'] else ['0'])))

/-- What a worker publishes at once when it is resumed. -/
def resumeMessage (workerId : Int) : List Char := (toString workerId).toList ++ ",1.0,0.0,1".toList

/-! ## What the manager reads -/

/-- `if (std::getline(iss, token, ',')) field = convert(token);` -/
def optionalField {α : Type} (convert : List Char → Option α) (default : α) (iss : List Char) :
    Option (α × List Char) :=
  match getline ',' iss with
  | none => some (default, iss)
  | some (token, rest) => (convert token).map fun value => (value, rest)

structure RegisterFields where
  id : Int
  speed : Int
  energy : Int
  capacityStr : List Char
  tier : WorkerTier
  deriving DecidableEq

def parseRegister (msg : List Char) : Option RegisterFields := do
  let (id, iss) ← optionalField stoi 0 msg
  let (speed, iss) ← optionalField stoi 1 iss
  let (energy, iss) ← optionalField stoi 1 iss
  let (capacityStr, iss) ← optionalField some [] iss
  let (tier, _) ← optionalField (fun token => (stoi token).map tierOfLevel) .databot iss
  return { id, speed, energy, capacityStr, tier }

/-- `cap_ratio`; none where `parse_size` converts what no `uint64_t` holds. -/
def capacityRatio (maxWorkerCapacity : UInt64) (capacityStr : List Char) : Option ℚ :=
  if capacityStr ≠ [] ∧ 0 < maxWorkerCapacity then
    (parseSize (String.ofList capacityStr)).map fun capBytes =>
      min (roundBinary64 (roundBinary64 (capBytes.toNat : ℚ) /
        roundBinary64 (maxWorkerCapacity.toNat : ℚ))) 1
  else some 1

def registeredRow (fields : RegisterFields) (ratio : ℚ) : WorkerRow where
  id := fields.id
  available := true
  capacity := .finite ratio
  load := .finite 0
  speed := fields.speed
  energy := fields.energy
  tier := fields.tier

structure ScoreUpdate where
  id : Int
  capacity : Double
  load : Double
  available : Bool
  deriving DecidableEq

def parseScoreUpdate (tiny : ℚ → Bool) (msg : List Char) : Option ScoreUpdate := do
  let (id, iss) ← optionalField stoi 0 msg
  let (capacity, iss) ← optionalField (stod tiny) (.finite 1) iss
  let (load, iss) ← optionalField (stod tiny) (.finite 0) iss
  let (available, _) ← optionalField (fun token => some (decide (token = ['1']))) true iss
  return { id, capacity, load, available }

def ScoreUpdate.apply (upd : ScoreUpdate) (w : WorkerRow) : WorkerRow :=
  { w with capacity := upd.capacity, load := upd.load, available := upd.available }

/-! ## The handlers -/

structure WorkerRegistry where
  workers : AList fun _ : Int => WorkerRow := ∅
  /-- The score update that is handled, with its copy of the row. -/
  pending : Option (ScoreUpdate × WorkerRow) := none

inductive ManagerEvent
  | register (msg : List Char)
  | deregister (msg : List Char)
  /-- The handler of a score update finds its worker in the copy, or is done. -/
  | scoreUpdate (msg : List Char)
  /-- It writes the row back. -/
  | updateScore (id : Int)

namespace WorkerRegistry

/-- `all_workers`. -/
def allWorkers (s : WorkerRegistry) : List WorkerRow := s.workers.entries.map (·.2)

def step (tiny : ℚ → Bool) (maxWorkerCapacity : UInt64) (s : WorkerRegistry) :
    ManagerEvent → Option WorkerRegistry
  | .register msg =>
      match parseRegister msg with
      | none => some s
      | some fields =>
          (capacityRatio maxWorkerCapacity fields.capacityStr).map fun ratio =>
            { s with workers := s.workers.insert fields.id (registeredRow fields ratio) }
  | .deregister msg =>
      match stoi msg with
      | none => some s
      | some id => some { s with workers := s.workers.erase id }
  | .scoreUpdate msg =>
      if s.pending.isSome then none
      else
        match parseScoreUpdate tiny msg with
        | none => some s
        | some upd =>
            some { s with
              pending := (s.allWorkers.find? (·.id = upd.id)).map fun w => (upd, w) }
  | .updateScore id =>
      match s.pending with
      | none => none
      | some (upd, w) =>
          if upd.id = id then
            some
              { workers :=
                  if (s.workers.lookup id).isSome then s.workers.insert id (upd.apply w)
                  else s.workers
                pending := none }
          else none

end WorkerRegistry

/-! ## The reply to the dispatcher -/

/-- A row as it is encoded; `minus` says which of its NaNs have a sign. -/
def encodeRow (minus : Bool × Bool) (w : WorkerRow) : List Char :=
  (toString w.id).toList ++ ',' :: ((if w.available then ['1'] else ['0']) ++
    ',' :: (w.capacity.text minus.1 ++ ',' :: (w.load.text minus.2 ++
      ',' :: ((toString w.speed).toList ++ ',' :: ((toString w.energy).toList ++
        ',' :: (toString (w.tier.level : Int)).toList)))))

def encodeRows (minus : Int → Bool × Bool) (workers : List WorkerRow) : List Char :=
  workers.flatMap fun w => encodeRow (minus w.id) w ++ ['\n']

/-! ## Fields -/

section Fields

variable {α β : Type} {convert : List Char → Option α} {default value : α} {token rest : List Char}

/-- A field that is followed by another one. -/
theorem bind_optionalField (h : ',' ∉ token) (hvalue : convert token = some value)
    (f : α × List Char → Option β) :
    (optionalField convert default (token ++ ',' :: rest) >>= f) = f (value, rest) := by
  unfold optionalField
  rw [getline_separator h]
  dsimp only
  rw [hvalue]
  rfl

theorem bind_optionalField_last (hne : token ≠ []) (h : ',' ∉ token)
    (hvalue : convert token = some value) (f : α × List Char → Option β) :
    (optionalField convert default token >>= f) = f (value, []) := by
  unfold optionalField
  rw [getline_last hne h]
  dsimp only
  rw [hvalue]
  rfl

/-- A value that was read was converted, or is the default. -/
theorem of_optionalField {iss : List Char}
    (h : optionalField convert default iss = some (value, rest)) :
    value = default ∨ ∃ token, convert token = some value := by
  unfold optionalField at h
  split at h
  · obtain ⟨rfl, -⟩ := Prod.mk.inj (Option.some.inj h)
    exact .inl rfl
  · next token rest' _ =>
      obtain ⟨v, hv, hpair⟩ := Option.map_eq_some_iff.mp h
      obtain ⟨rfl, -⟩ := Prod.mk.inj hpair
      exact .inr ⟨token, hv⟩

end Fields

theorem toString_int_ne_nil (z : Int) : (toString z).toList ≠ [] := by
  rw [toList_toString_int]
  split
  · exact List.cons_ne_nil _ _
  · exact Nat.toDigits_ne_nil

theorem comma_notMem_int (z : Int) : ',' ∉ (toString z).toList :=
  notMem_toString_int (by decide) (by decide) z

/-- A number that `stoi` gives is an `int`. -/
theorem isInt_of_stoi {cs : List Char} {z : Int} (h : stoi cs = some z) : IsInt z := by
  unfold stoi at h
  obtain ⟨hrange, hz⟩ := Option.ite_none_left_eq_some.mp h
  rw [not_or, not_or] at hrange
  have heq := Option.some.inj hz
  exact ⟨heq ▸ not_lt.mp hrange.2.1, heq ▸ not_lt.mp hrange.2.2⟩

/-! ## The messages of a worker are understood -/

structure WorkerConfig.Registrable (cfg : WorkerConfig) : Prop where
  id : IsInt cfg.workerId
  speed : IsInt cfg.workerSpeed
  energy : IsInt cfg.workerEnergy
  tier : IsInt cfg.workerTier
  capacity : ',' ∉ cfg.workerCapacity

theorem parseRegister_registerMessage {cfg : WorkerConfig} (h : cfg.Registrable) :
    parseRegister (registerMessage cfg) =
      some
        { id := cfg.workerId
          speed := cfg.workerSpeed
          energy := cfg.workerEnergy
          capacityStr := cfg.workerCapacity
          tier := tierOfLevel cfg.workerTier } := by
  have htier : (stoi (toString cfg.workerTier).toList).map tierOfLevel =
      some (tierOfLevel cfg.workerTier) := by
    rw [stoi_toString h.tier]
    rfl
  unfold parseRegister registerMessage
  rw [bind_optionalField (comma_notMem_int _) (stoi_toString h.id)]
  dsimp only
  rw [bind_optionalField (comma_notMem_int _) (stoi_toString h.speed)]
  dsimp only
  rw [bind_optionalField (comma_notMem_int _) (stoi_toString h.energy)]
  dsimp only
  rw [bind_optionalField h.capacity rfl]
  dsimp only
  rw [bind_optionalField_last (toString_int_ne_nil _) (comma_notMem_int _) htier]
  rfl

/-- A load is a number with two decimals, and so is one. -/
theorem loadOf_sixDecimals (activeLabels : Nat) : SixDecimals (loadOf activeLabels) := by
  have hone : roundBinary64 (1 : ℚ) = 1 := roundBinary64_one
  by_cases hle : activeLabels ≤ 100
  · have hload : loadOf activeLabels = roundBinary64 ((activeLabels : ℚ) / 100) := by
      refine min_eq_left ?_
      have hquotient : (activeLabels : ℚ) / 100 ≤ 1 := by
        rw [div_le_one (by norm_num)]
        exact_mod_cast hle
      exact (roundBinary64_mono (by positivity) hquotient).trans_eq hone
    have hnonneg : 0 ≤ loadOf activeLabels := hload ▸ roundBinary64_nonneg (by positivity)
    refine ⟨⟨activeLabels * 10000, ?_⟩, ?_⟩
    · rw [abs_of_nonneg hnonneg, hload]
      congr 1
      push_cast
      ring
    · rw [abs_of_nonneg hnonneg]
      exact (min_le_right _ _).trans_lt (one_lt_pow₀ (by norm_num) (by norm_num))
  · have hload : loadOf activeLabels = 1 := by
      refine min_eq_right ?_
      have hquotient : (1 : ℚ) ≤ (activeLabels : ℚ) / 100 := by
        rw [le_div_iff₀ (by norm_num), one_mul]
        exact_mod_cast (not_le.mp hle).le
      exact hone.symm.trans_le (roundBinary64_mono zero_le_one hquotient)
    rw [hload]
    refine ⟨⟨1000000, ?_⟩, ?_⟩
    · rw [div_self (by norm_num), hone, abs_one]
    · rw [abs_one]
      exact one_lt_pow₀ (by norm_num) (by norm_num)

theorem FiniteDouble.one : FiniteDouble 1 := by
  refine ⟨⟨1, zero_le_one, ?_⟩, ?_⟩
  · rw [roundBinary64_one, abs_one]
  · rw [abs_one]
    exact one_lt_pow₀ (by norm_num) (by norm_num)

/-- The quotient of two sizes, as doubles. -/
theorem finiteDouble_quotient (a : UInt64) {b : UInt64} (hb : 0 < b) :
    0 ≤ roundBinary64 (roundBinary64 (a.toNat : ℚ) / roundBinary64 (b.toNat : ℚ)) ∧
      FiniteDouble (roundBinary64 (roundBinary64 (a.toNat : ℚ) / roundBinary64 (b.toNat : ℚ))) := by
  have hleast : (1 : ℚ) ≤ roundBinary64 (b.toNat : ℚ) := by
    have hcast : (1 : ℚ) ≤ b.toNat := by
      exact_mod_cast (UInt64.lt_iff_toNat_lt.mp hb : 0 < b.toNat)
    exact roundBinary64_one.symm.trans_le (roundBinary64_mono zero_le_one hcast)
  have hnonneg := roundBinary64_nonneg (Nat.cast_nonneg (α := ℚ) a.toNat)
  have hmost : roundBinary64 (a.toNat : ℚ) ≤ 2 ^ (64 : ℤ) := by
    have hcast : (a.toNat : ℚ) ≤ (2 : ℚ) ^ (64 : ℤ) := by exact_mod_cast a.toNat_lt.le
    exact (roundBinary64_mono (Nat.cast_nonneg _) hcast).trans_eq
      (roundBinary64_two_zpow (by norm_num))
  have hquotient := div_nonneg hnonneg (zero_le_one.trans hleast)
  have hround := roundBinary64_nonneg hquotient
  refine ⟨hround, ⟨_, hquotient, abs_of_nonneg hround⟩, ?_⟩
  rw [abs_of_nonneg hround]
  calc _ ≤ roundBinary64 ((2 : ℚ) ^ (64 : ℤ)) :=
        roundBinary64_mono hquotient ((div_le_self hnonneg hleast).trans hmost)
    _ = 2 ^ (64 : ℤ) := roundBinary64_two_zpow (by norm_num)
    _ = 2 ^ 64 := zpow_ofNat 2 64
    _ < 2 ^ 1024 := pow_lt_pow_right₀ (by norm_num) (by norm_num)

theorem capRatio_finiteDouble (space : Option (UInt64 × UInt64)) :
    FiniteDouble (capRatio space) := by
  unfold capRatio
  split
  · split
    · next hpos => exact (finiteDouble_quotient _ hpos).2
    · exact FiniteDouble.one
  · exact FiniteDouble.one

theorem capacityRatio_finiteDouble {maxWorkerCapacity : UInt64} {capacityStr : List Char} {ratio : ℚ}
    (h : capacityRatio maxWorkerCapacity capacityStr = some ratio) : FiniteDouble ratio := by
  unfold capacityRatio at h
  split at h
  · next hpos =>
      obtain ⟨capBytes, -, rfl⟩ := Option.map_eq_some_iff.mp h
      rcases min_choice (roundBinary64 (roundBinary64 (capBytes.toNat : ℚ) /
        roundBinary64 (maxWorkerCapacity.toNat : ℚ))) 1 with hmin | hmin
      · rw [hmin]
        exact (finiteDouble_quotient capBytes hpos.2).2
      · rw [hmin]
        exact FiniteDouble.one
  · obtain rfl := Option.some.inj h
    exact FiniteDouble.one

theorem parseScoreUpdate_scoreMessage {workerId : Int} (h : IsInt workerId) (r : WorkerReport)
    (tiny : ℚ → Bool) :
    parseScoreUpdate tiny (scoreMessage workerId r) =
      some
        { id := workerId
          capacity := .finite (rewritten (capRatio r.space))
          load := .finite (loadOf r.activeLabels)
          available := !r.suspended } := by
  have hfixed : ∀ d : ℚ, ',' ∉ fixedText d :=
    fun d => notMem_fixedText (by decide) (by decide) (by decide) d
  unfold parseScoreUpdate scoreMessage
  rw [bind_optionalField (comma_notMem_int _) (stoi_toString h)]
  dsimp only
  rw [bind_optionalField (hfixed _)
    (stod_fixedText_rewritten (capRatio_finiteDouble r.space).round_lt tiny)]
  dsimp only
  rw [bind_optionalField (hfixed _) (stod_fixedText (loadOf_sixDecimals _) tiny)]
  dsimp only
  cases r.suspended with
  | true => rfl
  | false => rfl

end Labios.Elastic
