import Labios.Client.IntText
import Labios.Client.SizeText

/-!
# Configuration

`load_config` of `labios/config.cpp`: the defaults, what the file says, and what the environment says
over it. What the TOML library finds in the file is a parameter, and so is the environment.
-/

namespace Labios

abbrev Environment := List Char → Option (List Char)

/-- What `toml++` finds under a section and a key, as a value of the type that is asked for. -/
structure TomlFile where
  string : String → String → Option (List Char) := fun _ _ => none
  int : String → String → Option Int := fun _ _ => none
  bool : String → String → Option Bool := fun _ _ => none
  strings : String → String → Option (List (List Char)) := fun _ _ => none

structure Config.Elastic where
  enabled : Bool := false
  minWorkers : Int := 1
  maxWorkers : Int := 10
  pressureThreshold : Int := 5
  workerIdleTimeoutMs : Int := 30000
  decommissionTimeoutMs : Int := 60000
  commissionCooldownMs : Int := 5000
  evalIntervalMs : Int := 2000
  dockerSocket : List Char := "/var/run/docker.sock".toList
  dockerImage : List Char := []
  dockerNetwork : List Char := []
  elasticWorkerSpeed : Int := 3
  elasticWorkerEnergy : Int := 3
  elasticWorkerCapacity : List Char := "50GB".toList
  minDatabotWorkers : Int := 1
  maxDatabotWorkers : Int := 10
  minPipelineWorkers : Int := 0
  maxPipelineWorkers : Int := 5
  minAgenticWorkers : Int := 0
  maxAgenticWorkers : Int := 2

structure Config where
  natsUrl : List Char := "nats://localhost:4222".toList
  redisHost : List Char := "localhost".toList
  redisPort : Int := 6379
  workerId : Int := 0
  workerSpeed : Int := 1
  workerCapacity : List Char := "1GB".toList
  labelMinSize : UInt64 := 64 * 1024
  labelMaxSize : UInt64 := defaultLabelMaxSize
  cacheFlushIntervalMs : Int := 500
  cacheReadPolicy : List Char := "read-through".toList
  interceptPrefixes : List (List Char) := ["/labios".toList]
  replyTimeoutMs : Int := 30000
  dispatcherBatchSize : Int := 100
  dispatcherBatchTimeoutMs : Int := 50
  dispatcherAggregationEnabled : Bool := true
  dispatcherDepGranularity : List Char := "per-file".toList
  schedulerPolicy : List Char := "round-robin".toList
  schedulerProfilePath : List Char := []
  schedulerWorkerRefreshMs : Int := 5000
  workerEnergy : Int := 1
  workerTier : Int := 0
  maxWorkerCapacity : UInt64 := 1024 * 1024 * 1024 * 1024
  elastic : Config.Elastic := {}

/-! ## The environment -/

def envOr (env : Environment) (name : String) (fallback : List Char) : List Char :=
  match env name.toList with
  | none => fallback
  | some val => if val ≠ [] then val else fallback

/-- What is no `int` counts as not set. -/
def envIntOr (env : Environment) (name : String) (fallback : Int) : Int :=
  match env name.toList with
  | none => fallback
  | some val => if val ≠ [] then (Elastic.stoi val).getD fallback else fallback

/-- None where `parse_size` is undefined. -/
def envSize (env : Environment) (name : String) (fallback : UInt64) : Option UInt64 :=
  match env name.toList with
  | none => some fallback
  | some val => if val ≠ [] then parseSize (String.ofList val) else some fallback

/-- A flag that is set to anything else is off. -/
def envFlag (env : Environment) (name : String) (fallback : Bool) : Bool :=
  match env name.toList with
  | none => fallback
  | some val => if val ≠ [] then val = "true".toList || val = "1".toList else fallback

/-- The elastic flag is off when it is set to nothing. -/
def envElasticEnabled (env : Environment) (fallback : Bool) : Bool :=
  match env "LABIOS_ELASTIC_ENABLED".toList with
  | none => fallback
  | some val => val = "true".toList || val = "1".toList

/-- The pieces between commas that are not empty. -/
def envPrefixes (env : Environment) (fallback : List (List Char)) : List (List Char) :=
  match env "LABIOS_INTERCEPT_PREFIXES".toList with
  | none => fallback
  | some val => if val ≠ [] then (val.splitOn ',').filter (· ≠ []) else fallback

/-! ## The file and the environment -/

/-- None where `parse_size` is undefined on a size of the file. -/
def fileSize (file : TomlFile) (table key : String) (fallback : UInt64) : Option UInt64 :=
  match file.string table key with
  | none => some fallback
  | some val => parseSize (String.ofList val)

def loadElastic (file : TomlFile) (env : Environment) : Config.Elastic :=
  let cfg : Config.Elastic := {}
  { enabled := envElasticEnabled env ((file.bool "elastic" "enabled").getD cfg.enabled)
    minWorkers := envIntOr env "LABIOS_ELASTIC_MIN_WORKERS"
      ((file.int "elastic" "min_workers").getD cfg.minWorkers)
    maxWorkers := envIntOr env "LABIOS_ELASTIC_MAX_WORKERS"
      ((file.int "elastic" "max_workers").getD cfg.maxWorkers)
    pressureThreshold := (file.int "elastic" "pressure_threshold").getD cfg.pressureThreshold
    workerIdleTimeoutMs := envIntOr env "LABIOS_WORKER_IDLE_TIMEOUT_MS"
      ((file.int "elastic" "worker_idle_timeout_ms").getD cfg.workerIdleTimeoutMs)
    decommissionTimeoutMs :=
      (file.int "elastic" "decommission_timeout_ms").getD cfg.decommissionTimeoutMs
    commissionCooldownMs :=
      (file.int "elastic" "commission_cooldown_ms").getD cfg.commissionCooldownMs
    evalIntervalMs := (file.int "elastic" "eval_interval_ms").getD cfg.evalIntervalMs
    dockerSocket := envOr env "LABIOS_DOCKER_SOCKET"
      ((file.string "elastic" "docker_socket").getD cfg.dockerSocket)
    dockerImage := envOr env "LABIOS_DOCKER_IMAGE"
      ((file.string "elastic" "docker_image").getD cfg.dockerImage)
    dockerNetwork := envOr env "LABIOS_DOCKER_NETWORK"
      ((file.string "elastic" "docker_network").getD cfg.dockerNetwork)
    elasticWorkerSpeed := envIntOr env "LABIOS_ELASTIC_WORKER_SPEED"
      ((file.int "elastic" "elastic_worker_speed").getD cfg.elasticWorkerSpeed)
    elasticWorkerEnergy := envIntOr env "LABIOS_ELASTIC_WORKER_ENERGY"
      ((file.int "elastic" "elastic_worker_energy").getD cfg.elasticWorkerEnergy)
    elasticWorkerCapacity := envOr env "LABIOS_ELASTIC_WORKER_CAPACITY"
      ((file.string "elastic" "elastic_worker_capacity").getD cfg.elasticWorkerCapacity)
    minDatabotWorkers := (file.int "elastic" "min_databot_workers").getD cfg.minDatabotWorkers
    maxDatabotWorkers := (file.int "elastic" "max_databot_workers").getD cfg.maxDatabotWorkers
    minPipelineWorkers := (file.int "elastic" "min_pipeline_workers").getD cfg.minPipelineWorkers
    maxPipelineWorkers := (file.int "elastic" "max_pipeline_workers").getD cfg.maxPipelineWorkers
    minAgenticWorkers := (file.int "elastic" "min_agentic_workers").getD cfg.minAgenticWorkers
    maxAgenticWorkers := (file.int "elastic" "max_agentic_workers").getD cfg.maxAgenticWorkers }

/-- A file that is not there says nothing. -/
def loadConfig (file : TomlFile) (env : Environment) : Option Config := do
  let cfg : Config := {}
  let fileMinSize ← fileSize file "label" "min_size" cfg.labelMinSize
  let fileMaxSize ← fileSize file "label" "max_size" cfg.labelMaxSize
  let fileCapacity ← fileSize file "manager" "max_worker_capacity" cfg.maxWorkerCapacity
  let labelMinSize ← envSize env "LABIOS_LABEL_MIN_SIZE" fileMinSize
  let labelMaxSize ← envSize env "LABIOS_LABEL_MAX_SIZE" fileMaxSize
  let maxWorkerCapacity ← envSize env "LABIOS_MAX_WORKER_CAPACITY" fileCapacity
  return {
    natsUrl := envOr env "LABIOS_NATS_URL" ((file.string "nats" "url").getD cfg.natsUrl)
    redisHost := envOr env "LABIOS_REDIS_HOST" ((file.string "redis" "host").getD cfg.redisHost)
    redisPort := envIntOr env "LABIOS_REDIS_PORT" ((file.int "redis" "port").getD cfg.redisPort)
    workerId := envIntOr env "LABIOS_WORKER_ID" ((file.int "worker" "id").getD cfg.workerId)
    workerSpeed := envIntOr env "LABIOS_WORKER_SPEED"
      ((file.int "worker" "speed").getD cfg.workerSpeed)
    workerCapacity := envOr env "LABIOS_WORKER_CAPACITY"
      ((file.string "worker" "capacity").getD cfg.workerCapacity)
    labelMinSize
    labelMaxSize
    cacheFlushIntervalMs := envIntOr env "LABIOS_CACHE_FLUSH_MS"
      ((file.int "cache" "flush_interval_ms").getD cfg.cacheFlushIntervalMs)
    cacheReadPolicy := envOr env "LABIOS_CACHE_READ_POLICY"
      ((file.string "cache" "default_read_policy").getD cfg.cacheReadPolicy)
    interceptPrefixes := envPrefixes env
      ((file.strings "intercept" "prefixes").getD cfg.interceptPrefixes)
    replyTimeoutMs := envIntOr env "LABIOS_REPLY_TIMEOUT_MS"
      ((file.int "client" "reply_timeout_ms").getD cfg.replyTimeoutMs)
    dispatcherBatchSize := envIntOr env "LABIOS_DISPATCHER_BATCH_SIZE"
      ((file.int "dispatcher" "batch_size").getD cfg.dispatcherBatchSize)
    dispatcherBatchTimeoutMs := envIntOr env "LABIOS_DISPATCHER_BATCH_TIMEOUT_MS"
      ((file.int "dispatcher" "batch_timeout_ms").getD cfg.dispatcherBatchTimeoutMs)
    dispatcherAggregationEnabled := envFlag env "LABIOS_DISPATCHER_AGGREGATION"
      ((file.bool "dispatcher" "aggregation_enabled").getD cfg.dispatcherAggregationEnabled)
    dispatcherDepGranularity := envOr env "LABIOS_DISPATCHER_DEP_GRANULARITY"
      ((file.string "dispatcher" "dep_granularity").getD cfg.dispatcherDepGranularity)
    schedulerPolicy := envOr env "LABIOS_SCHEDULER_POLICY"
      ((file.string "scheduler" "policy").getD cfg.schedulerPolicy)
    schedulerProfilePath := envOr env "LABIOS_SCHEDULER_PROFILE"
      ((file.string "scheduler" "profile_path").getD cfg.schedulerProfilePath)
    schedulerWorkerRefreshMs := envIntOr env "LABIOS_SCHEDULER_WORKER_REFRESH_MS"
      ((file.int "scheduler" "worker_refresh_ms").getD cfg.schedulerWorkerRefreshMs)
    workerEnergy := envIntOr env "LABIOS_WORKER_ENERGY"
      ((file.int "worker" "energy").getD cfg.workerEnergy)
    workerTier := envIntOr env "LABIOS_WORKER_TIER"
      ((file.int "worker" "tier").getD cfg.workerTier)
    maxWorkerCapacity
    elastic := loadElastic file env }

/-- The size that splits labels is the one of `loadLabelMaxSize`. -/
theorem loadConfig_labelMaxSize {file : TomlFile} {env : Environment} {cfg : Config}
    (h : loadConfig file env = some cfg) :
    loadLabelMaxSize ((file.string "label" "max_size").map String.ofList)
      ((env "LABIOS_LABEL_MAX_SIZE".toList).map String.ofList) = some cfg.labelMaxSize := by
  unfold loadConfig at h
  obtain ⟨_, -, h⟩ := Option.bind_eq_some_iff.mp h
  obtain ⟨fileMaxSize, hfile, h⟩ := Option.bind_eq_some_iff.mp h
  obtain ⟨_, -, h⟩ := Option.bind_eq_some_iff.mp h
  obtain ⟨_, -, h⟩ := Option.bind_eq_some_iff.mp h
  obtain ⟨labelMaxSize, henv, h⟩ := Option.bind_eq_some_iff.mp h
  obtain ⟨_, -, h⟩ := Option.bind_eq_some_iff.mp h
  obtain rfl := Option.some.inj h
  have hread : ((file.string "label" "max_size").map String.ofList).elim
      (some defaultLabelMaxSize) parseSize = some fileMaxSize := by
    rw [← hfile]
    unfold fileSize
    cases file.string "label" "max_size" with
    | none => rfl
    | some val => rfl
  unfold loadLabelMaxSize
  rw [hread, Option.bind_some, ← henv]
  unfold envSize
  cases env "LABIOS_LABEL_MAX_SIZE".toList with
  | none => rfl
  | some val =>
      by_cases hempty : val = []
      · subst hempty
        rfl
      · have hne : String.ofList val ≠ "" := fun hval => hempty (String.ofList_injective hval)
        simp only [Option.map_some, Option.elim_some]
        rw [if_neg hne, if_pos hempty]

end Labios
