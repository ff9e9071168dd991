import Labios.Catalog.FileMeta
import Labios.Dispatcher.Iteration

/-!
# Observability

`handle_observe` of `labios/observability.cpp`: the route of an observe URI, and the JSON
text that each route answers with. Texts are pasted together as the source does it.

`ObserveEnv` is what the queries read besides the workers. The reply of `SCAN`, the order in
which an `unordered_set` is walked and the text of a `double` on a stream are taken as they
come, and so is the text of the score that the manager gave to a worker.
-/

namespace Labios

structure TimedFileInfo extends FileInfo where
  mtimeMs : UInt64 := 0

/-- The fields of the configuration that are shown. -/
structure ShownConfig where
  dispatcherBatchSize : Int := 100
  dispatcherBatchTimeoutMs : Int := 50
  schedulerPolicy : String := "round-robin"
  dispatcherAggregationEnabled : Bool := true

structure ObserveEnv where
  get : String → Option String := fun _ => none
  scanKeys : String → List String := fun _ => []
  walk : List String → List String
  redisConnected : Bool := true
  natsConnected : Bool := true
  nowMs : UInt64 := 0
  config : ShownConfig := {}
  getLocation : String → Option Int := fun _ => none
  getFileInfo : String → Option TimedFileInfo := fun _ => none
  showDouble : Rat → String
  showScore : WorkerInfo → String

/-- `std::stoull`: blanks, a sign, at least one digit. A negative number wraps. -/
def stoull (cs : List Char) : Option UInt64 :=
  let cs := cs.dropWhile fun c => c = ' ' ∨ 9 ≤ c.toNat ∧ c.toNat ≤ 13
  let (negative, rest) := match cs with
    | '-' :: rest => (true, rest)
    | '+' :: rest => (false, rest)
    | _ => (false, cs)
  let digits := rest.takeWhile Char.isDigit
  let magnitude := digits.foldl (fun n c => 10 * n + (c.toNat - 48)) 0
  if digits = [] ∨ 2 ^ 64 ≤ magnitude then none
  else some (if negative then 0 - UInt64.ofNat magnitude else UInt64.ofNat magnitude)

/-! ## JSON helpers -/

def jsonString (key val : String) : String := "\"" ++ key ++ "\":\"" ++ val ++ "\""

def jsonNumber (key : String) (val : UInt64) : String := "\"" ++ key ++ "\":" ++ toString val.toNat

def jsonBool (key : String) (val : Bool) : String :=
  "\"" ++ key ++ "\":" ++ if val then "true" else "false"

/-- The names between quotes, with commas between them. -/
def jsonNames : List String → String
  | [] => ""
  | [name] => "\"" ++ name ++ "\""
  | name :: rest => "\"" ++ name ++ "\"" ++ "," ++ jsonNames rest

/-! ## The queries -/

def queueDepth (env : ObserveEnv) : ObserveResult :=
  let depth := ((env.get "labios:queue:depth").bind (stoull ·.toList)).getD 0
  { jsonData := "\x7b" ++ jsonNumber "queue_depth" depth ++ "," ++
      jsonNumber "timestamp_ms" env.nowMs ++ "\x7d" }

def workerScore (env : ObserveEnv) (w : WorkerInfo) : String :=
  "\x7b\"id\":" ++ toString w.id ++ ",\"tier\":" ++ toString w.tier.level ++
    ",\"available\":" ++ (if w.available then "true" else "false") ++
    ",\"score\":" ++ env.showScore w ++ ",\"capacity\":" ++ env.showDouble w.capacity ++
    ",\"load\":" ++ env.showDouble w.load ++ ",\"speed\":" ++ toString w.speed ++
    ",\"energy\":" ++ toString w.energy ++ "\x7d"

def workersScores (workers : List WorkerInfo) (env : ObserveEnv) : ObserveResult :=
  { jsonData := "\x7b\"workers\":[" ++ ",".intercalate (workers.map (workerScore env)) ++ "]\x7d" }

def workersCount (workers : List WorkerInfo) : ObserveResult :=
  let count (tier : WorkerTier) := UInt64.ofNat (workers.countP fun w => w.tier = tier)
  { jsonData := "\x7b" ++ jsonNumber "databot" (count .databot) ++ "," ++
      jsonNumber "pipeline" (count .pipeline) ++ "," ++
      jsonNumber "agentic" (count .agentic) ++ "," ++
      jsonNumber "total" (UInt64.ofNat workers.length) ++ "\x7d" }

def systemHealth (env : ObserveEnv) : ObserveResult :=
  let status (connected : Bool) := if connected then "connected" else "disconnected"
  let started := (env.get "labios:dispatcher:start_ms").bind (stoull ·.toList)
  let uptime := (started.map fun startMs => (env.nowMs - startMs) / 1000).getD 0
  { jsonData := "\x7b" ++ jsonString "nats" (status env.natsConnected) ++ "," ++
      jsonString "redis" (status env.redisConnected) ++ "," ++
      jsonNumber "uptime_seconds" uptime ++ "\x7d" }

/-- The name in a warehouse key: what stands between the prefix and the next colon. -/
def channelName (key : String) : Option String :=
  let front := "labios:channel:".toList
  if key.toList.length ≤ front.length then none
  else some (String.ofList ((key.toList.drop front.length).takeWhile (· ≠ ':')))

def channelsList (env : ObserveEnv) : ObserveResult :=
  let names := env.walk ((env.scanKeys "labios:channel:*").filterMap channelName)
  { jsonData := "\x7b\"channels\":[" ++ jsonNames names ++ "]\x7d" }

/-- The name in an index key, without the prefix and the suffix. -/
def workspaceName (key : String) : Option String :=
  let front := "labios:ws:".toList
  let suffix := ":_index".toList
  if key.toList.length ≤ front.length + suffix.length then none
  else
    let rest := key.toList.drop front.length
    let keep := rest.length - suffix.length
    if suffix.length < rest.length ∧ rest.drop keep = suffix then
      some (String.ofList (rest.take keep))
    else none

def workspacesList (env : ObserveEnv) : ObserveResult :=
  let names := (env.scanKeys "labios:ws:*:_index").filterMap workspaceName
  { jsonData := "\x7b\"workspaces\":[" ++ jsonNames names ++ "]\x7d" }

def configCurrent (env : ObserveEnv) : ObserveResult :=
  let cfg := env.config
  { jsonData := "\x7b" ++ jsonNumber "batch_size" (UInt64.ofInt cfg.dispatcherBatchSize) ++ "," ++
      jsonNumber "batch_timeout_ms" (UInt64.ofInt cfg.dispatcherBatchTimeoutMs) ++ "," ++
      jsonString "scheduler_policy" cfg.schedulerPolicy ++ "," ++
      jsonBool "aggregation_enabled" cfg.dispatcherAggregationEnabled ++ "\x7d" }

/-- What stands behind the first `=`, if `file` stands before it. -/
def fileValue (pair : List Char) : Option String :=
  if '=' ∈ pair ∧ pair.takeWhile (· ≠ '=') = "file".toList then
    some (String.ofList ((pair.dropWhile (· ≠ '=')).drop 1))
  else none

/-- The first `file` parameter of the query string. -/
def fileParameter (query : Uri) : String :=
  ((query.query.toList.splitOn '&').findSome? fileValue).getD ""

def workerText : Option Int → String
  | some worker => ",\"worker_id\":" ++ toString worker
  | none => ",\"worker_id\":null"

def fileText : Option TimedFileInfo → String
  | some info =>
      ",\"exists\":" ++ (if info.isThere then "true" else "false") ++
        ",\"size\":" ++ toString info.size.toNat ++
        ",\"mtime_ms\":" ++ toString info.mtimeMs.toNat
  | none => ""

def dataLocation (query : Uri) (env : ObserveEnv) : ObserveResult :=
  let filePath := fileParameter query
  if filePath.isEmpty then
    { success := false
      error := "missing 'file' query parameter"
      jsonData := "\x7b\"error\":\"missing 'file' query parameter\"\x7d" }
  else
    { jsonData := "\x7b\"file\":\"" ++ filePath ++ "\"" ++ workerText (env.getLocation filePath) ++
        fileText (env.getFileInfo filePath) ++ "\x7d" }

/-! ## Routing -/

/-- The authority and the path, with a slash between them. -/
def observeRoute (query : Uri) : String :=
  if query.path.isEmpty then query.authority
  else if query.path.toList.head? = some '/' then query.authority ++ query.path
  else query.authority ++ ("/" ++ query.path)

def handleObserve (query : Uri) (workers : List WorkerInfo) (env : ObserveEnv) : ObserveResult :=
  match observeRoute query with
  | "queue/depth" => queueDepth env
  | "workers/scores" => workersScores workers env
  | "workers/count" => workersCount workers
  | "system/health" => systemHealth env
  | "channels/list" => channelsList env
  | "workspaces/list" => workspacesList env
  | "config/current" => configCurrent env
  | "data/location" => dataLocation query env
  | route =>
      { success := false
        error := "unknown observe query: " ++ route
        jsonData := "\x7b\"error\":\"unknown observe query: " ++ route ++ "\"\x7d" }

example : observeRoute (parseUri "observe://queue/depth") = "queue/depth" := by decide

end Labios
