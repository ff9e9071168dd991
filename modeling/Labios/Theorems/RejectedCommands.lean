import Labios.Catalog.Status
import Labios.Workspace.Model

/-!
# The Redis connection

The commands of `labios/transport/redis.cpp` that change something, with every reply that
the server may give, and three callers that acknowledge a write on the strength of a normal
return: `ContentManager::stage`, `CatalogManager::schedule_batch` and `Workspace::put`. A
command is applied, rejected with an error reply, or its reply is lost with the connection.
-/

namespace Labios.Transport

/-- `redisReply`. -/
inductive RedisReply
  | string (bytes : List UInt8)
  | array (elements : List (List UInt8))
  | integer (n : Int64)
  | nil
  | status (text : String)
  | error (text : String)
  deriving DecidableEq

def RedisReply.isError : RedisReply → Bool
  | .error _ => true
  | _ => false

/-- The field `integer`, which is 0 in a reply of any other type. -/
def RedisReply.integerField : RedisReply → Int64
  | .integer n => n
  | _ => 0

/-- What becomes of a command: an error reply says that it was not executed. -/
inductive Service
  | applied (reply : { r : RedisReply // r.isError = false })
  | rejected (text : String)
  | lost (carriedOut : Bool)

namespace Service

/-- The reply object; there is none when the connection is lost. -/
def reply : Service → Option RedisReply
  | applied r => some r.val
  | rejected text => some (.error text)
  | lost _ => none

def carriedOut : Service → Bool
  | applied _ => true
  | rejected _ => false
  | lost carriedOut => carriedOut

def isRejected : Service → Bool
  | rejected _ => true
  | _ => false

def isLost : Service → Bool
  | lost _ => true
  | _ => false

end Service

/-! ## Single commands -/

/-- What is sent. -/
inductive Command
  | set (key : String) (value : List UInt8)
  | del (key : String)
  | hset (key field value : String)
  | sadd (key member : String)
  | srem (key member : String)
  | hincrby (key field : String) (increment : Int64)
  | expire (key : String) (seconds : UInt32)
  | zadd (key score member : String)
  deriving DecidableEq

/-- The test that all commands share: is there a reply object? -/
def checked (name errstr : String) : Option RedisReply → Except String RedisReply
  | none => .error ("redis " ++ name ++ " failed: " ++ errstr)
  | some reply => .ok reply

def setLocked := checked "SET"
def setBinaryLocked := checked "SET (binary)"
def delLocked := checked "DEL"
def hsetLocked := checked "HSET"
def saddLocked := checked "SADD"
def sremLocked := checked "SREM"
def expireLocked := checked "EXPIRE"
def zadd := checked "ZADD"

def hincrbyLocked (errstr : String) (reply : Option RedisReply) : Except String Int64 :=
  (checked "HINCRBY" errstr reply).map RedisReply.integerField

/-- The calls of a connection that change something. -/
inductive Call
  | set (key : String) (value : List UInt8)
  | setBinary (key : String) (data : List UInt8)
  | del (key : String)
  | hset (key field value : String)
  | sadd (key member : String)
  | srem (key member : String)
  | hincrby (key field : String) (increment : Int64)
  | expire (key : String) (seconds : UInt32)
  | zadd (key score member : String)

namespace Call

def command : Call → Command
  | set key value => .set key value
  | setBinary key data => .set key data
  | del key => .del key
  | hset key field value => .hset key field value
  | sadd key member => .sadd key member
  | srem key member => .srem key member
  | hincrby key field increment => .hincrby key field increment
  | expire key seconds => .expire key seconds
  | zadd key score member => .zadd key score member

/-- How a call ends; the calls without a result return 0 here. -/
def run (errstr : String) (reply : Option RedisReply) : Call → Except String Int64
  | set _ _ => (setLocked errstr reply).map fun _ => 0
  | setBinary _ _ => (setBinaryLocked errstr reply).map fun _ => 0
  | del _ => (delLocked errstr reply).map fun _ => 0
  | hset _ _ _ => (hsetLocked errstr reply).map fun _ => 0
  | sadd _ _ => (saddLocked errstr reply).map fun _ => 0
  | srem _ _ => (sremLocked errstr reply).map fun _ => 0
  | hincrby _ _ _ => hincrbyLocked errstr reply
  | expire _ _ => (expireLocked errstr reply).map fun _ => 0
  | zadd _ _ _ => (Transport.zadd errstr reply).map fun _ => 0

end Call

/-! ## Calls one after the other -/

/-- The commands that were carried out. -/
def carriedOut (calls : List (Call × Service)) : List Command :=
  (calls.filter fun c => c.2.carriedOut).map fun c => c.1.command

/-- Calls up to the first one that throws, with the commands that were carried out. -/
def callAll (errstr : String) : List (Call × Service) → Except String Unit × List Command
  | [] => (.ok (), [])
  | c :: rest =>
      match c.1.run errstr c.2.reply with
      | .error text => (.error text, carriedOut [c])
      | .ok _ => ((callAll errstr rest).1, carriedOut [c] ++ (callAll errstr rest).2)

/-! ## Pipelines -/

/-- The loop of `pipeline_exec_locked`, from the `i`-th reply on: the first missing one
throws, and the others are drained. -/
def pipelineExecFrom (i : Nat) : List (Option RedisReply) → Except String Unit
  | [] => .ok ()
  | none :: _ => .error ("redis pipeline exec failed at command " ++ toString i)
  | some _ :: rest => pipelineExecFrom (i + 1) rest

/-- All commands are sent before the first reply is read. -/
def pipelineExec (calls : List (Call × Service)) : Except String Unit × List Command :=
  (pipelineExecFrom 0 (calls.map fun c => c.2.reply), carriedOut calls)

/-! ## Callers -/

/-- `ContentManager::data_key`. -/
def contentKey (labelId : UInt64) (appId : UInt32) (roomId : String) : String :=
  if roomId ≠ "" then "labios:room:" ++ roomId ++ ":" ++ toString labelId
  else if appId ≠ 0 then "labios:data:" ++ toString appId ++ ":" ++ toString labelId
  else "labios:data:" ++ toString labelId

def stage (labelId : UInt64) (data : List UInt8) (appId : UInt32) (roomId errstr : String)
    (service : Service) : Except String Unit × List Command :=
  callAll errstr [(.setBinary (contentKey labelId appId roomId) data, service)]

/-- The fields of an entry of `schedule_batch`. -/
def scheduling (ts : String) (e : StatusCatalog.ScheduleEntry) : List Call :=
  let key := "labios:catalog:" ++ toString e.labelId
  [.hset key "status" "scheduled", .hset key "flags" (toString e.flags),
    .hset key "worker_id" (toString e.workerId), .hset key "updated_at" ts]

def scheduleBatch (entries : List StatusCatalog.ScheduleEntry) (ts : String)
    (services : Nat → Service) : Except String Unit × List Command :=
  pipelineExec ((entries.flatMap (scheduling ts)).mapIdx fun i c => (c, services i))

/-- What `put` calls after it has read its version. -/
def putCalls (ws : Workspace) (now : Nat) (key : String) (data : List UInt8) (version : UInt64) :
    List Call :=
  [.setBinary (ws.dataKey key) data,
    .setBinary (ws.versionKey key version) data,
    .hset (ws.metaKey key) "size" (toString data.length),
    .hset (ws.metaKey key) "updated_us" (toString now)] ++
  (if 0 < ws.ttlSeconds then
    [.expire (ws.dataKey key) ws.ttlSeconds,
      .expire (ws.versionKey key version) ws.ttlSeconds,
      .expire (ws.metaKey key) ws.ttlSeconds]
  else []) ++
  [.sadd ws.indexKey key]

/-- The version that the first call of `put` returns. -/
def readVersion (service : Service) : UInt64 :=
  ((service.reply.map RedisReply.integerField).getD 0).toUInt64

/-- All calls of `put`, the `i`-th one with its service. -/
def putProgram (ws : Workspace) (now : Nat) (key : String) (data : List UInt8)
    (services : Nat → Service) : List (Call × Service) :=
  (Call.hincrby (ws.metaKey key) "version" 1 ::
    putCalls ws now key data (readVersion (services 0))).mapIdx fun i c => (c, services i)

def put (ws : Workspace) (now : Nat) (key : String) (data : List UInt8) (appId : UInt32)
    (errstr : String) (services : Nat → Service) : Except String UInt64 × List Command :=
  match ws.checkAccess appId with
  | .error text => (.error text, [])
  | .ok () =>
      let (result, commands) := callAll errstr (putProgram ws now key data services)
      (result.map fun _ => readVersion (services 0), commands)

/-! ## What a normal return says -/

theorem Service.reply_isSome (sv : Service) : sv.reply.isSome = !sv.isLost := by
  cases sv <;> rfl

theorem Service.carriedOut_of_reply {sv : Service} (hl : sv.isLost = false) :
    sv.carriedOut = !sv.isRejected := by
  cases sv with
  | applied r => rfl
  | rejected text => rfl
  | lost c => simp [Service.isLost] at hl

/-- All calls ask the same question: is there a reply object? -/
theorem Call.run_isOk (errstr : String) (reply : Option RedisReply) (call : Call) :
    (call.run errstr reply).isOk = reply.isSome := by
  cases reply <;> cases call <;> rfl

theorem carriedOut_cons (c : Call × Service) (rest : List (Call × Service)) :
    carriedOut (c :: rest) = carriedOut [c] ++ carriedOut rest := by
  unfold carriedOut
  cases h : c.2.carriedOut <;> simp [h]

/-- Nothing is missing from the commands carried out exactly when each of them was. -/
theorem carriedOut_eq_iff (calls : List (Call × Service)) :
    carriedOut calls = (calls.map fun c => c.1.command) ↔
      ∀ c ∈ calls, c.2.carriedOut = true := by
  unfold carriedOut
  constructor
  · intro h
    have hlen : (calls.filter fun c => c.2.carriedOut).length = calls.length := by
      have := congrArg List.length h
      simpa only [List.length_map] using this
    exact List.length_filter_eq_length_iff.mp hlen
  · intro h
    rw [List.filter_eq_self.mpr h]

theorem callAll_isOk (errstr : String) (calls : List (Call × Service)) :
    (callAll errstr calls).1.isOk = true ↔ ∀ c ∈ calls, c.2.isLost = false := by
  induction calls with
  | nil => exact ⟨fun _ _ hc => absurd hc List.not_mem_nil, fun _ => rfl⟩
  | cons c rest ih =>
    have hrun := Call.run_isOk errstr c.2.reply c.1
    rw [Service.reply_isSome] at hrun
    rw [List.forall_mem_cons, ← ih, callAll]
    cases h : c.1.run errstr c.2.reply with
    | error text =>
      rw [h] at hrun
      have hlost : c.2.isLost = true := by simpa [Except.isOk, Except.toBool] using hrun
      simp [hlost, Except.isOk, Except.toBool]
    | ok v =>
      rw [h] at hrun
      have hlost : c.2.isLost = false := by simpa [Except.isOk, Except.toBool] using hrun
      simp [hlost]

/-- A sequence of calls that ends well has carried out what a pipeline carries out. -/
theorem callAll_snd {errstr : String} {calls : List (Call × Service)}
    (hok : (callAll errstr calls).1.isOk = true) :
    (callAll errstr calls).2 = carriedOut calls := by
  induction calls with
  | nil => rfl
  | cons c rest ih =>
    rw [carriedOut_cons]
    unfold callAll at hok ⊢
    cases h : c.1.run errstr c.2.reply with
    | error text =>
      rw [h] at hok
      simp [Except.isOk, Except.toBool] at hok
    | ok v =>
      rw [h] at hok
      show carriedOut [c] ++ (callAll errstr rest).2 = _
      rw [ih hok]

theorem pipelineExecFrom_isOk (i : Nat) (replies : List (Option RedisReply)) :
    (pipelineExecFrom i replies).isOk = true ↔ ∀ r ∈ replies, r.isSome = true := by
  induction replies generalizing i with
  | nil => exact ⟨fun _ _ hr => absurd hr List.not_mem_nil, fun _ => rfl⟩
  | cons r rest ih =>
    rw [List.forall_mem_cons]
    cases r with
    | none => simp [pipelineExecFrom, Except.isOk, Except.toBool]
    | some reply =>
      show (pipelineExecFrom (i + 1) rest).isOk = true ↔ _
      rw [ih (i + 1)]
      simp

theorem pipelineExec_isOk (calls : List (Call × Service)) :
    (pipelineExec calls).1.isOk = true ↔ ∀ c ∈ calls, c.2.isLost = false := by
  show (pipelineExecFrom 0 (calls.map fun c => c.2.reply)).isOk = true ↔ _
  rw [pipelineExecFrom_isOk, List.forall_mem_map]
  simp only [Service.reply_isSome, Bool.not_eq_true']

end Labios.Transport

/-!
## Rejected commands

The connection asks of every reply only whether there is one. A call that returns may
therefore have been rejected by the server, and so may the writes of `stage`,
`schedule_batch` and `put` that are acknowledged after it.
-/

namespace Labios.Transport

/-- A missing reply is noticed, an error reply is not. -/
def Noticed (calls : List (Call × Service)) : Prop :=
  (∃ c ∈ calls, c.2.isLost = true) ∨ ∀ c ∈ calls, c.2.isRejected = false

/-- After a normal return every command was carried out. -/
def Truthful {α : Type} (outcome : Except String α × List Command)
    (calls : List (Call × Service)) : Prop :=
  outcome.1.isOk = true → outcome.2 = calls.map fun c => c.1.command

theorem noticed_iff (calls : List (Call × Service)) :
    Noticed calls ↔
      ((∀ c ∈ calls, c.2.isLost = false) → ∀ c ∈ calls, c.2.carriedOut = true) := by
  constructor
  · rintro (⟨c, hc, hlost⟩ | hnone) hall d hd
    · rw [hall c hc] at hlost
      cases hlost
    · rw [Service.carriedOut_of_reply (hall d hd), hnone d hd]
      rfl
  · intro h
    by_cases hlost : ∃ c ∈ calls, c.2.isLost = true
    · exact Or.inl hlost
    · right
      intro c hc
      have hall : ∀ d ∈ calls, d.2.isLost = false := fun d hd =>
        Bool.eq_false_iff.mpr fun ht => hlost ⟨d, hd, ht⟩
      have hout := h hall c hc
      rw [Service.carriedOut_of_reply (hall c hc)] at hout
      simpa using hout

/-- The callers differ only in how they come to their commands. -/
theorem truthful_iff {α : Type} {outcome : Except String α × List Command}
    {calls : List (Call × Service)}
    (hok : outcome.1.isOk = true ↔ ∀ c ∈ calls, c.2.isLost = false)
    (hout : outcome.1.isOk = true → outcome.2 = carriedOut calls) :
    Truthful outcome calls ↔ Noticed calls := by
  rw [noticed_iff, ← hok]
  constructor
  · intro h hres
    rw [← carriedOut_eq_iff, ← hout hres]
    exact h hres
  · intro h hres
    rw [hout hres, carriedOut_eq_iff]
    exact h hres

theorem callAll_truthful (errstr : String) (calls : List (Call × Service)) :
    Truthful (callAll errstr calls) calls ↔ Noticed calls :=
  truthful_iff (callAll_isOk errstr calls) callAll_snd

theorem pipelineExec_truthful (calls : List (Call × Service)) :
    Truthful (pipelineExec calls) calls ↔ Noticed calls :=
  truthful_iff (pipelineExec_isOk calls) fun _ => rfl

theorem run_truthful (errstr : String) (call : Call) (service : Service) :
    ((call.run errstr service.reply).isOk = true → service.carriedOut = true) ↔
      service.isRejected = false := by
  rw [Call.run_isOk, Service.reply_isSome]
  cases service with
  | applied reply => simp [Service.isLost, Service.carriedOut, Service.isRejected]
  | rejected text => simp [Service.isLost, Service.carriedOut, Service.isRejected]
  | lost out => simp [Service.isLost, Service.isRejected]

/-- Without access nothing is sent and nothing is promised. -/
theorem put_truthful (ws : Workspace) (now : Nat) (key : String) (data : List UInt8)
    (appId : UInt32) (errstr : String) (services : Nat → Service) :
    Truthful (put ws now key data appId errstr services) (putProgram ws now key data services) ↔
      appId ∉ ws.acl ∨ Noticed (putProgram ws now key data services) := by
  by_cases hmem : appId ∈ ws.acl
  · rw [← callAll_truthful errstr]
    have hput : put ws now key data appId errstr services =
        (((callAll errstr (putProgram ws now key data services)).1.map
            fun _ => readVersion (services 0)),
          (callAll errstr (putProgram ws now key data services)).2) := by
      unfold put Workspace.checkAccess
      rw [if_pos hmem]
    rw [hput]
    have hmap : ∀ r : Except String Unit,
        (r.map fun _ => readVersion (services 0)).isOk = r.isOk := by
      intro r
      cases r <;> rfl
    unfold Truthful
    rw [hmap]
    simp [hmem]
  · have hput : (put ws now key data appId errstr services).1.isOk = false := by
      unfold put Workspace.checkAccess
      rw [if_neg hmem]
      rfl
    unfold Truthful
    rw [hput]
    simp [hmem]

/-- What a normal return is worth: a single call tells that its command was carried out
unless that was rejected, and a pipeline, `stage`, `schedule_batch` and `put` tell that
all their commands were, unless one was rejected and no reply was missing. -/
theorem acknowledged_iff (errstr : String) :
    (∀ (call : Call) (service : Service),
      ((call.run errstr service.reply).isOk = true → service.carriedOut = true) ↔
        service.isRejected = false) ∧
    (∀ calls : List (Call × Service),
      Truthful (pipelineExec calls) calls ↔ Noticed calls) ∧
    (∀ (labelId : UInt64) (data : List UInt8) (appId : UInt32) (roomId : String)
        (service : Service),
      Truthful (stage labelId data appId roomId errstr service)
          [(.setBinary (contentKey labelId appId roomId) data, service)] ↔
        service.isRejected = false) ∧
    (∀ (entries : List StatusCatalog.ScheduleEntry) (ts : String) (services : Nat → Service),
      Truthful (scheduleBatch entries ts services)
          ((entries.flatMap (scheduling ts)).mapIdx fun i c => (c, services i)) ↔
        Noticed ((entries.flatMap (scheduling ts)).mapIdx fun i c => (c, services i))) ∧
    (∀ (ws : Workspace) (now : Nat) (key : String) (data : List UInt8) (appId : UInt32)
        (services : Nat → Service),
      Truthful (put ws now key data appId errstr services)
          (putProgram ws now key data services) ↔
        appId ∉ ws.acl ∨ Noticed (putProgram ws now key data services)) := by
  refine ⟨run_truthful errstr, pipelineExec_truthful, ?_, ?_, ?_⟩
  · intro labelId data appId roomId service
    unfold stage
    rw [callAll_truthful]
    unfold Noticed
    cases service <;> simp [Service.isLost, Service.isRejected]
  · intro entries ts services
    exact pipelineExec_truthful _
  · intro ws now key data appId services
    exact put_truthful ws now key data appId errstr services

/-- The server is out of memory: every call returns, a version 0 is reported, and nothing
was stored. -/
theorem outOfMemory_unnoticed :
    let full : Service := .rejected "OOM command not allowed when used memory > 'maxmemory'."
    stage 7 [1, 2] 0 "" "" full = (.ok (), []) ∧
      scheduleBatch [⟨7, 1, 0⟩] "1" (fun _ => full) = (.ok (), []) ∧
      pipelineExec [(.set "k" [1], full), (.del "k", full)] = (.ok (), []) ∧
      put (.create "w" 1) 1 "k" [1, 2] 1 "" (fun _ => full) = (.ok 0, []) ∧
      (∀ call ∈ [Call.set "k" [1], .setBinary "k" [1], .del "k", .hset "k" "f" "v",
          .sadd "k" "m", .srem "k" "m", .hincrby "k" "f" 1, .expire "k" 1, .zadd "k" "1" "m"],
        (call.run "" full.reply).isOk = true ∧ full.carriedOut = false) := by
  decide +kernel

end Labios.Transport
