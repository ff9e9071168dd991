import Labios.Foundation.Machine
import Labios.Workspace.Model

/-!
# Stores of the MCP server

`_store` and `_get_from_scope` of `labios_mcp/server.py`. The server knows no workspace
objects; it writes under the keys of a workspace that has the scope as its name. A store
is two transactions: the first one sets the data and takes the next version number, the
second one sets the version's copy. The intent, a text of the metadata on which neither
versions nor lifetimes depend, is left out.
-/

namespace Labios

open Foundation RedisValue

namespace Mcp

def wsDataKey (scope key : String) : String := "labios:ws:" ++ scope ++ ":" ++ key

def wsVersionKey (scope key : String) (version : Nat) : String :=
  "labios:ws:" ++ scope ++ ":" ++ key ++ ":v" ++ toString version

def wsMetaKey (scope key : String) : String := "labios:ws:" ++ scope ++ ":_meta:" ++ key

def wsIndexKey (scope : String) : String := "labios:ws:" ++ scope ++ ":_index"

/-- The first transaction, and the version number it replies. An error reply to one of
the commands, on a value of another type, makes the call throw; the others are
carried out all the same. -/
def storeFirst (now : Nat) (r : Redis) (scope key : String) (data : List UInt8) (nowUs : Nat) :
    Redis × Option RedisInt :=
  let r := r.setBinary (wsDataKey scope key) data
  let version := incremented "version" (r.value now (wsMetaKey scope key))
  let r := (r.hincrby now (wsMetaKey scope key) "version").1
  let r := r.hset now (wsMetaKey scope key) "size" (Fin.ofNat _ data.length)
  let r := r.hset now (wsMetaKey scope key) "updated_us" (Fin.ofNat _ nowUs)
  let added := match r.value now (wsIndexKey scope) with
    | none | some (.set _) => true
    | _ => false
  (r.sadd now (wsIndexKey scope) key, if added then version else none)

/-- The commands of the first transaction. -/
theorem storeFirst_fst (now : Nat) (r : Redis) (scope key : String) (data : List UInt8)
    (nowUs : Nat) :
    (storeFirst now r scope key data nowUs).1 =
      Redis.sadd (Redis.hset (Redis.hset
        ((r.setBinary (wsDataKey scope key) data).hincrby now (wsMetaKey scope key) "version").1
        now (wsMetaKey scope key) "size" (Fin.ofNat _ data.length))
        now (wsMetaKey scope key) "updated_us" (Fin.ofNat _ nowUs))
        now (wsIndexKey scope) key := by
  unfold storeFirst
  rfl

/-- The number that the first transaction replies, if the index is a set. -/
theorem storeFirst_snd (now : Nat) (r : Redis) (scope key : String) (data : List UInt8)
    (nowUs : Nat) {r₄ : Redis}
    (h : r₄ = Redis.hset (Redis.hset
      ((r.setBinary (wsDataKey scope key) data).hincrby now (wsMetaKey scope key) "version").1
      now (wsMetaKey scope key) "size" (Fin.ofNat _ data.length))
      now (wsMetaKey scope key) "updated_us" (Fin.ofNat _ nowUs)) :
    (storeFirst now r scope key data nowUs).2 =
      if (match r₄.value now (wsIndexKey scope) with
        | none | some (.set _) => true
        | _ => false) then
        incremented "version"
          (Keyspace.value (r.setBinary (wsDataKey scope key) data) now (wsMetaKey scope key))
      else none := by
  rw [h]
  unfold storeFirst
  rfl

/-- The second transaction. -/
def storeSecond (now : Nat) (r : Redis) (scope key : String) (data : List UInt8)
    (version : RedisInt) (ttl : Nat) : Redis :=
  let r := r.setBinary (wsVersionKey scope key version.val) data
  let r := r.hset now (wsMetaKey scope key) "version" version
  if 0 < ttl then
    let r := Keyspace.expire r now (wsDataKey scope key) (now + ttl * 1000000)
    let r := Keyspace.expire r now (wsMetaKey scope key) (now + ttl * 1000000)
    Keyspace.expire r now (wsVersionKey scope key version.val) (now + ttl * 1000000)
  else r

/-- What is found of a key: its data and its version, which is 1 if the metadata is
gone. -/
def getFromScope (now : Nat) (r : Redis) (scope key : String) : Option (List UInt8 × Nat) :=
  (r.get now (wsDataKey scope key)).map fun data =>
    (data, ((r.hget now (wsMetaKey scope key) "version").map Fin.val).getD 1)

end Mcp

/-! ## The keys of a workspace -/

namespace Workspace

theorem wsDataKey_eq (ws : Workspace) (key : String) : Mcp.wsDataKey ws.name key = ws.dataKey key :=
  rfl

theorem wsMetaKey_eq (ws : Workspace) (key : String) : Mcp.wsMetaKey ws.name key = ws.metaKey key :=
  rfl

theorem wsIndexKey_eq (ws : Workspace) : Mcp.wsIndexKey ws.name = ws.indexKey := rfl

theorem wsVersionKey_eq (ws : Workspace) (key : String) (version : RedisInt) :
    Mcp.wsVersionKey ws.name key version.val = ws.versionKey key (UInt64.ofNat version.val) := by
  have hlt : version.val < 2 ^ 64 := Nat.lt_trans version.isLt (by decide)
  unfold versionKey
  rw [UInt64.toNat_ofNat_of_lt' hlt]
  rfl

end Workspace

end Labios

/-!
## Concurrent writers of one key

Any number of `put` calls of client processes and of stores of the MCP server, on one key
of one workspace. The mutex of a workspace is that of one process, so what interleaves
are the single Redis commands of the puts and the transactions of the stores.
-/

namespace Labios

open Foundation RedisValue

inductive Write where
  | put (ttlSeconds : UInt32) (data : List UInt8) (nowUs : Nat)
  | store (data : List UInt8) (nowUs ttl : Nat)
  deriving DecidableEq

def Write.data : Write → List UInt8
  | .put _ data _ => data
  | .store data _ _ => data

def Write.isStore : Write → Bool
  | .put _ _ _ => false
  | .store _ _ _ => true

/-- A put without a lifetime. -/
def Write.lasting : Write → Bool
  | .put ttlSeconds _ _ => ttlSeconds = 0
  | .store _ _ _ => false

/-- The step after the number that sets the copy of the version. -/
def Write.copiesAt : Write → Nat
  | .put _ _ _ => 1
  | .store _ _ _ => 0

/-- A call, with the version number it was told and how many steps it has made since. -/
structure Writer where
  write : Write
  version : Option RedisInt := none
  done : Nat := 0
  failed : Bool := false

structure Writers where
  redis : Redis
  writers : List Writer := []

inductive WritersAction where
  | begins (write : Write)
  | advances (i now : Nat)

namespace Workspace

variable (ws : Workspace) (key : String)

/-- The step in which a call gets its version number, if it does. -/
def numberStep (now : Nat) (r : Redis) : Write → Redis × Option RedisInt
  | .put _ _ _ =>
      let (r, version) := r.hincrby now (ws.metaKey key) "version"
      (r, some version)
  | .store data nowUs _ => Mcp.storeFirst now r ws.name key data nowUs

/-- The steps after that. The object of a process has its own lifetime. -/
def laterSteps (version : RedisInt) : Write → List (Nat → Redis → Redis)
  | .put ttlSeconds data nowUs =>
      (putCommands { ws with ttlSeconds } nowUs key data (UInt64.ofNat version.val)).map
        fun command now r => command.run now r
  | .store data _ ttl => [fun now r => Mcp.storeSecond now r ws.name key data version ttl]

/-- One step of a call that has not returned. -/
def writerStep (now : Nat) (r : Redis) (w : Writer) : Option (Redis × Writer) :=
  if w.failed then none
  else match w.version with
    | none => match ws.numberStep key now r w.write with
        | (r', some version) => some (r', { w with version := some version })
        | (r', none) => some (r', { w with failed := true })
    | some version => (ws.laterSteps key version w.write)[w.done]?.map fun step =>
        (step now r, { w with done := w.done + 1 })

/-- A call begins or makes a step. No data is larger than an object can be. -/
def writersStep (s : Writers) : WritersAction → Option Writers
  | .begins write =>
      if write.data.length < 2 ^ 63 then some { s with writers := s.writers ++ [{ write }] }
      else none
  | .advances i now =>
      s.writers[i]?.bind fun w =>
        (ws.writerStep key now s.redis w).map fun (redis, w') =>
          { redis, writers := s.writers.set i w' }

/-- The call has been told its version and has made all steps. -/
def Returned (w : Writer) : Prop :=
  ∃ version, w.version = some version ∧ (ws.laterSteps key version w.write).length ≤ w.done

/-- All steps of a put at one moment are those of `put`. -/
theorem steps_put (now : Nat) (r : Redis) (data : List UInt8) :
    (ws.laterSteps key (r.hincrby now (ws.metaKey key) "version").2
        (.put ws.ttlSeconds data now)).foldl (fun r step => step now r)
      (ws.numberStep key now r (.put ws.ttlSeconds data now)).1 = ws.stored now r key data := by
  unfold laterSteps numberStep stored
  dsimp only
  rw [List.foldl_map]

/-! ## What a step is -/

variable {ws key} {now : Nat} {r r' : Redis} {w w' : Writer} {s s' : Writers}

inductive WriterSteps (ws : Workspace) (key : String) (now : Nat) (r : Redis) (w : Writer) :
    Redis → Writer → Prop where
  | told {r' : Redis} {version : RedisInt} (hnone : w.version = none)
      (hnumber : ws.numberStep key now r w.write = (r', some version)) :
      WriterSteps ws key now r w r' { w with version := some version }
  | failed {r' : Redis} (hnone : w.version = none)
      (hnumber : ws.numberStep key now r w.write = (r', none)) :
      WriterSteps ws key now r w r' { w with failed := true }
  | later {version : RedisInt} {step : Nat → Redis → Redis} (hversion : w.version = some version)
      (hstep : (ws.laterSteps key version w.write)[w.done]? = some step) :
      WriterSteps ws key now r w (step now r) { w with done := w.done + 1 }

theorem writerStep_steps (h : ws.writerStep key now r w = some (r', w')) :
    WriterSteps ws key now r w r' w' := by
  unfold writerStep at h
  split at h
  · cases h
  · split at h
    · next hnone =>
        split at h
        · next hnumber =>
            cases h
            exact .told hnone hnumber
        · next hnumber =>
            cases h
            exact .failed hnone hnumber
    · next version hversion =>
        obtain ⟨step, hstep, heq⟩ := Option.map_eq_some_iff.mp h
        cases heq
        exact .later hversion hstep

theorem writersStep_begins {write : Write} (h : ws.writersStep key s (.begins write) = some s') :
    write.data.length < 2 ^ 63 ∧ s' = { s with writers := s.writers ++ [{ write }] } := by
  have h : (if write.data.length < 2 ^ 63 then some { s with writers := s.writers ++ [{ write }] }
    else none) = some s' := h
  split at h
  · next hlength => exact ⟨hlength, (Option.some.inj h).symm⟩
  · cases h

theorem writersStep_advances {i : Nat} (h : ws.writersStep key s (.advances i now) = some s') :
    ∃ w w', s.writers[i]? = some w ∧ WriterSteps ws key now s.redis w s'.redis w' ∧
      s'.writers = s.writers.set i w' := by
  obtain ⟨w, hw, h⟩ := Option.bind_eq_some_iff.mp h
  obtain ⟨⟨r', w'⟩, hstep, rfl⟩ := Option.map_eq_some_iff.mp h
  exact ⟨w, w', hw, writerStep_steps hstep, rfl⟩

/-! ## The commands of a `put` -/

/-- The data, the copy of the version, and then nothing that is about data or versions. -/
theorem putCommands_cases {nowUs d : Nat} {data : List UInt8} {version : UInt64}
    {c : RedisCommand} (h : (ws.putCommands nowUs key data version)[d]? = some c) :
    (d = 0 ∧ c = .set (ws.dataKey key) data) ∨
    (d = 1 ∧ c = .set (ws.versionKey key version) data) ∨
    (1 < d ∧ ((∃ field n, field ≠ "version" ∧ c = .hset (ws.metaKey key) field n) ∨
      (∃ x, c = .expire x ws.ttlSeconds) ∨ c = .sadd ws.indexKey key)) := by
  match d with
  | 0 => exact .inl ⟨rfl, (Option.some.inj h).symm⟩
  | 1 => exact .inr (.inl ⟨rfl, (Option.some.inj h).symm⟩)
  | d + 2 =>
      refine .inr (.inr ⟨by omega, ?_⟩)
      have hmem : c ∈ [.hset (ws.metaKey key) "size" (Fin.ofNat _ data.length),
          .hset (ws.metaKey key) "updated_us" (Fin.ofNat _ nowUs)] ++
        (if 0 < ws.ttlSeconds then
          [.expire (ws.dataKey key) ws.ttlSeconds,
            .expire (ws.versionKey key version) ws.ttlSeconds,
            .expire (ws.metaKey key) ws.ttlSeconds]
        else []) ++ [.sadd ws.indexKey key] := List.mem_of_getElem? h
      simp only [List.mem_append, List.mem_cons, List.not_mem_nil, or_false] at hmem
      rcases hmem with ((rfl | rfl) | hmem) | rfl
      · exact .inl ⟨"size", _, by decide, rfl⟩
      · exact .inl ⟨"updated_us", _, by decide, rfl⟩
      · split at hmem
        · rcases List.mem_cons.mp hmem with rfl | hmem
          · exact .inr (.inl ⟨_, rfl⟩)
          · rcases List.mem_cons.mp hmem with rfl | hmem
            · exact .inr (.inl ⟨_, rfl⟩)
            · rw [List.mem_singleton] at hmem
              exact .inr (.inl ⟨_, hmem⟩)
        · cases hmem
      · exact .inr (.inr rfl)

end Workspace
end Labios
