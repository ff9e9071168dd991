import Labios.Foundation.Decimal
import Labios.Workspace.Redis

/-!
# Workspaces

`Workspace` of `labios/workspace.cpp`: the keys it builds, the access list, and
`put`, `get`, `get_version`, `del`, `list` and `destroy` as functions on the Redis key
space at some time. A call that throws changes nothing.
-/

namespace Labios

open Foundation

structure Workspace where
  name : String
  ownerAppId : UInt32
  ttlSeconds : UInt32 := 0
  acl : List UInt32
  owner_mem : ownerAppId ∈ acl

structure WorkspaceEntry where
  key : String
  version : UInt64
  size : UInt64
  updatedUs : UInt64
  deriving DecidableEq, Repr

namespace Workspace

/-- The constructor. -/
def create (name : String) (ownerAppId : UInt32) (ttlSeconds : UInt32 := 0) : Workspace :=
  { name, ownerAppId, ttlSeconds, acl := [ownerAppId], owner_mem := List.mem_singleton_self _ }

/-! ## Keys -/

def dataKey (ws : Workspace) (key : String) : String := "labios:ws:" ++ ws.name ++ ":" ++ key

def versionKey (ws : Workspace) (key : String) (version : UInt64) : String :=
  "labios:ws:" ++ ws.name ++ ":" ++ key ++ ":v" ++ toString version.toNat

def metaKey (ws : Workspace) (key : String) : String := "labios:ws:" ++ ws.name ++ ":_meta:" ++ key

def indexKey (ws : Workspace) : String := "labios:ws:" ++ ws.name ++ ":_index"

/-! ## Access -/

def checkAccess (ws : Workspace) (appId : UInt32) : Except String Unit :=
  if appId ∈ ws.acl then .ok ()
  else .error ("workspace '" ++ ws.name ++ "': access denied for app_id " ++ toString appId)

def grantAccess (ws : Workspace) (appId : UInt32) : Workspace :=
  { ws with acl := ws.acl.insert appId, owner_mem := List.mem_insert_of_mem ws.owner_mem }

/-- The owner keeps its access. -/
def revokeAccess (ws : Workspace) (appId : UInt32) : Workspace :=
  if h : appId = ws.ownerAppId then ws
  else { ws with
    acl := ws.acl.filter (· ≠ appId)
    owner_mem := List.mem_filter.mpr ⟨ws.owner_mem, decide_eq_true (Ne.symm h)⟩ }

/-! ## Operations -/

/-- What `put` does after it has its version number. -/
def putCommands (ws : Workspace) (now : Nat) (key : String) (data : List UInt8)
    (version : UInt64) : List RedisCommand :=
  [.set (ws.dataKey key) data,
    .set (ws.versionKey key version) data,
    .hset (ws.metaKey key) "size" (Fin.ofNat _ data.length),
    .hset (ws.metaKey key) "updated_us" (Fin.ofNat _ now)] ++
  (if 0 < ws.ttlSeconds then
    [.expire (ws.dataKey key) ws.ttlSeconds,
      .expire (ws.versionKey key version) ws.ttlSeconds,
      .expire (ws.metaKey key) ws.ttlSeconds]
  else []) ++
  [.sadd ws.indexKey key]

def put (ws : Workspace) (now : Nat) (r : Redis) (key : String) (data : List UInt8)
    (appId : UInt32) : Except String (UInt64 × Redis) := do
  ws.checkAccess appId
  let (r, version) := r.hincrby now (ws.metaKey key) "version"
  let version := UInt64.ofNat version.val
  return (version, (ws.putCommands now key data version).foldl (RedisCommand.run now) r)

def get (ws : Workspace) (now : Nat) (r : Redis) (key : String) (appId : UInt32) :
    Except String (Option (List UInt8)) := do
  ws.checkAccess appId
  return if (r.get now (ws.dataKey key)).isSome then some (r.getBinary now (ws.dataKey key))
    else none

def getVersion (ws : Workspace) (now : Nat) (r : Redis) (key : String) (version : UInt64)
    (appId : UInt32) : Except String (Option (List UInt8)) := do
  ws.checkAccess appId
  return if (r.get now (ws.versionKey key version)).isSome then
      some (r.getBinary now (ws.versionKey key version))
    else none

/-- The keys that `del` removes: the data, the versions up to the counter, the metadata. -/
def deletedKeys (ws : Workspace) (key : String) (maxVer : RedisInt) : List String :=
  ws.dataKey key ::
    (List.range maxVer.val).map (fun v => ws.versionKey key (UInt64.ofNat (v + 1))) ++
    [ws.metaKey key]

def del (ws : Workspace) (now : Nat) (r : Redis) (key : String) (appId : UInt32) :
    Except String (Bool × Redis) := do
  ws.checkAccess appId
  match r.hget now (ws.metaKey key) "version" with
  | none => return (false, r)
  | some maxVer =>
      return (true, Redis.srem ((ws.deletedKeys key maxVer).foldl Redis.del r) now ws.indexKey key)

/-- The entry of a key in the listing; a key whose metadata is gone has none. -/
def entryOf (ws : Workspace) (now : Nat) (r : Redis) (key : String) : Option WorkspaceEntry :=
  let field := r.hget now (ws.metaKey key)
  (field "version").map fun (version : RedisInt) =>
    { key
      version := UInt64.ofNat version.val
      size := UInt64.ofNat ((field "size").getD 0).val
      updatedUs := UInt64.ofNat ((field "updated_us").getD 0).val }

def list (ws : Workspace) (now : Nat) (r : Redis) (appId : UInt32) :
    Except String (List WorkspaceEntry) := do
  ws.checkAccess appId
  return (r.smembers now ws.indexKey).filterMap (ws.entryOf now r)

/-- The overload of `list` with a prefix of the keys. -/
def listPrefix (ws : Workspace) (now : Nat) (r : Redis) (pre : String) (appId : UInt32) :
    Except String (List WorkspaceEntry) := do
  let all ← ws.list now r appId
  return all.filter fun entry => pre.toList.isPrefixOf entry.key.toList

/-- `destroy`, with the flag `destroyed_` before and after it. -/
def destroy (ws : Workspace) (scanMatches : String → String → Bool) (now : Nat) (r : Redis)
    (destroyed : Bool) : Redis × Bool :=
  if destroyed then (r, true)
  else ((r.scanKeys scanMatches now ("labios:ws:" ++ ws.name ++ ":*")).foldl Redis.del r, true)

/-! ## With and without access -/

section Access

variable {ws : Workspace} {now : Nat} {r : Redis} {key : String} {data : List UInt8}
  {version : UInt64} {appId : UInt32}

theorem checkAccess_ok (h : appId ∈ ws.acl) : ws.checkAccess appId = .ok () := if_pos h

theorem checkAccess_denied (h : appId ∉ ws.acl) :
    ws.checkAccess appId =
      .error ("workspace '" ++ ws.name ++ "': access denied for app_id " ++ toString appId) :=
  if_neg h

/-- The key space after a `put` that has access. -/
def stored (ws : Workspace) (now : Nat) (r : Redis) (key : String) (data : List UInt8) : Redis :=
  let (r, version) := r.hincrby now (ws.metaKey key) "version"
  (ws.putCommands now key data (UInt64.ofNat version.val)).foldl (RedisCommand.run now) r

theorem put_ok (h : appId ∈ ws.acl) :
    ws.put now r key data appId =
      .ok (UInt64.ofNat (r.hincrby now (ws.metaKey key) "version").2.val,
        ws.stored now r key data) := by
  unfold put
  rw [checkAccess_ok h]
  rfl

theorem get_ok (h : appId ∈ ws.acl) :
    ws.get now r key appId = .ok (r.get now (ws.dataKey key)) := by
  unfold get Redis.getBinary
  rw [checkAccess_ok h]
  cases hget : r.get now (ws.dataKey key) with
  | none => rfl
  | some bytes => rfl

theorem getVersion_ok (h : appId ∈ ws.acl) :
    ws.getVersion now r key version appId = .ok (r.get now (ws.versionKey key version)) := by
  unfold getVersion Redis.getBinary
  rw [checkAccess_ok h]
  cases hget : r.get now (ws.versionKey key version) with
  | none => rfl
  | some bytes => rfl

theorem del_ok (h : appId ∈ ws.acl) :
    ws.del now r key appId = .ok (match r.hget now (ws.metaKey key) "version" with
      | none => (false, r)
      | some maxVer => (true,
          Redis.srem ((ws.deletedKeys key maxVer).foldl Redis.del r) now ws.indexKey key)) := by
  unfold del
  rw [checkAccess_ok h]
  cases r.hget now (ws.metaKey key) "version" with
  | none => rfl
  | some maxVer => rfl

theorem list_ok (h : appId ∈ ws.acl) :
    ws.list now r appId = .ok ((r.smembers now ws.indexKey).filterMap (ws.entryOf now r)) := by
  unfold list
  rw [checkAccess_ok h]
  rfl

theorem listPrefix_ok (pre : String) (h : appId ∈ ws.acl) :
    ws.listPrefix now r pre appId =
      .ok (((r.smembers now ws.indexKey).filterMap (ws.entryOf now r)).filter
        fun entry => pre.toList.isPrefixOf entry.key.toList) := by
  unfold listPrefix
  rw [list_ok h]
  rfl

theorem key_entryOf {entry : WorkspaceEntry} (h : ws.entryOf now r key = some entry) :
    entry.key = key := by
  obtain ⟨version, -, rfl⟩ := Option.map_eq_some_iff.mp h
  rfl

/-- The entry of a key stands in the listing if the index names the key. -/
theorem find?_entries (members : List String) :
    (members.filterMap (ws.entryOf now r)).find? (fun entry => entry.key = key) =
      if key ∈ members then ws.entryOf now r key else none := by
  induction members with
  | nil => rfl
  | cons member rest ih =>
      by_cases hmember : key = member
      · subst hmember
        rw [if_pos List.mem_cons_self, List.filterMap_cons]
        cases hentry : ws.entryOf now r key with
        | none =>
            rw [ih]
            split
            · exact hentry
            · rfl
        | some entry =>
            exact List.find?_cons_of_pos (decide_eq_true (key_entryOf hentry))
      · have hmem : key ∈ member :: rest ↔ key ∈ rest := by simp [hmember]
        rw [List.filterMap_cons]
        simp only [hmem]
        cases hentry : ws.entryOf now r member with
        | none => exact ih
        | some entry =>
            have hne : ¬entry.key = key := by
              rw [key_entryOf hentry]
              exact fun heq => hmember heq.symm
            rw [List.find?_cons_of_neg (by simp [hne])]
            exact ih

end Access

end Workspace
end Labios

/-!
## The Redis keys of a workspace

Which of the keys that a workspace builds can be the same. For one key the four
families never meet, but for a key that is called like the index. For keys without a
colon none of them meet, but for the two names `_index` and `_meta`.
-/

namespace Labios

open Foundation

namespace Workspace

/-! ## One key -/

theorem name_of_indexKey {ws ws' : Workspace} (h : ws.indexKey = ws'.indexKey) :
    ws.name = ws'.name := by
  unfold indexKey at h
  have hlist := congrArg String.toList h
  simp only [String.toList_append] at hlist
  exact String.toList_injective (List.append_cancel_left (List.append_cancel_right hlist))

theorem indexKey_ne_metaKey (ws : Workspace) (key : String) : ws.indexKey ≠ ws.metaKey key := by
  intro h
  unfold indexKey metaKey at h
  have hlist := congrArg String.toList h
  simp only [String.toList_append, List.append_assoc] at hlist
  have htail := List.append_cancel_left (List.append_cancel_left hlist)
  simp at htail

/-- Index keys end in a letter, version keys in a digit. -/
theorem indexKey_ne_versionKey (ws ws' : Workspace) (key : String) (version : UInt64) :
    ws.indexKey ≠ ws'.versionKey key version := by
  intro h
  unfold indexKey versionKey at h
  have hlist := congrArg (fun text => text.toList.getLast?) h
  simp only [String.toList_append, toList_toString] at hlist
  rw [List.getLast?_append_of_ne_nil _ (by decide),
    List.getLast?_append_of_ne_nil _ Nat.toDigits_ne_nil] at hlist
  have hdigit := isDigit_of_mem (List.mem_of_getLast? hlist.symm)
  revert hdigit
  decide

theorem dataKey_ne_metaKey (ws : Workspace) (key : String) : ws.dataKey key ≠ ws.metaKey key := by
  intro h
  unfold dataKey metaKey at h
  have hlength := congrArg (fun text => text.toList.length) h
  simp [String.toList_append] at hlength

theorem dataKey_ne_versionKey (ws : Workspace) (key : String) (version : UInt64) :
    ws.dataKey key ≠ ws.versionKey key version := by
  intro h
  unfold dataKey versionKey at h
  have hlength := congrArg (fun text => text.toList.length) h
  simp [String.toList_append] at hlength

theorem dataKey_ne_indexKey (ws : Workspace) {key : String} (hkey : key ≠ "_index") :
    ws.dataKey key ≠ ws.indexKey := by
  intro h
  unfold dataKey indexKey at h
  have hlist := congrArg String.toList h
  simp only [String.toList_append, List.append_assoc] at hlist
  have htail := List.append_cancel_left (List.append_cancel_left hlist)
  have hkey' : key.toList = "_index".toList := (List.cons.inj htail).2
  exact hkey (String.toList_injective hkey')

/-- A version key has more digits. -/
theorem versionKey_ne_metaKey (ws : Workspace) (key : String) (version : UInt64) :
    ws.versionKey key version ≠ ws.metaKey key := by
  intro h
  unfold versionKey metaKey at h
  have hcount := congrArg (fun text => text.toList.countP Char.isDigit) h
  have hdigits : (Nat.toDigits 10 version.toNat).countP Char.isDigit =
      (Nat.toDigits 10 version.toNat).length :=
    List.countP_eq_length.mpr fun c hc => isDigit_of_mem hc
  have hpos : 0 < (Nat.toDigits 10 version.toNat).length :=
    List.length_pos_of_ne_nil Nat.toDigits_ne_nil
  simp only [String.toList_append, toList_toString, List.countP_append, hdigits] at hcount
  have hfront : (":_meta:" : String).toList.countP Char.isDigit = 0 := by decide
  have hcolon : (":" : String).toList.countP Char.isDigit = 0 := by decide
  omega

theorem versionKey_inj {ws : Workspace} {key : String} {v w : UInt64}
    (h : ws.versionKey key v = ws.versionKey key w) : v = w := by
  unfold versionKey at h
  have hlist := congrArg String.toList h
  simp only [String.toList_append, toList_toString] at hlist
  exact UInt64.toNat_inj.mp (toDigits_inj (List.append_cancel_left hlist))

end Workspace
end Labios
