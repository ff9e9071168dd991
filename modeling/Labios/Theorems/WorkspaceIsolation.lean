import Labios.Workspace.Frame
import Labios.Workspace.Model

/-!
# Isolation of workspace keys

Are the results for one key of a workspace unaffected by `put` and `del` on another
key, or on a key of another workspace? All keys are joined with colons into one flat
key space. They are isolated, whatever that holds and however long it takes, if and
only if no Redis key that the operations on the first look at is the data key or a
version key of the second, their metadata keys differ, and the second has no lifetime
or its metadata key is none that the first look at (`workspace_isolated_iff`). A key
that reads like a version of another one is not isolated from it
(`versionLike_overwritten`).
-/

namespace Labios

open Foundation RedisValue

namespace Workspace

/-! ## The keys of the operations -/

/-- The operations on the key look at this Redis key. -/
def Reads (ws : Workspace) (key x : String) : Prop :=
  x = ws.dataKey key ∨ (∃ version, x = ws.versionKey key version) ∨ x = ws.metaKey key ∨
    x = ws.indexKey

/-- A `put` on the key sets this Redis key, or a `del` removes it. -/
def Overwrites (ws : Workspace) (key x : String) : Prop :=
  x = ws.dataKey key ∨ ∃ n : RedisInt, x = ws.versionKey key (UInt64.ofNat n)

/-- What the operations on the second key write is not looked at by those on the first. -/
structure Separate (ws : Workspace) (key : String) (ws' : Workspace) (key' : String) : Prop where
  overwrites : ∀ x, ws.Reads key x → ¬ws'.Overwrites key' x
  metadata : ws.metaKey key ≠ ws'.metaKey key'
  expires : 0 < ws'.ttlSeconds → ¬ws.Reads key (ws'.metaKey key')

/-- The results for the first key are the same with and without any calls on the second. -/
def Isolated (ws : Workspace) (key : String) (ws' : Workspace) (key' : String) : Prop :=
  ∀ (r : Redis) (appId : UInt32) (now : Nat) (calls : List KeyCall),
    (∀ call ∈ calls, call.now ≤ now) →
    ws.results key appId now (calls.foldl (ws'.perform key') r) = ws.results key appId now r

/-! ## Separate keys are isolated -/

section Isolation

variable {ws ws' : Workspace} {key key' : String}

/-- A key that is looked at hides what is written, if what the view shows is neither a
hash under the metadata key nor the member under the index key. -/
theorem Separate.hides {β : Type} (h : ws.Separate key ws' key') {p : Option RedisValue → β}
    {x : String} (hx : ws.Reads key x)
    (hhash : x ≠ ws.metaKey key →
      (∀ field n o, p (withField field n o) = p o) ∧ ∀ fields, p (some (.hash fields)) = p none)
    (hmember : x = ws'.indexKey →
      (∀ o, p (withMember key' o) = p o) ∧ ∀ o, p (withoutMember key' o) = p o) :
    ws'.Hides key' p x := by
  refine ⟨fun heq => ?_, fun n heq => ?_, ?_, ?_⟩
  · exact h.overwrites x hx (.inl heq)
  · exact h.overwrites x hx (.inr ⟨n, heq⟩)
  · by_cases hmeta : x = ws'.metaKey key'
    · refine .inr ⟨?_, hhash fun heq => h.metadata (heq.symm.trans hmeta)⟩
      have hnot : ¬0 < ws'.ttlSeconds := fun httl => h.expires httl (hmeta ▸ hx)
      exact UInt32.le_zero_iff.mp (UInt32.not_lt.mp hnot)
    · exact .inl hmeta
  · by_cases hindex : x = ws'.indexKey
    · exact .inr (hmember hindex)
    · exact .inl hindex

theorem Separate.hides_string (h : ws.Separate key ws' key') {x : String} (hx : ws.Reads key x) :
    ws'.Hides key' asString x :=
  h.hides hx (fun _ => ⟨fun _ _ o => asString_withField o, fun _ => rfl⟩)
    fun _ => ⟨asString_withMember, asString_withoutMember⟩

theorem Separate.isolated (h : ws.Separate key ws' key') : ws.Isolated key ws' key' := by
  intro r appId now calls hcalls
  have hindex : ws'.Hides key' (fun o => key ∈ asMembers o) ws.indexKey := by
    refine h.hides (.inr (.inr (.inr rfl))) (fun _ => ⟨fun field n o => ?_, fun _ => rfl⟩)
      (fun heq => ?_)
    · exact congrArg (key ∈ ·) (asMembers_withField o)
    · -- of one workspace, and the keys differ
      have hne : key ≠ key' := by
        rintro rfl
        refine h.overwrites (ws.dataKey key) (.inl rfl) (.inl ?_)
        unfold dataKey
        rw [name_of_indexKey heq]
      exact ⟨fun o => propext (mem_withMember_ne hne o),
        fun o => propext (mem_withoutMember_ne hne o)⟩
  have hmeta : ws'.Hides key' asHash (ws.metaKey key) :=
    h.hides (.inr (.inr (.inl rfl))) (fun hne => absurd rfl hne)
      fun _ => ⟨asHash_withMember, asHash_withoutMember⟩
  exact results_congr ((h.hides_string (.inl rfl)).run calls hcalls)
    (fun version => (h.hides_string (.inr (.inl ⟨version, rfl⟩))).run calls hcalls)
    (hmeta.run calls hcalls) (iff_of_eq (hindex.run calls hcalls))

end Isolation

/-! ## What is written and looked at shows -/

section Interference

variable {ws ws' : Workspace} {key key' x : String} {r : Redis} {data : List UInt8}

theorem string_run {c : RedisCommand} {now : Nat} (hset : ∀ key data, c ≠ .set key data)
    (hexpire : ∀ key seconds, c = .expire key seconds → 0 < seconds) :
    asString ((c.run now r).value now x) = asString (r.value now x) := by
  cases c with
  | set key data => exact absurd rfl (hset key data)
  | hset key field n =>
      exact Keyspace.view_modify asString asString_withField (Nat.le_refl now)
  | sadd key member =>
      exact Keyspace.view_modify asString asString_withMember (Nat.le_refl now)
  | expire key seconds =>
      refine congrArg asString (Keyspace.value_expire_now ?_)
      have hpos := UInt32.lt_iff_toNat_lt.mp (hexpire key seconds rfl)
      have hzero : (0 : UInt32).toNat = 0 := rfl
      omega

theorem string_foldl {commands : List RedisCommand} {now : Nat}
    (hset : ∀ c ∈ commands, ∀ key data, c ≠ .set key data)
    (hexpire : ∀ c ∈ commands, ∀ key seconds, c = .expire key seconds → 0 < seconds)
    (r : Redis) :
    asString ((commands.foldl (RedisCommand.run now) r).value now x) =
      asString (r.value now x) := by
  induction commands generalizing r with
  | nil => rfl
  | cons c rest ih =>
      obtain ⟨hset₀, hset₁⟩ := List.forall_mem_cons.mp hset
      obtain ⟨hexpire₀, hexpire₁⟩ := List.forall_mem_cons.mp hexpire
      exact (ih hset₁ hexpire₁ (c.run now r)).trans (string_run hset₀ hexpire₀)

theorem eq_of_asString {o : Option RedisValue} (h : asString o = some data) :
    o = some (.string data) := by
  cases o with
  | none => cases h
  | some v =>
      cases v with
      | string bytes => rw [Option.some.inj h]
      | _ => cases h

/-- What `put` does after it has set the data and the version. -/
def settling (ws : Workspace) (now : Nat) (key : String) (data : List UInt8) (version : UInt64) :
    List RedisCommand := (ws.putCommands now key data version).drop 2

theorem settling_cases {now : Nat} {version : UInt64} {c : RedisCommand}
    (hc : c ∈ ws'.settling now key' data version) :
    (∀ key data, c ≠ .set key data) ∧ ∀ key seconds, c = .expire key seconds → 0 < seconds := by
  have hc : c ∈ [.hset (ws'.metaKey key') "size" (Fin.ofNat _ data.length),
      .hset (ws'.metaKey key') "updated_us" (Fin.ofNat _ now)] ++
      (if 0 < ws'.ttlSeconds then
        [.expire (ws'.dataKey key') ws'.ttlSeconds,
          .expire (ws'.versionKey key' version) ws'.ttlSeconds,
          .expire (ws'.metaKey key') ws'.ttlSeconds]
      else []) ++ [.sadd ws'.indexKey key'] := hc
  simp only [List.mem_append, List.mem_cons, List.not_mem_nil, or_false] at hc
  rcases hc with ((rfl | rfl) | hc) | rfl
  · exact ⟨fun _ _ heq => (by cases heq), fun _ _ heq => (by cases heq)⟩
  · exact ⟨fun _ _ heq => (by cases heq), fun _ _ heq => (by cases heq)⟩
  · split at hc
    · next httl =>
        simp only [List.mem_cons, List.not_mem_nil, or_false] at hc
        rcases hc with rfl | rfl | rfl
        · exact ⟨fun _ _ heq => (by cases heq), fun _ _ heq => (by cases heq; exact httl)⟩
        · exact ⟨fun _ _ heq => (by cases heq), fun _ _ heq => (by cases heq; exact httl)⟩
        · exact ⟨fun _ _ heq => (by cases heq), fun _ _ heq => (by cases heq; exact httl)⟩
    · cases hc
  · exact ⟨fun _ _ heq => (by cases heq), fun _ _ heq => (by cases heq)⟩

/-- After a `put` the data key and the key of the new version hold the data. -/
theorem value_stored {now : Nat} (hx : x = ws'.dataKey key' ∨ x = ws'.versionKey key'
      (UInt64.ofNat (r.hincrby now (ws'.metaKey key') "version").2)) :
    (ws'.stored now r key' data).value now x = some (.string data) := by
  rcases hr : r.hincrby now (ws'.metaKey key') "version" with ⟨r₁, n⟩
  rw [hr] at hx
  have hstored : ws'.stored now r key' data =
      (ws'.settling now key' data (UInt64.ofNat n)).foldl (RedisCommand.run now)
        ((r₁.setBinary (ws'.dataKey key') data).setBinary
          (ws'.versionKey key' (UInt64.ofNat n)) data) := by
    unfold stored
    rw [hr]
    rfl
  rw [hstored]
  refine eq_of_asString ((string_foldl (fun c hc => (settling_cases hc).1)
    (fun c hc => (settling_cases hc).2) _).trans ?_)
  by_cases hversion : x = ws'.versionKey key' (UInt64.ofNat n)
  · rw [hversion]
    exact congrArg asString (Keyspace.value_store_self _)
  · rw [hx.resolve_right hversion]
    rw [hx.resolve_right hversion] at hversion
    refine (congrArg asString (Keyspace.value_store_ne hversion _ now)).trans ?_
    exact congrArg asString (Keyspace.value_store_self _)

/-- For every number there is a metadata value that makes `HINCRBY` reply with it. -/
theorem exists_metadata (n : RedisInt) :
    ∃ v : RedisValue, asString (some v) = none ∧ (incremented "version" (some v)).getD 0 = n := by
  obtain ⟨n, hn⟩ := n
  cases n with
  | zero => exact ⟨.set [], rfl, rfl⟩
  | succ m =>
      refine ⟨.hash (AList.insert "version" ⟨m, by omega⟩ ∅), rfl, ?_⟩
      unfold incremented
      dsimp only
      rw [AList.lookup_insert, Option.getD_some, dif_pos hn]
      rfl

theorem hincrby_reply (now : Nat) (field : String) :
    (r.hincrby now x field).2 = (incremented field (r.value now x)).getD 0 := by
  unfold Redis.hincrby
  cases incremented field (r.value now x) with
  | none => rfl
  | some n => rfl

/-- A key space that a `put` by the owner changes: whatever it holds elsewhere, the data
arrives at the overwritten key. -/
theorem exists_stored (data : List UInt8) (hx : ws'.Overwrites key' x) :
    ∃ v : RedisValue, asString (some v) = none ∧ ∀ (r : Redis),
      (x ≠ ws'.dataKey key' → r.value 0 (ws'.metaKey key') = some v) →
      (ws'.stored 0 r key' data).value 0 x = some (.string data) := by
  rcases hx with hdata | ⟨n, hversion⟩
  · exact ⟨.set [], rfl, fun r _ => value_stored (.inl hdata)⟩
  · obtain ⟨v, hv, hreply⟩ := exists_metadata n
    refine ⟨v, hv, fun r hr => ?_⟩
    by_cases hdata : x = ws'.dataKey key'
    · exact value_stored (.inl hdata)
    · refine value_stored (.inr ?_)
      rw [hincrby_reply, hr hdata, hreply]
      exact hversion

/-- The results of an app with access show the views. -/
theorem results_views {appId : UInt32} {now : Nat} {r' : Redis} (haccess : appId ∈ ws.acl)
    (h : ws.results key appId now r' = ws.results key appId now r) :
    asString (r'.value now (ws.dataKey key)) = asString (r.value now (ws.dataKey key)) ∧
    (∀ version, asString (r'.value now (ws.versionKey key version)) =
      asString (r.value now (ws.versionKey key version))) ∧
    (r'.hget now (ws.metaKey key) "version").isSome =
      (r.hget now (ws.metaKey key) "version").isSome ∧
    (if key ∈ asMembers (r'.value now ws.indexKey) then ws.entryOf now r' key else none) =
      if key ∈ asMembers (r.value now ws.indexKey) then ws.entryOf now r key else none := by
  rw [results_ok haccess, results_ok haccess] at h
  injection h with hget hversion hdel hentry
  exact ⟨Except.ok.inj hget, fun version => Except.ok.inj (congrFun hversion version),
    Except.ok.inj hdel, Except.ok.inj hentry⟩

theorem Isolated.stored (h : ws.Isolated key ws' key') (r : Redis) (data : List UInt8)
    (later : Nat) : ws.results key ws.ownerAppId later (ws'.stored 0 r key' data) =
      ws.results key ws.ownerAppId later r := by
  have hcall := h r ws.ownerAppId later [⟨0, ws'.ownerAppId, .put data⟩]
    (fun call hmem => by rw [List.mem_singleton.mp hmem]; exact Nat.zero_le later)
  rw [List.foldl_cons, List.foldl_nil] at hcall
  unfold perform at hcall
  dsimp only at hcall
  rw [put_ok ws'.owner_mem] at hcall
  exact hcall

/-- A hash with a version field. -/
def versioned : RedisValue := .hash (AList.insert "version" 0 ∅)

theorem hget_versioned {now : Nat} (hx : r.value now x = some versioned) :
    r.hget now x "version" = some 0 := by
  unfold Redis.hget
  rw [hx]
  exact AList.lookup_insert _

theorem hget_of_no_hash {now : Nat} {field : String} (hx : asHash (r.value now x) = none) :
    r.hget now x field = none := by
  unfold Redis.hget
  rw [hx]
  rfl

/-- Metadata keys that coincide are deleted together. -/
theorem Isolated.metadata (h : ws.Isolated key ws' key') : ws.metaKey key ≠ ws'.metaKey key' := by
  intro heq
  have hvalue : Keyspace.value (Keyspace.store ∅ (ws'.metaKey key') versioned) 0
      (ws'.metaKey key') = some versioned := Keyspace.value_store_self versioned
  have hcall := h (Keyspace.store ∅ (ws'.metaKey key') versioned) ws.ownerAppId 0
    [⟨0, ws'.ownerAppId, .del⟩]
    (fun call hmem => by rw [List.mem_singleton.mp hmem])
  rw [List.foldl_cons, List.foldl_nil] at hcall
  unfold perform at hcall
  dsimp only at hcall
  rw [del_ok ws'.owner_mem, hget_versioned hvalue] at hcall
  obtain ⟨-, -, hdel, -⟩ := results_views ws.owner_mem hcall
  rw [heq, hget_versioned hvalue, hget_of_no_hash] at hdel
  · cases hdel
  · refine (Keyspace.view_modify asHash asHash_withoutMember (Nat.le_refl 0)).trans ?_
    rw [value_foldl_del, if_pos]
    · rfl
    · exact List.mem_append_right _ (List.mem_singleton_self _)

/-- What is overwritten is not looked at. -/
theorem Isolated.overwrites (h : ws.Isolated key ws' key') (hreads : ws.Reads key x) :
    ¬ws'.Overwrites key' x := by
  intro hoverwrites
  obtain ⟨v, hv, hstored⟩ := exists_stored [] hoverwrites
  have hmetadata := h.metadata
  -- nothing but the metadata of the second key
  have hstring : asString (Keyspace.value (Keyspace.store ∅ (ws'.metaKey key') v) 0 x) = none := by
    by_cases hx : x = ws'.metaKey key'
    · rw [hx, Keyspace.value_store_self]
      exact hv
    · rw [Keyspace.value_store_ne hx]
      rfl
  have hafter := hstored (Keyspace.store ∅ (ws'.metaKey key') v)
    (fun _ => Keyspace.value_store_self v)
  obtain ⟨hdata, hversions, -, -⟩ := results_views ws.owner_mem
    (h.stored (Keyspace.store ∅ (ws'.metaKey key') v) [] 0)
  rcases hreads with rfl | ⟨version, rfl⟩ | rfl | rfl
  · rw [hafter, hstring] at hdata
    cases hdata
  · have hversion := hversions version
    rw [hafter, hstring] at hversion
    cases hversion
  · -- the metadata of the first key becomes a string
    let r := Keyspace.store (Keyspace.store ∅ (ws.metaKey key) versioned) (ws'.metaKey key') v
    have hbefore : r.value 0 (ws.metaKey key) = some versioned :=
      (Keyspace.value_store_ne hmetadata v 0).trans (Keyspace.value_store_self versioned)
    obtain ⟨-, -, hdel, -⟩ := results_views ws.owner_mem (h.stored r [] 0)
    rw [hget_versioned hbefore, hget_of_no_hash] at hdel
    · cases hdel
    · rw [hstored r fun _ => Keyspace.value_store_self v]
      rfl
  · -- the index becomes a string
    have hdataKey : ws.indexKey = ws'.dataKey key' := by
      rcases hoverwrites with hdata | ⟨n, hversion⟩
      · exact hdata
      · exact absurd hversion (indexKey_ne_versionKey ws ws' key' _)
    let r := Keyspace.store (Keyspace.store ∅ ws.indexKey (.set [key])) (ws.metaKey key) versioned
    have hmeta : r.value 0 (ws.metaKey key) = some versioned := Keyspace.value_store_self versioned
    have hindex : r.value 0 ws.indexKey = some (.set [key]) :=
      (Keyspace.value_store_ne (indexKey_ne_metaKey ws key) versioned 0).trans
        (Keyspace.value_store_self _)
    obtain ⟨-, -, -, hentry⟩ := results_views ws.owner_mem (h.stored r [] 0)
    rw [hstored r (fun hne => absurd hdataKey hne), hindex,
      if_neg (show key ∉ asMembers (some (.string [])) from List.not_mem_nil),
      if_pos (show key ∈ asMembers (some (.set [key])) from List.mem_singleton_self key)] at hentry
    unfold entryOf at hentry
    dsimp only at hentry
    rw [hget_versioned hmeta] at hentry
    cases hentry

/-- With a lifetime, whatever stands under the metadata key is gone at its end. -/
theorem value_stored_expired (r : Redis) (key' : String) (data : List UInt8)
    (httl : 0 < ws'.ttlSeconds) :
    (ws'.stored 0 r key' data).value (ws'.ttlSeconds.toNat * 1000000) (ws'.metaKey key') =
      none := by
  have hexpired : ∀ (q : Redis),
      (q.expireIn 0 (ws'.metaKey key') ws'.ttlSeconds).value (ws'.ttlSeconds.toNat * 1000000)
        (ws'.metaKey key') = none := by
    intro q
    unfold Redis.expireIn
    rw [Nat.zero_add]
    exact Keyspace.value_expire_after (Nat.zero_le _) (Nat.le_refl _)
  have hindex : ∀ (q : Redis) (later : Nat),
      (q.sadd 0 ws'.indexKey key').value later (ws'.metaKey key') =
        q.value later (ws'.metaKey key') :=
    fun q later => Keyspace.value_modify_ne (indexKey_ne_metaKey ws' key').symm _ later
  unfold stored
  dsimp only
  unfold putCommands
  rw [if_pos httl, List.foldl_append, List.foldl_cons, List.foldl_nil, List.foldl_append,
    List.foldl_cons, List.foldl_cons, List.foldl_cons, List.foldl_nil]
  exact (hindex _ _).trans (hexpired _)

theorem Isolated.expires (h : ws.Isolated key ws' key') (httl : 0 < ws'.ttlSeconds) :
    ¬ws.Reads key (ws'.metaKey key') := by
  intro hreads
  have hmetadata := h.metadata
  obtain ⟨hdata, hversions, -, -⟩ := results_views ws.owner_mem
    (h.stored (Keyspace.store ∅ (ws'.metaKey key') (.string [])) []
      (ws'.ttlSeconds.toNat * 1000000))
  have hgone := value_stored_expired (Keyspace.store ∅ (ws'.metaKey key') (.string [])) key' [] httl
  rcases hreads with heq | ⟨version, heq⟩ | heq | heq
  · rw [← heq, hgone, Keyspace.value_store_self] at hdata
    cases hdata
  · have hversion := hversions version
    rw [← heq, hgone, Keyspace.value_store_self] at hversion
    cases hversion
  · exact hmetadata heq.symm
  · let r := Keyspace.store (Keyspace.store ∅ ws.indexKey (.set [key])) (ws.metaKey key) versioned
    have hmeta : ∀ now, r.value now (ws.metaKey key) = some versioned :=
      fun now => Keyspace.value_store_self versioned
    have hindex : ∀ now, r.value now ws.indexKey = some (.set [key]) := fun now =>
      (Keyspace.value_store_ne (indexKey_ne_metaKey ws key) versioned now).trans
        (Keyspace.value_store_self _)
    obtain ⟨-, -, -, hentry⟩ := results_views ws.owner_mem
      (h.stored r [] (ws'.ttlSeconds.toNat * 1000000))
    rw [hindex, ← heq, value_stored_expired _ _ _ httl,
      if_neg (show key ∉ asMembers none from List.not_mem_nil),
      if_pos (show key ∈ asMembers (some (.set [key])) from List.mem_singleton_self key)] at hentry
    unfold entryOf at hentry
    dsimp only at hentry
    rw [hget_versioned (hmeta _)] at hentry
    cases hentry

end Interference

/-- **Isolation.** The results for one key are unaffected by all calls on another one,
whatever the key space holds, if and only if the keys are separate. -/
theorem isolated_iff (ws : Workspace) (key : String) (ws' : Workspace) (key' : String) :
    ws.Isolated key ws' key' ↔ ws.Separate key ws' key' :=
  ⟨fun h => ⟨fun _ hx => h.overwrites hx, h.metadata, h.expires⟩, Separate.isolated⟩

end Workspace

/-! ## Keys that are not isolated -/

/-- A workspace of app 1. -/
def sharedWorkspace (name : String) : Workspace := .create name 1

/-- In one workspace, a `put` on "b" overwrites "b:v1"; in two workspaces, a `put` on
"b:c" of "a" overwrites "c" of "a:b". -/
theorem versionLike_overwritten :
    let one := sharedWorkspace "a"
    let two := sharedWorkspace "a:b"
    let before := one.perform "b:v1" ∅ ⟨0, 1, .put [1]⟩
    let other := two.perform "c" ∅ ⟨0, 1, .put [1]⟩
    (one.get 0 before "b:v1" 1 = .ok (some [1]) ∧
      one.get 0 (one.perform "b" before ⟨0, 1, .put [2]⟩) "b:v1" 1 = .ok (some [2])) ∧
    two.get 0 other "c" 1 = .ok (some [1]) ∧
      two.get 0 (one.perform "b:c" other ⟨0, 1, .put [2]⟩) "c" 1 = .ok (some [2]) := by
  decide +kernel

end Labios
