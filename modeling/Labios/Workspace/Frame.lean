import Labios.Workspace.Model

/-!
# What `put` and `del` leave alone

The results of the operations on one key of a workspace depend on the string of its
data key, the strings of its version keys, the hash of its metadata key and its
membership in the index (`results_congr`). A view of a key that hides what `put` and
`del` write shows the same before and after them (`Hides.run`).
-/

namespace Labios

open Foundation RedisValue

namespace Workspace

/-! ## Results -/

/-- What the operations on a key return, as far as it is about this key. -/
structure Results where
  get : Except String (Option (List UInt8))
  getVersion : UInt64 → Except String (Option (List UInt8))
  del : Except String Bool
  entry : Except String (Option WorkspaceEntry)

def results (ws : Workspace) (key : String) (appId : UInt32) (now : Nat) (r : Redis) : Results where
  get := ws.get now r key appId
  getVersion version := ws.getVersion now r key version appId
  del := (ws.del now r key appId).map Prod.fst
  entry := (ws.list now r appId).map fun entries => entries.find? fun entry => entry.key = key

section Results

variable {ws : Workspace} {key : String} {appId : UInt32} {now : Nat} {r r' : Redis}

theorem results_ok (h : appId ∈ ws.acl) :
    ws.results key appId now r =
      { get := .ok (asString (r.value now (ws.dataKey key)))
        getVersion := fun version => .ok (asString (r.value now (ws.versionKey key version)))
        del := .ok (r.hget now (ws.metaKey key) "version").isSome
        entry := .ok (if key ∈ asMembers (r.value now ws.indexKey) then ws.entryOf now r key
          else none) } := by
  unfold results
  rw [get_ok h, del_ok h, list_ok h]
  simp only [getVersion_ok h, Except.map, find?_entries]
  cases r.hget now (ws.metaKey key) "version" with
  | none => rfl
  | some maxVer => rfl

theorem results_congr
    (hdata : asString (r'.value now (ws.dataKey key)) = asString (r.value now (ws.dataKey key)))
    (hversion : ∀ version, asString (r'.value now (ws.versionKey key version)) =
      asString (r.value now (ws.versionKey key version)))
    (hmeta : asHash (r'.value now (ws.metaKey key)) = asHash (r.value now (ws.metaKey key)))
    (hindex : key ∈ asMembers (r'.value now ws.indexKey) ↔
      key ∈ asMembers (r.value now ws.indexKey)) :
    ws.results key appId now r' = ws.results key appId now r := by
  by_cases h : appId ∈ ws.acl
  · have hfield : ∀ field, r'.hget now (ws.metaKey key) field = r.hget now (ws.metaKey key) field := by
      intro field
      unfold Redis.hget
      rw [hmeta]
    have hentry : ws.entryOf now r' key = ws.entryOf now r key := by
      unfold entryOf
      simp only [hfield]
    rw [results_ok h, results_ok h, hdata, hfield, hentry]
    simp only [hversion, hindex]
  · unfold results get getVersion del list
    rw [checkAccess_denied h]
    rfl

end Results

/-! ## Hidden writes -/

inductive KeyOp where
  | put (data : List UInt8)
  | del

/-- A call on one key, at some time. -/
structure KeyCall where
  now : Nat
  appId : UInt32
  op : KeyOp

def perform (ws : Workspace) (key : String) (r : Redis) (call : KeyCall) : Redis :=
  match call.op with
  | .put data =>
      match ws.put call.now r key data call.appId with
      | .ok (_, r') => r'
      | .error _ => r
  | .del =>
      match ws.del call.now r key call.appId with
      | .ok (_, r') => r'
      | .error _ => r

/-- What a view of a key must not show to hide all writes of `put` and `del` on another
key: the data and the versions; a hash and its deadline; and the member of a set. -/
structure Hides {β : Type} (ws : Workspace) (key : String) (p : Option RedisValue → β)
    (x : String) : Prop where
  data : x ≠ ws.dataKey key
  versions : ∀ n : RedisInt, x ≠ ws.versionKey key (UInt64.ofNat n)
  metadata : x ≠ ws.metaKey key ∨ ws.ttlSeconds = 0 ∧
    (∀ field n o, p (withField field n o) = p o) ∧ ∀ fields, p (some (.hash fields)) = p none
  index : x ≠ ws.indexKey ∨
    (∀ o, p (withMember key o) = p o) ∧ ∀ o, p (withoutMember key o) = p o

section Hidden

variable {β : Type} {ws : Workspace} {key x : String} {p : Option RedisValue → β} {r : Redis}
  {now later : Nat} {data : List UInt8} {appId : UInt32}

theorem Hides.hincrby (h : ws.Hides key p x) (hle : now ≤ later) :
    p ((r.hincrby now (ws.metaKey key) "version").1.value later x) = p (r.value later x) := by
  unfold Redis.hincrby
  split
  · next n _ =>
      rcases h.metadata with hne | ⟨-, hblind, -⟩
      · exact congrArg p (Keyspace.value_modify_ne hne _ later)
      · exact Keyspace.view_modify p (hblind "version" n) hle
  · rfl

theorem Hides.commands (h : ws.Hides key p x) {version : UInt64}
    (hversion : x ≠ ws.versionKey key version) :
    ∀ c ∈ ws.putCommands now key data version, c.Hides p x := by
  have hfield : ∀ field n, RedisCommand.Hides p x (.hset (ws.metaKey key) field n) := by
    intro field n
    exact h.metadata.imp_right fun hblind => hblind.2.1 field n
  intro c hc
  rcases List.mem_append.mp hc with hc | hc
  · rcases List.mem_append.mp hc with hc | hc
    · rcases List.mem_cons.mp hc with rfl | hc
      · exact h.data
      · rcases List.mem_cons.mp hc with rfl | hc
        · exact hversion
        · rcases List.mem_cons.mp hc with rfl | hc
          · exact hfield _ _
          · rw [List.mem_singleton.mp hc]
            exact hfield _ _
    · split at hc
      · next httl =>
          have hmeta : x ≠ ws.metaKey key := by
            refine h.metadata.resolve_right fun hblind => ?_
            rw [hblind.1] at httl
            exact absurd httl (by decide)
          rcases List.mem_cons.mp hc with rfl | hc
          · exact h.data
          · rcases List.mem_cons.mp hc with rfl | hc
            · exact hversion
            · rw [List.mem_singleton.mp hc]
              exact hmeta
      · cases hc
  · rw [List.mem_singleton.mp hc]
    exact h.index.imp_right And.left

theorem Hides.stored (h : ws.Hides key p x) (hle : now ≤ later) :
    p ((ws.stored now r key data).value later x) = p (r.value later x) := by
  unfold Workspace.stored
  exact (RedisCommand.hides_foldl (h.commands (h.versions _)) hle _).trans (h.hincrby hle)

/-- Before its deletion the metadata was a hash. -/
theorem Hides.deletedKeys (h : ws.Hides key p x) {maxVer : RedisInt}
    (hversion : r.hget now (ws.metaKey key) "version" = some maxVer) (hle : now ≤ later) :
    p (((ws.deletedKeys key maxVer).foldl Redis.del r).value later x) = p (r.value later x) := by
  rw [value_foldl_del]
  split
  · next hmem =>
      unfold Workspace.deletedKeys at hmem
      rcases List.mem_append.mp hmem with hmem | hmem
      · rcases List.mem_cons.mp hmem with hdata | hmem
        · exact absurd hdata h.data
        · obtain ⟨v, hv, heq⟩ := List.mem_map.mp hmem
          have hbound := maxVer.isLt
          have hlt := List.mem_range.mp hv
          exact absurd heq.symm (h.versions ⟨v + 1, by omega⟩)
      · have hx : x = ws.metaKey key := List.mem_singleton.mp hmem
        obtain ⟨-, -, hhash⟩ := h.metadata.resolve_left fun hne => hne hx
        rw [← hx] at hversion
        obtain ⟨fields, hfields, -⟩ := Option.bind_eq_some_iff.mp hversion
        have hview : p (r.value now x) = p none := by
          cases hvalue : r.value now x with
          | none => rfl
          | some v =>
              rw [hvalue] at hfields
              cases v with
              | hash => exact hhash _
              | _ => cases hfields
        rcases Keyspace.value_later (r := r) (x := x) hle with heq | hnone
        · rw [heq, hview]
        · rw [hnone]
  · rfl

theorem Hides.perform (h : ws.Hides key p x) (call : KeyCall) (hle : call.now ≤ later) :
    p ((ws.perform key r call).value later x) = p (r.value later x) := by
  unfold Workspace.perform
  by_cases haccess : call.appId ∈ ws.acl
  · cases call.op with
    | put data =>
        dsimp only
        rw [put_ok haccess]
        exact h.stored hle
    | del =>
        dsimp only
        rw [del_ok haccess]
        cases hversion : r.hget call.now (ws.metaKey key) "version" with
        | none => rfl
        | some maxVer =>
            refine Eq.trans ?_ (h.deletedKeys hversion hle)
            rcases h.index with hne | ⟨-, hblind⟩
            · exact congrArg p (Keyspace.value_modify_ne hne _ later)
            · exact Keyspace.view_modify p hblind hle
  · cases call.op with
    | put data =>
        dsimp only
        unfold Workspace.put
        rw [checkAccess_denied haccess]
        rfl
    | del =>
        dsimp only
        unfold Workspace.del
        rw [checkAccess_denied haccess]
        rfl

theorem Hides.run (h : ws.Hides key p x) (calls : List KeyCall)
    (hle : ∀ call ∈ calls, call.now ≤ later) :
    p ((calls.foldl (ws.perform key) r).value later x) = p (r.value later x) := by
  induction calls generalizing r with
  | nil => rfl
  | cons call rest ih =>
      obtain ⟨hcall, hrest⟩ := List.forall_mem_cons.mp hle
      exact (ih hrest).trans (h.perform call hcall)

end Hidden

end Workspace
end Labios
