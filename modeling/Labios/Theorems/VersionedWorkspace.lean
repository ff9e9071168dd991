import Labios.Workspace.Service

/-!
# Workspaces refine versioned maps

Are the results of `put`, `get`, `get_version`, `del` and `list` those of a map from keys
to lists of byte strings? They are for every sequence of calls on a workspace without a
lifetime (`workspace_refines`), as long as no key comes to `2 ^ 63 - 1` versions: Redis
does not count further, and `put` then returns 0 (`exhausted_put`).
-/

namespace Labios

open Foundation RedisValue Workspace

inductive WorkspaceOp
  | put (k : PlainKey) (data : Blob)
  | get (k : PlainKey)
  | getVersion (k : PlainKey) (v : UInt64)
  | del (k : PlainKey)
  | list
  | listPrefix (pre : String)

structure WorkspaceUse where
  op : WorkspaceOp
  appId : UInt32
  now : Nat

inductive WorkspaceReply
  | version (n : UInt64)
  | data (bytes : Option (List UInt8))
  | deleted (existed : Bool)
  | entries (listed : List WorkspaceEntry)

namespace Workspace

def serve (ws : Workspace) (r : Redis) (use : WorkspaceUse) :
    Except String (WorkspaceReply × Redis) :=
  match use.op with
  | .put k d =>
      (ws.put use.now r k.text d.bytes use.appId).map fun (n, r) => (.version n, r)
  | .get k => (ws.get use.now r k.text use.appId).map fun bytes => (.data bytes, r)
  | .getVersion k v =>
      (ws.getVersion use.now r k.text v use.appId).map fun bytes => (.data bytes, r)
  | .del k => (ws.del use.now r k.text use.appId).map fun (existed, r) => (.deleted existed, r)
  | .list => (ws.list use.now r use.appId).map fun listed => (.entries listed, r)
  | .listPrefix pre =>
      (ws.listPrefix use.now r pre use.appId).map fun listed => (.entries listed, r)

/-- One call after the other; one that throws ends the sequence. -/
def serveAll (ws : Workspace) :
    Redis → List WorkspaceUse → Except String (List WorkspaceReply × Redis)
  | r, [] => .ok ([], r)
  | r, use :: rest =>
      match ws.serve r use with
      | .error text => .error text
      | .ok (reply, r) =>
          match ws.serveAll r rest with
          | .error text => .error text
          | .ok (replies, r) => .ok (reply :: replies, r)

end Workspace

/-! ## The map -/

section Map

/-- Exactly the live keys with the prefix, each with its current version and size. -/
def Lists (m : VersionedMap PlainKey Blob) (pre : String) (listed : List WorkspaceEntry) : Prop :=
  (listed.map (·.key)).Nodup ∧
    ∀ key version size,
      (∃ e ∈ listed, e.key = key ∧ e.version.toNat = version ∧ e.size.toNat = size) ↔
        ∃ (k : PlainKey) (last : Blob), k.text = key ∧ pre.toList <+: key.toList ∧
          m.get k = some last ∧ version = (m k).length ∧ size = last.bytes.length

/-- The map's result of an operation. -/
def MapAnswers (m : VersionedMap PlainKey Blob) : WorkspaceOp → WorkspaceReply → Prop
  | .put k _, .version n => n.toNat = (m k).length + 1
  | .get k, .data bytes => bytes = (m.get k).map Blob.bytes
  | .getVersion k v, .data bytes => bytes = (m.getVersion k v.toNat).map Blob.bytes
  | .del k, .deleted existed => existed = true ↔ m.Live k
  | .list, .entries listed => Lists m "" listed
  | .listPrefix pre, .entries listed => Lists m pre listed
  | _, _ => False

def mapAfter (m : VersionedMap PlainKey Blob) (use : WorkspaceUse) : VersionedMap PlainKey Blob :=
  match use.op with
  | .put k d => m.put k d
  | .del k => m.del k
  | _ => m

def MapAnswersAll : VersionedMap PlainKey Blob → List WorkspaceUse → List WorkspaceReply → Prop
  | _, [], [] => True
  | m, use :: uses, reply :: replies =>
      MapAnswers m use.op reply ∧ MapAnswersAll (mapAfter m use) uses replies
  | _, _, _ => False

/-- A put finds fewer versions than Redis can count, less one. -/
def HasRoomFor (m : VersionedMap PlainKey Blob) : WorkspaceOp → Prop
  | .put k _ => (m k).length + 1 < 2 ^ 63
  | _ => True

def RoomForPuts : VersionedMap PlainKey Blob → List WorkspaceUse → Prop
  | _, [] => True
  | m, use :: rest => HasRoomFor m use.op ∧ RoomForPuts (mapAfter m use) rest

end Map

/-! ## One call -/

section Calls

variable {ws : Workspace} {r : Redis} {f : Slot → Option RedisValue}
  {m : VersionedMap PlainKey Blob}

/-- The entry of a live key tells its current version and its size. -/
theorem entryOf_encoded (hholds : r.Holds ws.slotKey f) (h : Encodes m f) (now : Nat)
    (k : PlainKey) :
    (m.get k = none ∧ ws.entryOf now r k.text = none) ∨
      ∃ last e, m.get k = some last ∧ ws.entryOf now r k.text = some e ∧ e.key = k.text ∧
        e.version.toNat = (m k).length ∧ e.size.toNat = last.bytes.length := by
  have hfield : ∀ field, r.hget now (ws.metaKey k.text) field = fieldOf field (f (.metadata k)) :=
    fun field => congrArg (fun o => (asHash o).bind (·.lookup field))
      (hholds.value now (.metadata k))
  have hword : ∀ n : RedisInt, (UInt64.ofNat n.val).toNat = n.val := fun n =>
    UInt64.toNat_ofNat_of_lt' (Nat.lt_trans n.isLt (by decide))
  have hcounter := h.counter k
  have hsize := h.size k
  unfold entryOf
  simp only [hfield]
  cases hget : m.get k with
  | none =>
      have hnil : m k = [] := List.getLast?_eq_none_iff.mp hget
      rw [if_pos hnil, Option.map_eq_none_iff] at hcounter
      rw [hcounter]
      exact .inl ⟨rfl, rfl⟩
  | some last =>
      have hlive : m k ≠ [] := by
        intro hnil
        rw [VersionedMap.get, hnil] at hget
        cases hget
      rw [if_neg hlive] at hcounter
      rw [hget] at hsize
      obtain ⟨n, hn, hlength⟩ := Option.map_eq_some_iff.mp hcounter
      obtain ⟨s, hs, hbytes⟩ := Option.map_eq_some_iff.mp hsize
      rw [hn, hs]
      refine .inr ⟨last, _, rfl, rfl, rfl, ?_, ?_⟩
      · exact (hword n).trans hlength
      · exact (hword s).trans hbytes

theorem map_key_filterMap_entryOf (now : Nat) (members : List String) :
    (members.filterMap (ws.entryOf now r)).map (·.key) =
      members.filter fun member => (ws.entryOf now r member).isSome := by
  induction members with
  | nil => rfl
  | cons member rest ih =>
      cases hentry : ws.entryOf now r member with
      | none =>
          rw [List.filterMap_cons_none hentry, List.filter_cons_of_neg (by simp [hentry])]
          exact ih
      | some e =>
          rw [List.filterMap_cons_some hentry, List.filter_cons_of_pos (by simp [hentry]),
            List.map_cons, key_entryOf hentry, ih]

theorem lists_encoded (hholds : r.Holds ws.slotKey f) (h : Encodes m f) (now : Nat) (pre : String) :
    Lists m pre (((r.smembers now ws.indexKey).filterMap (ws.entryOf now r)).filter
      fun entry => pre.toList.isPrefixOf entry.key.toList) := by
  have hmembers : r.smembers now ws.indexKey = asMembers (f .index) :=
    congrArg asMembers (hholds.value now .index)
  rw [hmembers]
  constructor
  · refine List.Nodup.sublist (List.Sublist.map _ List.filter_sublist) ?_
    rw [map_key_filterMap_entryOf]
    exact h.nodup.filter _
  · intro key version size
    constructor
    · rintro ⟨e, he, rfl, rfl, rfl⟩
      obtain ⟨hmem, hprefix⟩ := List.mem_filter.mp he
      obtain ⟨member, hmember, hentry⟩ := List.mem_filterMap.mp hmem
      obtain ⟨k, rfl, -⟩ := (h.index member).mp hmember
      rcases entryOf_encoded hholds h now k with
        ⟨-, hnone⟩ | ⟨last, e', hget, he', hkey, hversion, hsize⟩
      · rw [hnone] at hentry
        cases hentry
      · obtain rfl := Option.some.inj (he'.symm.trans hentry)
        exact ⟨k, last, hkey.symm, List.isPrefixOf_iff_prefix.mp hprefix, hget, hversion, hsize⟩
    · rintro ⟨k, last, rfl, hprefix, hget, rfl, rfl⟩
      rcases entryOf_encoded hholds h now k with
        ⟨hnone, -⟩ | ⟨last', e, hget', he, hkey, hversion, hsize⟩
      · rw [hnone] at hget
        cases hget
      · obtain rfl := Option.some.inj (hget.symm.trans hget')
        have hlive : m.Live k := by
          intro hnil
          rw [VersionedMap.get, hnil] at hget
          cases hget
        refine ⟨e, List.mem_filter.mpr ⟨List.mem_filterMap.mpr ⟨k.text, ?_, he⟩, ?_⟩, hkey,
          hversion, hsize⟩
        · exact (h.index k.text).mpr ⟨k, rfl, hlive⟩
        · rw [hkey]
          exact List.isPrefixOf_iff_prefix.mpr hprefix

/-- One call: the result is the map's, and the slots hold the map after it. -/
theorem serve_encoded (httl : ws.ttlSeconds = 0) (hholds : r.Holds ws.slotKey f) (h : Encodes m f)
    (use : WorkspaceUse) (happ : use.appId ∈ ws.acl) (hroom : HasRoomFor m use.op) :
    ∃ reply r' f', ws.serve r use = .ok (reply, r') ∧ MapAnswers m use.op reply ∧
      r'.Holds ws.slotKey f' ∧ Encodes (mapAfter m use) f' := by
  obtain ⟨op, appId, now⟩ := use
  cases op with
  | put k d =>
      have hroom : (m k).length + 1 < 2 ^ 63 := hroom
      have hcounter := h.counter_eq k
      have hincremented : incremented "version" (f (.metadata k)) =
          some ⟨(m k).length + 1, hroom⟩ := by
        rw [incremented_of_room (h.hash k) (hcounter ▸ hroom)]
        exact congrArg some (Fin.ext (congrArg (· + 1) hcounter))
      refine ⟨_, _, _, congrArg (Except.map _) (put_ok happ), ?_,
        stored_holds httl hholds now k d.bytes hincremented, h.put d now hroom⟩
      show (UInt64.ofNat (r.hincrby now (ws.metaKey k.text) "version").2.val).toNat = _
      rw [(hincrby_holds hholds now k hincremented).2]
      exact UInt64.toNat_ofNat_of_lt' (Nat.lt_trans hroom (by decide))
  | get k =>
      refine ⟨_, r, f, congrArg (Except.map _) (get_ok happ), ?_, hholds, h⟩
      show asString (r.value now (ws.slotKey (.data k))) = _
      rw [hholds.value, h.data]
      cases m.get k with
      | _ => rfl
  | getVersion k v =>
      refine ⟨_, r, f, congrArg (Except.map _) (getVersion_ok happ), ?_, hholds, h⟩
      show asString (r.value now (ws.slotKey (.version k v))) = _
      rw [hholds.value, h.version]
      cases m.getVersion k v.toNat with
      | _ => rfl
  | del k =>
      have hfield : r.hget now (ws.metaKey k.text) "version" =
          fieldOf "version" (f (.metadata k)) :=
        congrArg (fun o => (asHash o).bind (·.lookup "version")) (hholds.value now (.metadata k))
      have hcounter := h.counter k
      have hdel : ws.del now r k.text appId = _ := del_ok happ
      have hserve := congrArg
        (Except.map fun x : Bool × Redis => (WorkspaceReply.deleted x.1, x.2)) hdel
      rw [hfield] at hserve
      cases hversion : fieldOf "version" (f (.metadata k)) with
      | none =>
          rw [hversion] at hserve hcounter
          have hnil : m k = [] := by
            by_contra hne
            rw [if_neg hne] at hcounter
            cases hcounter
          have hsame : m.del k = m := by
            rw [VersionedMap.del, ← hnil]
            exact Function.update_eq_self k m
          refine ⟨_, r, f, hserve, ?_, hholds, ?_⟩
          · show false = true ↔ m.Live k
            simp [VersionedMap.Live, hnil]
          · show Encodes (m.del k) f
            rw [hsame]
            exact h
      | some n =>
          rw [hversion] at hserve hcounter
          have hlive : m k ≠ [] := by
            intro hnil
            rw [if_pos hnil] at hcounter
            cases hcounter
          rw [if_neg hlive] at hcounter
          have hn : n.val = (m k).length := Option.some.inj hcounter
          refine ⟨_, _, _, hserve, ?_, deleted_holds hholds now k n, ?_⟩
          · show true = true ↔ m.Live k
            simp [VersionedMap.Live, hlive]
          · rw [hn]
            exact h.del k
  | list =>
      have hall : ∀ listed : List WorkspaceEntry,
          (listed.filter fun entry => "".toList.isPrefixOf entry.key.toList) = listed :=
        fun listed => List.filter_eq_self.mpr fun _ _ => rfl
      refine ⟨_, r, f, congrArg (Except.map _) (list_ok happ), ?_, hholds, h⟩
      have hlists := lists_encoded hholds h now ""
      rw [hall] at hlists
      exact hlists
  | listPrefix pre =>
      exact ⟨_, r, f, congrArg (Except.map _) (listPrefix_ok pre happ),
        lists_encoded hholds h now pre, hholds, h⟩

end Calls

/-! ## All calls -/

section Runs

variable {ws : Workspace} {r : Redis} {f : Slot → Option RedisValue}
  {m : VersionedMap PlainKey Blob}

theorem serveAll_cons {use : WorkspaceUse} {rest : List WorkspaceUse} {reply : WorkspaceReply}
    {replies : List WorkspaceReply} {r₁ r₂ : Redis} (h : ws.serve r use = .ok (reply, r₁))
    (hrest : ws.serveAll r₁ rest = .ok (replies, r₂)) :
    ws.serveAll r (use :: rest) = .ok (reply :: replies, r₂) := by
  rw [serveAll, h]
  dsimp only
  rw [hrest]

theorem serveAll_encoded (httl : ws.ttlSeconds = 0) (uses : List WorkspaceUse)
    (hholds : r.Holds ws.slotKey f) (h : Encodes m f) (happs : ∀ use ∈ uses, use.appId ∈ ws.acl)
    (hroom : RoomForPuts m uses) :
    ∃ replies r' f', ws.serveAll r uses = .ok (replies, r') ∧ MapAnswersAll m uses replies ∧
      r'.Holds ws.slotKey f' ∧ Encodes (uses.foldl mapAfter m) f' := by
  induction uses generalizing r f m with
  | nil => exact ⟨[], r, f, rfl, trivial, hholds, h⟩
  | cons use rest ih =>
      obtain ⟨happ, hothers⟩ := List.forall_mem_cons.mp happs
      obtain ⟨reply, r₁, f₁, hserve, hanswer, hholds₁, h₁⟩ :=
        serve_encoded httl hholds h use happ hroom.1
      obtain ⟨replies, r₂, f₂, hrest, hanswers, hholds₂, h₂⟩ := ih hholds₁ h₁ hothers hroom.2
      exact ⟨reply :: replies, r₂, f₂, serveAll_cons hserve hrest, ⟨hanswer, hanswers⟩, hholds₂, h₂⟩

theorem holds_fresh (hfresh : ∀ s, r.lookup (ws.slotKey s) = none) :
    r.Holds ws.slotKey fun _ => none := hfresh

end Runs

/-- **Refinement.** Every sequence of calls by permitted apps on a workspace without a
lifetime that nobody has used before, whatever else Redis holds. -/
theorem workspace_refines (ws : Workspace) (httl : ws.ttlSeconds = 0) (r : Redis)
    (hfresh : ∀ s, r.lookup (ws.slotKey s) = none) (uses : List WorkspaceUse)
    (happs : ∀ use ∈ uses, use.appId ∈ ws.acl) (hroom : RoomForPuts .empty uses) :
    ∃ replies r', ws.serveAll r uses = .ok (replies, r') ∧ MapAnswersAll .empty uses replies := by
  obtain ⟨replies, r', -, hserve, hanswers, -, -⟩ :=
    serveAll_encoded httl uses (holds_fresh hfresh) encodes_empty happs hroom
  exact ⟨replies, r', hserve, hanswers⟩

/-! ## Two sequences -/

def plainKey : PlainKey := ⟨"k", by decide, by decide, by decide⟩

def emptyBlob : Blob := ⟨[], by decide⟩

def oneByte : Blob := ⟨[7], by decide⟩

/-- Versions start again after a `del`. -/
def reusedKey : List WorkspaceUse :=
  [⟨.put plainKey oneByte, 1, 0⟩, ⟨.put plainKey emptyBlob, 1, 5⟩, ⟨.getVersion plainKey 1, 1, 6⟩,
    ⟨.del plainKey, 1, 7⟩, ⟨.put plainKey oneByte, 1, 8⟩, ⟨.get plainKey, 1, 9⟩,
    ⟨.listPrefix "", 1, 10⟩]

theorem workspace_refines_reusedKey :
    ∃ replies r', (Workspace.create "w" 1).serveAll ∅ reusedKey = .ok (replies, r') ∧
      MapAnswersAll .empty reusedKey replies := by
  refine workspace_refines (Workspace.create "w" 1) rfl ∅ (fun _ => rfl) reusedKey (by decide) ?_
  have hput : ∀ {m : VersionedMap PlainKey Blob} {d : Blob}, (m plainKey).length + 1 < 2 ^ 63 →
      HasRoomFor m (.put plainKey d) := fun h => h
  exact ⟨hput (by decide), hput (by decide), trivial, trivial, hput (by decide), trivial, trivial,
    trivial⟩

/-- One key is put again and again. -/
def putsOf (n : Nat) : List WorkspaceUse := List.replicate n ⟨.put plainKey emptyBlob, 1, 0⟩

theorem mapAfter_putsOf (n : Nat) (m : VersionedMap PlainKey Blob) :
    ((putsOf n).foldl mapAfter m plainKey).length = (m plainKey).length + n := by
  induction n generalizing m with
  | zero => rfl
  | succ n ih =>
      show ((putsOf n).foldl mapAfter (m.put plainKey emptyBlob) plainKey).length = _
      rw [ih, VersionedMap.put_self, List.length_append, List.length_singleton]
      omega

theorem roomForPuts_putsOf (n : Nat) (m : VersionedMap PlainKey Blob)
    (h : (m plainKey).length + n < 2 ^ 63) : RoomForPuts m (putsOf n) := by
  induction n generalizing m with
  | zero => trivial
  | succ n ih =>
      refine ⟨(by omega : (m plainKey).length + 1 < 2 ^ 63), ih (m.put plainKey emptyBlob) ?_⟩
      rw [VersionedMap.put_self, List.length_append, List.length_singleton]
      omega

theorem serveAll_append {ws : Workspace} {front back : List WorkspaceUse}
    {replies : List WorkspaceReply} {r r' : Redis}
    (h : ws.serveAll r (front ++ back) = .ok (replies, r')) :
    ∃ before r₁ behind, replies = before ++ behind ∧ ws.serveAll r front = .ok (before, r₁) ∧
      ws.serveAll r₁ back = .ok (behind, r') := by
  induction front generalizing r replies with
  | nil => exact ⟨[], r, replies, rfl, rfl, h⟩
  | cons use front ih =>
      rw [List.cons_append, serveAll] at h
      split at h
      · cases h
      · next reply r₀ hserve =>
          split at h
          · cases h
          · next replies' r₂ hrest =>
              obtain ⟨rfl, rfl⟩ := Prod.mk.inj (Except.ok.inj h)
              obtain ⟨before, r₁, behind, rfl, hbefore, hbehind⟩ := ih hrest
              exact ⟨reply :: before, r₁, behind, rfl, serveAll_cons hserve hbefore, hbehind⟩

theorem MapAnswersAll.append {front back : List WorkspaceUse} {before behind : List WorkspaceReply}
    {m : VersionedMap PlainKey Blob} (h : MapAnswersAll m (front ++ back) (before ++ behind))
    (hfront : MapAnswersAll m front before) :
    MapAnswersAll (front.foldl mapAfter m) back behind := by
  induction front generalizing m before with
  | nil =>
      cases before with
      | nil => exact h
      | cons _ _ => cases hfront
  | cons use front ih =>
      cases before with
      | nil => cases hfront
      | cons reply before => exact ih h.2 hfront.2

/-- The counter of a key cannot pass `2 ^ 63 - 1`: `HINCRBY` fails, which the wrapper reads
as the number 0, and `put` returns that. -/
theorem exhausted_put :
    ¬∃ replies r', (Workspace.create "w" 1).serveAll ∅ (putsOf (2 ^ 63)) = .ok (replies, r') ∧
      MapAnswersAll .empty (putsOf (2 ^ 63)) replies := by
  obtain ⟨n, hn⟩ : ∃ n, 2 ^ 63 = n + 1 := ⟨2 ^ 63 - 1, by norm_num⟩
  rw [hn]
  rintro ⟨replies, r', hserve, hanswers⟩
  let ws := Workspace.create "w" 1
  have happ : (1 : UInt32) ∈ ws.acl := List.mem_singleton_self 1
  have hsplit : putsOf (n + 1) = putsOf n ++ putsOf 1 := List.replicate_add ..
  rw [hsplit] at hserve hanswers
  have happs : ∀ use ∈ putsOf n, use.appId ∈ ws.acl := by
    intro use huse
    obtain rfl := List.eq_of_mem_replicate huse
    exact happ
  have hfresh : Keyspace.Holds (∅ : Redis) ws.slotKey fun _ => none := holds_fresh fun _ => rfl
  have hroom : RoomForPuts .empty (putsOf n) := by
    refine roomForPuts_putsOf n _ ?_
    show 0 + n < 2 ^ 63
    omega
  obtain ⟨before', r₁', f, hfront', hbefore, hholds, hencodes⟩ :=
    serveAll_encoded rfl (putsOf n) hfresh encodes_empty happs hroom
  obtain ⟨before, r₁, behind, rfl, hfront, hback⟩ := serveAll_append hserve
  obtain ⟨rfl, rfl⟩ := Prod.mk.inj (Except.ok.inj (hfront.symm.trans hfront'))
  have hlast := hanswers.append hbefore
  -- the counter stands at its largest value
  have hlength : ((putsOf n).foldl mapAfter .empty plainKey).length = 0 + n :=
    mapAfter_putsOf n .empty
  have hcounter := hencodes.counter_eq plainKey
  have hfails : incremented "version" (f (.metadata plainKey)) = none := by
    refine incremented_of_full (hencodes.hash plainKey) ?_
    rw [hcounter, hlength]
    omega
  have hvalue : r₁.value 0 (ws.metaKey plainKey.text) = f (.metadata plainKey) :=
    hholds.value 0 (.metadata plainKey)
  have hreply : (r₁.hincrby 0 (ws.metaKey plainKey.text) "version").2 = 0 := by
    unfold Redis.hincrby
    rw [hvalue, hfails]
  have hput : ws.put 0 r₁ plainKey.text emptyBlob.bytes 1 = _ := put_ok happ
  rw [hreply] at hput
  have hserved : ws.serve r₁ ⟨.put plainKey emptyBlob, 1, 0⟩ =
      .ok (.version (UInt64.ofNat (0 : RedisInt).val),
        ws.stored 0 r₁ plainKey.text emptyBlob.bytes) := by
    unfold serve
    dsimp only
    rw [hput]
    simp only [Except.map]
  obtain rfl : behind = _ :=
    congrArg Prod.fst (Except.ok.inj (hback.symm.trans (serveAll_cons hserved rfl)))
  have hanswer : (UInt64.ofNat (0 : RedisInt).val).toNat =
      ((putsOf n).foldl mapAfter .empty plainKey).length + 1 := hlast.1
  rw [hlength] at hanswer
  have hzero : (UInt64.ofNat (0 : RedisInt).val).toNat = 0 := rfl
  omega

end Labios
