import Labios.Foundation.Decimal
import Labios.Foundation.Keyspace
import Labios.Foundation.Separators
import Labios.Foundation.VersionedMap
import Labios.Workspace.Model
import Labios.Workspace.Puts

/-!
# The keys of one workspace

The four families of Redis keys that a workspace has for keys without a colon. Behind
the name of the workspace, the text up to the first colon and the text from there on
tell which slot a Redis key is (`slotKey_injective`).
-/

namespace Labios

open Foundation

/-- A key without a colon that is neither of the two names the workspace uses itself. -/
structure PlainKey where
  text : String
  noColon : ':' ∉ text.toList
  notIndex : text ≠ "_index"
  notMeta : text ≠ "_meta"
  deriving DecidableEq

inductive Slot
  | data (k : PlainKey)
  | version (k : PlainKey) (v : UInt64)
  | metadata (k : PlainKey)
  | index
  deriving DecidableEq

theorem PlainKey.ext_text {k k' : PlainKey} (h : k.text = k'.text) : k = k' := by
  obtain ⟨text, _, _, _⟩ := k
  obtain ⟨text', _, _, _⟩ := k'
  obtain rfl : text = text' := h
  rfl

namespace Workspace

def slotKey (ws : Workspace) : Slot → String
  | .data k => ws.dataKey k.text
  | .version k v => ws.versionKey k.text v
  | .metadata k => ws.metaKey k.text
  | .index => ws.indexKey

/-- What stands before and from the first colon behind the name of the workspace. -/
def slotText : Slot → List Char × List Char
  | .data k => (k.text.toList, [])
  | .version k v => (k.text.toList, ':' :: 'v' :: Nat.toDigits 10 v.toNat)
  | .metadata k => ("_meta".toList, ':' :: k.text.toList)
  | .index => ("_index".toList, [])

theorem slotKey_toList (ws : Workspace) (s : Slot) :
    (ws.slotKey s).toList = "labios:ws:".toList ++ (ws.name.toList ++ ':' ::
      ((slotText s).1 ++ (slotText s).2)) := by
  cases s with
  | data k =>
      show ("labios:ws:" ++ ws.name ++ ":" ++ k.text).toList = _ ++ (_ ++ ':' :: (k.text.toList ++ []))
      rw [String.toList_append, String.toList_append, String.toList_append, List.append_assoc,
        List.append_assoc, List.append_nil]
      rfl
  | version k v =>
      show ("labios:ws:" ++ ws.name ++ ":" ++ k.text ++ ":v" ++ toString v.toNat).toList =
        _ ++ (_ ++ ':' :: (k.text.toList ++ ':' :: 'v' :: Nat.toDigits 10 v.toNat))
      rw [String.toList_append, String.toList_append, String.toList_append, String.toList_append,
        String.toList_append, toList_toString, List.append_assoc, List.append_assoc,
        List.append_assoc, List.append_assoc]
      rfl
  | metadata k =>
      show ("labios:ws:" ++ ws.name ++ ":_meta:" ++ k.text).toList =
        _ ++ (_ ++ ':' :: ("_meta".toList ++ ':' :: k.text.toList))
      rw [String.toList_append, String.toList_append, String.toList_append, List.append_assoc,
        List.append_assoc]
      rfl
  | index =>
      show ("labios:ws:" ++ ws.name ++ ":_index").toList = _ ++ (_ ++ ':' :: ("_index".toList ++ []))
      rw [String.toList_append, String.toList_append, List.append_assoc, List.append_nil]
      rfl

theorem colon_notMem_slotText (s : Slot) : ':' ∉ (slotText s).1 := by
  cases s with
  | data k => exact k.noColon
  | version k v => exact k.noColon
  | metadata k =>
      show ':' ∉ "_meta".toList
      decide
  | index =>
      show ':' ∉ "_index".toList
      decide

/-- The second text is empty or begins with the colon. -/
theorem slotText_split (s : Slot) :
    ((slotText s).1 ++ (slotText s).2).takeWhile (· ≠ ':') = (slotText s).1 := by
  have hfront := colon_notMem_slotText s
  have hempty : ∀ front : List Char, ':' ∉ front →
      (front ++ []).takeWhile (· ≠ ':') = front := by
    intro front h
    rw [List.append_nil, List.takeWhile_eq_self_iff]
    intro c hc
    have hne : c ≠ ':' := fun heq => h (heq ▸ hc)
    simp [hne]
  cases s with
  | data k => exact hempty _ hfront
  | version k v => exact takeWhile_separator hfront
  | metadata k => exact takeWhile_separator hfront
  | index => exact hempty _ hfront

theorem slotText_injective : Function.Injective slotText := by
  intro s s' h
  have htext : ∀ {k k' : PlainKey}, k.text.toList = k'.text.toList → k = k' :=
    fun heq => PlainKey.ext_text (String.toList_injective heq)
  have hname : ∀ {k : PlainKey} {text : String}, k.text ≠ text → k.text.toList ≠ text.toList :=
    fun hne heq => hne (String.toList_injective heq)
  have hfirst := congrArg Prod.fst h
  have hsecond := congrArg Prod.snd h
  cases s with
  | data k =>
      cases s' with
      | data k' => exact congrArg Slot.data (htext hfirst)
      | version k' v => cases hsecond
      | metadata k' => cases hsecond
      | index => exact absurd hfirst (hname k.notIndex)
  | version k v =>
      cases s' with
      | data k' => cases hsecond
      | version k' v' =>
          obtain rfl := htext hfirst
          have hdigits : Nat.toDigits 10 v.toNat = Nat.toDigits 10 v'.toNat :=
            (List.cons.inj (List.cons.inj hsecond).2).2
          exact congrArg (Slot.version k) (UInt64.toNat_inj.mp (toDigits_inj hdigits))
      | metadata k' => exact absurd hfirst (hname k.notMeta)
      | index => cases hsecond
  | metadata k =>
      cases s' with
      | data k' => cases hsecond
      | version k' v => exact absurd hfirst.symm (hname k'.notMeta)
      | metadata k' => exact congrArg Slot.metadata (htext (List.cons.inj hsecond).2)
      | index => cases hsecond
  | index =>
      cases s' with
      | data k' => exact absurd hfirst.symm (hname k'.notIndex)
      | version k' v => cases hsecond
      | metadata k' => cases hsecond
      | index => rfl

/-- Different slots have different Redis keys. -/
theorem slotKey_injective (ws : Workspace) : Function.Injective ws.slotKey := by
  intro s s' h
  have hlist := congrArg String.toList h
  rw [slotKey_toList, slotKey_toList] at hlist
  have htexts := (List.cons.inj (List.append_cancel_left (List.append_cancel_left hlist))).2
  have hfirst : (slotText s).1 = (slotText s').1 := by
    rw [← slotText_split s, htexts, slotText_split s']
  rw [hfirst] at htexts
  exact slotText_injective (Prod.ext hfirst (List.append_cancel_left htexts))

end Workspace
end Labios

/-!
## A workspace as a versioned map

What the slots of a workspace hold when it stands for a versioned map (`Encodes`), and
that `put` and `del` change the slots as the map changes. The Redis keys of the slots
are all different and never expire, so every operation is an update of the slots
(`stored_holds`, `deleted_holds`).
-/

namespace Labios

open Foundation RedisValue Workspace

/-- A byte string; its length is one that a `std::vector` can have. -/
structure Blob where
  bytes : List UInt8
  short : bytes.length < 2 ^ 63

/-! ## Members -/

section Members

variable {o : Option RedisValue} {member x : String}

theorem mem_withMember_iff (h : IsSet o) :
    x ∈ asMembers (withMember member o) ↔ x ∈ asMembers o ∨ x = member :=
  ⟨mem_withMember o, mem_asMembers_withMember h⟩

theorem nodup_withMember (h : (asMembers o).Nodup) :
    (asMembers (withMember member o)).Nodup := by
  cases o with
  | none => exact List.nodup_singleton member
  | some v =>
      cases v with
      | set members =>
          show (if member ∈ members then members else members ++ [member]).Nodup
          split
          · exact h
          · next hmem =>
              exact List.nodup_append.mpr ⟨h, List.nodup_singleton _, fun a ha b hb heq =>
                hmem (List.mem_singleton.mp hb ▸ heq ▸ ha)⟩
      | _ => exact List.nodup_nil

theorem asMembers_withoutMember (o : Option RedisValue) :
    asMembers (withoutMember member o) = (asMembers o).filter (· ≠ member) := by
  cases o with
  | none => rfl
  | some v =>
      cases v with
      | set members => exact asMembers_ofMembers _
      | _ => rfl

theorem isSet_withoutMember (h : IsSet o) : IsSet (withoutMember member o) := by
  intro v hv
  cases o with
  | none => cases hv
  | some old =>
      obtain ⟨members, rfl⟩ := h old rfl
      have hv : ofMembers (members.filter (· ≠ member)) = some v := hv
      cases hrest : members.filter (· ≠ member) with
      | nil =>
          rw [hrest] at hv
          cases hv
      | cons first rest =>
          rw [hrest] at hv
          exact ⟨first :: rest, (Option.some.inj hv).symm⟩

end Members

/-! ## Slots that stand for a map -/

/-- The slots hold the versioned map. -/
structure Encodes (m : VersionedMap PlainKey Blob) (f : Slot → Option RedisValue) : Prop where
  data : ∀ k, f (.data k) = (m.get k).map (.string ·.bytes)
  version : ∀ k v, f (.version k v) = (m.getVersion k v.toNat).map (.string ·.bytes)
  hash : ∀ k, IsHash (f (.metadata k))
  counter : ∀ k, (fieldOf "version" (f (.metadata k))).map Fin.val =
    if m k = [] then none else some (m k).length
  size : ∀ k, (fieldOf "size" (f (.metadata k))).map Fin.val = (m.get k).map (·.bytes.length)
  set : IsSet (f .index)
  nodup : (asMembers (f .index)).Nodup
  index : ∀ x, x ∈ asMembers (f .index) ↔ ∃ k : PlainKey, k.text = x ∧ m.Live k

theorem encodes_empty : Encodes .empty fun _ => none where
  data := fun _ => rfl
  version := fun k v => by
    rw [VersionedMap.getVersion]
    split
    · rfl
    · rfl
  hash := fun _ _ h => by cases h
  counter := fun _ => rfl
  size := fun _ => rfl
  set := fun _ h => by cases h
  nodup := List.nodup_nil
  index := fun x => ⟨fun h => absurd h List.not_mem_nil, fun ⟨k, _, hlive⟩ => absurd rfl hlive⟩

section Encoded

variable {m : VersionedMap PlainKey Blob} {f : Slot → Option RedisValue} {k : PlainKey}

/-- The counter of `HINCRBY` counts the versions. -/
theorem Encodes.counter_eq (h : Encodes m f) (k : PlainKey) :
    Labios.counter (f (.metadata k)) = (m k).length := by
  have hcounter := h.counter k
  unfold Labios.counter
  unfold fieldOf at hcounter
  cases hfield : (asHash (f (.metadata k))).bind (·.lookup "version") with
  | none =>
      rw [hfield] at hcounter
      split at hcounter
      · next hnil =>
          rw [hnil]
          rfl
      · cases hcounter
  | some n =>
      rw [hfield] at hcounter
      split at hcounter
      · cases hcounter
      · exact Option.some.inj hcounter

/-- The slots after `put` has done all its commands. -/
def putSlots (f : Slot → Option RedisValue) (k : PlainKey) (data : List UInt8) (n : RedisInt)
    (now : Nat) : Slot → Option RedisValue
  | .data k' => if k' = k then some (.string data) else f (.data k')
  | .version k' v =>
      if k' = k ∧ v = UInt64.ofNat n.val then some (.string data) else f (.version k' v)
  | .metadata k' =>
      if k' = k then
        withField "updated_us" (Fin.ofNat _ now) (withField "size" (Fin.ofNat _ data.length)
          (withField "version" n (f (.metadata k))))
      else f (.metadata k')
  | .index => withMember k.text (f .index)

/-- The slots after `del` has found that many versions. -/
def delSlots (f : Slot → Option RedisValue) (k : PlainKey) (count : Nat) :
    Slot → Option RedisValue
  | .data k' => if k' = k then none else f (.data k')
  | .version k' v => if k' = k ∧ 0 < v.toNat ∧ v.toNat ≤ count then none else f (.version k' v)
  | .metadata k' => if k' = k then none else f (.metadata k')
  | .index => withoutMember k.text (f .index)

theorem Encodes.put (h : Encodes m f) (d : Blob) (now : Nat) (hroom : (m k).length + 1 < 2 ^ 63) :
    Encodes (m.put k d) (putSlots f k d.bytes ⟨(m k).length + 1, hroom⟩ now) where
  data := fun k' => by
    show (if k' = k then _ else _) = _
    by_cases hk : k' = k
    · subst hk
      rw [if_pos rfl, VersionedMap.get_put_self]
      rfl
    · rw [if_neg hk, h.data, VersionedMap.get, VersionedMap.get, VersionedMap.put_ne hk]
  version := fun k' v => by
    show (if k' = k ∧ v = UInt64.ofNat ((m k).length + 1) then _ else _) = _
    have hlt : (m k).length + 1 < 2 ^ 64 := Nat.lt_trans hroom (by decide)
    by_cases hk : k' = k
    · subst hk
      have hiff : v = UInt64.ofNat ((m k').length + 1) ↔ v.toNat = (m k').length + 1 := by
        rw [← UInt64.toNat_inj, UInt64.toNat_ofNat_of_lt' hlt]
      rw [VersionedMap.getVersion_put_self]
      by_cases hv : v.toNat = (m k').length + 1
      · rw [if_pos ⟨rfl, hiff.mpr hv⟩, if_pos hv]
        rfl
      · rw [if_neg fun hand => hv (hiff.mp hand.2), if_neg hv]
        exact h.version k' v
    · rw [if_neg fun hand => hk hand.1, h.version, VersionedMap.getVersion,
        VersionedMap.getVersion, VersionedMap.put_ne hk]
  hash := fun k' => by
    show IsHash (if k' = k then _ else _)
    split
    · exact isHash_withField (isHash_withField (isHash_withField (h.hash k)))
    · exact h.hash k'
  counter := fun k' => by
    show (fieldOf "version" (if k' = k then _ else _)).map _ = _
    by_cases hk : k' = k
    · subst hk
      rw [if_pos rfl, fieldOf_withField_ne (by decide), fieldOf_withField_ne (by decide),
        fieldOf_withField_self (h.hash k'), VersionedMap.put_self, if_neg (by simp)]
      show some ((m k').length + 1) = _
      rw [List.length_append, List.length_singleton]
    · rw [if_neg hk, h.counter, VersionedMap.put_ne hk]
  size := fun k' => by
    show (fieldOf "size" (if k' = k then _ else _)).map _ = _
    by_cases hk : k' = k
    · subst hk
      rw [if_pos rfl, fieldOf_withField_ne (by decide),
        fieldOf_withField_self (isHash_withField (h.hash k')), VersionedMap.get_put_self]
      exact congrArg some (Nat.mod_eq_of_lt d.short)
    · rw [if_neg hk, h.size, VersionedMap.get, VersionedMap.get, VersionedMap.put_ne hk]
  set := isSet_withMember h.set
  nodup := nodup_withMember h.nodup
  index := fun x => by
    show x ∈ asMembers (withMember k.text (f .index)) ↔ _
    rw [mem_withMember_iff h.set, h.index]
    constructor
    · rintro (⟨k', rfl, hlive⟩ | rfl)
      · by_cases hk : k' = k
        · subst hk
          exact ⟨k', rfl, VersionedMap.live_put_self⟩
        · refine ⟨k', rfl, ?_⟩
          unfold VersionedMap.Live
          rw [VersionedMap.put_ne hk]
          exact hlive
      · exact ⟨k, rfl, VersionedMap.live_put_self⟩
    · rintro ⟨k', rfl, hlive⟩
      by_cases hk : k' = k
      · exact .inr (congrArg _ hk)
      · refine .inl ⟨k', rfl, ?_⟩
        unfold VersionedMap.Live at hlive
        rw [VersionedMap.put_ne hk] at hlive
        exact hlive

theorem Encodes.del (h : Encodes m f) (k : PlainKey) :
    Encodes (m.del k) (delSlots f k (m k).length) where
  data := fun k' => by
    show (if k' = k then _ else _) = _
    by_cases hk : k' = k
    · subst hk
      rw [if_pos rfl, VersionedMap.get, VersionedMap.del_self]
      rfl
    · rw [if_neg hk, h.data, VersionedMap.get, VersionedMap.get, VersionedMap.del_ne hk]
  version := fun k' v => by
    show (if k' = k ∧ _ then _ else _) = _
    by_cases hk : k' = k
    · subst hk
      have hnone : (m.del k').getVersion k' v.toNat = none := by
        by_cases hv : v.toNat = 0
        · rw [hv]
          exact VersionedMap.getVersion_zero
        · refine VersionedMap.getVersion_eq_none ?_
          rw [VersionedMap.del_self]
          exact Nat.pos_of_ne_zero hv
      rw [hnone]
      split
      · rfl
      · next hout =>
          -- versions that were never written
          have hout : v.toNat = 0 ∨ (m k').length < v.toNat := by
            by_contra hnot
            exact hout ⟨rfl, by omega⟩
          rw [h.version]
          rcases hout with hzero | hlt
          · rw [hzero, VersionedMap.getVersion_zero]
          · rw [VersionedMap.getVersion_eq_none hlt]
    · rw [if_neg fun hand => hk hand.1, h.version, VersionedMap.getVersion,
        VersionedMap.getVersion, VersionedMap.del_ne hk]
  hash := fun k' => by
    show IsHash (if k' = k then _ else _)
    split
    · exact fun _ hv => by cases hv
    · exact h.hash k'
  counter := fun k' => by
    show (fieldOf "version" (if k' = k then _ else _)).map _ = _
    by_cases hk : k' = k
    · subst hk
      rw [if_pos rfl, VersionedMap.del_self]
      rfl
    · rw [if_neg hk, h.counter, VersionedMap.del_ne hk]
  size := fun k' => by
    show (fieldOf "size" (if k' = k then _ else _)).map _ = _
    by_cases hk : k' = k
    · subst hk
      rw [if_pos rfl, VersionedMap.get, VersionedMap.del_self]
      rfl
    · rw [if_neg hk, h.size, VersionedMap.get, VersionedMap.get, VersionedMap.del_ne hk]
  set := isSet_withoutMember h.set
  nodup := by
    show (asMembers (withoutMember k.text (f .index))).Nodup
    rw [asMembers_withoutMember]
    exact h.nodup.filter _
  index := fun x => by
    show x ∈ asMembers (withoutMember k.text (f .index)) ↔ _
    rw [asMembers_withoutMember, List.mem_filter, h.index, decide_eq_true_iff]
    constructor
    · rintro ⟨⟨k', rfl, hlive⟩, hne⟩
      have hk : k' ≠ k := fun heq => hne (congrArg _ heq)
      refine ⟨k', rfl, ?_⟩
      unfold VersionedMap.Live
      rw [VersionedMap.del_ne hk]
      exact hlive
    · rintro ⟨k', rfl, hlive⟩
      have hk : k' ≠ k := by
        rintro rfl
        exact hlive VersionedMap.del_self
      unfold VersionedMap.Live at hlive
      rw [VersionedMap.del_ne hk] at hlive
      exact ⟨⟨k', rfl, hlive⟩, fun heq => hk (PlainKey.ext_text heq)⟩

end Encoded

/-! ## What the operations make of the slots -/

section Operations

variable {ws : Workspace} {r : Redis} {f : Slot → Option RedisValue}

theorem hincrby_holds (h : r.Holds ws.slotKey f) (now : Nat) (k : PlainKey) {n : RedisInt}
    (hn : incremented "version" (f (.metadata k)) = some n) :
    Keyspace.Holds (r.hincrby now (ws.metaKey k.text) "version").1 ws.slotKey
        (Function.update f (.metadata k) (withField "version" n (f (.metadata k)))) ∧
      (r.hincrby now (ws.metaKey k.text) "version").2 = n := by
  unfold Redis.hincrby
  have hvalue : r.value now (ws.metaKey k.text) = f (.metadata k) := h.value now (.metadata k)
  rw [hvalue, hn]
  exact ⟨h.modify ws.slotKey_injective now (.metadata k) _, rfl⟩

theorem putSlots_eq (f : Slot → Option RedisValue) (k : PlainKey) (data : List UInt8)
    (n : RedisInt) (now : Nat) :
    putSlots f k data n now =
      let f₁ := Function.update f (.metadata k) (withField "version" n (f (.metadata k)))
      let f₂ := Function.update f₁ (.data k) (some (.string data))
      let f₃ := Function.update f₂ (.version k (UInt64.ofNat n.val)) (some (.string data))
      let f₄ := Function.update f₃ (.metadata k)
        (withField "size" (Fin.ofNat _ data.length) (f₃ (.metadata k)))
      let f₅ := Function.update f₄ (.metadata k)
        (withField "updated_us" (Fin.ofNat _ now) (f₄ (.metadata k)))
      Function.update f₅ .index (withMember k.text (f₅ .index)) := by
  funext s
  cases s with
  | metadata k' =>
      by_cases hk : k' = k
      · simp [putSlots, hk]
      · simp [putSlots, hk]
  | _ => simp [putSlots, Function.update_apply]

/-- Without a lifetime `put` changes the slots of its key and the index, for good. -/
theorem stored_holds (httl : ws.ttlSeconds = 0) (h : r.Holds ws.slotKey f) (now : Nat)
    (k : PlainKey) (data : List UInt8) {n : RedisInt}
    (hn : incremented "version" (f (.metadata k)) = some n) :
    (ws.stored now r k.text data).Holds ws.slotKey (putSlots f k data n now) := by
  obtain ⟨h₁, hreply⟩ := hincrby_holds h now k hn
  have hinj := ws.slotKey_injective
  rw [putSlots_eq]
  unfold stored putCommands
  rw [httl]
  generalize r.hincrby now (ws.metaKey k.text) "version" = first at h₁ hreply
  obtain ⟨r₁, reply⟩ := first
  obtain rfl : n = reply := hreply.symm
  dsimp only at h₁ ⊢
  rw [if_neg (by decide : ¬(0 : UInt32) < 0)]
  rw [List.append_nil]
  have h₂ := h₁.store hinj (.data k) (.string data)
  have h₃ := h₂.store hinj (.version k (UInt64.ofNat n.val)) (.string data)
  have h₄ := h₃.modify hinj now (.metadata k) (withField "size" (Fin.ofNat _ data.length))
  have h₅ := h₄.modify hinj now (.metadata k) (withField "updated_us" (Fin.ofNat _ now))
  have h₆ := h₅.modify hinj now .index (withMember k.text)
  simp only [List.cons_append, List.nil_append, List.foldl_cons, List.foldl_nil, RedisCommand.run]
  exact h₆

theorem foldl_del_holds {ι : Type} [DecidableEq ι] {name : ι → String}
    {f : ι → Option RedisValue} (hname : Function.Injective name) (names : List ι)
    (h : r.Holds name f) :
    Keyspace.Holds ((names.map name).foldl Redis.del r) name
      fun i => if i ∈ names then none else f i := by
  induction names generalizing r f with
  | nil => simpa using h
  | cons first rest ih =>
      have hfirst := ih (h.erase hname first)
      intro i
      refine (hfirst i).trans (congrArg _ ?_)
      dsimp only
      by_cases hrest : i ∈ rest
      · rw [if_pos hrest, if_pos (List.mem_cons_of_mem _ hrest)]
      · rw [if_neg hrest]
        by_cases hi : i = first
        · subst hi
          rw [Function.update_self, if_pos List.mem_cons_self]
        · rw [Function.update_of_ne hi, if_neg fun hmem => (List.mem_cons.mp hmem).elim hi hrest]

/-- The slots whose keys `del` removes. -/
def deletedSlots (k : PlainKey) (count : Nat) : List Slot :=
  .data k :: (List.range count).map (fun v => .version k (UInt64.ofNat (v + 1))) ++ [.metadata k]

theorem deletedKeys_eq (k : PlainKey) (count : RedisInt) :
    ws.deletedKeys k.text count = (deletedSlots k count.val).map ws.slotKey := by
  unfold Workspace.deletedKeys deletedSlots
  rw [List.map_append, List.map_cons, List.map_map]
  rfl

theorem mem_deletedSlots_version {k k' : PlainKey} {v : UInt64} {count : Nat}
    (hcount : count < 2 ^ 63) :
    .version k' v ∈ deletedSlots k count ↔ k' = k ∧ 0 < v.toNat ∧ v.toNat ≤ count := by
  have hlt : ∀ n < count, (UInt64.ofNat (n + 1)).toNat = n + 1 := fun n hn =>
    UInt64.toNat_ofNat_of_lt' (Nat.lt_trans (by omega : n + 1 < 2 ^ 63) (by decide))
  simp only [deletedSlots, List.mem_append, List.mem_cons, List.mem_map, List.mem_range,
    reduceCtorEq, false_or, List.not_mem_nil, or_false]
  constructor
  · rintro ⟨n, hn, heq⟩
    obtain ⟨rfl, rfl⟩ := Slot.version.inj heq
    rw [hlt n hn]
    exact ⟨rfl, by omega, by omega⟩
  · rintro ⟨rfl, hpos, hle⟩
    refine ⟨v.toNat - 1, by omega, congrArg (Slot.version k') ?_⟩
    rw [← UInt64.toNat_inj, hlt _ (by omega)]
    omega

theorem deleted_holds (h : r.Holds ws.slotKey f) (now : Nat) (k : PlainKey) (count : RedisInt) :
    Keyspace.Holds
      (Redis.srem ((ws.deletedKeys k.text count).foldl Redis.del r) now ws.indexKey k.text)
      ws.slotKey (delSlots f k count.val) := by
  have hinj := ws.slotKey_injective
  have hdeleted := foldl_del_holds hinj (deletedSlots k count.val) h
  have hremoved := hdeleted.modify hinj now .index (withoutMember k.text)
  rw [deletedKeys_eq]
  intro s
  refine (hremoved s).trans (congrArg _ ?_)
  cases s with
  | data k' => simp [deletedSlots, delSlots]
  | version k' v =>
      rw [Function.update_of_ne (by simp)]
      simp only [mem_deletedSlots_version count.isLt]
      rfl
  | metadata k' => simp [deletedSlots, delSlots]
  | index =>
      rw [Function.update_self, if_neg (by simp [deletedSlots])]
      rfl

end Operations

end Labios
