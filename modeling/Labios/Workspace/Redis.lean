import Labios.Foundation.Keyspace
import Mathlib.Algebra.GroupWithZero.Nat

/-!
# Redis values

What the commands of `labios/transport/redis.cpp` do to keys that hold strings, hashes
or sets. A command on a key of the wrong type gets an error reply: the wrapper reads
that as absent, as no members or as the number 0, and a writing command changes
nothing. Only `SET`, `DEL` and `EXPIRE` do not care about the type. Times are in
microseconds.
-/

namespace Labios

open Foundation

/-- What a hash field holds. Versions, sizes and times are the only fields, and none
reaches `2 ^ 63`; the decimal texts are kept as their numbers. -/
abbrev RedisInt := Fin (2 ^ 63)

instance redisInt_neZero : NeZero (2 ^ 63 : Nat) := ⟨Nat.ne_of_gt (Nat.two_pow_pos 63)⟩

inductive RedisValue where
  | string (bytes : List UInt8)
  | hash (fields : AList fun _ : String => RedisInt)
  | set (members : List String)

abbrev Redis := Keyspace String RedisValue

namespace RedisValue

/-! ## What a command sees -/

def asString : Option RedisValue → Option (List UInt8)
  | some (.string bytes) => some bytes
  | _ => none

def asHash : Option RedisValue → Option (AList fun _ : String => RedisInt)
  | some (.hash fields) => some fields
  | _ => none

def asMembers : Option RedisValue → List String
  | some (.set members) => members
  | _ => []

/-! ## What a command leaves -/

def withField (field : String) (n : RedisInt) : Option RedisValue → Option RedisValue
  | none => some (.hash (AList.insert field n ∅))
  | some (.hash fields) => some (.hash (fields.insert field n))
  | some other => some other

def withMember (member : String) : Option RedisValue → Option RedisValue
  | none => some (.set [member])
  | some (.set members) =>
      some (.set (if member ∈ members then members else members ++ [member]))
  | some other => some other

/-- A set without members is removed. -/
def ofMembers : List String → Option RedisValue
  | [] => none
  | members => some (.set members)

def withoutMember (member : String) : Option RedisValue → Option RedisValue
  | some (.set members) => ofMembers (members.filter (· ≠ member))
  | other => other

/-- The reply of `HINCRBY` by one: an error where there is no hash or no larger number. -/
def incremented (field : String) : Option RedisValue → Option RedisInt
  | none => some 1
  | some (.hash fields) =>
      let n := (fields.lookup field).getD 0
      if h : n.val + 1 < 2 ^ 63 then some ⟨n.val + 1, h⟩ else none
  | some _ => none

variable {field member : String} {n : RedisInt}

theorem asString_ofMembers (members : List String) : asString (ofMembers members) = none := by
  cases members with
  | nil | cons => rfl

theorem asHash_ofMembers (members : List String) : asHash (ofMembers members) = none := by
  cases members with
  | nil | cons => rfl

theorem asMembers_ofMembers (members : List String) :
    asMembers (ofMembers members) = members := by
  cases members with
  | nil | cons => rfl

@[simp] theorem asString_withField (o : Option RedisValue) :
    asString (withField field n o) = asString o := by
  cases o with
  | none => rfl
  | some v =>
      cases v with
      | _ => rfl

@[simp] theorem asMembers_withField (o : Option RedisValue) :
    asMembers (withField field n o) = asMembers o := by
  cases o with
  | none => rfl
  | some v =>
      cases v with
      | _ => rfl

@[simp] theorem asString_withMember (o : Option RedisValue) :
    asString (withMember member o) = asString o := by
  cases o with
  | none => rfl
  | some v =>
      cases v with
      | _ => rfl

@[simp] theorem asHash_withMember (o : Option RedisValue) :
    asHash (withMember member o) = asHash o := by
  cases o with
  | none => rfl
  | some v =>
      cases v with
      | _ => rfl

@[simp] theorem asString_withoutMember (o : Option RedisValue) :
    asString (withoutMember member o) = asString o := by
  cases o with
  | none => rfl
  | some v =>
      cases v with
      | set members => exact asString_ofMembers _
      | _ => rfl

@[simp] theorem asHash_withoutMember (o : Option RedisValue) :
    asHash (withoutMember member o) = asHash o := by
  cases o with
  | none => rfl
  | some v =>
      cases v with
      | set members => exact asHash_ofMembers _
      | _ => rfl

theorem mem_withMember (o : Option RedisValue) {x : String} :
    x ∈ asMembers (withMember member o) →
      x ∈ asMembers o ∨ x = member := by
  cases o with
  | none => exact fun h => .inr (List.mem_singleton.mp h)
  | some v =>
      cases v with
      | set members =>
          intro h
          have h : x ∈ if member ∈ members then members else members ++ [member] := h
          split at h
          · exact .inl h
          · exact (List.mem_append.mp h).imp_right List.mem_singleton.mp
      | _ => exact .inl

/-- Other members do not see one come. -/
theorem mem_withMember_ne {x : String} (hne : x ≠ member) (o : Option RedisValue) :
    x ∈ asMembers (withMember member o) ↔ x ∈ asMembers o := by
  refine ⟨fun h => (mem_withMember o h).resolve_right hne, fun h => ?_⟩
  cases o with
  | none => cases h
  | some v =>
      cases v with
      | set members =>
          show x ∈ if member ∈ members then members else members ++ [member]
          split
          · exact h
          · exact List.mem_append_left _ h
      | _ => cases h

/-- Other members do not see one go. -/
theorem mem_withoutMember_ne {x : String} (hne : x ≠ member) (o : Option RedisValue) :
    x ∈ asMembers (withoutMember member o) ↔ x ∈ asMembers o := by
  cases o with
  | none => exact Iff.rfl
  | some v =>
      cases v with
      | set members =>
          show x ∈ asMembers (ofMembers (members.filter (· ≠ member))) ↔ x ∈ members
          rw [asMembers_ofMembers]
          simp [hne]
      | _ => exact Iff.rfl

end RedisValue

/-! ## Commands -/

namespace Redis

open RedisValue

def get (r : Redis) (now : Nat) (key : String) : Option (List UInt8) := asString (r.value now key)

/-- An absent key reads as no bytes. -/
def getBinary (r : Redis) (now : Nat) (key : String) : List UInt8 := (r.get now key).getD []

def setBinary (r : Redis) (key : String) (data : List UInt8) : Redis := r.store key (.string data)

def del (r : Redis) (key : String) : Redis := r.erase key

def hget (r : Redis) (now : Nat) (key field : String) : Option RedisInt :=
  (asHash (r.value now key)).bind (·.lookup field)

def hset (r : Redis) (now : Nat) (key field : String) (n : RedisInt) : Redis :=
  r.modify now key (withField field n)

/-- By one. The reply to an error is the number 0. -/
def hincrby (r : Redis) (now : Nat) (key field : String) : Redis × RedisInt :=
  match incremented field (r.value now key) with
  | some n => (r.hset now key field n, n)
  | none => (r, 0)

def sadd (r : Redis) (now : Nat) (key member : String) : Redis :=
  r.modify now key (withMember member)

def srem (r : Redis) (now : Nat) (key member : String) : Redis :=
  r.modify now key (withoutMember member)

def smembers (r : Redis) (now : Nat) (key : String) : List String := asMembers (r.value now key)

def expireIn (r : Redis) (now : Nat) (key : String) (seconds : UInt32) : Redis :=
  r.expire now key (now + seconds.toNat * 1000000)

/-- The keys that fit the pattern, all read at once. -/
def scanKeys (r : Redis) (scanMatches : String → String → Bool) (now : Nat) (pattern : String) :
    List String :=
  r.keys.filter fun key => (r.value now key).isSome && scanMatches pattern key

end Redis

/-- A command whose reply nobody reads. -/
inductive RedisCommand where
  | set (key : String) (data : List UInt8)
  | hset (key field : String) (n : RedisInt)
  | expire (key : String) (seconds : UInt32)
  | sadd (key member : String)
  deriving DecidableEq

namespace RedisCommand

def run (now : Nat) (r : Redis) : RedisCommand → Redis
  | .set key data => r.setBinary key data
  | .hset key field n => r.hset now key field n
  | .expire key seconds => r.expireIn now key seconds
  | .sadd key member => r.sadd now key member

/-- The view of the key does not show the command. -/
def Hides {β : Type} (p : Option RedisValue → β) (x : String) : RedisCommand → Prop
  | .set key _ | .expire key _ => x ≠ key
  | .hset key field n => x ≠ key ∨ ∀ o, p (RedisValue.withField field n o) = p o
  | .sadd key member => x ≠ key ∨ ∀ o, p (RedisValue.withMember member o) = p o

variable {β : Type} {p : Option RedisValue → β} {x : String} {r : Redis} {now later : Nat}

theorem Hides.run {c : RedisCommand} (h : c.Hides p x) (hle : now ≤ later) :
    p ((c.run now r).value later x) = p (r.value later x) := by
  cases c with
  | set key data => exact congrArg p (Keyspace.value_store_ne h _ later)
  | expire key seconds => exact congrArg p (Keyspace.value_expire_ne h _ later)
  | hset key field n =>
      rcases h with hne | hblind
      · exact congrArg p (Keyspace.value_modify_ne hne _ later)
      · exact Keyspace.view_modify p hblind hle
  | sadd key member =>
      rcases h with hne | hblind
      · exact congrArg p (Keyspace.value_modify_ne hne _ later)
      · exact Keyspace.view_modify p hblind hle

theorem hides_foldl {commands : List RedisCommand} (h : ∀ c ∈ commands, c.Hides p x)
    (hle : now ≤ later) (r : Redis) :
    p ((commands.foldl (RedisCommand.run now) r).value later x) = p (r.value later x) := by
  induction commands generalizing r with
  | nil => rfl
  | cons c rest ih =>
      obtain ⟨hc, hrest⟩ := List.forall_mem_cons.mp h
      exact (ih hrest (c.run now r)).trans (hc.run hle)

end RedisCommand

/-- Deleting keys takes these and no others away. -/
theorem value_foldl_del (keys : List String) (r : Redis) (now : Nat) (x : String) :
    (keys.foldl Redis.del r).value now x = if x ∈ keys then none else r.value now x := by
  induction keys generalizing r with
  | nil => rfl
  | cons key rest ih =>
      rw [List.foldl_cons, ih]
      by_cases hrest : x ∈ rest
      · rw [if_pos hrest, if_pos (List.mem_cons_of_mem _ hrest)]
      · rw [if_neg hrest]
        by_cases hx : x = key
        · subst hx
          rw [if_pos List.mem_cons_self]
          exact Keyspace.value_erase_self r now x
        · have hnot : x ∉ key :: rest := fun hmem =>
            (List.mem_cons.mp hmem).elim hx hrest
          rw [if_neg hnot]
          exact Keyspace.value_erase_ne hx now

end Labios
