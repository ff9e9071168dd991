import Labios.Foundation.Machine
import Labios.Workspace.Writers

/-!
# Lifetimes of stores

Are the current data and the metadata of a key both there or both expired, whatever
lifetimes its stores had? A store sets the data anew, without a deadline, and changes
the metadata, which keeps its old one; a store with a lifetime then gives both the
same. So a store without a lifetime leaves the metadata to expire before the data
(`permanentStore_losesMetadata`). Data and metadata stay together in every run if and
only if the metadata that a store finds does not expire before its second transaction
and, if the store has no lifetime, not after it either while nothing else is stored
(`lifetimes_together_iff`).
-/

namespace Labios

open Foundation RedisValue

namespace Mcp

/-- A store, with the times of its two transactions, and until when nothing else is
stored. -/
structure StoreCall where
  data : List UInt8
  nowUs : Nat := 0
  ttl : Nat := 0
  start : Nat
  finish : Nat
  quietUntil : Nat

/-- A call whose first transaction fails makes no second one. -/
def StoreCall.afterFirst (c : StoreCall) (scope key : String) (r : Redis) : Redis × Option RedisInt :=
  storeFirst c.start r scope key c.data c.nowUs

def StoreCall.run (c : StoreCall) (scope key : String) (r : Redis) : Redis :=
  match c.afterFirst scope key r with
  | (r, some version) => storeSecond c.finish r scope key c.data version c.ttl
  | (r, none) => r

/-- The stores of one key come one after the other; the state is the time until which
the moments have passed, and what Redis holds. -/
def storesStep (scope key : String) (s : Nat × Redis) (c : StoreCall) : Option (Nat × Redis) :=
  if s.1 = c.start ∧ c.start ≤ c.finish ∧ c.finish ≤ c.quietUntil then
    some (c.quietUntil, c.run scope key s.2)
  else none

/-- The data and the metadata are both there, or neither. -/
def Together (scope key : String) (r : Redis) (now : Nat) : Prop :=
  (r.value now (wsDataKey scope key)).isSome = (r.value now (wsMetaKey scope key)).isSome

/-- At every moment from the first transaction of a store until the next store. -/
def StaysTogether (scope key : String) (s : Nat × Redis) (c : StoreCall) : Prop :=
  (∀ now, c.start ≤ now → now < c.finish → Together scope key (c.afterFirst scope key s.2).1 now) ∧
    ∀ now, c.finish ≤ now → now < c.quietUntil → Together scope key (c.run scope key s.2) now

/-- If the metadata that the store finds has a deadline, it is not before the second
transaction, and for a store without a lifetime only then or when the next store has
begun; for one that fails, when the next store has begun. -/
def OutlivesMetadata (scope key : String) (s : Nat × Redis) (c : StoreCall) : Prop :=
  ∀ deadline ∈ s.2.deadline c.start (wsMetaKey scope key),
    if (c.afterFirst scope key s.2).2.isSome then
      c.finish ≤ deadline ∧ (0 < c.ttl ∨ deadline ≤ c.finish ∨ c.quietUntil ≤ deadline)
    else c.quietUntil ≤ deadline

instance OutlivesMetadata.decidable (scope key : String) (s : Nat × Redis) (c : StoreCall) :
    Decidable (OutlivesMetadata scope key s c) :=
  (Option.decidableForallMem _ : Decidable (∀ deadline ∈ s.2.deadline c.start (wsMetaKey scope key),
    if (c.afterFirst scope key s.2).2.isSome then
      c.finish ≤ deadline ∧ (0 < c.ttl ∨ deadline ≤ c.finish ∨ c.quietUntil ≤ deadline)
    else c.quietUntil ≤ deadline))

/-! ## Deadlines -/

section Deadlines

variable {scope key : String} {r : Redis} {now : Nat} {data : List UInt8} {d : Option Nat}

theorem isSome_withField (field : String) (n : RedisInt) (o : Option RedisValue) :
    (withField field n o).isSome := by
  cases o with
  | none => rfl
  | some v =>
      cases v with
      | _ => rfl

theorem isSome_withMember (member : String) (o : Option RedisValue) :
    (withMember member o).isSome := by
  cases o with
  | none => rfl
  | some v =>
      cases v with
      | _ => rfl

/-- An error of `HINCRBY` leaves what is there. -/
theorem lookup_hincrby_self (r : Redis) (now : Nat) (key field : String) :
    ∃ v, (r.hincrby now key field).1.lookup key =
      some { value := v, deadline := Keyspace.deadline r now key } := by
  unfold Redis.hincrby
  split
  · exact Keyspace.lookup_modify_self r now key (isSome_withField _ _)
  · next hnone =>
      unfold Keyspace.value at hnone
      unfold Keyspace.deadline
      cases hheld : Keyspace.held r now key with
      | none =>
          rw [hheld] at hnone
          cases hnone
      | some held => exact ⟨held.value, (Keyspace.held_eq_some hheld).1⟩

theorem lookup_hincrby_ne {x field : String} (hne : x ≠ key) :
    (r.hincrby now key field).1.lookup x = r.lookup x := by
  unfold Redis.hincrby
  split
  · exact Keyspace.lookup_modify_ne hne _
  · rfl

theorem keys_ne (scope key : String) (version : RedisInt) :
    wsDataKey scope key ≠ wsMetaKey scope key ∧ wsMetaKey scope key ≠ wsIndexKey scope ∧
      wsDataKey scope key ≠ wsVersionKey scope key version.val ∧
      wsMetaKey scope key ≠ wsVersionKey scope key version.val := by
  let ws := Workspace.create scope 0
  have hversion : wsVersionKey scope key version.val = ws.versionKey key _ :=
    ws.wsVersionKey_eq key version
  rw [hversion]
  exact ⟨ws.dataKey_ne_metaKey key, (ws.indexKey_ne_metaKey key).symm,
    ws.dataKey_ne_versionKey key _, (ws.versionKey_ne_metaKey key _).symm⟩

/-- Changes that remove nothing, of what has the deadline that it had at that time. -/
theorem lookup_modify_again {f : Option RedisValue → Option RedisValue}
    (hf : ∀ o, (f o).isSome) {r₀ : Redis}
    (h : ∃ v, r.lookup key = some { value := v, deadline := Keyspace.deadline r₀ now key }) :
    ∃ v, (Keyspace.modify r now key f).lookup key =
      some { value := v, deadline := Keyspace.deadline r₀ now key } := by
  obtain ⟨v, hv⟩ := h
  obtain ⟨v', hv'⟩ := Keyspace.lookup_modify_self r now key hf
  rw [Keyspace.deadline_of_lookup hv, Keyspace.filter_deadline] at hv'
  exact ⟨v', hv'⟩

/-- After the first transaction: the data without a deadline, the metadata with its old
one. -/
theorem storeFirst_lookup (now : Nat) (r : Redis) (scope key : String) (data : List UInt8)
    (nowUs : Nat) :
    (∃ v, (storeFirst now r scope key data nowUs).1.lookup (wsDataKey scope key) =
      some { value := v, deadline := none }) ∧
    ∃ v, (storeFirst now r scope key data nowUs).1.lookup (wsMetaKey scope key) =
      some { value := v, deadline := Keyspace.deadline r now (wsMetaKey scope key) } := by
  obtain ⟨hdata, hindex, -, -⟩ := keys_ne scope key 0
  rw [storeFirst_fst]
  let r₁ : Redis := r.setBinary (wsDataKey scope key) data
  let r₂ : Redis := (r₁.hincrby now (wsMetaKey scope key) "version").1
  let r₃ : Redis := r₂.hset now (wsMetaKey scope key) "size" (Fin.ofNat _ data.length)
  let r₄ : Redis := r₃.hset now (wsMetaKey scope key) "updated_us" (Fin.ofNat _ nowUs)
  show (∃ v, AList.lookup (wsDataKey scope key) (r₄.sadd now (wsIndexKey scope) key) = _) ∧
    ∃ v, AList.lookup (wsMetaKey scope key) (r₄.sadd now (wsIndexKey scope) key) = _
  constructor
  · have h₄ : r₄.lookup (wsDataKey scope key) =
        some { value := .string data, deadline := none } := by
      rw [show r₄.lookup (wsDataKey scope key) = r₃.lookup _ from Keyspace.lookup_modify_ne hdata _,
        show r₃.lookup (wsDataKey scope key) = r₂.lookup _ from Keyspace.lookup_modify_ne hdata _,
        show r₂.lookup (wsDataKey scope key) = r₁.lookup _ from lookup_hincrby_ne hdata]
      exact AList.lookup_insert r
    by_cases hsame : wsDataKey scope key = wsIndexKey scope
    · -- a key called like the index
      rw [hsame] at h₄ ⊢
      obtain ⟨v, hv⟩ := Keyspace.lookup_modify_self r₄ now (wsIndexKey scope)
        (isSome_withMember key)
      rw [Keyspace.deadline_of_lookup h₄] at hv
      exact ⟨v, hv⟩
    · exact ⟨_, (Keyspace.lookup_modify_ne hsame _).trans h₄⟩
  · have hfirst : Keyspace.deadline r₁ now (wsMetaKey scope key) =
        Keyspace.deadline r now (wsMetaKey scope key) :=
      Keyspace.deadline_congr (AList.lookup_insert_ne hdata.symm)
    have h₂ : ∃ v, r₂.lookup (wsMetaKey scope key) =
        some { value := v, deadline := Keyspace.deadline r now (wsMetaKey scope key) } :=
      hfirst ▸ lookup_hincrby_self r₁ now _ _
    have h₄ := lookup_modify_again (isSome_withField "updated_us" (Fin.ofNat _ nowUs))
      (lookup_modify_again (isSome_withField "size" (Fin.ofNat _ data.length)) h₂)
    obtain ⟨v, hv⟩ := h₄
    exact ⟨v, (Keyspace.lookup_modify_ne hindex _).trans hv⟩

theorem StoreCall.run_failed (c : StoreCall) (h : (c.afterFirst scope key r).2 = none) :
    c.run scope key r = (c.afterFirst scope key r).1 := by
  unfold StoreCall.run
  cases hfirst : c.afterFirst scope key r with
  | mk r' reply =>
      rw [hfirst] at h
      obtain rfl : reply = none := h
      rfl

theorem StoreCall.run_version (c : StoreCall) {version : RedisInt}
    (h : (c.afterFirst scope key r).2 = some version) :
    c.run scope key r =
      storeSecond c.finish (c.afterFirst scope key r).1 scope key c.data version c.ttl := by
  unfold StoreCall.run
  cases hfirst : c.afterFirst scope key r with
  | mk r' reply =>
      rw [hfirst] at h
      obtain rfl : reply = some version := h
      rfl

theorem StoreCall.afterFirst_lookup (c : StoreCall) (scope key : String) (r : Redis) :
    (∃ v, (c.afterFirst scope key r).1.lookup (wsDataKey scope key) =
      some { value := v, deadline := none }) ∧
    ∃ v, (c.afterFirst scope key r).1.lookup (wsMetaKey scope key) =
      some { value := v, deadline := Keyspace.deadline r c.start (wsMetaKey scope key) } := by
  unfold StoreCall.afterFirst
  exact storeFirst_lookup c.start r scope key c.data c.nowUs

/-- After the second transaction: a lifetime gives both the same deadline, and without
one the metadata keeps its deadline if it is still there. -/
theorem storeSecond_lookup (now : Nat) (r : Redis) (scope key : String) (data : List UInt8)
    (version : RedisInt) (ttl : Nat) {d : Option Nat}
    (hdata : ∃ v, r.lookup (wsDataKey scope key) = some { value := v, deadline := none })
    (hmeta : ∃ v, r.lookup (wsMetaKey scope key) = some { value := v, deadline := d }) :
    (∃ v, (storeSecond now r scope key data version ttl).lookup (wsDataKey scope key) =
      some { value := v, deadline := if 0 < ttl then some (now + ttl * 1000000) else none }) ∧
    ∃ v, (storeSecond now r scope key data version ttl).lookup (wsMetaKey scope key) =
      some {
        value := v
        deadline := if 0 < ttl then some (now + ttl * 1000000) else d.filter (now < ·) } := by
  obtain ⟨hne, -, hversion, hversion'⟩ := keys_ne scope key version
  let r₁ : Redis := r.setBinary (wsVersionKey scope key version.val) data
  let r₂ : Redis := r₁.hset now (wsMetaKey scope key) "version" version
  obtain ⟨v, hv⟩ := hdata
  obtain ⟨w, hw⟩ := hmeta
  have hdata₂ : r₂.lookup (wsDataKey scope key) = some { value := v, deadline := none } :=
    (Keyspace.lookup_modify_ne hne _).trans ((AList.lookup_insert_ne hversion).trans hv)
  have hmeta₁ : r₁.lookup (wsMetaKey scope key) = some { value := w, deadline := d } :=
    (AList.lookup_insert_ne hversion').trans hw
  obtain ⟨w', hmeta₂⟩ := Keyspace.lookup_modify_self r₁ now (wsMetaKey scope key)
    (isSome_withField "version" version)
  rw [Keyspace.deadline_of_lookup hmeta₁] at hmeta₂
  unfold storeSecond
  by_cases httl : 0 < ttl
  · simp only [if_pos httl]
    have hdata₃ := Keyspace.lookup_expire_self now hdata₂ rfl (now + ttl * 1000000)
    let r₃ : Redis := Keyspace.expire r₂ now (wsDataKey scope key) (now + ttl * 1000000)
    have hmeta₃ : r₃.lookup (wsMetaKey scope key) = _ :=
      (Keyspace.lookup_expire_ne hne.symm _).trans hmeta₂
    have hmeta₄ := Keyspace.lookup_expire_self now hmeta₃ (Keyspace.all_filter_deadline d now)
      (now + ttl * 1000000)
    refine ⟨⟨v, ?_⟩, w', ?_⟩
    · exact (Keyspace.lookup_expire_ne hversion _).trans
        ((Keyspace.lookup_expire_ne hne _).trans hdata₃)
    · exact (Keyspace.lookup_expire_ne hversion' _).trans hmeta₄
  · simp only [if_neg httl]
    exact ⟨⟨v, hdata₂⟩, w', hmeta₂⟩

end Deadlines

/-! ## Together -/

theorem together_of_lookup {scope key : String} {r : Redis} {d d' : Option Nat}
    (hdata : ∃ v, r.lookup (wsDataKey scope key) = some { value := v, deadline := d })
    (hmeta : ∃ v, r.lookup (wsMetaKey scope key) = some { value := v, deadline := d' })
    (now : Nat) : Together scope key r now ↔ d.all (now < ·) = d'.all (now < ·) := by
  obtain ⟨v, hv⟩ := hdata
  obtain ⟨w, hw⟩ := hmeta
  unfold Together
  rw [Keyspace.isSome_value_of_lookup hv, Keyspace.isSome_value_of_lookup hw]

/-- What has no deadline is together with what has one as long as that has not passed. -/
theorem together_interval {d : Option Nat} {start stop : Nat} (hstart : d.all (start < ·)) :
    (∀ now, start ≤ now → now < stop → (none : Option Nat).all (now < ·) = d.all (now < ·)) ↔
      ∀ deadline ∈ d, stop ≤ deadline := by
  cases d with
  | none => simp
  | some t =>
      have hlt : start < t := of_decide_eq_true hstart
      constructor
      · intro h deadline hdeadline
        obtain rfl := Option.mem_some_iff.mp hdeadline
        by_contra hnot
        have := h t (Nat.le_of_lt hlt) (by omega)
        simp at this
      · intro h now _ hstop
        have := h t rfl
        have hnow : now < t := by omega
        simp [hnow]

/-- A store that makes no second transaction leaves the deadline as it is. -/
theorem together_failed {d : Option Nat} {finish stop : Nat} (hstop : finish ≤ stop) :
    ((∀ deadline ∈ d, finish ≤ deadline) ∧
      ∀ now, finish ≤ now → now < stop → (none : Option Nat).all (now < ·) = d.all (now < ·)) ↔
    ∀ deadline ∈ d, stop ≤ deadline := by
  constructor
  · rintro ⟨hfinish, htogether⟩ deadline hdeadline
    by_contra hnot
    have := htogether deadline (hfinish deadline hdeadline) (by omega)
    rw [hdeadline] at this
    simp at this
  · intro h
    refine ⟨fun deadline hdeadline => Nat.le_trans hstop (h deadline hdeadline), fun now _ hnow => ?_⟩
    cases d with
    | none => rfl
    | some t =>
        have hlt : now < t := Nat.lt_of_lt_of_le hnow (h t rfl)
        simp [hlt]

/-- One without a lifetime leaves it if it has not passed. -/
theorem together_permanent {d : Option Nat} {finish stop : Nat} :
    ((∀ deadline ∈ d, finish ≤ deadline) ∧
      ∀ deadline ∈ d.filter (finish < ·), stop ≤ deadline) ↔
    ∀ deadline ∈ d, finish ≤ deadline ∧ (deadline ≤ finish ∨ stop ≤ deadline) := by
  constructor
  · rintro ⟨hfinish, hfilter⟩ deadline hdeadline
    refine ⟨hfinish deadline hdeadline, ?_⟩
    by_cases hlt : finish < deadline
    · exact .inr (hfilter deadline (Option.mem_filter_iff.mpr ⟨hdeadline, decide_eq_true hlt⟩))
    · exact .inl (Nat.not_lt.mp hlt)
  · intro h
    refine ⟨fun deadline hdeadline => (h deadline hdeadline).1, fun deadline hdeadline => ?_⟩
    obtain ⟨hmem, hlt⟩ := Option.mem_filter_iff.mp hdeadline
    have hlt : finish < deadline := of_decide_eq_true hlt
    exact (h deadline hmem).2.resolve_left (Nat.not_le.mpr hlt)

theorem staysTogether_iff {scope key : String} {s s' : Nat × Redis} {c : StoreCall}
    (hstep : storesStep scope key s c = some s') :
    StaysTogether scope key s c ↔ OutlivesMetadata scope key s c := by
  unfold storesStep at hstep
  split at hstep
  · next htimes =>
      obtain ⟨-, hle, hquiet⟩ := htimes
      obtain ⟨hdata, hmeta⟩ := c.afterFirst_lookup scope key s.2
      have halive : (s.2.deadline c.start (wsMetaKey scope key)).all (c.start < ·) := by
        rw [← Keyspace.filter_deadline]
        exact Keyspace.all_filter_deadline _ _
      have hfirst : ∀ now, Together scope key (c.afterFirst scope key s.2).1 now ↔ _ :=
        together_of_lookup hdata hmeta
      unfold StaysTogether OutlivesMetadata
      simp only [hfirst]
      rw [together_interval halive]
      cases hreply : (c.afterFirst scope key s.2).2 with
      | none =>
          have hrun := c.run_failed hreply
          simp only [hrun, hfirst]
          exact together_failed hquiet
      | some version =>
          have hrun := c.run_version hreply
          obtain ⟨hdata', hmeta'⟩ := storeSecond_lookup c.finish (c.afterFirst scope key s.2).1 scope key
            c.data version c.ttl hdata hmeta
          generalize c.finish + c.ttl * 1000000 = expiry at hdata' hmeta'
          have hsecond := together_of_lookup hdata' hmeta'
          simp only [hrun, hsecond]
          by_cases httl : 0 < c.ttl
          · simp only [if_pos httl]
            simp only [httl, Option.isSome_some, if_true, true_or, and_true, implies_true]
          · simp only [if_neg httl]
            rw [together_interval (Keyspace.all_filter_deadline _ _), together_permanent]
            simp [httl]
  · cases hstep

end Mcp

/-- In every run of stores on one key, whatever their lifetimes and times: the data and the
metadata are together at every moment if and only if the metadata that each store finds
lives long enough. -/
theorem lifetimes_together_iff (scope key : String) (s t : Nat × Redis)
    (calls : List Mcp.StoreCall) (hexec : exec (Mcp.storesStep scope key) s calls = some t) :
    Along (Mcp.storesStep scope key) (Mcp.StaysTogether scope key) s calls ↔
      Along (Mcp.storesStep scope key) (Mcp.OutlivesMetadata scope key) s calls :=
  Along.iff_exec (fun _ => True) (fun _ _ _ _ => trivial)
    (fun _ _ hstep => Mcp.staysTogether_iff hstep) trivial hexec (Along.trivial s calls)

/-- A store for ten seconds, and five seconds later another one. -/
def storedTwice (ttl : Nat) : List Mcp.StoreCall :=
  [{ data := [1], ttl := 10, start := 0, finish := 1, quietUntil := 5000000 },
    { data := [2], ttl, start := 5000000, finish := 5000001, quietUntil := 60000000 }]

theorem lifetimes_together_renewed :
    Along (Mcp.storesStep "project" "k") (Mcp.StaysTogether "project" "k") (0, ∅) (storedTwice 10) := by
  obtain ⟨t, hexec⟩ := Option.isSome_iff_exists.mp (show (exec (Mcp.storesStep "project" "k") (0, ∅)
    (storedTwice 10)).isSome = true by decide +kernel)
  exact (lifetimes_together_iff "project" "k" (0, ∅) t (storedTwice 10) hexec).mpr (by decide +kernel)

/-- The second store is meant to be permanent: the metadata expires ten seconds after the
first one, and the data is then found with a version that it never had. -/
theorem permanentStore_losesMetadata :
    ∃ t, exec (Mcp.storesStep "project" "k") (0, ∅) (storedTwice 0) = some t ∧
      (t.2.hget 10000000 (Mcp.wsMetaKey "project" "k") "version") = some 2 ∧
      t.2.value 10000001 (Mcp.wsMetaKey "project" "k") = none ∧
      Mcp.getFromScope 10000001 t.2 "project" "k" = some ([2], 1) := by
  obtain ⟨t, hexec⟩ := Option.isSome_iff_exists.mp (show (exec (Mcp.storesStep "project" "k") (0, ∅)
    (storedTwice 0)).isSome = true by decide +kernel)
  have ht : ∀ x ∈ exec (Mcp.storesStep "project" "k") (0, ∅) (storedTwice 0),
      (x.2.hget 10000000 (Mcp.wsMetaKey "project" "k") "version") = some 2 ∧
      (x.2.value 10000001 (Mcp.wsMetaKey "project" "k")).isNone ∧
      Mcp.getFromScope 10000001 x.2 "project" "k" = some ([2], 1) := by
    decide +kernel
  obtain ⟨hversion, hgone, hfound⟩ := ht t hexec
  exact ⟨t, hexec, hversion, Option.isNone_iff_eq_none.mp hgone, hfound⟩

end Labios
