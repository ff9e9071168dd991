import Labios.Foundation.Entries
import Labios.Workspace.Writers

/-!
# Version numbers of concurrent writers

What one step of a writer does to the version counter and to the copies of versions
(`numberStep_effect`, `laterStep_effect`), and the invariant that follows: as long as the
metadata has not expired, the counter has room, and the second transaction of a store
comes before the next number is taken, every call has a number of its own that is not
above the counter, and the copy of that version is the data of the call
(`Numbered.step`).
-/

namespace Labios

open Foundation RedisValue

/-! ## The counter -/

/-- The number in the version field. -/
def counter (o : Option RedisValue) : Nat :=
  ((asHash o).bind (·.lookup "version")).elim 0 Fin.val

/-- A hash, or nothing. -/
def IsHash (o : Option RedisValue) : Prop := ∀ v, o = some v → ∃ fields, v = .hash fields

section Counter

variable {o : Option RedisValue} {field : String} {n : RedisInt}

theorem IsHash.cases (h : IsHash o) : o = none ∨ ∃ fields, o = some (.hash fields) := by
  cases o with
  | none => exact .inl rfl
  | some v =>
      obtain ⟨fields, rfl⟩ := h v rfl
      exact .inr ⟨fields, rfl⟩

theorem isHash_withField (h : IsHash o) : IsHash (withField field n o) := by
  rcases h.cases with rfl | ⟨fields, rfl⟩
  · rintro v hv
    exact ⟨_, (Option.some.inj hv).symm⟩
  · rintro v hv
    exact ⟨_, (Option.some.inj hv).symm⟩

theorem counter_withField_version (h : IsHash o) :
    counter (withField "version" n o) = n.val := by
  rcases h.cases with rfl | ⟨fields, rfl⟩
  · simp only [counter, withField, asHash, Option.bind_some]
    rw [AList.lookup_insert]
    rfl
  · simp only [counter, withField, asHash, Option.bind_some]
    rw [AList.lookup_insert]
    rfl

theorem counter_withField_ne (hfield : field ≠ "version") :
    counter (withField field n o) = counter o := by
  cases o with
  | none =>
      simp only [counter, withField, asHash, Option.bind_some]
      rw [AList.lookup_insert_ne (Ne.symm hfield)]
      rfl
  | some v =>
      cases v with
      | hash fields =>
          simp only [counter, withField, asHash, Option.bind_some]
          rw [AList.lookup_insert_ne (Ne.symm hfield)]
      | _ => rfl

theorem counter_hash (fields : AList fun _ : String => RedisInt) :
    counter (some (.hash fields)) = ((fields.lookup "version").getD 0).val := by
  unfold counter asHash
  rw [Option.bind_some]
  cases fields.lookup "version" with
  | none => rfl
  | some n => rfl

theorem incremented_of_room (h : IsHash o) (hroom : counter o + 1 < 2 ^ 63) :
    incremented "version" o = some ⟨counter o + 1, hroom⟩ := by
  rcases h.cases with rfl | ⟨fields, rfl⟩
  · rfl
  · have hlt : ((fields.lookup "version").getD 0).val + 1 < 2 ^ 63 := counter_hash fields ▸ hroom
    unfold incremented
    simp only [dif_pos hlt]
    exact congrArg some (Fin.ext (congrArg (· + 1) (counter_hash fields).symm))

theorem incremented_of_full (h : IsHash o) (hfull : ¬counter o + 1 < 2 ^ 63) :
    incremented "version" o = none := by
  rcases h.cases with rfl | ⟨fields, rfl⟩
  · exact absurd (by decide : counter none + 1 < 2 ^ 63) hfull
  · have hnot : ¬((fields.lookup "version").getD 0).val + 1 < 2 ^ 63 := counter_hash fields ▸ hfull
    unfold incremented
    simp only [dif_neg hnot]

end Counter

/-! ## Commands -/

section Commands

variable {r : Redis} {now : Nat} {key x field member : String} {n : RedisInt}

theorem written_hset_ne (hne : x ≠ key) :
    Keyspace.written (r.hset now key field n) x = r.written x := Keyspace.written_modify_ne hne _

theorem written_hset_self (h : r.Current now key) :
    Keyspace.written (r.hset now key field n) key = withField field n (r.written key) :=
  Keyspace.written_modify_self h _

theorem written_sadd_ne (hne : x ≠ key) :
    Keyspace.written (r.sadd now key member) x = r.written x := Keyspace.written_modify_ne hne _

theorem written_hincrby_ne (hne : x ≠ key) :
    Keyspace.written (r.hincrby now key field).1 x = r.written x := by
  unfold Redis.hincrby
  split
  · exact written_hset_ne hne
  · rfl

theorem Current.hset (h : r.Current now x) (later : Nat) :
    Keyspace.Current (r.hset later key field n) now x := h.modify later key _

theorem Current.hincrby (h : r.Current now x) (later : Nat) :
    Keyspace.Current (r.hincrby later key field).1 now x := by
  unfold Redis.hincrby
  split
  · exact Current.hset h later
  · exact h

/-- With room for it, `HINCRBY` counts and replies the new number. -/
theorem hincrby_version (hcurrent : r.Current now key) (hhash : IsHash (r.written key))
    (hroom : counter (r.written key) + 1 < 2 ^ 63) :
    r.hincrby now key "version" =
      (r.hset now key "version" ⟨counter (r.written key) + 1, hroom⟩,
        ⟨counter (r.written key) + 1, hroom⟩) := by
  unfold Redis.hincrby
  rw [Keyspace.value_of_current hcurrent, incremented_of_room hhash hroom]

end Commands

/-! ## Effects on the counter and the copies -/

namespace Workspace

variable {ws : Workspace} {key : String} {now : Nat} {r r' : Redis} {write : Write}
  {reply : Option RedisInt}

/-- While the counter has room, the first transaction of a store replies the number that
it took, unless something else than a set is under the index key. -/
theorem storeFirst_reply (hcurrent : r.Current now (ws.metaKey key))
    (hhash : IsHash (r.written (ws.metaKey key)))
    (hroom : counter (r.written (ws.metaKey key)) + 1 < 2 ^ 63) (data : List UInt8) (nowUs : Nat)
    {r₄ : Redis} (h : r₄ = Redis.hset (Redis.hset
      ((r.setBinary (ws.dataKey key) data).hincrby now (ws.metaKey key) "version").1
      now (ws.metaKey key) "size" (Fin.ofNat _ data.length))
      now (ws.metaKey key) "updated_us" (Fin.ofNat _ nowUs)) :
    (Mcp.storeFirst now r ws.name key data nowUs).2 =
        some ⟨counter (r.written (ws.metaKey key)) + 1, hroom⟩ ∨
      (Mcp.storeFirst now r ws.name key data nowUs).2 = none ∧
        ∃ v, r₄.value now ws.indexKey = some v ∧ ∀ members, v ≠ .set members := by
  have hsame : Keyspace.written (r.setBinary (ws.dataKey key) data) (ws.metaKey key) =
      r.written (ws.metaKey key) := Keyspace.written_store_ne (dataKey_ne_metaKey ws key).symm
  have hcurrent₁ : Keyspace.Current (r.setBinary (ws.dataKey key) data) now (ws.metaKey key) :=
    hcurrent.store _ _
  have hsnd := Mcp.storeFirst_snd now r ws.name key data nowUs h
  rw [wsDataKey_eq, wsMetaKey_eq, wsIndexKey_eq, Keyspace.value_of_current hcurrent₁, hsame,
    incremented_of_room hhash hroom] at hsnd
  cases hvalue : Keyspace.value r₄ now ws.indexKey with
  | none =>
      rw [hvalue] at hsnd
      exact .inl hsnd
  | some v =>
      rw [hvalue] at hsnd
      cases v with
      | set members => exact .inl hsnd
      | _ => exact .inr ⟨hsnd, _, rfl, nofun⟩

/-- The number that is taken is one more, and nothing else is about versions. -/
theorem numberStep_effect (hnumber : ws.numberStep key now r write = (r', reply))
    (hcurrent : r.Current now (ws.metaKey key)) (hhash : IsHash (r.written (ws.metaKey key)))
    (hroom : counter (r.written (ws.metaKey key)) + 1 < 2 ^ 63) :
    IsHash (r'.written (ws.metaKey key)) ∧
      counter (r'.written (ws.metaKey key)) = counter (r.written (ws.metaKey key)) + 1 ∧
      (∀ version, reply = some version →
        version.val = counter (r.written (ws.metaKey key)) + 1) ∧
      ∀ x, x ≠ ws.dataKey key → x ≠ ws.metaKey key → x ≠ ws.indexKey →
        r'.written x = r.written x := by
  cases write with
  | put ttlSeconds data nowUs =>
      have hpair : ((r.hincrby now (ws.metaKey key) "version").1,
          some (r.hincrby now (ws.metaKey key) "version").2) = (r', reply) := hnumber
      rw [hincrby_version hcurrent hhash hroom] at hpair
      obtain ⟨hr', hreply⟩ := Prod.mk.inj hpair
      have hself : r'.written (ws.metaKey key) = withField "version"
          ⟨counter (r.written (ws.metaKey key)) + 1, hroom⟩ (r.written (ws.metaKey key)) := by
        rw [← hr']
        exact written_hset_self hcurrent
      have hothers : ∀ x, x ≠ ws.metaKey key → r'.written x = r.written x := by
        intro x hx
        rw [← hr']
        exact written_hset_ne hx
      rw [hself]
      refine ⟨isHash_withField hhash, counter_withField_version hhash, ?_,
        fun x _ hx _ => hothers x hx⟩
      intro version hversion
      obtain rfl := Option.some.inj (hreply.trans hversion)
      rfl
  | store data nowUs ttl =>
      let r₁ : Redis := r.setBinary (ws.dataKey key) data
      have hdata : ws.metaKey key ≠ ws.dataKey key := (dataKey_ne_metaKey ws key).symm
      have hsame : Keyspace.written r₁ (ws.metaKey key) = r.written (ws.metaKey key) :=
        Keyspace.written_store_ne hdata
      have hcurrent₁ : Keyspace.Current r₁ now (ws.metaKey key) := hcurrent.store _ _
      have hreply : ∀ version, reply = some version →
          version.val = counter (r.written (ws.metaKey key)) + 1 := by
        intro version hversion
        have hsnd : (Mcp.storeFirst now r ws.name key data nowUs).2 = some version :=
          (congrArg Prod.snd hnumber).trans hversion
        rcases storeFirst_reply hcurrent hhash hroom data nowUs rfl with htaken | ⟨hnone, -⟩
        · obtain rfl := Option.some.inj (hsnd.symm.trans htaken)
          rfl
        · cases hsnd.symm.trans hnone
      rw [← hsame] at hhash hroom hreply ⊢
      have hincrby := hincrby_version hcurrent₁ hhash hroom
      let r₂ : Redis := r₁.hset now (ws.metaKey key) "version"
        ⟨counter (r₁.written (ws.metaKey key)) + 1, hroom⟩
      let r₃ : Redis := r₂.hset now (ws.metaKey key) "size" (Fin.ofNat _ data.length)
      let r₄ : Redis := r₃.hset now (ws.metaKey key) "updated_us" (Fin.ofNat _ nowUs)
      have hr' : r' = r₄.sadd now ws.indexKey key := by
        have hfst := (congrArg Prod.fst hnumber).symm.trans
          (Mcp.storeFirst_fst now r ws.name key data nowUs)
        rw [wsDataKey_eq, wsMetaKey_eq, wsIndexKey_eq, hincrby] at hfst
        exact hfst
      have hcurrent₂ : Keyspace.Current r₂ now (ws.metaKey key) := Current.hset hcurrent₁ now
      have hwritten : Keyspace.written r' (ws.metaKey key) =
          withField "updated_us" (Fin.ofNat _ nowUs)
            (withField "size" (Fin.ofNat _ data.length)
              (withField "version" ⟨counter (r₁.written (ws.metaKey key)) + 1, hroom⟩
                (r₁.written (ws.metaKey key)))) := by
        rw [hr', written_sadd_ne (indexKey_ne_metaKey ws key).symm,
          written_hset_self (Current.hset hcurrent₂ now), written_hset_self hcurrent₂,
          written_hset_self hcurrent₁]
      rw [hwritten]
      refine ⟨isHash_withField (isHash_withField (isHash_withField hhash)), ?_, hreply,
        fun x hx hmeta hindex => ?_⟩
      · rw [counter_withField_ne (by decide), counter_withField_ne (by decide),
          counter_withField_version hhash]
      · rw [hr', written_sadd_ne hindex, written_hset_ne hmeta, written_hset_ne hmeta,
          written_hset_ne hmeta]
        exact Keyspace.written_store_ne hx

/-- The lifetimes do not change what is written. -/
theorem storeSecond_written (now : Nat) (r : Redis) (scope key : String) (data : List UInt8)
    (version : RedisInt) (ttl : Nat) (x : String) :
    Keyspace.written (Mcp.storeSecond now r scope key data version ttl) x =
      Keyspace.written (Redis.hset (r.setBinary (Mcp.wsVersionKey scope key version.val) data) now
        (Mcp.wsMetaKey scope key) "version" version) x := by
  unfold Mcp.storeSecond
  dsimp only
  split
  · rw [Keyspace.written_expire, Keyspace.written_expire, Keyspace.written_expire]
  · rfl

/-- What a later step does: a put does not touch the counter, the second transaction of a
store sets it to its own number, and one step of each sets the copy. -/
theorem laterStep_effect {version : RedisInt} {d : Nat} {step : Nat → Redis → Redis}
    (hstep : (ws.laterSteps key version write)[d]? = some step)
    (hcurrent : r.Current now (ws.metaKey key)) (hhash : IsHash (r.written (ws.metaKey key))) :
    IsHash (Keyspace.written (step now r) (ws.metaKey key)) ∧
      counter (Keyspace.written (step now r) (ws.metaKey key)) =
        (if write.isStore then version.val else counter (r.written (ws.metaKey key))) ∧
      Keyspace.written (step now r) (ws.versionKey key (UInt64.ofNat version.val)) =
        (if d = write.copiesAt then some (.string write.data)
          else r.written (ws.versionKey key (UInt64.ofNat version.val))) ∧
      ∀ x, x ≠ ws.dataKey key → x ≠ ws.versionKey key (UInt64.ofNat version.val) →
        x ≠ ws.metaKey key → x ≠ ws.indexKey → Keyspace.written (step now r) x = r.written x := by
  have hmeta_data := (dataKey_ne_metaKey ws key).symm
  have hversion_data := (dataKey_ne_versionKey ws key (UInt64.ofNat version.val)).symm
  have hmeta_version := (versionKey_ne_metaKey ws key (UInt64.ofNat version.val)).symm
  cases write with
  | put ttlSeconds data nowUs =>
      obtain ⟨c, hc, rfl⟩ := Option.map_eq_some_iff.mp (List.getElem?_map.symm.trans hstep)
      dsimp only
      rcases putCommands_cases hc with ⟨rfl, rfl⟩ | ⟨rfl, rfl⟩ | ⟨hd, hc⟩
      · have hother : ∀ x, x ≠ ws.dataKey key →
            Keyspace.written (RedisCommand.run now r (.set (ws.dataKey key) data)) x = r.written x :=
          fun x hx => Keyspace.written_store_ne hx
        refine ⟨?_, ?_, ?_, fun x hx _ _ _ => hother x hx⟩
        · exact (congrArg IsHash (hother _ hmeta_data)).mpr hhash
        · exact congrArg counter (hother _ hmeta_data)
        · exact hother _ hversion_data
      · have hother : ∀ x, x ≠ ws.versionKey key (UInt64.ofNat version.val) →
            Keyspace.written (RedisCommand.run now r
              (.set (ws.versionKey key (UInt64.ofNat version.val)) data)) x = r.written x :=
          fun x hx => Keyspace.written_store_ne hx
        refine ⟨?_, ?_, ?_, fun x _ hx _ _ => hother x hx⟩
        · exact (congrArg IsHash (hother _ hmeta_version)).mpr hhash
        · exact congrArg counter (hother _ hmeta_version)
        · exact Keyspace.written_store_self r _ _
      · have hlast : ¬d = 1 := by omega
        show _ ∧ _ = counter _ ∧ _ = (if d = 1 then _ else _) ∧ _
        rw [if_neg hlast]
        rcases hc with ⟨field, n, hfield, rfl⟩ | ⟨x, rfl⟩ | rfl
        · have hself : Keyspace.written (r.hset now (ws.metaKey key) field n) (ws.metaKey key) = _ :=
            written_hset_self hcurrent
          refine ⟨?_, ?_, ?_, fun x _ _ hx _ => written_hset_ne hx⟩
          · exact hself ▸ isHash_withField hhash
          · exact (congrArg counter hself).trans (counter_withField_ne hfield)
          · exact written_hset_ne hmeta_version.symm
        · have hsame : ∀ y, Keyspace.written (RedisCommand.run now r (.expire x ttlSeconds)) y =
              r.written y := fun y => Keyspace.written_expire r now x _ y
          refine ⟨?_, congrArg counter (hsame _), hsame _, fun y _ _ _ _ => hsame y⟩
          exact (congrArg IsHash (hsame _)).mpr hhash
        · have hindex : ∀ y, y ≠ ws.indexKey →
              Keyspace.written (r.sadd now ws.indexKey key) y = r.written y :=
            fun y hy => written_sadd_ne hy
          refine ⟨?_, ?_, ?_, fun y _ _ _ hy => hindex y hy⟩
          · exact (hindex _ (indexKey_ne_metaKey ws key).symm).symm ▸ hhash
          · exact congrArg counter (hindex _ (indexKey_ne_metaKey ws key).symm)
          · exact hindex _ (indexKey_ne_versionKey ws ws key _).symm
  | store data nowUs ttl =>
      have hzero : d = 0 := by
        have hlt := (List.getElem?_eq_some_iff.mp hstep).1
        exact Nat.lt_one_iff.mp hlt
      subst hzero
      obtain rfl := Option.some.inj hstep
      have hcurrent' : Keyspace.Current (r.setBinary (Mcp.wsVersionKey ws.name key version.val) data)
          now (ws.metaKey key) := hcurrent.store _ _
      simp only [storeSecond_written]
      rw [wsVersionKey_eq] at hcurrent' ⊢
      show IsHash (Keyspace.written (Redis.hset _ now (ws.metaKey key) "version" version) _) ∧
        counter (Keyspace.written (Redis.hset _ now (ws.metaKey key) "version" version) _) =
          version.val ∧ _ = some (RedisValue.string data) ∧ _
      have hsame : Keyspace.written (r.setBinary (ws.versionKey key (UInt64.ofNat version.val)) data)
          (ws.metaKey key) = r.written (ws.metaKey key) := Keyspace.written_store_ne hmeta_version
      rw [written_hset_self hcurrent', hsame]
      refine ⟨isHash_withField hhash, counter_withField_version hhash, ?_, fun x _ hx hmeta _ => ?_⟩
      · exact (written_hset_ne hmeta_version.symm).trans (Keyspace.written_store_self r _ _)
      · exact (written_hset_ne hmeta).trans (Keyspace.written_store_ne hx)

/-! ## Numbers along a run -/

/-- The metadata has not expired, and the counter has room for one more. -/
def HasRoom (ws : Workspace) (key : String) (s : Writers) : WritersAction → Prop
  | .begins _ => True
  | .advances i now => s.redis.Current now (ws.metaKey key) ∧
      ∀ w ∈ s.writers[i]?, w.version = none →
        counter (s.redis.written (ws.metaKey key)) + 1 < 2 ^ 63

/-- The second transaction of a store finds its own number in the counter. -/
def FindsOwn (ws : Workspace) (key : String) (s : Writers) : WritersAction → Prop
  | .begins _ => True
  | .advances i _ => ∀ w ∈ s.writers[i]?, w.write.isStore → ∀ version ∈ w.version,
      counter (s.redis.written (ws.metaKey key)) = version.val

instance HasRoom.decidable (ws : Workspace) (key : String) (s : Writers) :
    (a : WritersAction) → Decidable (ws.HasRoom key s a)
  | .begins _ => isTrue trivial
  | .advances i now =>
      let _ : Decidable (∀ w ∈ s.writers[i]?, w.version = none →
          counter (s.redis.written (ws.metaKey key)) + 1 < 2 ^ 63) := Option.decidableForallMem _
      inferInstanceAs (Decidable (s.redis.Current now (ws.metaKey key) ∧ _))

-- over the one number, not over all numbers
instance FindsOwn.decidable (ws : Workspace) (key : String) (s : Writers) :
    (a : WritersAction) → Decidable (ws.FindsOwn key s a)
  | .begins _ => isTrue trivial
  | .advances i _ =>
      let _ := fun w : Writer => (Option.decidableForallMem _ : Decidable (∀ version ∈ w.version,
        counter (s.redis.written (ws.metaKey key)) = version.val))
      (Option.decidableForallMem _ : Decidable (∀ w ∈ s.writers[i]?, w.write.isStore →
        ∀ version ∈ w.version, counter (s.redis.written (ws.metaKey key)) = version.val))

/-- Every call has a number of its own between the first counter and the current one, and
the copy of its version is its data. -/
structure Numbered (ws : Workspace) (key : String) (start : Nat) (s : Writers) : Prop where
  hash : IsHash (s.redis.written (ws.metaKey key))
  start_le : start ≤ counter (s.redis.written (ws.metaKey key))
  fresh : ∀ w ∈ s.writers, w.version = none → w.done = 0
  bounds : ∀ w ∈ s.writers, ∀ version, w.version = some version →
    start < version.val ∧ version.val ≤ counter (s.redis.written (ws.metaKey key))
  distinct : ∀ (i j : Nat) (w w' : Writer) (version : RedisInt),
    s.writers[i]? = some w → s.writers[j]? = some w' → w.version = some version →
    w'.version = some version → i = j
  copies : ∀ w ∈ s.writers, ∀ version, w.version = some version → w.write.copiesAt < w.done →
    s.redis.written (ws.versionKey key (UInt64.ofNat version.val)) = some (.string w.write.data)

section Numbers

variable {start i : Nat} {s s' : Writers} {w w' : Writer}

theorem versionKey_ne {v version : RedisInt} (hne : v ≠ version) :
    ws.versionKey key (UInt64.ofNat v.val) ≠ ws.versionKey key (UInt64.ofNat version.val) := by
  intro h
  have hlt : ∀ n : RedisInt, n.val < 2 ^ 64 := fun n => Nat.lt_trans n.isLt (by decide)
  have heq := congrArg UInt64.toNat (versionKey_inj h)
  rw [UInt64.toNat_ofNat_of_lt' (hlt v), UInt64.toNat_ofNat_of_lt' (hlt version)] at heq
  exact hne (Fin.ext heq)

theorem Numbered.begins (h : Numbered ws key start s) (write : Write) :
    Numbered ws key start { s with writers := s.writers ++ [{ write }] } := by
  refine ⟨h.hash, h.start_le, forall_snoc h.fresh fun _ => rfl,
    forall_snoc h.bounds fun version hversion => ?_, ?_,
    forall_snoc h.copies fun version hversion => ?_⟩
  · cases hversion
  · intro i j w w' version hi hj hw hw'
    rcases getElem?_snoc_cases hi with hi | ⟨-, rfl⟩
    · rcases getElem?_snoc_cases hj with hj | ⟨-, rfl⟩
      · exact h.distinct i j w w' version hi hj hw hw'
      · cases hw'
    · cases hw
  · cases hversion

/-- The step in which a call asks for its number. -/
theorem Numbered.number (h : Numbered ws key start s) (hi : s.writers[i]? = some w)
    (hwriters : s'.writers = s.writers.set i w') (hnone : w.version = none)
    (hdone : w'.done = w.done)
    (hversion : ∀ version, w'.version = some version →
      version.val = counter (s.redis.written (ws.metaKey key)) + 1)
    (hhash : IsHash (s'.redis.written (ws.metaKey key)))
    (hcounter : counter (s'.redis.written (ws.metaKey key)) =
      counter (s.redis.written (ws.metaKey key)) + 1)
    (hothers : ∀ x, x ≠ ws.dataKey key → x ≠ ws.metaKey key → x ≠ ws.indexKey →
      s'.redis.written x = s.redis.written x) : Numbered ws key start s' := by
  have hzero : w'.done = 0 := hdone.trans (h.fresh w (List.mem_of_getElem? hi) hnone)
  have hstart := h.start_le
  -- the number is above all that were taken
  have hnew : ∀ u ∈ s.writers, ∀ version, u.version = some version →
      w'.version ≠ some version := by
    intro u hu version hversion' heq
    have hle := (h.bounds u hu version hversion').2
    have := hversion version heq
    omega
  refine ⟨hhash, by omega, ?_, ?_, ?_, ?_⟩
  · rw [hwriters]
    exact forall_set h.fresh fun _ => hzero
  · rw [hwriters, hcounter]
    refine forall_set (fun u hu version hu' => ?_) fun version hv => ?_
    · obtain ⟨hlt, hle⟩ := h.bounds u hu version hu'
      omega
    · have := hversion version hv
      omega
  · rw [hwriters]
    intro j k u u' version hj hk hu hu'
    rcases getElem?_set_cases hj with ⟨rfl, rfl⟩ | ⟨-, hold⟩
    · rcases getElem?_set_cases hk with ⟨rfl, -⟩ | ⟨-, hold'⟩
      · rfl
      · exact absurd hu (hnew u' (List.mem_of_getElem? hold') version hu')
    · rcases getElem?_set_cases hk with ⟨rfl, rfl⟩ | ⟨-, hold'⟩
      · exact absurd hu' (hnew u (List.mem_of_getElem? hold) version hu)
      · exact h.distinct j k u u' version hold hold' hu hu'
  · rw [hwriters]
    refine forall_set (fun u hu version hu' hcopied => ?_) fun version _ hcopied => ?_
    · rw [hothers _ (dataKey_ne_versionKey ws key _).symm (versionKey_ne_metaKey ws key _)
        (indexKey_ne_versionKey ws ws key _).symm]
      exact h.copies u hu version hu' hcopied
    · omega

/-- A later step. -/
theorem Numbered.later (h : Numbered ws key start s) (hi : s.writers[i]? = some w)
    {version : RedisInt} {step : Nat → Redis → Redis} (hversion : w.version = some version)
    (hstep : (ws.laterSteps key version w.write)[w.done]? = some step)
    (hcurrent : s.redis.Current now (ws.metaKey key))
    (hown : w.write.isStore → counter (s.redis.written (ws.metaKey key)) = version.val)
    (hredis : s'.redis = step now s.redis)
    (hwriters : s'.writers = s.writers.set i { w with done := w.done + 1 }) :
    Numbered ws key start s' ∧ counter (s'.redis.written (ws.metaKey key)) =
      counter (s.redis.written (ws.metaKey key)) := by
  obtain ⟨hhash, hset, hcopy, hothers⟩ := laterStep_effect hstep hcurrent h.hash
  rw [← hredis] at hhash hset hcopy hothers
  have hcounter : counter (s'.redis.written (ws.metaKey key)) =
      counter (s.redis.written (ws.metaKey key)) := by
    rw [hset]
    split
    · next hstore => exact (hown hstore).symm
    · rfl
  have hw := List.mem_of_getElem? hi
  have hstart : start ≤ counter (s'.redis.written (ws.metaKey key)) := by
    rw [hcounter]
    exact h.start_le
  refine ⟨⟨hhash, hstart, ?_, ?_, ?_, ?_⟩, hcounter⟩
  · rw [hwriters]
    refine forall_set h.fresh fun hnone => ?_
    rw [show w.version = none from hnone] at hversion
    cases hversion
  · rw [hwriters, hcounter]
    exact forall_set h.bounds (h.bounds w hw)
  · rw [hwriters]
    intro j k u u' v hj hk hu hu'
    rcases getElem?_set_cases hj with ⟨rfl, rfl⟩ | ⟨-, hold⟩
    · rcases getElem?_set_cases hk with ⟨rfl, -⟩ | ⟨-, hold'⟩
      · rfl
      · exact h.distinct j k w u' v hi hold' hu hu'
    · rcases getElem?_set_cases hk with ⟨rfl, rfl⟩ | ⟨-, hold'⟩
      · exact h.distinct j k u w v hold hi hu hu'
      · exact h.distinct j k u u' v hold hold' hu hu'
  · rw [hwriters]
    intro u hu v hv hcopied
    obtain ⟨k, hk⟩ := List.mem_iff_getElem?.mp hu
    rcases getElem?_set_cases hk with ⟨rfl, rfl⟩ | ⟨hne, hk⟩
    · obtain rfl := Option.some.inj (hversion.symm.trans hv)
      rw [hcopy]
      split
      · rfl
      · next hother => exact h.copies w hw version hversion (by dsimp only at hcopied; omega)
    · have hdiffers : v ≠ version := by
        rintro rfl
        exact hne (h.distinct k i u w v hk hi hv hversion)
      rw [hothers _ (dataKey_ne_versionKey ws key _).symm (versionKey_ne hdiffers)
        (versionKey_ne_metaKey ws key _) (indexKey_ne_versionKey ws ws key _).symm]
      exact h.copies u (List.mem_of_getElem? hk) v hv hcopied

/-- Numbers stay in order, and the counter does not go back. -/
theorem Numbered.step {a : WritersAction} (h : Numbered ws key start s)
    (hroom : ws.HasRoom key s a) (hfinds : ws.FindsOwn key s a) (hstep : ws.writersStep key s a = some s') :
    Numbered ws key start s' ∧ counter (s.redis.written (ws.metaKey key)) ≤
      counter (s'.redis.written (ws.metaKey key)) := by
  cases a with
  | begins write =>
      obtain ⟨-, rfl⟩ := writersStep_begins hstep
      exact ⟨h.begins write, Nat.le_refl _⟩
  | advances i now =>
      obtain ⟨hcurrent, hroom⟩ := hroom
      obtain ⟨w, w', hi, hsteps, hwriters⟩ := writersStep_advances hstep
      obtain ⟨r', hredis⟩ : ∃ r', r' = s'.redis := ⟨_, rfl⟩
      rw [← hredis] at hsteps
      cases hsteps with
      | told hnone hnumber =>
          obtain ⟨hhash, hcounter, hreply, hothers⟩ :=
            numberStep_effect hnumber hcurrent h.hash (hroom w hi hnone)
          rw [hredis] at hhash hcounter hothers
          exact ⟨h.number hi hwriters hnone rfl hreply hhash hcounter hothers, by omega⟩
      | failed hnone hnumber =>
          obtain ⟨hhash, hcounter, -, hothers⟩ :=
            numberStep_effect hnumber hcurrent h.hash (hroom w hi hnone)
          rw [hredis] at hhash hcounter hothers
          refine ⟨h.number hi hwriters hnone rfl (fun version hv => ?_) hhash hcounter hothers,
            by omega⟩
          rw [show w.version = some version from hv] at hnone
          cases hnone
      | later hversion hlater =>
          obtain ⟨hnumbered, hcounter⟩ := h.later hi hversion hlater hcurrent
            (fun hstore => hfinds w hi hstore _ hversion) hredis.symm hwriters
          exact ⟨hnumbered, Nat.le_of_eq hcounter.symm⟩

end Numbers

/-! ## The index -/

/-- A set, or nothing. -/
def IsSet (o : Option RedisValue) : Prop := ∀ v, o = some v → ∃ members, v = .set members

theorem isSet_withMember {o : Option RedisValue} {member : String} (h : IsSet o) :
    IsSet (withMember member o) := by
  intro v hv
  cases o with
  | none => exact ⟨_, (Option.some.inj hv).symm⟩
  | some old =>
      obtain ⟨members, rfl⟩ := h old rfl
      exact ⟨_, (Option.some.inj hv).symm⟩

theorem isSet_sadd {member : String} {x : String} (h : IsSet (r.written x)) :
    IsSet (Keyspace.written (r.sadd now x member) x) :=
  Keyspace.written_modify (P := IsSet) (fun v hv => by cases hv) (fun o => isSet_withMember) h

/-- No step puts anything else under the index key, and a store is told its number. -/
theorem numberStep_index (hkey : key ≠ "_index") (hindex : IsSet (r.written ws.indexKey))
    (hnumber : ws.numberStep key now r write = (r', reply))
    (hcurrent : r.Current now (ws.metaKey key)) (hhash : IsHash (r.written (ws.metaKey key)))
    (hroom : counter (r.written (ws.metaKey key)) + 1 < 2 ^ 63) :
    IsSet (r'.written ws.indexKey) ∧ reply ≠ none := by
  have hmeta := indexKey_ne_metaKey ws key
  cases write with
  | put ttlSeconds data nowUs =>
      cases hnumber
      exact ⟨(congrArg IsSet (written_hincrby_ne hmeta)).mpr hindex, by simp⟩
  | store data nowUs ttl =>
      let r₁ : Redis := r.setBinary (ws.dataKey key) data
      let r₂ : Redis := (r₁.hincrby now (ws.metaKey key) "version").1
      let r₃ : Redis := r₂.hset now (ws.metaKey key) "size" (Fin.ofNat _ data.length)
      let r₄ : Redis := r₃.hset now (ws.metaKey key) "updated_us" (Fin.ofNat _ nowUs)
      have hindex₄ : IsSet (Keyspace.written r₄ ws.indexKey) := by
        rw [written_hset_ne hmeta, written_hset_ne hmeta, written_hincrby_ne hmeta]
        exact (congrArg IsSet
          (Keyspace.written_store_ne (dataKey_ne_indexKey ws hkey).symm)).mpr hindex
      have hfst : r' = r₄.sadd now ws.indexKey key := (congrArg Prod.fst hnumber).symm.trans
        (Mcp.storeFirst_fst now r ws.name key data nowUs)
      have hset : IsSet (r'.written ws.indexKey) := by
        rw [hfst]
        exact isSet_sadd hindex₄
      refine ⟨hset, ?_⟩
      have hsnd : (Mcp.storeFirst now r ws.name key data nowUs).2 = reply :=
        congrArg Prod.snd hnumber
      rintro rfl
      rcases storeFirst_reply hcurrent hhash hroom data nowUs (show r₄ = _ from rfl) with
        htaken | ⟨-, v, hv, hother⟩
      · cases hsnd.symm.trans htaken
      · rcases Keyspace.value_cases r₄ now ws.indexKey with hvalue | hvalue
        · obtain ⟨members, rfl⟩ := hindex₄ v (hvalue.symm.trans hv)
          exact hother members rfl
        · cases hvalue.symm.trans hv

theorem laterStep_index (hkey : key ≠ "_index") (hindex : IsSet (r.written ws.indexKey))
    {version : RedisInt} {d : Nat} {step : Nat → Redis → Redis}
    (hstep : (ws.laterSteps key version write)[d]? = some step) :
    IsSet (Keyspace.written (step now r) ws.indexKey) := by
  have hdata := (dataKey_ne_indexKey ws hkey).symm
  have hversion := indexKey_ne_versionKey ws ws key (UInt64.ofNat version.val)
  have hmeta := indexKey_ne_metaKey ws key
  cases write with
  | put ttlSeconds data nowUs =>
      obtain ⟨c, hc, rfl⟩ := Option.map_eq_some_iff.mp (List.getElem?_map.symm.trans hstep)
      rcases putCommands_cases hc with ⟨-, rfl⟩ | ⟨-, rfl⟩ | ⟨-, hc⟩
      · exact (congrArg IsSet (Keyspace.written_store_ne hdata)).mpr hindex
      · exact (congrArg IsSet (Keyspace.written_store_ne hversion)).mpr hindex
      · rcases hc with ⟨field, n, -, rfl⟩ | ⟨x, rfl⟩ | rfl
        · exact (congrArg IsSet (written_hset_ne hmeta)).mpr hindex
        · exact (congrArg IsSet (Keyspace.written_expire r now x _ _)).mpr hindex
        · exact isSet_sadd hindex
  | store data nowUs ttl =>
      have hzero : d = 0 := Nat.lt_one_iff.mp (List.getElem?_eq_some_iff.mp hstep).1
      subst hzero
      obtain rfl := Option.some.inj hstep
      dsimp only
      rw [storeSecond_written, wsVersionKey_eq, wsMetaKey_eq, written_hset_ne hmeta]
      exact (congrArg IsSet (Keyspace.written_store_ne hversion)).mpr hindex

end Workspace

end Labios
