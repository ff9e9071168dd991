import Labios.Workspace.VersionNumbers
import Mathlib.Data.List.Nodup

/-!
# Concurrent puts without a lifetime

When all calls are puts without a lifetime, the metadata never expires and no number is
written twice, so the invariant of the version numbers holds in every run that has room
for them (`Puts.step`). The current data and the size in the metadata are each written
by one step of every put; they belong to the latest version that has made this step, if
the puts make it in the order of their versions (`Latest.later`).
-/

namespace Labios

open Foundation RedisValue

namespace Workspace

variable {ws : Workspace} {key : String} {now : Nat} {r : Redis} {s s' : Writers} {i start : Nat}
  {w w' : Writer} {version : RedisInt} {a : WritersAction}

/-! ## The steps of a put -/

/-- The five commands that follow the number. -/
inductive PutStep (ws : Workspace) (key : String) (version : RedisInt) (write : Write) :
    Nat → (Nat → Redis → Redis) → Prop where
  | data : PutStep ws key version write 0 fun _ r => r.setBinary (ws.dataKey key) write.data
  | copy : PutStep ws key version write 1 fun _ r =>
      r.setBinary (ws.versionKey key (UInt64.ofNat version.val)) write.data
  | size : PutStep ws key version write 2 fun now r =>
      r.hset now (ws.metaKey key) "size" (Fin.ofNat _ write.data.length)
  | updated (nowUs : Nat) : PutStep ws key version write 3 fun now r =>
      r.hset now (ws.metaKey key) "updated_us" (Fin.ofNat _ nowUs)
  | index : PutStep ws key version write 4 fun now r => r.sadd now ws.indexKey key

theorem laterSteps_lasting {write : Write} (hlasting : write.lasting) {d : Nat}
    {step : Nat → Redis → Redis} (hstep : (ws.laterSteps key version write)[d]? = some step) :
    PutStep ws key version write d step := by
  cases write with
  | store data nowUs ttl => cases hlasting
  | put ttlSeconds data nowUs =>
      have httl : ttlSeconds = 0 := of_decide_eq_true hlasting
      subst httl
      match d with
      | 0 =>
          obtain rfl := Option.some.inj hstep
          exact .data
      | 1 =>
          obtain rfl := Option.some.inj hstep
          exact .copy
      | 2 =>
          obtain rfl := Option.some.inj hstep
          exact .size
      | 3 =>
          obtain rfl := Option.some.inj hstep
          exact .updated nowUs
      | 4 =>
          obtain rfl := Option.some.inj hstep
          exact .index
      | d + 5 => cases hstep

theorem length_laterSteps {write : Write} (hlasting : write.lasting) :
    (ws.laterSteps key version write).length = 5 := by
  cases write with
  | store data nowUs ttl => cases hlasting
  | put ttlSeconds data nowUs =>
      have httl : ttlSeconds = 0 := of_decide_eq_true hlasting
      subst httl
      rfl

/-- A put takes its number with `HINCRBY`, and is told one. -/
theorem numberStep_lasting {write : Write} (hlasting : write.lasting) :
    ws.numberStep key now r write =
      ((r.hincrby now (ws.metaKey key) "version").1,
        some (r.hincrby now (ws.metaKey key) "version").2) := by
  cases write with
  | store data nowUs ttl => cases hlasting
  | put ttlSeconds data nowUs => rfl

/-! ## The latest version -/

/-- Of the puts that have made the `k`-th of their steps, the one with the latest version
has left its mark. -/
def Latest (k : Nat) (mark : Redis → Write → Prop) (s : Writers) : Prop :=
  ∀ w ∈ s.writers, ∀ version, w.version = some version → k < w.done →
    (∀ u ∈ s.writers, ∀ version', u.version = some version' → k < u.done → version' ≤ version) →
    mark s.redis w.write

section Latest

variable {k : Nat} {mark : Redis → Write → Prop}

theorem Latest.begins (h : Latest k mark s) (write : Write) :
    Latest k mark { s with writers := s.writers ++ [{ write }] } := by
  refine forall_snoc (fun w hw version hversion hdone hmax => ?_) fun version hversion => ?_
  · exact h w hw version hversion hdone fun u hu => hmax u (List.mem_append_left _ hu)
  · cases hversion

/-- A put that only now takes its number has made none of these steps. -/
theorem Latest.number (h : Latest k mark s) (hi : s.writers[i]? = some w)
    (hwriters : s'.writers = s.writers.set i w') (hnone : w.version = none) (hdone : w'.done = 0)
    (hmark : ∀ write, mark s.redis write → mark s'.redis write) : Latest k mark s' := by
  intro u hu version hversion hpast hmax
  rw [hwriters] at hu hmax
  obtain ⟨j, hj⟩ := List.mem_iff_getElem?.mp hu
  rcases getElem?_set_cases hj with ⟨rfl, rfl⟩ | ⟨hne, hold⟩
  · omega
  · refine hmark _ (h u (List.mem_of_getElem? hold) version hversion hpast fun x hx v hv hx' => ?_)
    obtain ⟨l, hl⟩ := List.mem_iff_getElem?.mp hx
    have hli : l ≠ i := by
      rintro rfl
      obtain rfl := Option.some.inj (hl.symm.trans hi)
      rw [hnone] at hv
      cases hv
    exact hmax x (mem_set_of_ne hl hli) v hv hx'

/-- Another step of a put keeps the marks; this one sets its own, and in the order of
the versions it is the latest. -/
theorem Latest.later (h : Latest k mark s) (hnumbered : Numbered ws key start s)
    (hi : s.writers[i]? = some w) (hversion : w.version = some version)
    (hwriters : s'.writers = s.writers.set i { w with done := w.done + 1 })
    (horder : w.done = k → ∀ u ∈ s.writers, ∀ version', u.version = some version' →
      version < version' → u.done ≤ k)
    (hset : w.done = k → mark s'.redis w.write)
    (hmark : w.done ≠ k → ∀ write, mark s.redis write → mark s'.redis write) :
    Latest k mark s' := by
  intro u hu v hv hpast hmax
  rw [hwriters] at hu hmax
  obtain ⟨j, hj⟩ := List.mem_iff_getElem?.mp hu
  by_cases hk : w.done = k
  · rcases getElem?_set_cases hj with ⟨rfl, rfl⟩ | ⟨hne, hold⟩
    · exact hset hk
    · -- the other one would be later, and has not come so far
      have hle : version ≤ v := hmax _ (mem_set_self hi) version hversion (by
        show k < w.done + 1
        omega)
      rcases Nat.eq_or_lt_of_le (Fin.le_def.mp hle) with heq | hlt
      · exact absurd (hnumbered.distinct j i u w version hold hi (Fin.ext heq ▸ hv) hversion) hne
      · have := horder hk u (List.mem_of_getElem? hold) v hv (Fin.lt_def.mpr hlt)
        omega
  · have hcases : ∀ x ∈ s.writers, k < x.done → ∃ x' ∈ s.writers.set i { w with done := w.done + 1 },
        x'.version = x.version ∧ k < x'.done := by
      intro x hx hpast'
      obtain ⟨l, hl⟩ := List.mem_iff_getElem?.mp hx
      by_cases hli : l = i
      · subst hli
        obtain rfl := Option.some.inj (hl.symm.trans hi)
        exact ⟨_, mem_set_self hi, rfl, Nat.lt_succ_of_lt hpast'⟩
      · exact ⟨x, mem_set_of_ne hl hli, rfl, hpast'⟩
    have hmax' : ∀ x ∈ s.writers, ∀ v', x.version = some v' → k < x.done → v' ≤ v := by
      intro x hx v' hv' hpast'
      obtain ⟨x', hx', hsame, hpast''⟩ := hcases x hx hpast'
      exact hmax x' hx' v' (hsame.trans hv') hpast''
    rcases getElem?_set_cases hj with ⟨rfl, rfl⟩ | ⟨hne, hold⟩
    · have hpast' : k < w.done + 1 := hpast
      exact hmark hk _ (h w (List.mem_of_getElem? hi) v hv (by omega) hmax')
    · exact hmark hk _ (h u (List.mem_of_getElem? hold) v hv hpast hmax')

end Latest

/-! ## What the steps do to Redis -/

/-- The number in a field of the metadata. -/
def fieldOf (field : String) (o : Option RedisValue) : Option RedisInt :=
  (asHash o).bind (·.lookup field)

theorem fieldOf_withField_self {field : String} {n : RedisInt} {o : Option RedisValue}
    (h : IsHash o) : fieldOf field (withField field n o) = some n := by
  rcases h.cases with rfl | ⟨fields, rfl⟩
  · exact AList.lookup_insert _
  · exact AList.lookup_insert _

theorem fieldOf_withField_ne {field field' : String} {n : RedisInt} {o : Option RedisValue}
    (hne : field ≠ field') : fieldOf field (withField field' n o) = fieldOf field o := by
  cases o with
  | none => exact AList.lookup_insert_ne hne
  | some v =>
      cases v with
      | hash fields => exact AList.lookup_insert_ne hne
      | _ => rfl

theorem mem_asMembers_withMember {o : Option RedisValue} {member x : String} (h : IsSet o)
    (hx : x ∈ asMembers o ∨ x = member) : x ∈ asMembers (withMember member o) := by
  cases o with
  | none =>
      rcases hx with hx | rfl
      · cases hx
      · exact List.mem_singleton_self x
  | some v =>
      obtain ⟨members, rfl⟩ := h v rfl
      show x ∈ if member ∈ members then members else members ++ [member]
      split
      · next hmem =>
          rcases hx with hx | rfl
          · exact hx
          · exact hmem
      · rcases hx with hx | rfl
        · exact List.mem_append_left _ hx
        · exact List.mem_append_right _ (List.mem_singleton_self x)

section Steps

variable {write : Write} {d : Nat} {step : Nat → Redis → Redis} {x : String}

/-- No step of a put gives a key a deadline. -/
theorem PutStep.lasting (h : PutStep ws key version write d step) (hlasting : r.Lasting x) :
    Keyspace.Lasting (step now r) x := by
  cases h with
  | data | copy => exact hlasting.store _ _
  | size | updated | index => exact hlasting.modify _ _ _

theorem PutStep.current (h : PutStep ws key version write d step) (hkey : key ≠ "_index")
    (hd : d ≠ 0) : Keyspace.written (step now r) (ws.dataKey key) = r.written (ws.dataKey key) := by
  cases h with
  | data => exact absurd rfl hd
  | copy => exact Keyspace.written_store_ne (dataKey_ne_versionKey ws key _)
  | size | updated => exact written_hset_ne (dataKey_ne_metaKey ws key)
  | index => exact written_sadd_ne (dataKey_ne_indexKey ws hkey)

/-- The steps change no field of the metadata but the size and the time. -/
theorem PutStep.field_kept (h : PutStep ws key version write d step)
    (hcurrent : r.Current now (ws.metaKey key)) (field : String) (hsize : d ≠ 2 ∨ field ≠ "size")
    (htime : field ≠ "updated_us") :
    fieldOf field (Keyspace.written (step now r) (ws.metaKey key)) =
      fieldOf field (r.written (ws.metaKey key)) := by
  cases h with
  | data => exact congrArg (fieldOf field) (Keyspace.written_store_ne (dataKey_ne_metaKey ws key).symm)
  | copy =>
      exact congrArg (fieldOf field) (Keyspace.written_store_ne (versionKey_ne_metaKey ws key _).symm)
  | size =>
      rw [written_hset_self hcurrent]
      exact fieldOf_withField_ne (hsize.resolve_left fun hd => hd rfl)
  | updated =>
      rw [written_hset_self hcurrent]
      exact fieldOf_withField_ne htime
  | index =>
      exact congrArg (fieldOf field) (written_sadd_ne (indexKey_ne_metaKey ws key).symm)

theorem PutStep.isSet (h : PutStep ws key version write d step) (hkey : key ≠ "_index")
    (hindex : IsSet (r.written ws.indexKey)) :
    IsSet (Keyspace.written (step now r) ws.indexKey) := by
  have hmeta := indexKey_ne_metaKey ws key
  cases h with
  | data =>
      exact (congrArg IsSet (Keyspace.written_store_ne (dataKey_ne_indexKey ws hkey).symm)).mpr hindex
  | copy =>
      exact (congrArg IsSet
        (Keyspace.written_store_ne (indexKey_ne_versionKey ws ws key _))).mpr hindex
  | size | updated => exact (congrArg IsSet (written_hset_ne hmeta)).mpr hindex
  | index => exact isSet_sadd hindex

theorem PutStep.copy_lasting (h : PutStep ws key version write 1 step) :
    Keyspace.Lasting (step now r) (ws.versionKey key (UInt64.ofNat version.val)) := by
  cases h with
  | copy => exact Keyspace.lasting_store_self _ _ _

/-- The index keeps its members, and the last step adds the key. -/
theorem PutStep.index_kept (h : PutStep ws key version write d step) (hkey : key ≠ "_index")
    (hindex : IsSet (r.written ws.indexKey)) (hcurrent : r.Current now ws.indexKey)
    (hmem : d = 4 ∨ key ∈ asMembers (r.written ws.indexKey)) :
    key ∈ asMembers (Keyspace.written (step now r) ws.indexKey) := by
  cases h with
  | data =>
      have hsame := Keyspace.written_store_ne (r := r) (v := RedisValue.string write.data)
        (dataKey_ne_indexKey ws hkey).symm
      exact (congrArg (key ∈ asMembers ·) hsame).mpr (hmem.resolve_left (by decide))
  | copy =>
      have hsame := Keyspace.written_store_ne (r := r) (v := RedisValue.string write.data)
        (indexKey_ne_versionKey ws ws key (UInt64.ofNat version.val))
      exact (congrArg (key ∈ asMembers ·) hsame).mpr (hmem.resolve_left (by decide))
  | size | updated =>
      rw [written_hset_ne (indexKey_ne_metaKey ws key)]
      exact hmem.resolve_left (by decide)
  | index =>
      have hadded := Keyspace.written_modify_self hcurrent (withMember key)
      exact (congrArg (key ∈ asMembers ·) hadded).mpr (mem_asMembers_withMember hindex (.inr rfl))

end Steps

/-! ## Along a run -/

/-- The calls are puts without a lifetime, and the counter has room for their numbers. -/
def CountsPuts (ws : Workspace) (key : String) (s : Writers) : WritersAction → Prop
  | .begins write => write.lasting
  | .advances i _ => ∀ w ∈ s.writers[i]?, w.version = none →
      counter (s.redis.written (ws.metaKey key)) + 1 < 2 ^ 63

/-- The current data and the size are set only while no put with a later version has set
them. -/
def InVersionOrder (s : Writers) : WritersAction → Prop
  | .begins _ => True
  | .advances i _ => ∀ w ∈ s.writers[i]?, w.done = 0 ∨ w.done = 2 → ∀ version ∈ w.version,
      ∀ u ∈ s.writers, ∀ version' ∈ u.version, version < version' → u.done ≤ w.done

instance CountsPuts.decidable (ws : Workspace) (key : String) (s : Writers) :
    (a : WritersAction) → Decidable (ws.CountsPuts key s a)
  | .begins write => inferInstanceAs (Decidable (write.lasting = true))
  | .advances i _ => (Option.decidableForallMem _ : Decidable (∀ w ∈ s.writers[i]?,
      w.version = none → counter (s.redis.written (ws.metaKey key)) + 1 < 2 ^ 63))

-- over the numbers that were told, not over all numbers
instance InVersionOrder.decidable (s : Writers) :
    (a : WritersAction) → Decidable (InVersionOrder s a)
  | .begins _ => isTrue trivial
  | .advances i _ =>
      let later := fun (w : Writer) (version : RedisInt) (u : Writer) =>
        (Option.decidableForallMem _ : Decidable (∀ version' ∈ u.version, version < version' →
          u.done ≤ w.done))
      let all := fun (w : Writer) (version : RedisInt) =>
        let _ := later w version
        (List.decidableBAll _ _ : Decidable (∀ u ∈ s.writers, ∀ version' ∈ u.version,
          version < version' → u.done ≤ w.done))
      let told := fun w : Writer =>
        let _ := all w
        (Option.decidableForallMem _ : Decidable (∀ version ∈ w.version, ∀ u ∈ s.writers,
          ∀ version' ∈ u.version, version < version' → u.done ≤ w.done))
      let _ := told
      (Option.decidableForallMem _ : Decidable (∀ w ∈ s.writers[i]?, w.done = 0 ∨ w.done = 2 → _))

/-- The numbers of puts are all there are, and nothing they write expires. -/
structure Puts (ws : Workspace) (key : String) (start : Nat) (s : Writers) : Prop where
  numbered : Numbered ws key start s
  puts : ∀ w ∈ s.writers, w.write.lasting ∧ w.write.data.length < 2 ^ 63
  metadata : s.redis.Lasting (ws.metaKey key)
  set : IsSet (s.redis.written ws.indexKey)
  index : s.redis.Lasting ws.indexKey
  indexed : ∀ w ∈ s.writers, 4 < w.done → key ∈ asMembers (s.redis.written ws.indexKey)
  copies : ∀ w ∈ s.writers, ∀ version, w.version = some version → 1 < w.done →
    s.redis.Lasting (ws.versionKey key (UInt64.ofNat version.val))
  told : counter (s.redis.written (ws.metaKey key)) =
    start + s.writers.countP fun w => w.version.isSome
  all : ∀ n, start < n → n ≤ counter (s.redis.written (ws.metaKey key)) →
    ∃ w ∈ s.writers, ∃ version, w.version = some version ∧ version.val = n

section Run

theorem Puts.hasRoom (h : Puts ws key start s) (hcounts : ws.CountsPuts key s a) :
    ws.HasRoom key s a := by
  cases a with
  | begins write => trivial
  | advances i now => exact ⟨h.metadata.current now, hcounts⟩

theorem Puts.findsOwn (h : Puts ws key start s) : ws.FindsOwn key s a := by
  cases a with
  | begins write => trivial
  | advances i now =>
      intro w hi hstore
      have hlasting := (h.puts w (List.mem_of_getElem? hi)).1
      cases hwrite : w.write with
      | put ttlSeconds data nowUs =>
          rw [hwrite] at hstore
          cases hstore
      | store data nowUs ttl =>
          rw [hwrite] at hlasting
          cases hlasting

/-- A put makes a step: it takes the next number, or one of the steps that follow. -/
theorem Puts.advances (h : Puts ws key start s) (hcounts : ws.CountsPuts key s (.advances i now))
    (hstep : ws.writersStep key s (.advances i now) = some s') :
    ∃ w, s.writers[i]? = some w ∧
      ((∃ n : RedisInt, w.version = none ∧ w.done = 0 ∧
          n.val = counter (s.redis.written (ws.metaKey key)) + 1 ∧
          s'.redis = s.redis.hset now (ws.metaKey key) "version" n ∧
          s'.writers = s.writers.set i { w with version := some n }) ∨
        ∃ version step, w.version = some version ∧
          PutStep ws key version w.write w.done step ∧ s'.redis = step now s.redis ∧
          s'.writers = s.writers.set i { w with done := w.done + 1 }) := by
  obtain ⟨w, w', hi, hsteps, hwriters⟩ := writersStep_advances hstep
  have hw := List.mem_of_getElem? hi
  obtain ⟨hlasting, -⟩ := h.puts w hw
  have hcurrent := h.metadata.current now
  refine ⟨w, hi, ?_⟩
  obtain ⟨r', hredis⟩ : ∃ r', r' = s'.redis := ⟨_, rfl⟩
  rw [← hredis] at hsteps ⊢
  cases hsteps with
  | told hnone hnumber =>
      rw [numberStep_lasting hlasting, hincrby_version hcurrent h.numbered.hash (hcounts w hi hnone)]
        at hnumber
      cases hnumber
      exact .inl ⟨_, hnone, h.numbered.fresh w hw hnone, rfl, rfl, hwriters⟩
  | failed hnone hnumber =>
      rw [numberStep_lasting hlasting] at hnumber
      cases hnumber
  | later hversion hlater =>
      exact .inr ⟨_, _, hversion, laterSteps_lasting hlasting hlater, rfl, hwriters⟩

theorem Puts.begins {write : Write} (h : Puts ws key start s) (hlasting : write.lasting)
    (hlength : write.data.length < 2 ^ 63) :
    Puts ws key start { s with writers := s.writers ++ [{ write }] } := by
  refine ⟨h.numbered.begins write, forall_snoc h.puts ⟨hlasting, hlength⟩, h.metadata, h.set,
    h.index, forall_snoc h.indexed fun hdone => ?_, forall_snoc h.copies fun version hversion => ?_,
    ?_, fun n hlt hle => ?_⟩
  · cases hdone
  · cases hversion
  · rw [List.countP_append, h.told]
    rfl
  · obtain ⟨w, hw, hversion⟩ := h.all n hlt hle
    exact ⟨w, List.mem_append_left _ hw, hversion⟩

/-- After a put has taken its number. -/
theorem Puts.number (h : Puts ws key start s) (hnumbered : Numbered ws key start s')
    (hi : s.writers[i]? = some w) {n : RedisInt} (hnone : w.version = none) (hdone : w.done = 0)
    (hn : n.val = counter (s.redis.written (ws.metaKey key)) + 1)
    (hredis : s'.redis = s.redis.hset now (ws.metaKey key) "version" n)
    (hwriters : s'.writers = s.writers.set i { w with version := some n }) :
    Puts ws key start s' := by
  have hw := List.mem_of_getElem? hi
  have hlt := (List.getElem?_eq_some_iff.mp hi).1
  have hindex : s'.redis.written ws.indexKey = s.redis.written ws.indexKey := by
    rw [hredis]
    exact written_hset_ne (indexKey_ne_metaKey ws key)
  have hcounter : counter (s'.redis.written (ws.metaKey key)) =
      counter (s.redis.written (ws.metaKey key)) + 1 := by
    rw [hredis, written_hset_self (h.metadata.current now),
      counter_withField_version h.numbered.hash, hn]
  have hlasting : ∀ x, s.redis.Lasting x → s'.redis.Lasting x := fun x hx => by
    rw [hredis]
    exact hx.modify _ _ _
  refine ⟨hnumbered, ?_, hlasting _ h.metadata, hindex ▸ h.set, hlasting _ h.index, ?_, ?_, ?_,
    ?_⟩
  · rw [hwriters]
    exact forall_set h.puts (h.puts w hw)
  · rw [hwriters, hindex]
    exact forall_set h.indexed (h.indexed w hw)
  · rw [hwriters]
    refine forall_set (fun u hu v hv hpast => hlasting _ (h.copies u hu v hv hpast))
      fun v hv hpast => ?_
    dsimp only at hpast
    omega
  · have hold : w.version.isSome = false := by
      rw [hnone]
      rfl
    have hget : s.writers[i] = w := Option.some.inj ((List.getElem?_eq_getElem hlt).symm.trans hi)
    rw [hcounter, h.told, hwriters, List.countP_set hlt, hget, if_neg (by simp [hold])]
    rfl
  · intro m hlt' hle
    rw [hwriters]
    by_cases hm : m = n.val
    · exact ⟨_, mem_set_self hi, n, rfl, hm.symm⟩
    · obtain ⟨u, hu, v, hv, heq⟩ := h.all m hlt' (by omega)
      obtain ⟨j, hj⟩ := List.mem_iff_getElem?.mp hu
      have hji : j ≠ i := by
        rintro rfl
        obtain rfl := Option.some.inj (hj.symm.trans hi)
        rw [hnone] at hv
        cases hv
      exact ⟨u, mem_set_of_ne hj hji, v, hv, heq⟩

/-- After a put has made one of the steps that follow. -/
theorem Puts.later (hkey : key ≠ "_index") (h : Puts ws key start s)
    (hnumbered : Numbered ws key start s') (hi : s.writers[i]? = some w)
    {step : Nat → Redis → Redis} (hversion : w.version = some version)
    (hput : PutStep ws key version w.write w.done step) (hredis : s'.redis = step now s.redis)
    (hwriters : s'.writers = s.writers.set i { w with done := w.done + 1 }) :
    Puts ws key start s' := by
  have hw := List.mem_of_getElem? hi
  have hlt := (List.getElem?_eq_some_iff.mp hi).1
  have hcurrent := h.metadata.current now
  have hcounter : counter (s'.redis.written (ws.metaKey key)) =
      counter (s.redis.written (ws.metaKey key)) := by
    rw [hredis]
    exact congrArg (·.elim 0 Fin.val)
      (hput.field_kept hcurrent "version" (.inr (by decide)) (by decide))
  have hlasting : ∀ x, s.redis.Lasting x → s'.redis.Lasting x := fun x hx => by
    rw [hredis]
    exact hput.lasting hx
  have hset : IsSet (s'.redis.written ws.indexKey) := by
    rw [hredis]
    exact hput.isSet hkey h.set
  refine ⟨hnumbered, ?_, hlasting _ h.metadata, hset, hlasting _ h.index, ?_, ?_, ?_, ?_⟩
  · rw [hwriters]
    exact forall_set h.puts (h.puts w hw)
  · have hkept : w.done = 4 ∨ key ∈ asMembers (s.redis.written ws.indexKey) →
        key ∈ asMembers (s'.redis.written ws.indexKey) := fun hmem => by
      rw [hredis]
      exact hput.index_kept hkey h.set (h.index.current now) hmem
    rw [hwriters]
    refine forall_set (fun u hu hpast => hkept (.inr (h.indexed u hu hpast))) fun hpast => ?_
    by_cases hd : w.done = 4
    · exact hkept (.inl hd)
    · dsimp only at hpast
      exact hkept (.inr (h.indexed w hw (by omega)))
  · rw [hwriters]
    refine forall_set (fun u hu v hv hpast => hlasting _ (h.copies u hu v hv hpast))
      fun v hv hpast => ?_
    obtain rfl := Option.some.inj (hversion.symm.trans hv)
    by_cases hd : w.done = 1
    · rw [hredis]
      rw [hd] at hput
      exact hput.copy_lasting
    · dsimp only at hpast
      exact hlasting _ (h.copies w hw version hversion (by omega))
  · have hget : s.writers[i] = w :=
      Option.some.inj ((List.getElem?_eq_getElem hlt).symm.trans hi)
    have htold : w.version.isSome := Option.isSome_of_eq_some hversion
    have hpos : 0 < s.writers.countP fun w => w.version.isSome :=
      List.countP_pos_iff.mpr ⟨w, hw, htold⟩
    rw [hcounter, h.told, hwriters, List.countP_set hlt, hget, if_pos htold]
    omega
  · intro m hlt' hle
    obtain ⟨u, hu, v, hv, heq⟩ := h.all m hlt' (hcounter ▸ hle)
    rw [hwriters]
    obtain ⟨j, hj⟩ := List.mem_iff_getElem?.mp hu
    by_cases hji : j = i
    · subst hji
      obtain rfl := Option.some.inj (hj.symm.trans hi)
      exact ⟨_, mem_set_self hi, v, hv, heq⟩
    · exact ⟨u, mem_set_of_ne hj hji, v, hv, heq⟩

theorem Puts.step (hkey : key ≠ "_index") (h : Puts ws key start s)
    (hcounts : ws.CountsPuts key s a) (hstep : ws.writersStep key s a = some s') :
    Puts ws key start s' := by
  have hnumbered := (h.numbered.step (h.hasRoom hcounts) h.findsOwn hstep).1
  cases a with
  | begins write =>
      obtain ⟨hlength, rfl⟩ := writersStep_begins hstep
      exact h.begins hcounts hlength
  | advances i now =>
      obtain ⟨w, hi, hcase⟩ := h.advances hcounts hstep
      rcases hcase with ⟨n, hnone, hdone, hn, hredis, hwriters⟩ |
        ⟨version, step, hversion, hput, hredis, hwriters⟩
      · exact h.number hnumbered hi hnone hdone hn hredis hwriters
      · exact h.later hkey hnumbered hi hversion hput hredis hwriters

end Run

end Workspace
end Labios
