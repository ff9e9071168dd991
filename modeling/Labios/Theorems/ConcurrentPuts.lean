import Labios.Workspace.Frame
import Labios.Workspace.Puts
import Labios.Workspace.VersionNumbers

/-!
# Concurrent puts on one key

Is the outcome of concurrent puts that of the puts one after the other, in the order of
their versions? The versions are: in every run they are consecutive, no two calls are
told the same, and every version reads as its data. The current data and the listed size
are each set by a command of its own, so they are those of the latest version if the
puts send these commands in the order of their versions (`puts_linearized`). A put that
is overtaken after it took its number leaves old data as the current one
(`overtakenPut_isCurrent`). A key that is called like the index is never listed.
-/

namespace Labios

open Foundation RedisValue

namespace Workspace

variable {ws : Workspace} {key : String} {s s' : Writers} {a : WritersAction} {start : Nat}

/-- What was under the keys before: no metadata or a hash, no index or a set, and no
deadlines. -/
structure ReadyForPuts (ws : Workspace) (key : String) (r : Redis) : Prop where
  hash : IsHash (r.written (ws.metaKey key))
  metadata : r.Lasting (ws.metaKey key)
  set : IsSet (r.written ws.indexKey)
  index : r.Lasting ws.indexKey

/-- All puts have returned. -/
def AllReturned (ws : Workspace) (key : String) (s : Writers) : Prop :=
  ∀ w ∈ s.writers, ws.Returned key w

/-- The versions are the next numbers, one for each put, and they read as the data of
the puts that were told them. -/
structure VersionsInOrder (ws : Workspace) (key : String) (start : Nat) (s : Writers) : Prop where
  distinct : ∀ (i j : Nat) (w w' : Writer) (version : RedisInt),
    s.writers[i]? = some w → s.writers[j]? = some w' →
      w.version = some version → w'.version = some version → i = j
  consecutive : ∀ n, (∃ w ∈ s.writers, ∃ version, w.version = some version ∧ version.val = n) ↔
    start < n ∧ n ≤ start + s.writers.length
  copies : ∀ w ∈ s.writers, ∀ version, w.version = some version → ∀ now, ∀ appId ∈ ws.acl,
    ws.getVersion now s.redis key (UInt64.ofNat version.val) appId = .ok (some w.write.data)

/-- The current data and the listed size are those of the latest version. -/
def LatestIsCurrent (ws : Workspace) (key : String) (s : Writers) : Prop :=
  ∀ w ∈ s.writers, ∀ version, w.version = some version →
    (∀ u ∈ s.writers, ∀ version', u.version = some version' → version' ≤ version) →
    ∀ now, ∀ appId ∈ ws.acl, ws.get now s.redis key appId = .ok (some w.write.data) ∧
      ∃ updatedUs, (ws.list now s.redis appId).map
          (fun entries => entries.find? fun entry => entry.key = key) =
        .ok (some {
          key
          version := UInt64.ofNat version.val
          size := UInt64.ofNat w.write.data.length
          updatedUs })

/-! ## The marks of the latest version -/

def DataMark (ws : Workspace) (key : String) (r : Redis) (write : Write) : Prop :=
  r.Lasting (ws.dataKey key) ∧ r.written (ws.dataKey key) = some (.string write.data)

def SizeMark (ws : Workspace) (key : String) (r : Redis) (write : Write) : Prop :=
  fieldOf "size" (r.written (ws.metaKey key)) = some (Fin.ofNat _ write.data.length)

theorem marks_step (hkey : key ≠ "_index") (h : Puts ws key start s)
    (hcounts : ws.CountsPuts key s a) (horder : InVersionOrder s a)
    (hstep : ws.writersStep key s a = some s')
    (hdata : Latest 0 (ws.DataMark key) s) (hsize : Latest 2 (ws.SizeMark key) s) :
    Latest 0 (ws.DataMark key) s' ∧ Latest 2 (ws.SizeMark key) s' := by
  cases a with
  | begins write =>
      obtain ⟨-, rfl⟩ := writersStep_begins hstep
      exact ⟨hdata.begins write, hsize.begins write⟩
  | advances i now =>
      obtain ⟨w, hi, hcase⟩ := h.advances hcounts hstep
      have hcurrent := h.metadata.current now
      rcases hcase with ⟨n, hnone, hdone, -, hredis, hwriters⟩ |
        ⟨version, step, hversion, hput, hredis, hwriters⟩
      · refine ⟨hdata.number hi hwriters hnone hdone fun write hmark => ?_,
          hsize.number hi hwriters hnone hdone fun write hmark => ?_⟩
        · rw [hredis]
          exact ⟨hmark.1.modify _ _ _, (written_hset_ne (dataKey_ne_metaKey ws key)).trans hmark.2⟩
        · rw [hredis]
          unfold SizeMark
          rw [written_hset_self hcurrent, fieldOf_withField_ne (by decide)]
          exact hmark
      · have horder' := fun hd => horder w hi hd version hversion
        refine ⟨hdata.later h.numbered hi hversion hwriters ?_ ?_ ?_,
          hsize.later h.numbered hi hversion hwriters ?_ ?_ ?_⟩
        · intro hd u hu version' hversion' hlt
          exact hd ▸ horder' (.inl hd) u hu version' hversion' hlt
        · intro hd
          rw [hredis]
          rw [hd] at hput
          cases hput with
          | data => exact ⟨Keyspace.lasting_store_self _ _ _, Keyspace.written_store_self _ _ _⟩
        · intro hd write hmark
          rw [hredis]
          exact ⟨hput.lasting hmark.1, (hput.current hkey hd).trans hmark.2⟩
        · intro hd u hu version' hversion' hlt
          exact hd ▸ horder' (.inr hd) u hu version' hversion' hlt
        · intro hd
          rw [hredis]
          rw [hd] at hput
          cases hput with
          | size =>
              unfold SizeMark
              rw [written_hset_self hcurrent]
              exact fieldOf_withField_self h.numbered.hash
        · intro hd write hmark
          rw [hredis]
          exact (hput.field_kept hcurrent "size" (.inl hd) (by decide)).trans hmark

/-! ## When all puts have returned -/

theorem Puts.versionsInOrder (h : Puts ws key start s) (hreturned : ws.AllReturned key s) :
    VersionsInOrder ws key start s := by
  have htold : s.writers.countP (fun w => w.version.isSome) = s.writers.length :=
    List.countP_eq_length.mpr fun w hw => by
      obtain ⟨version, hversion, -⟩ := hreturned w hw
      exact Option.isSome_of_eq_some hversion
  have hcounter := h.told
  rw [htold] at hcounter
  refine ⟨h.numbered.distinct, fun n => ⟨?_, ?_⟩, ?_⟩
  · rintro ⟨w, hw, version, hversion, rfl⟩
    rw [← hcounter]
    exact h.numbered.bounds w hw version hversion
  · rintro ⟨hlt, hle⟩
    exact h.all n hlt (hcounter ▸ hle)
  · intro w hw version hversion now appId hacl
    obtain ⟨version', hversion', hdone⟩ := hreturned w hw
    rw [length_laterSteps (h.puts w hw).1] at hdone
    have hcopied : w.write.copiesAt < w.done := by
      cases w.write with
      | put ttlSeconds data nowUs =>
          show 1 < w.done
          omega
      | store data nowUs ttl =>
          show 0 < w.done
          omega
    rw [getVersion_ok hacl]
    unfold Redis.get
    rw [Keyspace.value_of_current ((h.copies w hw version hversion (by omega)).current now),
      h.numbered.copies w hw version hversion hcopied]
    rfl

/-- The latest version is the number in the counter. -/
theorem Puts.versionField (h : Puts ws key start s) {w : Writer} (hw : w ∈ s.writers)
    {version : RedisInt} (hversion : w.version = some version)
    (hmax : ∀ u ∈ s.writers, ∀ version', u.version = some version' → version' ≤ version) :
    fieldOf "version" (s.redis.written (ws.metaKey key)) = some version := by
  obtain ⟨hlt, hle⟩ := h.numbered.bounds w hw version hversion
  obtain ⟨u, hu, v, hv, heq⟩ := h.all (counter (s.redis.written (ws.metaKey key)))
    (Nat.lt_of_lt_of_le hlt hle) (Nat.le_refl _)
  have hcounter : counter (s.redis.written (ws.metaKey key)) = version.val :=
    Nat.le_antisymm (heq ▸ hmax u hu v hv) hle
  have hunfold : counter (s.redis.written (ws.metaKey key)) =
      (fieldOf "version" (s.redis.written (ws.metaKey key))).elim 0 Fin.val := rfl
  cases hfield : fieldOf "version" (s.redis.written (ws.metaKey key)) with
  | none =>
      rw [hfield] at hunfold
      have hzero : counter (s.redis.written (ws.metaKey key)) = 0 := hunfold
      omega
  | some n =>
      rw [hfield] at hunfold
      exact congrArg some (Fin.ext (hunfold.symm.trans hcounter))

theorem Puts.latestIsCurrent (h : Puts ws key start s) (hreturned : ws.AllReturned key s)
    (hdata : Latest 0 (ws.DataMark key) s) (hsize : Latest 2 (ws.SizeMark key) s) :
    ws.LatestIsCurrent key s := by
  intro w hw version hversion hmax now appId hacl
  obtain ⟨version', hversion', hdone⟩ := hreturned w hw
  rw [length_laterSteps (h.puts w hw).1] at hdone
  have hcurrent := h.metadata.current now
  refine ⟨?_, ?_⟩
  · obtain ⟨hlasting, hwritten⟩ := hdata w hw version hversion (by omega)
      fun u hu v hv _ => hmax u hu v hv
    rw [get_ok hacl]
    unfold Redis.get
    rw [Keyspace.value_of_current (hlasting.current now), hwritten]
    rfl
  · have hmark := hsize w hw version hversion (by omega) fun u hu v hv _ => hmax u hu v hv
    have hindex : key ∈ asMembers (s.redis.value now ws.indexKey) := by
      rw [Keyspace.value_of_current (h.index.current now)]
      exact h.indexed w hw (by omega)
    have hfield : ∀ field, s.redis.hget now (ws.metaKey key) field =
        fieldOf field (s.redis.written (ws.metaKey key)) := by
      intro field
      unfold Redis.hget fieldOf
      rw [Keyspace.value_of_current hcurrent]
    have hlength : (Fin.ofNat (2 ^ 63) w.write.data.length).val = w.write.data.length :=
      Nat.mod_eq_of_lt (h.puts w hw).2
    refine ⟨UInt64.ofNat
      ((fieldOf "updated_us" (s.redis.written (ws.metaKey key))).getD 0).val, ?_⟩
    rw [list_ok hacl]
    simp only [Except.map, find?_entries]
    unfold Redis.smembers entryOf
    rw [if_pos hindex]
    simp only [hfield]
    rw [h.versionField hw hversion hmax, hmark]
    simp only [Option.map_some, Option.getD_some, hlength]

end Workspace

/-- Puts without a lifetime, on a key that is not called like the index: in every run the
versions are in order when all have returned; and the latest one is current, if the puts
set the data, and the size, in the order of their versions. -/
theorem puts_linearized (ws : Workspace) (key : String) (hkey : key ≠ "_index") (r : Redis)
    (hready : ws.ReadyForPuts key r) (actions : List WritersAction) (s : Writers)
    (hexec : exec (ws.writersStep key) { redis := r } actions = some s)
    (hcounts : Along (ws.writersStep key) (ws.CountsPuts key) { redis := r } actions)
    (hreturned : ws.AllReturned key s) :
    ws.VersionsInOrder key (counter (r.written (ws.metaKey key))) s ∧
      (Along (ws.writersStep key) Workspace.InVersionOrder { redis := r } actions →
        ws.LatestIsCurrent key s) := by
  let start := counter (r.written (ws.metaKey key))
  have hstart : ws.Puts key start { redis := r } := by
    refine ⟨⟨hready.hash, Nat.le_refl _, ?_, ?_, ?_, ?_⟩, ?_, hready.metadata, hready.set,
      hready.index, ?_, ?_, rfl, fun n hlt hle => absurd hlt (Nat.not_lt.mpr hle)⟩
    · exact fun w hw => absurd hw (List.not_mem_nil)
    · exact fun w hw => absurd hw (List.not_mem_nil)
    · intro i j w w' version hi
      cases hi
    all_goals exact fun w hw => absurd hw (List.not_mem_nil)
  have hputs := exec_invariant (I := ws.Puts key start)
    (fun h hcounts hstep => h.step hkey hcounts hstep) hstart hexec hcounts
  refine ⟨hputs.versionsInOrder hreturned, fun horder => ?_⟩
  obtain ⟨-, hdata, hsize⟩ := exec_invariant (I := fun s => ws.Puts key start s ∧
      Workspace.Latest 0 (ws.DataMark key) s ∧ Workspace.Latest 2 (ws.SizeMark key) s)
    (fun h hok hstep => ⟨h.1.step hkey hok.1 hstep,
      Workspace.marks_step hkey h.1 hok.1 hok.2 hstep h.2.1 h.2.2⟩)
    ⟨hstart, fun w hw => absurd hw (List.not_mem_nil), fun w hw => absurd hw (List.not_mem_nil)⟩
    hexec (hcounts.and horder)
  exact hputs.latestIsCurrent hreturned hdata hsize

/-- Two puts have begun and taken their numbers. -/
def twoPuts : List WritersAction :=
  [.begins (.put 0 [1] 5), .begins (.put 0 [2, 2] 6), .advances 0 1, .advances 1 1]

/-- The puts send the rest of their commands one after the other. -/
def restInOrder : List WritersAction :=
  List.replicate 5 (.advances 0 2) ++ List.replicate 5 (.advances 1 3)

def restOvertaking : List WritersAction :=
  List.replicate 5 (.advances 1 2) ++ List.replicate 5 (.advances 0 3)

theorem puts_linearized_inOrder :
    ∃ s, exec ((Workspace.create "notes" 1).writersStep "k") { redis := ∅ } (twoPuts ++ restInOrder) =
        some s ∧
      (Workspace.create "notes" 1).VersionsInOrder "k" 0 s ∧
      (Workspace.create "notes" 1).LatestIsCurrent "k" s := by
  obtain ⟨s, hexec⟩ := Option.isSome_iff_exists.mp (show (exec
    ((Workspace.create "notes" 1).writersStep "k") { redis := ∅ } (twoPuts ++ restInOrder)).isSome =
      true by decide +kernel)
  have hready : (Workspace.create "notes" 1).ReadyForPuts "k" ∅ :=
    ⟨fun v hv => (by cases hv), fun held hheld => (by cases hheld), fun v hv => (by cases hv),
      fun held hheld => (by cases hheld)⟩
  have hreturned : (Workspace.create "notes" 1).AllReturned "k" s := by
    have hs : ∀ x ∈ exec ((Workspace.create "notes" 1).writersStep "k") { redis := ∅ }
        (twoPuts ++ restInOrder), ∀ w ∈ x.writers, w.version.isSome ∧ w.done = 5 ∧
          w.write.lasting := by decide +kernel
    intro w hw
    obtain ⟨htold, hdone, hlasting⟩ := hs s hexec w hw
    obtain ⟨version, hversion⟩ := Option.isSome_iff_exists.mp htold
    exact ⟨version, hversion, by rw [Workspace.length_laterSteps hlasting, hdone]⟩
  obtain ⟨hversions, hlatest⟩ := puts_linearized (Workspace.create "notes" 1) "k" (by decide) ∅ hready
    (twoPuts ++ restInOrder) s hexec (by decide +kernel) hreturned
  exact ⟨s, hexec, hversions, hlatest (by decide +kernel)⟩

/-- The second put overtakes the first, and then the data of the first is current, and its
size is listed for the version of the second. -/
theorem overtakenPut_isCurrent :
    ∃ s, exec ((Workspace.create "notes" 1).writersStep "k") { redis := ∅ }
        (twoPuts ++ restOvertaking) = some s ∧
      s.writers.map (fun w => (w.version, w.done, w.write.data)) =
        [(some 1, 5, [1]), (some 2, 5, [2, 2])] ∧
      (Workspace.create "notes" 1).get 4 s.redis "k" 1 = .ok (some [1]) ∧
      (Workspace.create "notes" 1).list 4 s.redis 1 =
        .ok [{ key := "k", version := 2, size := 1, updatedUs := 5 }] := by
  obtain ⟨s, hexec⟩ := Option.isSome_iff_exists.mp (show (exec
    ((Workspace.create "notes" 1).writersStep "k") { redis := ∅ }
      (twoPuts ++ restOvertaking)).isSome = true by decide +kernel)
  have hs : ∀ x ∈ exec ((Workspace.create "notes" 1).writersStep "k") { redis := ∅ }
      (twoPuts ++ restOvertaking),
      x.writers.map (fun w => (w.version, w.done, w.write.data)) =
        [(some 1, 5, [1]), (some 2, 5, [2, 2])] ∧
      (Workspace.create "notes" 1).get 4 x.redis "k" 1 = .ok (some [1]) ∧
      (Workspace.create "notes" 1).list 4 x.redis 1 =
        .ok [{ key := "k", version := 2, size := 1, updatedUs := 5 }] := by
    decide +kernel
  exact ⟨s, hexec, hs s hexec⟩

end Labios

/-!
## Version numbers of stores

Do stores of the MCP server, among each other and with puts of client processes, keep
the versions of a key in order? The first transaction of a store takes a number from the
counter, and the second one writes it to the counter again. As long as the metadata does
not expire and the counter has room, the counter never decreases if and only if every
second transaction still finds its own number there; then all calls get different
numbers, and the copy of a version is what was stored with it
(`versions_keptOrder_iff`). A store that is overtaken between its transactions takes the
counter back, and the next number is given out twice (`overtakenStore_rewinds`).
-/

namespace Labios

open Foundation RedisValue

namespace Workspace

variable {ws : Workspace} {key : String} {s s' t : Writers} {a : WritersAction} {r : Redis}

/-- The step does not take the version counter back. -/
def NeverRewinds (ws : Workspace) (key : String) (s : Writers) (a : WritersAction) : Prop :=
  ∀ s' ∈ ws.writersStep key s a, counter (s.redis.written (ws.metaKey key)) ≤
    counter (s'.redis.written (ws.metaKey key))

/-- The calls that have come so far were told different numbers, none of them in vain,
and where a call has returned the copy of its version is its data, until it expires. -/
structure VersionsKept (ws : Workspace) (key : String) (s : Writers) : Prop where
  told : ∀ w ∈ s.writers, w.failed = false
  distinct : ∀ (i j : Nat) (w w' : Writer) (version : RedisInt),
    s.writers[i]? = some w → s.writers[j]? = some w' →
      w.version = some version → w'.version = some version → i = j
  copies : ∀ w ∈ s.writers, ws.Returned key w → ∀ version ∈ w.version, ∀ now,
    s.redis.Current now (ws.versionKey key (UInt64.ofNat version.val)) →
      s.redis.get now (ws.versionKey key (UInt64.ofNat version.val)) = some w.write.data

/-- What the steps keep, besides the numbers. -/
structure Unfailing (ws : Workspace) (s : Writers) : Prop where
  index : IsSet (s.redis.written ws.indexKey)
  told : ∀ w ∈ s.writers, w.failed = false

theorem Unfailing.step {start : Nat} (hkey : key ≠ "_index") (h : ws.Unfailing s)
    (hnumbered : Numbered ws key start s) (hroom : ws.HasRoom key s a)
    (hstep : ws.writersStep key s a = some s') : ws.Unfailing s' := by
  cases a with
  | begins write =>
      obtain ⟨-, rfl⟩ := writersStep_begins hstep
      exact ⟨h.index, forall_snoc h.told rfl⟩
  | advances i now =>
      obtain ⟨hcurrent, hroom⟩ := hroom
      obtain ⟨w, w', hi, hsteps, hwriters⟩ := writersStep_advances hstep
      have hold := h.told w (List.mem_of_getElem? hi)
      obtain ⟨r', hredis⟩ : ∃ r', r' = s'.redis := ⟨_, rfl⟩
      rw [← hredis] at hsteps
      cases hsteps with
      | told hnone hnumber =>
          obtain ⟨hindex, -⟩ := numberStep_index hkey h.index hnumber hcurrent hnumbered.hash
            (hroom w hi hnone)
          exact ⟨hredis ▸ hindex, hwriters ▸ forall_set h.told hold⟩
      | failed hnone hnumber =>
          obtain ⟨-, htold⟩ := numberStep_index hkey h.index hnumber hcurrent hnumbered.hash
            (hroom w hi hnone)
          exact absurd rfl htold
      | later hversion hlater =>
          exact ⟨hredis ▸ laterStep_index hkey h.index hlater, hwriters ▸ forall_set h.told hold⟩

theorem Numbered.versionsKept {start : Nat} (h : Numbered ws key start s)
    (hunfailing : ws.Unfailing s) : ws.VersionsKept key s := by
  refine ⟨hunfailing.told, h.distinct, ?_⟩
  rintro w hw ⟨version, hversion, hdone⟩ v hv now hcurrent
  obtain rfl := Option.some.inj (hversion.symm.trans hv)
  have hlast : w.write.copiesAt < (ws.laterSteps key version w.write).length := by
    cases w.write with
    | put ttlSeconds data nowUs =>
        unfold laterSteps putCommands
        simp [Write.copiesAt]
    | store data nowUs ttl => exact Nat.one_pos
  unfold Redis.get
  rw [Keyspace.value_of_current hcurrent, h.copies w hw version hversion (by omega)]
  rfl

/-- The second transaction of a store leaves its own number in the counter. -/
theorem Numbered.neverRewinds_iff {start : Nat} (h : Numbered ws key start s)
    (hroom : ws.HasRoom key s a) (hstep : ws.writersStep key s a = some s') :
    ws.NeverRewinds key s a ↔ ws.FindsOwn key s a := by
  constructor
  · intro hnever
    cases a with
    | begins write => trivial
    | advances i now =>
        intro w hi hstore version hversion
        obtain ⟨w', w'', hi', hsteps, hwriters⟩ := writersStep_advances hstep
        obtain rfl := Option.some.inj (hi.symm.trans hi')
        have hle := hnever s' hstep
        obtain ⟨r', hredis⟩ : ∃ r', r' = s'.redis := ⟨_, rfl⟩
        rw [← hredis] at hsteps hle
        cases hsteps with
        | told hnone | failed hnone =>
            rw [hnone] at hversion
            cases hversion
        | later hversion' hlater =>
            obtain rfl := Option.some.inj (hversion'.symm.trans hversion)
            obtain ⟨-, hset, -, -⟩ := laterStep_effect hlater hroom.1 h.hash
            rw [hset, if_pos hstore] at hle
            exact Nat.le_antisymm hle (h.bounds w (List.mem_of_getElem? hi) _ hversion).2
  · intro hfinds s'' hs''
    obtain rfl := Option.some.inj (hstep.symm.trans hs'')
    exact (h.step hroom hfinds hstep).2

end Workspace

/-- In every run in which the metadata never expires and the counter has room: the counter
never decreases and all calls keep their versions, if and only if the second
transaction of every store finds its own number in the counter. -/
theorem versions_keptOrder_iff (ws : Workspace) (key : String) (hkey : key ≠ "_index") (r : Redis)
    (hmeta : IsHash (r.written (ws.metaKey key))) (hindex : Workspace.IsSet (r.written ws.indexKey))
    (actions : List WritersAction) (s : Writers)
    (hexec : exec (ws.writersStep key) { redis := r } actions = some s)
    (hroom : Along (ws.writersStep key) (ws.HasRoom key) { redis := r } actions) :
    (Along (ws.writersStep key) (ws.NeverRewinds key) { redis := r } actions ∧
      ws.VersionsKept key s) ↔
    Along (ws.writersStep key) (ws.FindsOwn key) { redis := r } actions := by
  let start := counter (r.written (ws.metaKey key))
  have hstart : Workspace.Numbered ws key start { redis := r } ∧
      ws.Unfailing { redis := r } := by
    refine ⟨⟨hmeta, Nat.le_refl _, ?_, ?_, ?_, ?_⟩, hindex, ?_⟩
    · exact fun w hw => absurd hw (List.not_mem_nil)
    · exact fun w hw => absurd hw (List.not_mem_nil)
    · intro i j w w' version hi
      cases hi
    · exact fun w hw => absurd hw (List.not_mem_nil)
    · exact fun w hw => absurd hw (List.not_mem_nil)
  have hkept : ∀ {s a s'}, Workspace.Numbered ws key start s ∧ ws.Unfailing s →
      ws.HasRoom key s a → ws.FindsOwn key s a → ws.writersStep key s a = some s' →
      Workspace.Numbered ws key start s' ∧ ws.Unfailing s' :=
    fun h hroom hfinds hstep => ⟨(h.1.step hroom hfinds hstep).1, h.2.step hkey h.1 hroom hstep⟩
  have hiff := Along.iff_exec _ (P := ws.NeverRewinds key) (Q := ws.FindsOwn key) hkept
    (fun h hroom hstep => h.1.neverRewinds_iff hroom hstep) hstart hexec hroom
  rw [hiff]
  refine ⟨And.left, fun hfinds => ⟨hfinds, ?_⟩⟩
  obtain ⟨hnumbered, hunfailing⟩ := exec_invariant (I := fun s => Workspace.Numbered ws key start s ∧
    ws.Unfailing s) (fun h hboth hstep => hkept h hboth.1 hboth.2 hstep) hstart hexec
    (hroom.and hfinds)
  exact hnumbered.versionsKept hunfailing

/-- A store of one byte as the i-th call. -/
def storeOf (byte : UInt8) : WritersAction := .begins (.store [byte] 0 0)

/-- A store and a put, one after the other. -/
def inTurnWrites : List WritersAction :=
  [storeOf 1, .advances 0 1, .advances 0 1, .begins (.put 0 [2] 0), .advances 1 2] ++
    List.replicate 5 (.advances 1 2)

/-- The second store is carried out between the transactions of the first. -/
def overtakes : List WritersAction :=
  [storeOf 1, .advances 0 1, storeOf 2, .advances 1 1, .advances 1 1]

/-- The first store is completed, and a third one is carried out. -/
def rewinds : List WritersAction :=
  [.advances 0 1, storeOf 3, .advances 2 1, .advances 2 1]

theorem versions_keptOrder_inTurn :
    ∃ s, exec ((Workspace.create "notes" 1).writersStep "k") { redis := ∅ } inTurnWrites = some s ∧
      (Workspace.create "notes" 1).VersionsKept "k" s := by
  obtain ⟨s, hexec⟩ := Option.isSome_iff_exists.mp (show (exec
    ((Workspace.create "notes" 1).writersStep "k") { redis := ∅ } inTurnWrites).isSome = true by
      decide +kernel)
  have hnothing : ∀ x, Keyspace.written (∅ : Redis) x = none := fun x => rfl
  refine ⟨s, hexec, ((versions_keptOrder_iff (Workspace.create "notes" 1) "k" (by decide) ∅
    (fun v hv => ?_) (fun v hv => ?_) inTurnWrites s hexec (by decide +kernel)).mpr
      (by decide +kernel)).2⟩
  · rw [hnothing] at hv
    cases hv
  · rw [hnothing] at hv
    cases hv

/-- The counter goes back to the number of the first store, and the third store is told
the number of the second and overwrites its copy. -/
theorem overtakenStore_rewinds :
    ∃ s t, exec ((Workspace.create "notes" 1).writersStep "k") { redis := ∅ } overtakes = some s ∧
      exec ((Workspace.create "notes" 1).writersStep "k") s rewinds = some t ∧
      ¬(Workspace.create "notes" 1).NeverRewinds "k" s (.advances 0 1) ∧
      t.writers.map Writer.version = [some 1, some 2, some 2] ∧
      t.writers.map (fun w => w.write.data) = [[1], [2], [3]] ∧
      t.redis.get 1 ((Workspace.create "notes" 1).versionKey "k" 2) = some [3] := by
  obtain ⟨t, hexec⟩ := Option.isSome_iff_exists.mp (show (exec
    ((Workspace.create "notes" 1).writersStep "k") { redis := ∅ } (overtakes ++ rewinds)).isSome =
      true by decide +kernel)
  obtain ⟨s, hfront, hback⟩ := exec_append hexec
  have hs : ∀ x ∈ exec ((Workspace.create "notes" 1).writersStep "k") { redis := ∅ } overtakes,
      counter (x.redis.written ((Workspace.create "notes" 1).metaKey "k")) = 2 ∧
      ∃ x' ∈ (Workspace.create "notes" 1).writersStep "k" x (.advances 0 1),
        counter (x'.redis.written ((Workspace.create "notes" 1).metaKey "k")) = 1 := by
    decide +kernel
  have ht : ∀ x ∈ exec ((Workspace.create "notes" 1).writersStep "k") { redis := ∅ }
        (overtakes ++ rewinds),
      x.writers.map Writer.version = [some 1, some 2, some 2] ∧
      x.writers.map (fun w => w.write.data) = [[1], [2], [3]] ∧
      x.redis.get 1 ((Workspace.create "notes" 1).versionKey "k" 2) = some [3] := by
    decide +kernel
  obtain ⟨hbefore, s', hs', hafter⟩ := hs s hfront
  refine ⟨s, t, hfront, hback, fun hnever => ?_, ht t hexec⟩
  have hle := hnever s' hs'
  omega

end Labios
