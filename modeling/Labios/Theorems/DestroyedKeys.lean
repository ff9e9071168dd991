import Labios.Channel.Model
import Labios.Foundation.Glob
import Labios.Workspace.Model

/-!
# Which keys `destroy` removes

Does destroying a workspace or a channel remove every key it stored, and none of
another one? The keys to delete are found with `SCAN`, by the pattern of the name with a
star behind it. They are the right ones if and only if the pattern fits all texts that
begin with the one name and none that begin with the other
(`destroy_removesOwn_iff`). For a name that has no meaning as a pattern it comes
down to prefixes: `a` takes the keys of `a:b` with it, and `[a]` leaves its own
behind (`destroy_takesOthers`).
-/

namespace Labios

open Foundation

/-- The pattern fits all of one kind of texts, and none of another. -/
def Separates (scanMatches : String → String → Bool) (pattern : String)
    (own other : String → Prop) : Prop :=
  (∀ x, own x → scanMatches pattern x) ∧ ∀ x, other x → ¬scanMatches pattern x

/-- The one name and the colon behind it are what the other name and its colon
begin with. -/
def NamePrefix (name name' : String) : Prop := (name ++ ":").toList <+: (name' ++ ":").toList

instance (name name' : String) : Decidable (NamePrefix name name') :=
  inferInstanceAs (Decidable (_ <+: _))

theorem prefix_append_iff {front front' : List Char} :
    (∃ rest, front <+: front' ++ rest) ↔ front <+: front' ∨ front' <+: front := by
  constructor
  · rintro ⟨rest, h⟩
    exact List.prefix_or_prefix_of_prefix h (List.prefix_append front' rest)
  · rintro (h | ⟨rest, h⟩)
    · exact ⟨[], h.trans (List.prefix_append front' [])⟩
    · exact ⟨rest, h ▸ List.prefix_refl _⟩

theorem prefix_concat_iff {c : Char} {front front' back : List Char} (hc : c ∉ back) :
    front ++ [c] <+: front' ++ [c] ++ back ↔ front ++ [c] <+: front' ++ [c] := by
  refine ⟨fun h => ?_, fun h => h.trans (List.prefix_append _ _)⟩
  rcases List.prefix_or_prefix_of_prefix h (List.prefix_append _ back) with hle | ⟨rest, hrest⟩
  · exact hle
  · rw [← hrest, List.prefix_append_right_inj] at h
    rcases List.eq_nil_or_concat rest with rfl | ⟨init, last, rfl⟩
    · rw [← hrest, List.append_nil]
    · -- the rest would end with the character that is not behind
      rw [List.concat_eq_append, ← List.append_assoc] at hrest
      obtain ⟨-, hlast⟩ := List.append_inj' hrest rfl
      rw [List.singleton_inj.mp hlast, List.concat_eq_append] at h
      exact absurd (h.subset (List.mem_append_right init (List.mem_singleton_self c))) hc

/-! ## Workspaces -/

namespace Workspace

/-- What all keys of the workspace begin with. -/
def keyFront (ws : Workspace) : String := "labios:ws:" ++ ws.name ++ ":"

/-- An operation on the workspace writes this Redis key. -/
def Stores (ws : Workspace) (x : String) : Prop :=
  (∃ key, x = ws.dataKey key ∨ (∃ version, x = ws.versionKey key version) ∨ x = ws.metaKey key) ∨
    x = ws.indexKey

/-- Whatever Redis holds, `destroy` removes what the first stores, and keeps what the
second stores. -/
def DestroysOwn (scanMatches : String → String → Bool) (destroyed : Bool) (ws ws' : Workspace) :
    Prop :=
  ∀ (r : Redis) (now later : Nat) (x : String), now ≤ later →
    (ws.Stores x → (ws.destroy scanMatches now r destroyed).1.value later x = none) ∧
    (ws'.Stores x →
      (ws.destroy scanMatches now r destroyed).1.value later x = r.value later x)

/-- The keys of a workspace are all texts that begin with its front. -/
theorem stores_iff {ws : Workspace} {x : String} :
    ws.Stores x ↔ ∃ rest, x = ws.keyFront ++ rest := by
  have hdata : ∀ key, ws.dataKey key = ws.keyFront ++ key := fun key => rfl
  constructor
  · rintro (⟨key, rfl | ⟨version, rfl⟩ | rfl⟩ | rfl)
    · exact ⟨key, hdata key⟩
    · exact ⟨key ++ (":v" ++ toString version.toNat), by
        simp only [versionKey, keyFront, String.append_assoc]⟩
    · exact ⟨"_meta:" ++ key, by
        simp only [metaKey, keyFront, String.append_assoc]
        rfl⟩
    · exact ⟨"_index", by
        simp only [indexKey, keyFront, String.append_assoc]
        rfl⟩
  · rintro ⟨rest, rfl⟩
    exact .inl ⟨rest, .inl (hdata rest).symm⟩

theorem keyFront_prefix {ws ws' : Workspace} :
    ws.keyFront.toList <+: ws'.keyFront.toList ↔ NamePrefix ws.name ws'.name := by
  unfold keyFront NamePrefix
  simp only [String.toList_append, List.append_assoc]
  exact List.prefix_append_right_inj _

section Destroy

variable {ws ws' : Workspace} {scanMatches : String → String → Bool} {r : Redis} {now later : Nat}
  {x : String} {destroyed : Bool}

theorem value_destroy (hle : now ≤ later) :
    (ws.destroy scanMatches now r false).1.value later x =
      if scanMatches (ws.keyFront ++ "*") x then none else r.value later x := by
  have hpattern : "labios:ws:" ++ ws.name ++ ":*" = ws.keyFront ++ "*" := by
    simp only [keyFront, String.append_assoc]
    rfl
  show ((r.scanKeys scanMatches now _).foldl Redis.del r).value later x = _
  rw [value_foldl_del, hpattern]
  unfold Redis.scanKeys
  by_cases hmatch : scanMatches (ws.keyFront ++ "*") x
  · rw [if_pos hmatch]
    split
    · rfl
    · next hnot =>
        -- what the scan leaves out was not there at its time
        rcases Keyspace.value_later (r := r) (x := x) hle with heq | hnone
        · rw [heq]
          by_contra hsome
          have hsome := Option.isSome_iff_ne_none.mpr hsome
          refine hnot (List.mem_filter.mpr ⟨?_, by rw [hsome, hmatch]; rfl⟩)
          obtain ⟨v, hv⟩ := Option.isSome_iff_exists.mp hsome
          exact Keyspace.mem_of_value hv
        · exact hnone
  · rw [if_neg hmatch, if_neg]
    intro hmem
    have hboth := (List.mem_filter.mp hmem).2
    exact hmatch (Bool.and_eq_true_iff.mp hboth).2

theorem destroysOwn_iff : DestroysOwn scanMatches destroyed ws ws' ↔
    destroyed = false ∧ Separates scanMatches (ws.keyFront ++ "*") ws.Stores ws'.Stores := by
  have hpresent : ∀ x, ∃ r : Redis, r.value 0 x = some (.string []) :=
    fun x => ⟨Keyspace.store ∅ x (.string []), Keyspace.value_store_self _⟩
  constructor
  · intro h
    have hfirst : destroyed = false := by
      cases destroyed with
      | false => rfl
      | true =>
          obtain ⟨r, hr⟩ := hpresent ws.indexKey
          have hgone : r.value 0 ws.indexKey = none :=
            (h r 0 0 ws.indexKey (Nat.le_refl 0)).1 (.inr rfl)
          rw [hr] at hgone
          cases hgone
    subst hfirst
    refine ⟨rfl, fun x hx => ?_, fun x hx hmatch => ?_⟩
    · obtain ⟨r, hr⟩ := hpresent x
      have hgone := (h r 0 0 x (Nat.le_refl 0)).1 hx
      rw [value_destroy (Nat.le_refl 0), hr] at hgone
      by_contra hmatch
      rw [if_neg hmatch] at hgone
      cases hgone
    · obtain ⟨r, hr⟩ := hpresent x
      have hkept := (h r 0 0 x (Nat.le_refl 0)).2 hx
      rw [value_destroy (Nat.le_refl 0), hr, if_pos hmatch] at hkept
      cases hkept
  · rintro ⟨rfl, hown, hother⟩ r now later x hle
    rw [value_destroy hle]
    exact ⟨fun hx => if_pos (hown x hx), fun hx => if_neg (hother x hx)⟩

theorem separates_iff (hmatches : MatchesStar scanMatches) (hliteral : Literal ws.name) :
    Separates scanMatches (ws.keyFront ++ "*") ws.Stores ws'.Stores ↔
      ¬NamePrefix ws.name ws'.name ∧ ¬NamePrefix ws'.name ws.name := by
  have hfront : Literal ws.keyFront :=
    ((show Literal "labios:ws:" by decide).append hliteral).append (show Literal ":" by decide)
  have hmatch : ∀ x, scanMatches (ws.keyFront ++ "*") x ↔ ws.keyFront.toList <+: x.toList := by
    intro x
    rw [hmatches _ _ hfront, List.isPrefixOf_iff_prefix]
  unfold Separates
  simp only [hmatch, stores_iff, ← keyFront_prefix, ← not_or, ← prefix_append_iff]
  constructor
  · rintro ⟨-, hother⟩ ⟨rest, hprefix⟩
    refine hother (ws'.keyFront ++ String.ofList rest) ⟨_, rfl⟩ ?_
    rw [String.toList_append, String.toList_ofList]
    exact hprefix
  · intro hnot
    refine ⟨?_, ?_⟩
    · rintro x ⟨rest, rfl⟩
      rw [String.toList_append]
      exact List.prefix_append _ _
    · rintro x ⟨rest, rfl⟩ hprefix
      rw [String.toList_append] at hprefix
      exact hnot ⟨_, hprefix⟩

end Destroy

end Workspace

/-! ## Channels -/

/-- A call of `destroy` that begins now leads to this state, where it has returned. -/
def Site.DestroysTo (scanMatches : String → String → Bool) (s t : Site) : Prop :=
  ∃ steps, exec (Site.step scanMatches) s (ChannelOp.destroy.runs s.calls.length steps) = some t ∧
    t.calls[s.calls.length]? = some (.destroy .returned)

namespace Channel

def Stores (name x : String) : Prop := ∃ sequence, x = warehouseKey name sequence

/-- Whatever is in the warehouse, `destroy` removes what the first stores, and keeps what
the second stores. -/
def DestroysOwn (scanMatches : String → String → Bool) (destroyed : Bool) (name name' : String) :
    Prop :=
  ∀ s : Site, s.channel.name = name → s.channel.destroyed = destroyed →
    ∃ t, s.DestroysTo scanMatches t ∧
      (∀ x, Stores name x → t.backend.warehouse.lookup x = none) ∧
      ∀ x, Stores name' x → t.backend.warehouse.lookup x = s.backend.warehouse.lookup x

section Destroy

variable {scanMatches : String → String → Bool} {s t : Site} {i : Nat} {name name' : String}
  {destroyed : Bool}

theorem step_destroying {phase phase' : DestroyPhase} {b : Backend} {ch : Channel}
    (hcall : s.calls[i]? = some (.destroy phase))
    (hstep : destroyStep scanMatches s.backend s.channel phase = some (b, ch, phase')) :
    s.step scanMatches (.advances i) =
      some { backend := b, channel := ch, calls := s.calls.set i (.destroy phase') } := by
  show (s.calls[i]?.bind _) = _
  rw [hcall]
  simp only [Option.bind_some, ChannelCall.step, hstep, Option.map_some]

theorem step_last {calls : List ChannelCall} {phase phase' : DestroyPhase} {b b' : Backend}
    {ch ch' : Channel} (hstep : destroyStep scanMatches b ch phase = some (b', ch', phase')) :
    Site.step scanMatches { backend := b, channel := ch, calls := calls ++ [.destroy phase] }
      (.advances calls.length) =
        some { backend := b', channel := ch', calls := calls ++ [.destroy phase'] } := by
  rw [step_destroying List.getElem?_concat_length hstep]
  simp

theorem step_returned (hcall : s.calls[i]? = some (.destroy .returned)) :
    s.step scanMatches (.advances i) = none := by
  show (s.calls[i]?.bind _) = _
  rw [hcall]
  rfl

theorem destroysTo_unique {t' : Site} (h : s.DestroysTo scanMatches t)
    (h' : s.DestroysTo scanMatches t') : t = t' := by
  obtain ⟨steps, hexec, hreturned⟩ := h
  obtain ⟨steps', hexec', hreturned'⟩ := h'
  obtain ⟨s₁, hbegin, hrest⟩ := exec_cons hexec
  obtain ⟨s₂, hbegin', hrest'⟩ := exec_cons hexec'
  obtain rfl := Option.some.inj (hbegin.symm.trans hbegin')
  exact exec_replicate_unique hrest (step_returned hreturned) hrest' (step_returned hreturned')

/-- The deletions take the scanned keys away, one by one. -/
theorem exec_deletes (scanMatches : String → String → Bool) (s : Site) {keys : List String}
    (hcall : s.calls[i]? = some (.destroy (.delete keys))) :
    ∃ t, exec (Site.step scanMatches) s (List.replicate (keys.length + 1) (.advances i)) = some t ∧
      t.calls[i]? = some (.destroy .returned) ∧
      ∀ x, t.backend.warehouse.lookup x =
        if x ∈ keys then none else s.backend.warehouse.lookup x := by
  have hset : ∀ call', (s.calls.set i call')[i]? = some call' := fun call' =>
    List.getElem?_set_self (List.getElem?_eq_some_iff.mp hcall).1
  induction keys generalizing s with
  | nil =>
      refine ⟨{ s with calls := s.calls.set i (.destroy .returned) }, ?_, hset _, fun x => rfl⟩
      show (s.step scanMatches (.advances i)).bind some = _
      rw [step_destroying hcall rfl]
      rfl
  | cons key rest ih =>
      obtain ⟨t, hexec, hreturned, hlookup⟩ := ih (s := {
        backend := { s.backend with warehouse := s.backend.warehouse.erase key }
        channel := s.channel
        calls := s.calls.set i (.destroy (.delete rest)) }) (hset _) (fun call' => by
          show ((s.calls.set i _).set i call')[i]? = some call'
          rw [List.set_set]
          exact hset call')
      refine ⟨t, ?_, hreturned, fun x => ?_⟩
      · rw [List.length_cons, List.replicate_succ, exec, step_destroying hcall rfl]
        exact hexec
      · rw [hlookup]
        by_cases hrest : x ∈ rest
        · rw [if_pos hrest, if_pos (List.mem_cons_of_mem _ hrest)]
        · rw [if_neg hrest]
          by_cases hx : x = key
          · subst hx
            rw [if_pos List.mem_cons_self]
            exact AList.lookup_erase _ _
          · rw [if_neg fun hmem => (List.mem_cons.mp hmem).elim hx hrest]
            exact AList.lookup_erase_ne hx

theorem destroysTo (scanMatches : String → String → Bool) (s : Site)
    (hlive : s.channel.destroyed = false) :
    ∃ t, s.DestroysTo scanMatches t ∧ ∀ x, t.backend.warehouse.lookup x =
      if scanMatches (warehousePattern s.channel.name) x then none
      else s.backend.warehouse.lookup x := by
  let found := s.backend.warehouse.keys.filter (scanMatches (warehousePattern s.channel.name))
  let closed : Channel := { s.channel with destroyed := true, subscribers := [] }
  obtain ⟨t, hexec, hreturned, hlookup⟩ := exec_deletes scanMatches {
    backend := s.backend
    channel := closed
    calls := s.calls ++ [.destroy (.delete found)] } List.getElem?_concat_length
  refine ⟨t, ⟨found.length + 1 + 3, ?_, hreturned⟩, fun x => ?_⟩
  · show exec (Site.step scanMatches) { s with calls := s.calls ++ [.destroy .exchange] }
      (.advances _ :: .advances _ :: .advances _ ::
        List.replicate (found.length + 1) (.advances s.calls.length)) = some t
    have hexchange : destroyStep scanMatches s.backend s.channel .exchange =
        some (s.backend, { s.channel with destroyed := true }, .clear) := by
      unfold destroyStep
      rw [hlive]
      rfl
    rw [exec, step_last hexchange, Option.bind_some]
    rw [exec, step_last rfl, Option.bind_some]
    rw [exec, step_last rfl, Option.bind_some]
    exact hexec
  · rw [hlookup]
    show (if x ∈ found then _ else s.backend.warehouse.lookup x) = _
    by_cases hmatch : scanMatches (warehousePattern s.channel.name) x
    · rw [if_pos hmatch]
      split
      · rfl
      · next hnot =>
          have hkey : x ∉ s.backend.warehouse.keys := fun hmem =>
            hnot (List.mem_filter.mpr ⟨hmem, hmatch⟩)
          exact AList.lookup_eq_none.mpr hkey
    · rw [if_neg hmatch, if_neg fun hmem => hmatch (List.mem_filter.mp hmem).2]

/-- A channel that is destroyed already is not cleaned up again. -/
theorem destroysTo_destroyed (scanMatches : String → String → Bool) (s : Site)
    (hdestroyed : s.channel.destroyed) :
    ∃ t, s.DestroysTo scanMatches t ∧ t.backend = s.backend := by
  refine ⟨{
    backend := s.backend
    channel := { s.channel with destroyed := true }
    calls := s.calls ++ [.destroy .returned] }, ⟨1, ?_, List.getElem?_concat_length⟩, rfl⟩
  show exec (Site.step scanMatches) { s with calls := s.calls ++ [.destroy .exchange] }
    [.advances s.calls.length] = _
  have hexchange : destroyStep scanMatches s.backend s.channel .exchange =
      some (s.backend, { s.channel with destroyed := true }, .returned) := by
    unfold destroyStep
    rw [hdestroyed]
    rfl
  rw [exec, step_last hexchange]
  rfl

theorem destroysOwn_iff : DestroysOwn scanMatches destroyed name name' ↔
    destroyed = false ∧
      Separates scanMatches (warehousePattern name) (Stores name) (Stores name') := by
  -- a channel of this name, with one message under this key
  let site (x : String) : Site := {
    backend := { warehouse := (∅ : AList fun _ : String => Staged).insert x { data := [] } }
    channel := { name, destroyed } }
  have hpresent : ∀ x, (site x).backend.warehouse.lookup x = some { data := [] } :=
    fun x => AList.lookup_insert _
  constructor
  · intro h
    have hfirst : destroyed = false := by
      by_contra hdestroyed
      obtain ⟨t, hto, hgone, -⟩ := h (site (warehouseKey name 1)) rfl rfl
      obtain ⟨t', hto', hbackend⟩ := destroysTo_destroyed scanMatches (site (warehouseKey name 1))
        (Bool.eq_true_of_not_eq_false hdestroyed)
      obtain rfl := destroysTo_unique hto hto'
      have hnone := hgone _ ⟨1, rfl⟩
      rw [hbackend, hpresent] at hnone
      cases hnone
    subst hfirst
    have hlookup : ∀ x, (Stores name x → scanMatches (warehousePattern name) x) ∧
        (Stores name' x → ¬scanMatches (warehousePattern name) x) := by
      intro x
      obtain ⟨t, hto, hgone, hkept⟩ := h (site x) rfl rfl
      obtain ⟨t', hto', hlookup⟩ := destroysTo scanMatches (site x) rfl
      obtain rfl := destroysTo_unique hto hto'
      have hx := hlookup x
      rw [hpresent] at hx
      refine ⟨fun hown => ?_, fun hother hmatch => ?_⟩
      · by_contra hmatch
        rw [if_neg hmatch, hgone x hown] at hx
        cases hx
      · rw [if_pos hmatch, hkept x hother, hpresent] at hx
        cases hx
    exact ⟨rfl, fun x => (hlookup x).1, fun x => (hlookup x).2⟩
  · rintro ⟨rfl, hown, hother⟩ s rfl hlive
    obtain ⟨t, hto, hlookup⟩ := destroysTo scanMatches _ hlive
    refine ⟨t, hto, fun x hx => ?_, fun x hx => ?_⟩
    · rw [hlookup, if_pos (hown x hx)]
    · rw [hlookup, if_neg (hother x hx)]

/-- The digits behind the name have no colon. -/
theorem prefix_warehouseKey {sequence : UInt64} :
    ("labios:channel:" ++ name ++ ":").toList <+: (warehouseKey name' sequence).toList ↔
      NamePrefix name name' := by
  have hdigits : ':' ∉ Nat.toDigits 10 sequence.toNat := notMem_toDigits rfl _
  rw [warehouseKey_toList]
  unfold NamePrefix
  simp only [String.toList_append, show (":" : String).toList = [':'] from rfl]
  rw [prefix_concat_iff hdigits]
  simp only [List.append_assoc]
  exact List.prefix_append_right_inj _

theorem separates_iff (hmatches : MatchesStar scanMatches) (hliteral : Literal name) :
    Separates scanMatches (warehousePattern name) (Stores name) (Stores name') ↔
      ¬NamePrefix name name' := by
  have hfront : Literal ("labios:channel:" ++ name ++ ":") :=
    ((show Literal "labios:channel:" by decide).append hliteral).append
      (show Literal ":" by decide)
  have hmatch : ∀ {name'' sequence}, scanMatches (warehousePattern name)
      (warehouseKey name'' sequence) ↔ NamePrefix name name'' := by
    intro name'' sequence
    unfold warehousePattern
    rw [hmatches _ _ hfront, List.isPrefixOf_iff_prefix, prefix_warehouseKey]
  constructor
  · rintro ⟨-, hother⟩ hprefix
    exact hother _ ⟨0, rfl⟩ (hmatch.mpr hprefix)
  · intro hnot
    refine ⟨?_, ?_⟩
    · rintro x ⟨sequence, rfl⟩
      exact hmatch.mpr (List.prefix_refl _)
    · rintro x ⟨sequence, rfl⟩ hscan
      exact hnot (hmatch.mp hscan)

end Destroy

end Channel

/-! ## Exactly the own keys -/

/-- `destroy` removes the own keys and no other, if it is the first one and the pattern
separates the names; for a name without special characters, if the names and their
colons do not begin with one another. A channel takes no notice of a name that its
own begins with. -/
theorem destroy_removesOwn_iff (scanMatches : String → String → Bool)
    (hmatches : MatchesStar scanMatches) (destroyed : Bool) :
    (∀ ws ws' : Workspace,
      (ws.DestroysOwn scanMatches destroyed ws' ↔
        destroyed = false ∧ Separates scanMatches (ws.keyFront ++ "*") ws.Stores ws'.Stores) ∧
      (Literal ws.name → (ws.DestroysOwn scanMatches destroyed ws' ↔
        destroyed = false ∧ ¬NamePrefix ws.name ws'.name ∧ ¬NamePrefix ws'.name ws.name))) ∧
    ∀ name name' : String,
      (Channel.DestroysOwn scanMatches destroyed name name' ↔
        destroyed = false ∧ Separates scanMatches (warehousePattern name) (Channel.Stores name)
          (Channel.Stores name')) ∧
      (Literal name → (Channel.DestroysOwn scanMatches destroyed name name' ↔
        destroyed = false ∧ ¬NamePrefix name name')) := by
  refine ⟨fun ws ws' => ⟨Workspace.destroysOwn_iff, fun hliteral => ?_⟩,
    fun name name' => ⟨Channel.destroysOwn_iff, fun hliteral => ?_⟩⟩
  · rw [Workspace.destroysOwn_iff, Workspace.separates_iff hmatches hliteral]
  · rw [Channel.destroysOwn_iff, Channel.separates_iff hmatches hliteral]

theorem matchesStar_globMatches : MatchesStar globMatches := fun text key hliteral => by
  rw [globMatches_literal hliteral]

theorem destroy_removesOwn_job :
    (Workspace.create "job" 1).DestroysOwn globMatches false (Workspace.create "log" 1) ∧
      Channel.DestroysOwn globMatches false "a:b" "a" := by
  obtain ⟨hworkspaces, hchannels⟩ :=
    destroy_removesOwn_iff globMatches matchesStar_globMatches false
  exact ⟨((hworkspaces _ _).2 (by decide)).mpr (by decide +kernel),
    ((hchannels _ _).2 (by decide)).mpr (by decide +kernel)⟩

/-- The keys of `a:b` go with those of `a`, and those of `[a]` stay. -/
theorem destroy_takesOthers :
    ¬(Workspace.create "a" 1).DestroysOwn globMatches false (Workspace.create "a:b" 1) ∧
    ¬(Workspace.create "[a]" 1).DestroysOwn globMatches false (Workspace.create "b" 1) ∧
    ¬Channel.DestroysOwn globMatches false "a" "a:b" ∧
    ¬Channel.DestroysOwn globMatches false "[a]" "b" := by
  refine ⟨fun h => ?_, fun h => ?_, fun h => ?_, fun h => ?_⟩
  · have hseparates := (Workspace.destroysOwn_iff.mp h).2
    have hprefix := ((Workspace.separates_iff matchesStar_globMatches (by decide)).mp hseparates).1
    exact hprefix (by decide +kernel)
  · have hfits := (Workspace.destroysOwn_iff.mp h).2.1 "labios:ws:[a]:_index" (.inr rfl)
    exact absurd hfits (by decide +kernel)
  · have hseparates := (Channel.destroysOwn_iff.mp h).2
    have hprefix := (Channel.separates_iff matchesStar_globMatches (by decide)).mp hseparates
    exact hprefix (by decide +kernel)
  · have hfits := (Channel.destroysOwn_iff.mp h).2.1 "labios:channel:[a]:1" ⟨1, rfl⟩
    exact absurd hfits (by decide +kernel)

end Labios
