import Labios.Channel.Messages
import Labios.Channel.Subscriptions

/-!
# What `destroy` leaves behind

One call wins the exchange of the destroyed flag. It clears the subscribers, scans the
keys of the channel once and deletes what it found. `Cleanup` says what is left in
each phase: nothing, once that call has returned, provided that no `subscribe`
registers on the destroyed channel after the subscribers were cleared, and that no
`publish` stages its data there after the keys were scanned.
-/

namespace Labios

open Foundation

/-- The next step registers a subscriber. -/
def ChannelCall.registers : ChannelCall → Bool
  | .subscribe .insert => true
  | _ => false

/-- What a step of a call does to the cleanup. -/
inductive CleanupStep (scanMatches : String → String → Bool) (b : Backend) (ch : Channel)
    (call : ChannelCall) (b' : Backend) (ch' : Channel) (call' : ChannelCall) : Prop
  | exchanged : call.destroying = some .exchange → ch' = { ch with destroyed := true } →
      call'.destroying = some (if ch.destroyed then .returned else .clear) → b' = b →
      CleanupStep scanMatches b ch call b' ch' call'
  | cleared : call.destroying = some .clear → ch' = { ch with subscribers := [] } →
      call'.destroying = some .scan → b' = b → CleanupStep scanMatches b ch call b' ch' call'
  | scanned : call.destroying = some .scan → ch' = ch →
      call'.destroying =
        some (.delete (b.warehouse.keys.filter (scanMatches (warehousePattern ch.name)))) →
      b' = b → CleanupStep scanMatches b ch call b' ch' call'
  | deleted (key : String) (rest : List String) :
      call.destroying = some (.delete (key :: rest)) → ch' = ch →
      call'.destroying = some (.delete rest) →
      b'.warehouse = b.warehouse.erase key → CleanupStep scanMatches b ch call b' ch' call'
  | finished : call.destroying = some (.delete []) → ch' = ch →
      call'.destroying = some .returned → b' = b → CleanupStep scanMatches b ch call b' ch' call'
  | other : call.destroying = none →
      (∀ phase, call'.destroying = some phase → phase = .exchange ∨ phase = .returned) →
      ch'.destroyed = ch.destroyed → ch'.name = ch.name →
      (ch'.subscribers.Sublist ch.subscribers ∨ call.registers) →
      (∀ key, key ∈ b'.warehouse → key ∈ b.warehouse ∨ call.stages) →
      CleanupStep scanMatches b ch call b' ch' call'

section Calls

variable {scanMatches : String → String → Bool} {b b' : Backend} {ch ch' : Channel}
  {call call' : ChannelCall}

theorem destroyStep_cleanup {phase phase' : DestroyPhase} (hbefore : Destroying call phase)
    (hafter : Destroying call' phase')
    (h : destroyStep scanMatches b ch phase = some (b', ch', phase')) :
    CleanupStep scanMatches b ch call b' ch' call' := by
  have hcall := hbefore.destroying
  have hcall' := hafter.destroying
  cases phase with
  | returned => cases h
  | exchange =>
      cases h
      exact .exchanged hcall rfl hcall' rfl
  | clear =>
      cases h
      exact .cleared hcall rfl hcall' rfl
  | scan =>
      cases h
      exact .scanned hcall rfl hcall' rfl
  | delete keys =>
      cases keys with
      | nil =>
          cases h
          exact .finished hcall rfl hcall' rfl
      | cons key rest =>
          cases h
          exact .deleted key rest hcall rfl hcall' rfl

theorem publishStep_cleanup {data : List UInt8} {labelId : UInt64} {phase phase' : PublishPhase}
    (h : publishStep b ch data labelId phase = some (b', ch', phase')) :
    CleanupStep scanMatches b ch (.publish data labelId phase) b' ch'
      (.publish data labelId phase') := by
  have hnone : ∀ p, (ChannelCall.publish data labelId phase').destroying = some p →
      p = .exchange ∨ p = .returned := fun p hp => by cases hp
  cases phase with
  | returned result => cases h
  | stage sequence =>
      cases h
      exact .other rfl hnone rfl rfl (.inl (List.Sublist.refl _)) (fun key _ => .inr rfl)
  | setExpiry sequence =>
      cases h
      refine .other rfl hnone rfl rfl (.inl (List.Sublist.refl _)) (fun key hkey => .inl ?_)
      cases hlookup : b.warehouse.lookup (warehouseKey ch.name sequence) with
      | none =>
          rw [hlookup] at hkey
          exact hkey
      | some staged =>
          rw [hlookup] at hkey
          rcases (AList.mem_insert b.warehouse).mp hkey with rfl | hkey
          · rw [← AList.lookup_isSome, hlookup]
            rfl
          · exact hkey
  | _ =>
      cases h
      exact .other rfl hnone rfl rfl (.inl (List.Sublist.refl _)) (fun key hkey => .inl hkey)

theorem ChannelCall.step_cleanup (h : call.step scanMatches b ch = some (b', ch', call')) :
    CleanupStep scanMatches b ch call b' ch' call' := by
  cases ChannelCall.step_method h with
  | publish hstep => exact publishStep_cleanup hstep
  | @subscribe phase _ phase' hstep =>
      have hnone : ∀ p, (ChannelCall.subscribe phase').destroying = some p →
          p = .exchange ∨ p = .returned := fun p hp => by cases hp
      cases phase with
      | returned result => cases hstep
      | insert =>
          cases hstep
          exact .other rfl hnone rfl rfl (.inr rfl) (fun key hkey => .inl hkey)
      | _ =>
          cases hstep
          exact .other rfl hnone rfl rfl (.inl (List.Sublist.refl _)) (fun key hkey => .inl hkey)
  | erase =>
      refine .other rfl (fun p hp => ?_) rfl rfl (.inl List.erase_sublist)
        (fun key hkey => .inl hkey)
      rw [← Option.some.inj hp]
      split
      · exact .inl rfl
      · exact .inr rfl
  | drain =>
      exact .other rfl (fun p hp => by cases hp) rfl rfl (.inl (List.Sublist.refl _))
        (fun key hkey => .inl hkey)
  | checkEmpty =>
      refine .other rfl (fun p hp => ?_) rfl rfl (.inl (List.Sublist.refl _))
        (fun key hkey => .inl hkey)
      rw [← Option.some.inj hp]
      split
      · exact .inl rfl
      · exact .inr rfl
  | destroy hbefore hafter hstep => exact destroyStep_cleanup hbefore hafter hstep

end Calls

/-! ## The phases of the cleanup -/

/-- The subscribers of the destroyed channel are yet to be cleared. -/
def Site.Clearing (s : Site) : Prop := ∃ c ∈ s.calls, c.destroying = some .clear

/-- The keys of the destroyed channel are yet to be scanned. -/
def Site.Scanning (s : Site) : Prop :=
  ∃ c ∈ s.calls, c.destroying = some .clear ∨ c.destroying = some .scan

instance (s : Site) : Decidable s.Clearing :=
  inferInstanceAs (Decidable (∃ c ∈ s.calls, _))

instance (s : Site) : Decidable s.Scanning :=
  inferInstanceAs (Decidable (∃ c ∈ s.calls, _))

/-- A call is about to delete the key. -/
def Site.Deletes (s : Site) (key : String) : Prop :=
  ∃ c ∈ s.calls, ∃ keys, c.destroying = some (.delete keys) ∧ key ∈ keys

/-- Before the exchange no call is inside the cleanup. Afterwards the subscribers are
yet to be cleared, or there are none; and the keys are yet to be scanned, or what is
left is about to be deleted. -/
structure Cleanup (s : Site) : Prop where
  unswept : s.channel.destroyed = false → ∀ c ∈ s.calls, ∀ phase, c.destroying = some phase →
    phase = .exchange ∨ phase = .returned
  cleared : s.channel.destroyed → s.Clearing ∨ s.channel.subscribers = []
  swept : s.channel.destroyed → s.Scanning ∨
    ∀ sequence, warehouseKey s.channel.name sequence ∈ s.backend.warehouse →
      s.Deletes (warehouseKey s.channel.name sequence)

/-- On a destroyed channel a `subscribe` registers before the subscribers are cleared,
and a `publish` stages before the keys are scanned. -/
def Site.InTime (s : Site) : SiteAction → Prop
  | .advances i => ∀ call ∈ s.calls[i]?, s.channel.destroyed →
      (call.registers → s.Clearing) ∧ (call.stages → s.Scanning)
  | .begins _ | .delivers _ | .expires _ => True

instance Site.decidableInTime (s : Site) : (a : SiteAction) → Decidable (s.InTime a)
  | .advances i => inferInstanceAs (Decidable (∀ call ∈ s.calls[i]?, _))
  | .begins _ | .delivers _ | .expires _ => inferInstanceAs (Decidable True)

theorem cleanup_fresh (name : String) (ttlSeconds : UInt32) (maxPending : UInt64) :
    Cleanup (Site.fresh name ttlSeconds maxPending) := by
  refine ⟨?_, fun h => absurd h Bool.false_ne_true, fun h => absurd h Bool.false_ne_true⟩
  intro _ c hc
  cases hc

section Steps

variable {scanMatches : String → String → Bool} {s s' : Site} {b : Backend} {ch : Channel}
  {i : Nat} {call call' : ChannelCall}

/-- A call inside the cleanup comes after the exchange. -/
theorem Cleanup.destroyed (h : Cleanup s) (hcall : s.calls[i]? = some call)
    {phase : DestroyPhase} (hphase : call.destroying = some phase) (hexchange : phase ≠ .exchange)
    (hreturned : phase ≠ .returned) : s.channel.destroyed := by
  cases hdestroyed : s.channel.destroyed with
  | true => rfl
  | false =>
      rcases h.unswept hdestroyed call (List.mem_of_getElem? hcall) phase hphase with heq | heq
      · exact absurd heq hexchange
      · exact absurd heq hreturned

/-- The clear is still to come when a call moves that does not clear. -/
theorem Site.Clearing.stays (h : s.Clearing) (hcall : s.calls[i]? = some call)
    (hphase : call.destroying ≠ some .clear) :
    Site.Clearing { backend := b, channel := ch, calls := s.calls.set i call' } :=
  (exists_set hcall h).resolve_left hphase

theorem Site.Scanning.stays (h : s.Scanning) (hcall : s.calls[i]? = some call)
    (hclear : call.destroying ≠ some .clear) (hscan : call.destroying ≠ some .scan) :
    Site.Scanning { backend := b, channel := ch, calls := s.calls.set i call' } :=
  (exists_set hcall h).resolve_left (not_or.mpr ⟨hclear, hscan⟩)

/-- What is left stays about to be deleted, by the call that moves or by another one. -/
theorem Site.Deletes.stays {key : String} (h : s.Deletes key) (hcall : s.calls[i]? = some call) :
    (∃ keys, call.destroying = some (.delete keys) ∧ key ∈ keys) ∨
      Site.Deletes { backend := b, channel := ch, calls := s.calls.set i call' } key :=
  exists_set hcall h

/-- What is left stays about to be deleted when a call moves that neither clears nor
scans, and what this call was about to delete is gone or still about to be. -/
theorem Cleanup.stays_swept (h : Cleanup s) (hcall : s.calls[i]? = some call)
    (hdestroyed : s.channel.destroyed) (hclear : call.destroying ≠ some .clear)
    (hscan : call.destroying ≠ some .scan) (hname : ch.name = s.channel.name)
    (hkeys : ∀ key, key ∈ b.warehouse → key ∈ s.backend.warehouse)
    (hdeletes : ∀ keys, call.destroying = some (.delete keys) → ∀ key ∈ keys, key ∈ b.warehouse →
      ∃ keys', call'.destroying = some (.delete keys') ∧ key ∈ keys') :
    Site.Scanning { backend := b, channel := ch, calls := s.calls.set i call' } ∨
      ∀ sequence, warehouseKey ch.name sequence ∈ b.warehouse →
        Site.Deletes { backend := b, channel := ch, calls := s.calls.set i call' }
          (warehouseKey ch.name sequence) := by
  rw [hname]
  rcases h.swept hdestroyed with hbefore | hleft
  · exact .inl (hbefore.stays hcall hclear hscan)
  · refine .inr fun sequence hkey => ?_
    rcases (hleft sequence (hkeys _ hkey)).stays hcall with ⟨keys, hphase, hin⟩ | hother
    · exact ⟨call', mem_set_self hcall, hdeletes keys hphase _ hin hkey⟩
    · exact hother

/-- Outside the cleanup a destroyed channel gets no subscriber and no key. -/
theorem Cleanup.others (h : Cleanup s) (hcall : s.calls[i]? = some call)
    (hok : s.InTime (.advances i)) (hphase : call.destroying = none)
    (hphase' : ∀ phase, call'.destroying = some phase → phase = .exchange ∨ phase = .returned)
    (hdestroyed : ch.destroyed = s.channel.destroyed) (hname : ch.name = s.channel.name)
    (hsubscribers : ch.subscribers.Sublist s.channel.subscribers ∨ call.registers)
    (hkeys : ∀ key, key ∈ b.warehouse → key ∈ s.backend.warehouse ∨ call.stages) :
    Cleanup { backend := b, channel := ch, calls := s.calls.set i call' } := by
  have hne : ∀ phase, call.destroying ≠ some phase := by
    intro phase heq
    rw [hphase] at heq
    cases heq
  refine ⟨fun hlive => ?_, fun hgone => ?_, fun hgone => ?_⟩
  · exact forall_set (h.unswept (hdestroyed.symm.trans hlive)) hphase'
  · have hgone : s.channel.destroyed := hdestroyed.symm.trans hgone
    rcases hsubscribers with hsub | hregisters
    · rcases h.cleared hgone with hclear | hnil
      · exact .inl (hclear.stays hcall (hne _))
      · rw [hnil] at hsub
        exact .inr (List.eq_nil_of_sublist_nil hsub)
    · exact .inl (((hok call hcall hgone).1 hregisters).stays hcall (hne _))
  · have hgone : s.channel.destroyed := hdestroyed.symm.trans hgone
    by_cases hstages : call.stages
    · exact .inl (((hok call hcall hgone).2 hstages).stays hcall (hne _) (hne _))
    · exact h.stays_swept hcall hgone (hne _) (hne _) hname
        (fun key hkey => (hkeys key hkey).resolve_right hstages)
        (fun keys heq => absurd heq (hne _))

/-- The flag goes up; the call that raises it will clear. -/
theorem Cleanup.exchanges (h : Cleanup s) (hcall : s.calls[i]? = some call)
    (hphase : call.destroying = some .exchange)
    (hphase' : call'.destroying = some (if s.channel.destroyed then .returned else .clear)) :
    Cleanup { s with
      channel := { s.channel with destroyed := true }
      calls := s.calls.set i call' } := by
  refine ⟨fun hlive => absurd hlive Bool.false_ne_true.symm, fun _ => ?_, fun _ => ?_⟩
  · cases hdestroyed : s.channel.destroyed with
    | false =>
        rw [hdestroyed] at hphase'
        exact .inl ⟨call', mem_set_self hcall, hphase'⟩
    | true =>
        rcases h.cleared hdestroyed with hclear | hnil
        · exact .inl (hclear.stays hcall (by rw [hphase]; decide))
        · exact .inr hnil
  · cases hdestroyed : s.channel.destroyed with
    | false =>
        rw [hdestroyed] at hphase'
        exact .inl ⟨call', mem_set_self hcall, .inl hphase'⟩
    | true =>
        refine h.stays_swept hcall hdestroyed (by rw [hphase]; decide) (by rw [hphase]; decide) rfl
          (fun _ hkey => hkey) (fun keys heq => ?_)
        rw [hphase] at heq
        cases heq

/-- The scan finds every key of the channel. -/
theorem Cleanup.scans (h : Cleanup s) (hcall : s.calls[i]? = some call)
    (hmatch : ∀ sequence, scanMatches (warehousePattern s.channel.name)
      (warehouseKey s.channel.name sequence))
    (hphase : call.destroying = some .scan)
    (hphase' : call'.destroying = some (.delete
      (s.backend.warehouse.keys.filter (scanMatches (warehousePattern s.channel.name))))) :
    Cleanup { s with calls := s.calls.set i call' } := by
  have hdestroyed := h.destroyed hcall hphase (by decide) (by decide)
  refine ⟨fun hlive => ?_, fun _ => ?_, fun _ => .inr fun sequence hkey => ?_⟩
  · exact absurd (hdestroyed.symm.trans hlive) Bool.false_ne_true.symm
  · rcases h.cleared hdestroyed with hclear | hnil
    · exact .inl (hclear.stays hcall (by rw [hphase]; decide))
    · exact .inr hnil
  · refine ⟨call', mem_set_self hcall, _, hphase', ?_⟩
    exact List.mem_filter.mpr ⟨AList.mem_keys.mp hkey, hmatch sequence⟩

/-- A key leaves the warehouse and the list together, or the list is done. -/
theorem Cleanup.deletes (h : Cleanup s) (hcall : s.calls[i]? = some call) {keys : List String}
    (hphase : call.destroying = some (.delete keys))
    (hkeys : ∀ key, key ∈ b.warehouse → key ∈ s.backend.warehouse)
    (hdeletes : ∀ key ∈ keys, key ∈ b.warehouse →
      ∃ keys', call'.destroying = some (.delete keys') ∧ key ∈ keys') :
    Cleanup { s with backend := b, calls := s.calls.set i call' } := by
  have hdestroyed := h.destroyed hcall hphase (fun heq => by cases heq) (fun heq => by cases heq)
  have hclear : call.destroying ≠ some .clear := fun heq => by
    rw [hphase] at heq
    cases heq
  have hscan : call.destroying ≠ some .scan := fun heq => by
    rw [hphase] at heq
    cases heq
  refine ⟨fun hlive => ?_, fun _ => ?_, fun _ => ?_⟩
  · exact absurd (hdestroyed.symm.trans hlive) Bool.false_ne_true.symm
  · rcases h.cleared hdestroyed with hbefore | hnil
    · exact .inl (hbefore.stays hcall hclear)
    · exact .inr hnil
  · refine h.stays_swept hcall hdestroyed hclear hscan rfl hkeys (fun keys' heq => ?_)
    rw [hphase] at heq
    cases heq
    exact hdeletes

theorem Cleanup.advance (h : Cleanup s)
    (hmatch : ∀ sequence, scanMatches (warehousePattern s.channel.name)
      (warehouseKey s.channel.name sequence))
    (hcall : s.calls[i]? = some call) (hok : s.InTime (.advances i))
    (hstep : CleanupStep scanMatches s.backend s.channel call b ch call') :
    Cleanup { backend := b, channel := ch, calls := s.calls.set i call' } := by
  cases hstep with
  | exchanged hphase hch hphase' hb =>
      rw [hch, hb]
      exact h.exchanges hcall hphase hphase'
  | cleared hphase hch hphase' hb =>
      rw [hch, hb]
      have hdestroyed := h.destroyed hcall hphase (by decide) (by decide)
      refine ⟨fun hlive => ?_, fun _ => .inr rfl,
        fun _ => .inl ⟨call', mem_set_self hcall, .inr hphase'⟩⟩
      exact absurd (hdestroyed.symm.trans hlive) Bool.false_ne_true.symm
  | scanned hphase hch hphase' hb =>
      rw [hch, hb]
      exact h.scans hcall hmatch hphase hphase'
  | deleted key rest hphase hch hphase' hwarehouse =>
      rw [hch]
      refine h.deletes hcall hphase (fun other hother => ?_) (fun other hin hother => ?_)
      · rw [hwarehouse] at hother
        exact (AList.mem_erase.mp hother).2
      · rw [hwarehouse] at hother
        exact ⟨rest, hphase',
          (List.mem_cons.mp hin).resolve_left (AList.mem_erase.mp hother).1⟩
  | finished hphase hch hphase' hb =>
      rw [hch, hb]
      exact h.deletes hcall hphase (fun _ hkey => hkey) (fun _ hin => by cases hin)
  | other hphase hphase' hdestroyed hname hsubscribers hkeys =>
      exact h.others hcall hok hphase hphase' hdestroyed hname hsubscribers hkeys

theorem Cleanup.step {a : SiteAction} (h : Cleanup s)
    (hmatch : ∀ sequence, scanMatches (warehousePattern s.channel.name)
      (warehouseKey s.channel.name sequence))
    (hok : s.InTime a) (hstep : s.step scanMatches a = some s') : Cleanup s' := by
  cases a with
  | begins op =>
      cases hstep
      have hidle : ∀ phase, op.start.destroying = some phase →
          phase = .exchange ∨ phase = .returned := by
        cases op with
        | destroy => exact fun phase heq => .inl (Option.some.inj heq).symm
        | _ => exact fun phase heq => by cases heq
      refine ⟨fun hlive => forall_snoc (h.unswept hlive) hidle, fun hgone => ?_, fun hgone => ?_⟩
      · rcases h.cleared hgone with ⟨c, hc, heq⟩ | hnil
        · exact .inl ⟨c, List.mem_append_left _ hc, heq⟩
        · exact .inr hnil
      · rcases h.swept hgone with ⟨c, hc, heq⟩ | hleft
        · exact .inl ⟨c, List.mem_append_left _ hc, heq⟩
        · refine .inr fun sequence hkey => ?_
          obtain ⟨c, hc, hrest⟩ := hleft sequence hkey
          exact ⟨c, List.mem_append_left _ hc, hrest⟩
  | advances i =>
      obtain ⟨call, b, ch, call', hcall, hmove, rfl⟩ := Site.step_advances hstep
      exact h.advance hmatch hcall hok (ChannelCall.step_cleanup hmove)
  | delivers i =>
      obtain ⟨feed, feed', receipts, -, -, rfl⟩ := Site.step_delivers hstep
      exact ⟨h.unswept, h.cleared, h.swept⟩
  | expires key =>
      obtain ⟨-, rfl⟩ := Site.step_expires hstep
      refine ⟨h.unswept, h.cleared, fun hgone => ?_⟩
      rcases h.swept hgone with hbefore | hleft
      · exact .inl hbefore
      · exact .inr fun sequence hkey => hleft sequence (AList.mem_erase.mp hkey).2

end Steps

/-- Nothing is left when the channel is destroyed and all calls have returned. -/
theorem Cleanup.nothing_left {s : Site} (h : Cleanup s) (hdestroyed : s.channel.destroyed)
    (hquiet : s.Quiet) : s.channel.subscribers = [] ∧
      ∀ sequence, s.backend.warehouse.lookup (warehouseKey s.channel.name sequence) = none := by
  have hreturned : ∀ c ∈ s.calls, ∀ phase, c.destroying = some phase → phase = .returned := by
    intro c hc phase hphase
    have hreturned := hquiet c hc
    cases c with
    | publish data labelId p => cases hphase
    | subscribe p => cases hphase
    | unsubscribe subId p =>
        cases p with
        | erase => cases hphase
        | destroying p =>
            cases hphase
            cases phase with
            | returned => rfl
            | _ => cases hreturned
    | drain p =>
        cases p with
        | destroying p =>
            cases hphase
            cases phase with
            | returned => rfl
            | _ => cases hreturned
        | _ => cases hphase
    | destroy p =>
        cases hphase
        cases phase with
        | returned => rfl
        | _ => cases hreturned
  constructor
  · rcases h.cleared hdestroyed with ⟨c, hc, hphase⟩ | hnil
    · cases hreturned c hc _ hphase
    · exact hnil
  · intro sequence
    rw [AList.lookup_eq_none]
    intro hkey
    rcases h.swept hdestroyed with ⟨c, hc, hphase | hphase⟩ | hleft
    · cases hreturned c hc _ hphase
    · cases hreturned c hc _ hphase
    · obtain ⟨c, hc, keys, hphase, -⟩ := hleft sequence hkey
      cases hreturned c hc _ hphase

end Labios
