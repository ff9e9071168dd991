import Labios.Channel.Steps

/-!
# Sequence numbers

A channel object numbers the publishes that it accepts from 1 on, until its counter
wraps (`Numbered`). A publish that has taken its number carries its message until it
sends the notification (`MessageStep`).
-/

namespace Labios

open Foundation

/-! ## The counter -/

/-- The accepted messages bear the numbers from 1 on, and the counter is one ahead. -/
structure Numbered (ch : Channel) : Prop where
  small : ch.accepted.length < 2 ^ 64
  next : ch.nextSeq.toNat = (ch.accepted.length + 1) % 2 ^ 64
  numbers : ∀ (k : Nat) (m : ChannelMessage), ch.accepted[k]? = some m → m.sequence.toNat = k + 1

namespace Numbered

variable {ch : Channel}

theorem unique (h : Numbered ch) {m m' : ChannelMessage} (hm : m ∈ ch.accepted)
    (hm' : m' ∈ ch.accepted) (heq : m.sequence = m'.sequence) : m = m' := by
  obtain ⟨k, hk⟩ := List.mem_iff_getElem?.mp hm
  obtain ⟨k', hk'⟩ := List.mem_iff_getElem?.mp hm'
  have hnumber := h.numbers k m hk
  have hnumber' := h.numbers k' m' hk'
  rw [heq] at hnumber
  obtain rfl : k = k' := by omega
  rw [hk] at hk'
  exact Option.some.inj hk'

theorem nodup (h : Numbered ch) : (ch.accepted.map ChannelMessage.sequence).Nodup := by
  rw [List.nodup_iff_pairwise_ne, List.pairwise_map, List.pairwise_iff_getElem]
  intro i j hi hj hlt heq
  have hnumber := h.numbers i _ (List.getElem?_eq_getElem hi)
  have hnumber' := h.numbers j _ (List.getElem?_eq_getElem hj)
  rw [heq] at hnumber
  omega

/-- Until the counter wraps it is the next number. -/
theorem next_eq (h : Numbered ch) (hnext : ch.nextSeq ≠ 0) :
    ch.accepted.length + 1 < 2 ^ 64 ∧ ch.nextSeq.toNat = ch.accepted.length + 1 := by
  have hsmall := h.small
  have heq := h.next
  have hpos : ch.nextSeq.toNat ≠ 0 := fun hzero => hnext (UInt64.toNat_inj.mp hzero)
  omega

theorem lt_next (h : Numbered ch) (hnext : ch.nextSeq ≠ 0) {m : ChannelMessage}
    (hm : m ∈ ch.accepted) : m.sequence < ch.nextSeq := by
  obtain ⟨k, hk⟩ := List.mem_iff_getElem?.mp hm
  have hnumber := h.numbers k m hk
  have hbound := (List.getElem?_eq_some_iff.mp hk).1
  have hcounter := (h.next_eq hnext).2
  rw [UInt64.lt_iff_toNat_lt]
  omega

theorem take (h : Numbered ch) (hnext : ch.nextSeq ≠ 0) {m : ChannelMessage}
    (hm : m.sequence = ch.nextSeq) :
    Numbered { ch with nextSeq := ch.nextSeq + 1, accepted := ch.accepted ++ [m] } := by
  obtain ⟨hsmall, hcounter⟩ := h.next_eq hnext
  refine ⟨?_, ?_, ?_⟩
  · show (ch.accepted ++ [m]).length < 2 ^ 64
    rw [List.length_append]
    exact hsmall
  · show (ch.nextSeq + 1).toNat = ((ch.accepted ++ [m]).length + 1) % 2 ^ 64
    rw [List.length_append, UInt64.toNat_add, hcounter]
    rfl
  · show ∀ (k : Nat) (x : ChannelMessage), (ch.accepted ++ [m])[k]? = some x →
      x.sequence.toNat = k + 1
    intro k x hx
    rcases getElem?_snoc_cases hx with hold | ⟨rfl, rfl⟩
    · exact h.numbers k x hold
    · rw [hm, hcounter]

end Numbered

theorem numbered_fresh (name : String) (ttlSeconds : UInt32) (maxPending : UInt64) :
    Numbered (Site.fresh name ttlSeconds maxPending).channel := by
  refine ⟨?_, rfl, ?_⟩
  · show 0 < 2 ^ 64
    decide
  · intro k m hm
    cases hm

/-! ## The messages of the calls -/

/-- The message that the i-th call carries. -/
def carried? (calls : List ChannelCall) (i : Nat) : Option ChannelMessage :=
  calls[i]?.bind ChannelCall.inFlight

theorem carried?_set_cases {calls : List ChannelCall} {i j : Nat} {call : ChannelCall}
    {m : ChannelMessage} (h : carried? (calls.set i call) j = some m) :
    j = i ∧ call.inFlight = some m ∨ j ≠ i ∧ carried? calls j = some m := by
  obtain ⟨other, hother, hm⟩ := Option.bind_eq_some_iff.mp h
  rcases getElem?_set_cases hother with ⟨rfl, rfl⟩ | ⟨hne, hold⟩
  · exact .inl ⟨rfl, hm⟩
  · exact .inr ⟨hne, Option.bind_eq_some_iff.mpr ⟨other, hold, hm⟩⟩

theorem mem_of_carried? {calls : List ChannelCall} {j : Nat} {m : ChannelMessage}
    (h : carried? calls j = some m) : ∃ other ∈ calls, other.inFlight = some m := by
  obtain ⟨other, hother, hm⟩ := Option.bind_eq_some_iff.mp h
  exact ⟨other, List.mem_of_getElem? hother, hm⟩

theorem carried?_of_call {calls : List ChannelCall} {i : Nat} {call : ChannelCall}
    (hcall : calls[i]? = some call)
    {m : ChannelMessage} (hm : call.inFlight = some m) : carried? calls i = some m :=
  Option.bind_eq_some_iff.mpr ⟨call, hcall, hm⟩

/-- A call that begins carries nothing. -/
theorem carried?_begins {calls : List ChannelCall} {op : ChannelOp} {j : Nat}
    {m : ChannelMessage} (h : carried? (calls ++ [op.start]) j = some m) :
    carried? calls j = some m := by
  obtain ⟨other, hother, hm⟩ := Option.bind_eq_some_iff.mp h
  rcases getElem?_snoc_cases hother with hold | ⟨-, rfl⟩
  · exact Option.bind_eq_some_iff.mpr ⟨other, hold, hm⟩
  · cases op with
    | _ => cases hm

/-- The next step takes a number. -/
def ChannelCall.takes : ChannelCall → Bool
  | .publish _ _ .take => true
  | _ => false

/-- The next step sends the notification. -/
def ChannelCall.sends : ChannelCall → Bool
  | .publish _ _ (.notify _) => true
  | _ => false

/-- What a step of a call does to numbers, messages and the wire. -/
inductive MessageStep (b : Backend) (ch : Channel) (call : ChannelCall) (b' : Backend)
    (ch' : Channel) (call' : ChannelCall) : Prop
  | took (m : ChannelMessage) : call.takes → m.sequence = ch.nextSeq → call.inFlight = none →
      call'.inFlight = some m →
      ch' = { ch with nextSeq := ch.nextSeq + 1, accepted := ch.accepted ++ [m] } → b' = b →
      MessageStep b ch call b' ch' call'
  | kept : call'.inFlight = call.inFlight → ch'.nextSeq = ch.nextSeq →
      ch'.accepted = ch.accepted → b'.wire = b.wire → MessageStep b ch call b' ch' call'
  | sent (m : ChannelMessage) : call.sends → call.inFlight = some m → call'.inFlight = none →
      ch' = ch → b' = { b with wire := b.wire ++ [notification m] } →
      MessageStep b ch call b' ch' call'

section Messages

variable {scanMatches : String → String → Bool} {b b' : Backend} {ch ch' : Channel}
  {call call' : ChannelCall}

theorem publishStep_messages {data : List UInt8} {labelId : UInt64}
    {phase phase' : PublishPhase}
    (h : publishStep b ch data labelId phase = some (b', ch', phase')) :
    MessageStep b ch (.publish data labelId phase) b' ch' (.publish data labelId phase') := by
  cases phase with
  | returned result => cases h
  | loadDraining =>
      cases h
      refine .kept ?_ rfl rfl rfl
      cases ch.draining <;> rfl
  | loadDestroyed =>
      cases h
      refine .kept ?_ rfl rfl rfl
      cases ch.destroyed <;> rfl
  | checkLimit =>
      cases h
      refine .kept ?_ rfl rfl rfl
      cases ch.overLimit <;> rfl
  | take =>
      cases h
      exact .took _ rfl rfl rfl rfl rfl rfl
  | stage sequence =>
      cases h
      refine .kept ?_ rfl rfl rfl
      split
      · rfl
      · rfl
  | setExpiry sequence =>
      cases h
      exact .kept rfl rfl rfl rfl
  | notify sequence =>
      cases h
      exact .sent _ rfl rfl rfl rfl rfl

theorem subscribeStep_messages {phase phase' : SubscribePhase}
    (h : subscribeStep b ch phase = some (ch', phase')) :
    ch'.nextSeq = ch.nextSeq ∧ ch'.accepted = ch.accepted := by
  cases phase with
  | returned result => cases h
  | checkDestroyed | insert | count subId | feed subId =>
      cases h
      exact ⟨rfl, rfl⟩

theorem destroyStep_messages {phase phase' : DestroyPhase}
    (h : destroyStep scanMatches b ch phase = some (b', ch', phase')) :
    ch'.nextSeq = ch.nextSeq ∧ ch'.accepted = ch.accepted ∧ b'.wire = b.wire := by
  cases phase with
  | returned => cases h
  | exchange | clear | scan =>
      cases h
      exact ⟨rfl, rfl, rfl⟩
  | delete keys =>
      cases keys with
      | nil | cons key rest =>
          cases h
          exact ⟨rfl, rfl, rfl⟩

theorem Destroying.inFlight {phase : DestroyPhase} (h : Destroying call phase) :
    call.inFlight = none := by
  cases h with
  | unsubscribe | drain | destroy => rfl

theorem ChannelCall.step_messages (h : call.step scanMatches b ch = some (b', ch', call')) :
    MessageStep b ch call b' ch' call' := by
  cases ChannelCall.step_method h with
  | publish hstep => exact publishStep_messages hstep
  | subscribe hstep =>
      obtain ⟨hnext, haccepted⟩ := subscribeStep_messages hstep
      exact .kept rfl hnext haccepted rfl
  | erase => exact .kept rfl rfl rfl rfl
  | drain => exact .kept rfl rfl rfl rfl
  | checkEmpty => exact .kept rfl rfl rfl rfl
  | destroy hbefore hafter hstep =>
      obtain ⟨hnext, haccepted, hwire⟩ := destroyStep_messages hstep
      exact .kept (hafter.inFlight.trans hbefore.inFlight.symm) hnext haccepted hwire

end Messages

/-- The counter has not wrapped when a number is taken. -/
def Site.Unwrapped (s : Site) : SiteAction → Prop
  | .advances i => ∀ call ∈ s.calls[i]?, call.takes → s.channel.nextSeq ≠ 0
  | .begins _ | .delivers _ | .expires _ => True

instance Site.decidableUnwrapped (s : Site) : (a : SiteAction) → Decidable (s.Unwrapped a)
  | .advances i => inferInstanceAs (Decidable (∀ call ∈ s.calls[i]?, _))
  | .begins _ | .delivers _ | .expires _ => inferInstanceAs (Decidable True)

theorem Numbered.messageStep {b b' : Backend} {ch ch' : Channel} {call call' : ChannelCall}
    (h : Numbered ch) (hstep : MessageStep b ch call b' ch' call')
    (hnext : call.takes → ch.nextSeq ≠ 0) : Numbered ch' := by
  cases hstep with
  | took m htakes hm _ _ hch _ =>
      rw [hch]
      exact h.take (hnext htakes) hm
  | kept _ hnext haccepted _ =>
      refine ⟨?_, ?_, ?_⟩
      · rw [haccepted]
        exact h.small
      · rw [haccepted, hnext]
        exact h.next
      · rw [haccepted]
        exact h.numbers
  | sent m _ _ _ hch _ =>
      rw [hch]
      exact h

theorem Numbered.step {scanMatches : String → String → Bool} {s s' : Site} {a : SiteAction}
    (h : Numbered s.channel) (hok : s.Unwrapped a)
    (hstep : s.step scanMatches a = some s') : Numbered s'.channel := by
  cases a with
  | begins op =>
      cases hstep
      exact h
  | advances i =>
      obtain ⟨call, b, ch, call', hcall, hmove, rfl⟩ := Site.step_advances hstep
      exact h.messageStep (ChannelCall.step_messages hmove) (hok call hcall)
  | delivers i =>
      obtain ⟨feed, feed', receipts, -, -, rfl⟩ := Site.step_delivers hstep
      exact ⟨h.small, h.next, h.numbers⟩
  | expires key =>
      obtain ⟨-, rfl⟩ := Site.step_expires hstep
      exact h

/-- The action takes a sequence number. -/
def Site.takesNumber (s : Site) : SiteAction → Bool
  | .advances i => s.calls[i]?.any ChannelCall.takes
  | .begins _ | .delivers _ | .expires _ => false

theorem accepted_step {scanMatches : String → String → Bool} {s s' : Site} {a : SiteAction}
    (h : s.step scanMatches a = some s') : s'.channel.accepted = s.channel.accepted ∨
      s.takesNumber a ∧ ∃ m, s'.channel.accepted = s.channel.accepted ++ [m] := by
  cases a with
  | begins op =>
      cases h
      exact .inl rfl
  | advances i =>
      obtain ⟨call, b, ch, call', hcall, hmove, rfl⟩ := Site.step_advances h
      cases ChannelCall.step_messages hmove with
      | took m htakes _ _ _ hch _ =>
          right
          refine ⟨?_, m, congrArg Channel.accepted hch⟩
          show s.calls[i]?.any _ = true
          rw [hcall]
          exact htakes
      | kept _ _ haccepted _ => exact .inl haccepted
      | sent m _ _ _ hch _ => exact .inl (congrArg Channel.accepted hch)
  | delivers i =>
      obtain ⟨feed, feed', receipts, -, -, rfl⟩ := Site.step_delivers h
      exact .inl rfl
  | expires key =>
      obtain ⟨-, rfl⟩ := Site.step_expires h
      exact .inl rfl

end Labios
