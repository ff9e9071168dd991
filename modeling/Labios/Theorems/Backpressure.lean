import Labios.Channel.Numbering

/-!
# Backpressure

Is a publish rejected for the limit only when that many accepted messages are still
pending, so that a channel whose subscribers keep up never rejects? The check compares
the limit with the numbers taken since the channel was constructed, delivered or not.
A rejection is right just when the deliveries to all subscribers are no more than the
numbers taken beyond the limit, and publishers that pass the check one at a time get
no more than the limit accepted in the channel's whole life
(`rejections_countAccepted`). A subscriber that has received everything does not help
(`keptUp_rejected`).
-/

namespace Labios

open Foundation

/-! ## What is pending -/

/-- There is a subscriber, and every one has received a message of this number. -/
def Site.DeliveredToAll (s : Site) (m : ChannelMessage) : Prop :=
  s.channel.subscribers ≠ [] ∧ ∀ id ∈ s.channel.subscribers,
    ∃ r ∈ s.channel.received, r.subscriber = id ∧ r.message.sequence = m.sequence

instance (s : Site) (m : ChannelMessage) : Decidable (s.DeliveredToAll m) :=
  inferInstanceAs (Decidable (_ ∧ _))

/-- The accepted messages that have not been delivered to the current subscribers. -/
def Site.pending (s : Site) : Nat :=
  s.channel.accepted.countP fun m => ¬s.DeliveredToAll m

def Site.delivered (s : Site) : Nat := s.channel.accepted.countP fun m => s.DeliveredToAll m

theorem delivered_add_pending (s : Site) :
    s.delivered + s.pending = s.channel.accepted.length := by
  unfold Site.delivered Site.pending
  rw [List.length_eq_countP_add_countP (fun m => decide (s.DeliveredToAll m))]
  congr 1
  refine List.countP_congr fun m _ => ?_
  simp

/-! ## Rejections -/

/-- The next step compares the counter with the limit. -/
def ChannelCall.checksLimit : ChannelCall → Bool
  | .publish _ _ .checkLimit => true
  | _ => false

def ChannelCall.rejected : ChannelCall → Bool
  | .publish _ _ (.returned result) => result == 0
  | _ => false

/-- The next step of the call returns 0 from a publish that has taken no number. -/
def Site.Rejects (scanMatches : String → String → Bool) (s : Site) (i : Nat) : Prop :=
  ∃ call ∈ s.calls[i]?, call.inFlight = none ∧
    ∃ s' ∈ s.step scanMatches (.advances i), ∃ call' ∈ s'.calls[i]?, call'.rejected

instance (scanMatches : String → String → Bool) (s : Site) (i : Nat) :
    Decidable (s.Rejects scanMatches i) :=
  inferInstanceAs (Decidable (∃ call ∈ s.calls[i]?, _))

/-- Neither draining nor destroyed. -/
def Site.Open (s : Site) : Prop := s.channel.draining = false ∧ s.channel.destroyed = false

instance (s : Site) : Decidable s.Open := inferInstanceAs (Decidable (_ ∧ _))

/-- A rejection on an open channel finds as many messages pending as the limit. -/
def Site.RejectsOnlyFull (scanMatches : String → String → Bool) (s : Site) : SiteAction → Prop
  | .advances i => s.Rejects scanMatches i → s.Open → s.channel.maxPending.toNat ≤ s.pending
  | .begins _ | .delivers _ | .expires _ => True

/-- At a check that finds the limit reached, no more messages have been delivered to
all subscribers than numbers were taken beyond the limit. -/
def Site.NotAhead (s : Site) : SiteAction → Prop
  | .advances i => ∀ call ∈ s.calls[i]?, call.checksLimit → s.channel.overLimit → s.Open →
      s.delivered ≤ (s.channel.nextSeq - 1).toNat - s.channel.maxPending.toNat
  | .begins _ | .delivers _ | .expires _ => True

instance Site.decidableNotAhead (s : Site) : (a : SiteAction) → Decidable (s.NotAhead a)
  | .advances i => inferInstanceAs (Decidable (∀ call ∈ s.calls[i]?, _))
  | .begins _ | .delivers _ | .expires _ => inferInstanceAs (Decidable True)

/-- A check of the limit is made while no other publish is past it without a number. -/
def Site.OneAtATime (s : Site) : SiteAction → Prop
  | .advances i => ∀ call ∈ s.calls[i]?, call.checksLimit → ∀ other ∈ s.calls, ¬other.takes
  | .begins _ | .delivers _ | .expires _ => True

section Checks

variable {scanMatches : String → String → Bool} {s s' : Site} {i : Nat}

/-- On an open channel only the limit rejects. -/
theorem rejects_iff (hopen : s.Open) :
    s.Rejects scanMatches i ↔ ∃ call ∈ s.calls[i]?, call.checksLimit ∧ s.channel.overLimit := by
  constructor
  · rintro ⟨call, hcall, hnone, s', hs', call', hcall', hrejected⟩
    obtain ⟨call₀, b, ch, call₁, hcall₀, hmove, rfl⟩ := Site.step_advances hs'
    obtain rfl := Option.some.inj (hcall₀.symm.trans hcall)
    have hbound := (List.getElem?_eq_some_iff.mp hcall₀).1
    have hset : (s.calls.set i call₁)[i]? = some call₁ := List.getElem?_set_self hbound
    obtain rfl := Option.some.inj (hset.symm.trans hcall')
    refine ⟨call₀, hcall₀, ?_⟩
    cases ChannelCall.step_method hmove with
    | @publish data labelId phase _ _ phase' hstep =>
        cases phase with
        | returned result => cases hstep
        | loadDraining =>
            cases hstep
            rw [hopen.1] at hrejected
            cases hrejected
        | loadDestroyed =>
            cases hstep
            rw [hopen.2] at hrejected
            cases hrejected
        | checkLimit =>
            cases hstep
            refine ⟨rfl, ?_⟩
            cases hlimit : s.channel.overLimit with
            | true => rfl
            | false =>
                rw [hlimit] at hrejected
                cases hrejected
        | take =>
            cases hstep
            cases hrejected
        | stage sequence | setExpiry sequence | notify sequence => cases hnone
    | subscribe hstep => cases hrejected
    | erase | drain | checkEmpty => cases hrejected
    | destroy _ hafter hstep =>
        cases hafter with
        | unsubscribe | drain | destroy => cases hrejected
  · rintro ⟨call, hcall, hchecks, hlimit⟩
    have hcall : s.calls[i]? = some call := hcall
    cases call with
    | publish data labelId phase =>
        cases phase with
        | checkLimit =>
            have hstep : s.step scanMatches (.advances i) = some { s with
                calls := s.calls.set i (.publish data labelId (.returned 0)) } := by
              unfold Site.step
              dsimp only
              rw [hcall]
              simp only [Option.bind_some, ChannelCall.step, publishStep, hlimit, if_true,
                Option.map_some]
            have hbound := (List.getElem?_eq_some_iff.mp hcall).1
            exact ⟨_, hcall, rfl, _, hstep, _, List.getElem?_set_self hbound, rfl⟩
        | _ => cases hchecks
    | _ => cases hchecks

/-- The counter is one ahead of the number of accepted messages. -/
theorem Numbered.counter (h : Numbered s.channel) :
    (s.channel.nextSeq - 1).toNat = s.channel.accepted.length := by
  have hsmall := h.small
  rw [UInt64.toNat_sub, h.next]
  show (2 ^ 64 - 1 + _) % 2 ^ 64 = _
  omega

theorem overLimit_iff {ch : Channel} :
    ch.overLimit ↔ 0 < ch.maxPending ∧ ch.maxPending.toNat ≤ (ch.nextSeq - 1).toNat := by
  unfold Channel.overLimit
  rw [Bool.and_eq_true, decide_eq_true_iff, decide_eq_true_iff, UInt64.le_iff_toNat_le]

theorem rejectsOnlyFull_iff (h : Numbered s.channel) {a : SiteAction} :
    s.RejectsOnlyFull scanMatches a ↔ s.NotAhead a := by
  cases a with
  | begins op => exact Iff.rfl
  | delivers j => exact Iff.rfl
  | expires key => exact Iff.rfl
  | advances j =>
      have hcount := delivered_add_pending s
      have hcounter := h.counter
      constructor
      · intro hfull call hcall hchecks hlimit hopen
        have hpending := hfull ((rejects_iff hopen).mpr ⟨call, hcall, hchecks, hlimit⟩) hopen
        omega
      · intro hahead hrejects hopen
        obtain ⟨call, hcall, hchecks, hlimit⟩ := (rejects_iff hopen).mp hrejects
        have hdelivered := hahead call hcall hchecks hlimit hopen
        have hreached := (overLimit_iff.mp hlimit).2
        omega

end Checks

/-! ## How many are ever accepted -/

/-- The messages accepted, and the publish past the check, fit the limit. -/
structure WithinLimit (s : Site) : Prop where
  numbered : Numbered s.channel
  positive : 0 < s.channel.maxPending
  accepted : s.channel.accepted.length ≤ s.channel.maxPending.toNat
  room : ∀ c ∈ s.calls, c.takes → s.channel.accepted.length < s.channel.maxPending.toNat
  single : ∀ (i j : Nat) (c c' : ChannelCall), s.calls[i]? = some c → s.calls[j]? = some c' →
    c.takes → c'.takes → i = j

section Limit

variable {scanMatches : String → String → Bool} {s s' : Site} {b b' : Backend} {ch ch' : Channel}
  {i : Nat} {call call' : ChannelCall}

/-- Only a check below the limit leads to a number. -/
theorem checked_of_takes (h : call.step scanMatches b ch = some (b', ch', call'))
    (htakes : call'.takes) : call.checksLimit ∧ ch.overLimit = false := by
  cases ChannelCall.step_method h with
  | @publish data labelId phase _ _ phase' hstep =>
      cases phase with
      | returned result => cases hstep
      | loadDraining =>
          cases hstep
          cases hdraining : ch.draining with
          | _ =>
              rw [hdraining] at htakes
              cases htakes
      | loadDestroyed =>
          cases hstep
          cases hdestroyed : ch.destroyed with
          | _ =>
              rw [hdestroyed] at htakes
              cases htakes
      | checkLimit =>
          cases hstep
          refine ⟨rfl, ?_⟩
          cases hlimit : ch.overLimit with
          | false => rfl
          | true =>
              rw [hlimit] at htakes
              cases htakes
      | stage sequence =>
          cases hstep
          split at htakes
          · cases htakes
          · cases htakes
      | take | setExpiry sequence | notify sequence =>
          cases hstep
          cases htakes
  | subscribe | erase | drain | checkEmpty => cases htakes
  | destroy _ hafter _ =>
      cases hafter with
      | unsubscribe | drain | destroy => cases htakes

theorem takes_not_checks (h : call.takes) : call.checksLimit = false := by
  cases call with
  | publish data labelId phase =>
      cases phase with
      | take => rfl
      | _ => cases h
  | _ => cases h

/-- Calls that take a number afterwards did so before, but for the one that moves. -/
theorem WithinLimit.single_set (h : WithinLimit s)
    (hothers : call'.takes → ∀ other ∈ s.calls, ¬other.takes) :
    ∀ (j k : Nat) (c c' : ChannelCall), (s.calls.set i call')[j]? = some c →
      (s.calls.set i call')[k]? = some c' → c.takes → c'.takes → j = k := by
  intro j k c c' hc hc' ht ht'
  rcases getElem?_set_cases hc with ⟨rfl, rfl⟩ | ⟨-, hold⟩
  · rcases getElem?_set_cases hc' with ⟨rfl, -⟩ | ⟨-, hold'⟩
    · rfl
    · exact absurd ht' (hothers ht c' (List.mem_of_getElem? hold'))
  · rcases getElem?_set_cases hc' with ⟨rfl, rfl⟩ | ⟨-, hold'⟩
    · exact absurd ht (hothers ht' c (List.mem_of_getElem? hold))
    · exact h.single j k c c' hold hold' ht ht'

/-- A call that comes past the check found room. -/
theorem WithinLimit.room_set (h : WithinLimit s)
    (hcheck : call'.takes → call.checksLimit ∧ s.channel.overLimit = false) :
    ∀ c ∈ s.calls.set i call', c.takes →
      s.channel.accepted.length < s.channel.maxPending.toNat := by
  intro c hc htakes
  rcases List.mem_or_eq_of_mem_set hc with hold | rfl
  · exact h.room c hold htakes
  · have hnot : ¬s.channel.overLimit := by
      rw [(hcheck htakes).2]
      exact Bool.false_ne_true
    rw [overLimit_iff, h.numbered.counter] at hnot
    exact Nat.lt_of_not_le fun hle => hnot ⟨h.positive, hle⟩

theorem WithinLimit.advance (h : WithinLimit s) (hok : s.OneAtATime (.advances i))
    (hcall : s.calls[i]? = some call)
    (hmove : call.step scanMatches s.backend s.channel = some (b, ch, call')) :
    WithinLimit { backend := b, channel := ch, calls := s.calls.set i call' } := by
  have hmem := List.mem_of_getElem? hcall
  have hcheck := checked_of_takes hmove
  have hmax : ch.maxPending = s.channel.maxPending := (ChannelCall.step_frame hmove).config.2.2
  have hmessages := ChannelCall.step_messages hmove
  have hlimit := s.channel.maxPending.toNat_lt
  have hnext : call.takes → s.channel.nextSeq ≠ 0 := by
    intro htakes hzero
    have hroom := h.room call hmem htakes
    have hnext := h.numbered.next
    rw [hzero, UInt64.toNat_zero] at hnext
    omega
  have hnumbered : Numbered ch := h.numbered.messageStep hmessages hnext
  have hothers : call'.takes → ∀ other ∈ s.calls, ¬other.takes :=
    fun htakes => hok call hcall (hcheck htakes).1
  refine ⟨hnumbered, ?_, ?_, ?_, h.single_set hothers⟩
  · show 0 < ch.maxPending
    rw [hmax]
    exact h.positive
  · show ch.accepted.length ≤ ch.maxPending.toNat
    rw [hmax]
    cases hmessages with
    | took m htakes _ _ _ hch _ =>
        have hroom := h.room call hmem htakes
        rw [hch, List.length_append]
        exact hroom
    | kept _ _ haccepted _ =>
        rw [haccepted]
        exact h.accepted
    | sent m _ _ _ hch _ =>
        rw [hch]
        exact h.accepted
  · show ∀ c ∈ s.calls.set i call', c.takes → ch.accepted.length < ch.maxPending.toNat
    rw [hmax]
    cases hmessages with
    | took m hcalls _ _ _ _ _ =>
        -- the only call past the check has just taken its number
        intro c hc htakes
        obtain ⟨j, hj⟩ := List.mem_iff_getElem?.mp hc
        exfalso
        rcases getElem?_set_cases hj with ⟨-, rfl⟩ | ⟨hne, hold⟩
        · have hchecks := (hcheck htakes).1
          rw [takes_not_checks hcalls] at hchecks
          cases hchecks
        · exact hne (h.single j i c call hold hcall htakes hcalls)
    | kept _ _ haccepted _ =>
        rw [haccepted]
        exact h.room_set hcheck
    | sent m _ _ _ hch _ =>
        rw [hch]
        exact h.room_set hcheck

theorem WithinLimit.step {a : SiteAction} (h : WithinLimit s) (hok : s.OneAtATime a)
    (hstep : s.step scanMatches a = some s') : WithinLimit s' := by
  cases a with
  | begins op =>
      cases hstep
      have hidle : op.start.takes = false := by
        cases op with
        | _ => rfl
      refine ⟨h.numbered, h.positive, h.accepted, ?_, ?_⟩
      · intro c hc htakes
        rcases List.mem_append.mp hc with hc | hc
        · exact h.room c hc htakes
        · rw [List.mem_singleton.mp hc, hidle] at htakes
          cases htakes
      · intro j k c c' hc hc' ht ht'
        rcases getElem?_snoc_cases hc with hold | ⟨-, rfl⟩
        · rcases getElem?_snoc_cases hc' with hold' | ⟨-, rfl⟩
          · exact h.single j k c c' hold hold' ht ht'
          · rw [hidle] at ht'
            cases ht'
        · rw [hidle] at ht
          cases ht
  | advances i =>
      obtain ⟨call, b, ch, call', hcall, hmove, rfl⟩ := Site.step_advances hstep
      exact h.advance hok hcall hmove
  | delivers i =>
      obtain ⟨feed, feed', receipts, -, -, rfl⟩ := Site.step_delivers hstep
      exact ⟨⟨h.numbered.small, h.numbered.next, h.numbered.numbers⟩, h.positive, h.accepted,
        h.room, h.single⟩
  | expires key =>
      obtain ⟨-, rfl⟩ := Site.step_expires hstep
      exact ⟨h.numbered, h.positive, h.accepted, h.room, h.single⟩

end Limit

/-- **Backpressure.** While the counter has not wrapped, the rejections of a run on
open channels are right if and only if no check that finds the limit reached is ahead
of the deliveries; and publishers that pass the check one at a time get no more than
the limit accepted in all, delivered or not. -/
theorem rejections_countAccepted (scanMatches : String → String → Bool) (name : String)
    (ttlSeconds : UInt32) (maxPending : UInt64) (hpositive : 0 < maxPending)
    (actions : List SiteAction) :
    (Along (Site.step scanMatches) Site.Unwrapped (Site.fresh name ttlSeconds maxPending)
        actions →
      (Along (Site.step scanMatches) (Site.RejectsOnlyFull scanMatches)
          (Site.fresh name ttlSeconds maxPending) actions ↔
        Along (Site.step scanMatches) Site.NotAhead (Site.fresh name ttlSeconds maxPending)
          actions)) ∧
      ∀ s, exec (Site.step scanMatches) (Site.fresh name ttlSeconds maxPending) actions = some s →
        Along (Site.step scanMatches) Site.OneAtATime (Site.fresh name ttlSeconds maxPending)
          actions →
        s.channel.accepted.length ≤ maxPending.toNat := by
  have hnumbered := numbered_fresh name ttlSeconds maxPending
  constructor
  · intro hunwrapped
    exact Along.iff (I := fun s => Numbered s.channel) (fun h hok hstep => h.step hok hstep)
      (fun h => rejectsOnlyFull_iff h) hnumbered hunwrapped
  · intro s hexec hone
    have hstart : WithinLimit (Site.fresh name ttlSeconds maxPending) ∧
        (Site.fresh name ttlSeconds maxPending).channel.maxPending = maxPending := by
      refine ⟨⟨hnumbered, hpositive, Nat.zero_le _, ?_, ?_⟩, rfl⟩
      · intro c hc
        cases hc
      · intro i j c c' hc
        cases hc
    obtain ⟨hwithin, hmax⟩ := exec_invariant
      (I := fun s => WithinLimit s ∧ s.channel.maxPending = maxPending)
      (fun h hok hstep => ⟨h.1.step hok hstep, (config_step hstep).2.2.trans h.2⟩) hstart hexec hone
    rw [← hmax]
    exact hwithin.accepted

/-! ## Runs -/

/-- A subscriber, and two messages that it receives. -/
def keptUp : List SiteAction :=
  ChannelOp.subscribe.runs 0 4 ++ (ChannelOp.publish [1] 7).runs 1 6 ++
    List.replicate 5 (.delivers 0) ++ (ChannelOp.publish [2] 8).runs 2 6 ++
    List.replicate 5 (.delivers 0)

/-- Two messages that nobody receives, and a third one. -/
def nobodyReceives : List SiteAction :=
  (ChannelOp.publish [1] 7).runs 0 6 ++ (ChannelOp.publish [2] 8).runs 1 6 ++
    (ChannelOp.publish [3] 9).runs 2 3

theorem rejections_countAccepted_nobodyReceives :
    Along (Site.step starMatches) (Site.RejectsOnlyFull starMatches) (Site.fresh "log" 0 2)
      nobodyReceives := by
  refine ((rejections_countAccepted starMatches "log" 0 2 (by decide) nobodyReceives).1 ?_).mpr ?_
  · decide +kernel
  · decide +kernel

/-- The subscriber has received both messages, nothing is pending, and the third
publish is rejected. -/
theorem keptUp_rejected :
    ∃ s ∈ exec (Site.step starMatches) (Site.fresh "log" 0 2)
        (keptUp ++ (ChannelOp.publish [3] 9).runs 3 2),
      s.Open ∧ s.pending = 0 ∧ s.Rejects starMatches 3 := by
  decide +kernel

end Labios
