import Labios.Channel.Deliveries
import Labios.Channel.Numbering

/-!
# Deliveries in sequence order

Does every subscriber see the messages of one channel object in the order of their
sequence numbers? `publish` takes the number, stages the data and sends the
notification in steps of their own, and NATS delivers in the order of the
notifications. In runs in which no notification overtakes a smaller number the
sequences increase (`deliveries_inOrder`); two publishers are enough to break it
(`overtaken_delivery`).
-/

namespace Labios

open Foundation

/-! ## The condition -/

/-- A notification is sent only while no smaller number is on its way, the counter
has not wrapped, and a native subscription is created only while there is none. -/
def Site.Orderly (s : Site) : SiteAction → Prop
  | .advances i => ∀ call ∈ s.calls[i]?,
      (call.takes → s.channel.nextSeq ≠ 0) ∧ (call.opensFeed → s.channel.feeds = []) ∧
        (call.sends → ∀ m ∈ call.inFlight, ∀ other ∈ s.calls, ∀ m' ∈ other.inFlight,
          m.sequence ≤ m'.sequence)
  | .begins _ | .delivers _ | .expires _ => True

instance Site.decidableOrderly (s : Site) : (a : SiteAction) → Decidable (s.Orderly a)
  | .advances i => inferInstanceAs (Decidable (∀ call ∈ s.calls[i]?, _))
  | .begins _ | .delivers _ | .expires _ => inferInstanceAs (Decidable True)

/-! ## What was sent is in order -/

/-- The notifications on the wire, as messages. -/
structure SentInOrder (s : Site) (sent : List ChannelMessage) : Prop where
  wire : s.backend.wire = sent.map notification
  increasing : sent.Pairwise (·.sequence < ·.sequence)
  accepted : ∀ m ∈ sent, m ∈ s.channel.accepted
  behind : ∀ m ∈ sent, ∀ i m', carried? s.calls i = some m' → m.sequence < m'.sequence

structure InOrder (s : Site) : Prop where
  numbered : Numbered s.channel
  carried : ∀ i m, carried? s.calls i = some m → m ∈ s.channel.accepted
  distinct : ∀ i j m m', carried? s.calls i = some m → carried? s.calls j = some m' →
    m.sequence = m'.sequence → i = j
  sent : ∃ sent, SentInOrder s sent
  feed : s.channel.feeds.length ≤ 1

theorem inOrder_fresh (name : String) (ttlSeconds : UInt32) (maxPending : UInt64) :
    InOrder (Site.fresh name ttlSeconds maxPending) := by
  refine ⟨numbered_fresh name ttlSeconds maxPending, ?_, ?_, ⟨[], rfl, List.Pairwise.nil, ?_, ?_⟩,
    Nat.zero_le 1⟩
  · intro i m hm
    cases hm
  · intro i j m m' hm
    cases hm
  · intro m hm
    cases hm
  · intro m hm
    cases hm

section Steps

variable {scanMatches : String → String → Bool} {s s' : Site} {b : Backend} {ch : Channel}
  {i : Nat} {call call' : ChannelCall}

/-- The number taken is larger than every one that is carried or was sent. -/
theorem InOrder.took (h : InOrder s) {m : ChannelMessage} (hnext : s.channel.nextSeq ≠ 0)
    (hm : m.sequence = s.channel.nextSeq) (hcarries : call'.inFlight = some m) :
    InOrder { s with
      channel := { s.channel with
        nextSeq := s.channel.nextSeq + 1
        accepted := s.channel.accepted ++ [m] }
      calls := s.calls.set i call' } := by
  have hlarger : ∀ x ∈ s.channel.accepted, x.sequence < m.sequence := by
    intro x hx
    rw [hm]
    exact h.numbered.lt_next hnext hx
  have hnew : ∀ {x}, call'.inFlight = some x → x = m := by
    intro x hx
    rw [hcarries] at hx
    exact (Option.some.inj hx).symm
  obtain ⟨sent, hsent⟩ := h.sent
  refine ⟨h.numbered.take hnext hm, ?_, ?_, ⟨sent, hsent.wire, hsent.increasing, ?_, ?_⟩, h.feed⟩
  · intro j x hx
    rcases carried?_set_cases hx with ⟨-, hx⟩ | ⟨-, hx⟩
    · rw [hnew hx]
      exact List.mem_append_right _ (List.mem_singleton_self m)
    · exact List.mem_append_left _ (h.carried j x hx)
  · intro j k x y hx hy heq
    rcases carried?_set_cases hx with ⟨rfl, hx'⟩ | ⟨-, hx'⟩
    · rcases carried?_set_cases hy with ⟨rfl, -⟩ | ⟨-, hy'⟩
      · rfl
      · have := hlarger y (h.carried k y hy')
        rw [← heq, hnew hx'] at this
        exact absurd this (UInt64.lt_irrefl _)
    · rcases carried?_set_cases hy with ⟨rfl, hy'⟩ | ⟨-, hy'⟩
      · have := hlarger x (h.carried j x hx')
        rw [heq, hnew hy'] at this
        exact absurd this (UInt64.lt_irrefl _)
      · exact h.distinct j k x y hx' hy' heq
  · intro x hx
    exact List.mem_append_left _ (hsent.accepted x hx)
  · intro x hx j y hy
    rcases carried?_set_cases hy with ⟨-, hy⟩ | ⟨-, hy⟩
    · rw [hnew hy]
      exact hlarger x (hsent.accepted x hx)
    · exact hsent.behind x hx j y hy

/-- What is sent is larger than everything sent before and smaller than what is
still carried. -/
theorem InOrder.sends (h : InOrder s) (hcall : s.calls[i]? = some call) {m : ChannelMessage}
    (hm : call.inFlight = some m) (hempty : call'.inFlight = none)
    (hleast : ∀ other ∈ s.calls, ∀ m' ∈ other.inFlight, m.sequence ≤ m'.sequence) :
    InOrder { s with
      backend := { s.backend with wire := s.backend.wire ++ [notification m] }
      calls := s.calls.set i call' } := by
  have hbefore := carried?_of_call hcall hm
  have hold : ∀ {j x}, carried? (s.calls.set i call') j = some x →
      j ≠ i ∧ carried? s.calls j = some x := by
    intro j x hx
    rcases carried?_set_cases hx with ⟨-, hx⟩ | hx
    · rw [hempty] at hx
      cases hx
    · exact hx
  obtain ⟨sent, hsent⟩ := h.sent
  refine ⟨h.numbered, ?_, ?_, ⟨sent ++ [m], ?_, ?_, ?_, ?_⟩, h.feed⟩
  · intro j x hx
    exact h.carried j x (hold hx).2
  · intro j k x y hx hy heq
    exact h.distinct j k x y (hold hx).2 (hold hy).2 heq
  · show s.backend.wire ++ [notification m] = (sent ++ [m]).map notification
    rw [List.map_append, hsent.wire]
    rfl
  · refine List.pairwise_append.mpr ⟨hsent.increasing, List.pairwise_singleton _ _, ?_⟩
    intro x hx y hy
    rw [List.mem_singleton.mp hy]
    exact hsent.behind x hx i m hbefore
  · intro x hx
    rcases List.mem_append.mp hx with hx | hx
    · exact hsent.accepted x hx
    · rw [List.mem_singleton.mp hx]
      exact h.carried i m hbefore
  · intro x hx j y hy
    obtain ⟨hne, hy⟩ := hold hy
    rcases List.mem_append.mp hx with hx | hx
    · exact hsent.behind x hx j y hy
    · rw [List.mem_singleton.mp hx]
      obtain ⟨other, hother, hcarries⟩ := mem_of_carried? hy
      refine UInt64.lt_of_le_of_ne (hleast other hother y hcarries) fun heq => hne ?_
      exact (h.distinct i j m y hbefore hy heq).symm

/-- Where no number is taken and nothing is sent, the messages stay where they are. -/
theorem InOrder.kept (h : InOrder s) (hcall : s.calls[i]? = some call)
    (hcarries : call'.inFlight = call.inFlight) (hnext : ch.nextSeq = s.channel.nextSeq)
    (haccepted : ch.accepted = s.channel.accepted) (hwire : b.wire = s.backend.wire)
    (hfeed : ch.feeds.length ≤ 1) :
    InOrder { backend := b, channel := ch, calls := s.calls.set i call' } := by
  have hold : ∀ {j x}, carried? (s.calls.set i call') j = some x → carried? s.calls j = some x := by
    intro j x hx
    rcases carried?_set_cases hx with ⟨rfl, hx'⟩ | ⟨-, hx'⟩
    · exact carried?_of_call hcall (hcarries.symm.trans hx')
    · exact hx'
  obtain ⟨sent, hsent⟩ := h.sent
  have hnumbered := h.numbered
  refine ⟨⟨?_, ?_, ?_⟩, ?_, ?_, ⟨sent, ?_, hsent.increasing, ?_, ?_⟩, hfeed⟩
  · rw [haccepted]
    exact hnumbered.small
  · rw [haccepted, hnext]
    exact hnumbered.next
  · rw [haccepted]
    exact hnumbered.numbers
  · intro j x hx
    rw [haccepted]
    exact h.carried j x (hold hx)
  · intro j k x y hx hy heq
    exact h.distinct j k x y (hold hx) (hold hy) heq
  · exact hwire.trans hsent.wire
  · intro x hx
    rw [haccepted]
    exact hsent.accepted x hx
  · intro x hx j y hy
    exact hsent.behind x hx j y (hold hy)

theorem feeds_le_one (hframe : Frame s.backend s.channel b ch)
    (hopens : ch.feeds = s.channel.feeds ∨ call.opensFeed)
    (hfeed : s.channel.feeds.length ≤ 1) (hok : call.opensFeed → s.channel.feeds = []) :
    ch.feeds.length ≤ 1 := by
  rcases hopens with hsame | hopens
  · rw [hsame]
    exact hfeed
  · rcases hframe.feeds with hsame | hnew
    · rw [hsame]
      exact hfeed
    · rw [hnew, hok hopens]
      exact Nat.le_refl 1

theorem InOrder.step {a : SiteAction} (h : InOrder s) (hok : s.Orderly a)
    (hstep : s.step scanMatches a = some s') : InOrder s' := by
  cases a with
  | begins op =>
      cases hstep
      obtain ⟨sent, hsent⟩ := h.sent
      refine ⟨h.numbered, ?_, ?_, ⟨sent, hsent.wire, hsent.increasing, hsent.accepted, ?_⟩, h.feed⟩
      · intro j m hm
        exact h.carried j m (carried?_begins hm)
      · intro j k m m' hm hm' heq
        exact h.distinct j k m m' (carried?_begins hm) (carried?_begins hm') heq
      · intro m hm j m' hm'
        exact hsent.behind m hm j m' (carried?_begins hm')
  | advances i =>
      obtain ⟨call, b, ch, call', hcall, hmove, rfl⟩ := Site.step_advances hstep
      obtain ⟨htakes, hopens, hsends⟩ := hok call hcall
      have hfeed := feeds_le_one (ChannelCall.step_frame hmove) (ChannelCall.step_feeds hmove)
        h.feed hopens
      cases ChannelCall.step_messages hmove with
      | took m hcalls hm _ hcarries hch hb =>
          rw [hch, hb]
          exact h.took (htakes hcalls) hm hcarries
      | kept hcarries hnext haccepted hwire =>
          exact h.kept hcall hcarries hnext haccepted hwire hfeed
      | sent m hcalls hm hempty hch hb =>
          rw [hch, hb]
          exact h.sends hcall hm hempty (hsends hcalls m hm)
  | delivers i =>
      obtain ⟨feed, feed', receipts, -, -, rfl⟩ := Site.step_delivers hstep
      obtain ⟨sent, hsent⟩ := h.sent
      refine ⟨⟨h.numbered.small, h.numbered.next, h.numbered.numbers⟩, h.carried, h.distinct,
        ⟨sent, hsent.wire, hsent.increasing, hsent.accepted, hsent.behind⟩, ?_⟩
      show (s.channel.feeds.set i feed').length ≤ 1
      rw [List.length_set]
      exact h.feed
  | expires key =>
      obtain ⟨-, rfl⟩ := Site.step_expires hstep
      obtain ⟨sent, hsent⟩ := h.sent
      exact ⟨h.numbered, h.carried, h.distinct,
        ⟨sent, hsent.wire, hsent.increasing, hsent.accepted, hsent.behind⟩, h.feed⟩

end Steps

/-! ## The order of deliveries -/

/-- A later payload has the larger number. -/
theorem SentInOrder.lt {s : Site} {sent : List ChannelMessage} (h : SentInOrder s sent)
    {p q : Nat} {n n' l l' : UInt64} (hp : s.backend.Names p n l) (hq : s.backend.Names q n' l')
    (hlt : p < q) : n < n' := by
  obtain ⟨m, hm, rfl, -⟩ := hp
  obtain ⟨m', hm', rfl, -⟩ := hq
  rw [h.wire, List.getElem?_map] at hm hm'
  obtain ⟨x, hx, hnotified⟩ := Option.map_eq_some_iff.mp hm
  obtain ⟨y, hy, hnotified'⟩ := Option.map_eq_some_iff.mp hm'
  obtain ⟨hbound, rfl⟩ := List.getElem?_eq_some_iff.mp hx
  obtain ⟨hbound', rfl⟩ := List.getElem?_eq_some_iff.mp hy
  rw [← (notification_inj hnotified).1, ← (notification_inj hnotified').1]
  exact List.pairwise_iff_getElem.mp h.increasing p q hbound hbound' hlt

/-- **The order of deliveries.** In an orderly run every subscriber receives accepted
messages only, and in the order of their numbers. -/
theorem deliveries_inOrder (scanMatches : String → String → Bool) (name : String)
    (ttlSeconds : UInt32) (maxPending : UInt64) (actions : List SiteAction) (s : Site)
    (hexec : exec (Site.step scanMatches) (Site.fresh name ttlSeconds maxPending) actions =
      some s)
    (horderly : Along (Site.step scanMatches) Site.Orderly
      (Site.fresh name ttlSeconds maxPending) actions) (subscriber : Int) :
    (s.channel.received.filter (·.subscriber = subscriber)).Pairwise
        (·.message.sequence < ·.message.sequence) ∧
      ∀ r ∈ s.channel.received, ∃ m ∈ s.channel.accepted,
        m.sequence = r.message.sequence ∧ m.labelId = r.message.labelId := by
  have hinv : InOrder s := exec_invariant (fun h hok hstep => h.step hok hstep)
    (inOrder_fresh name ttlSeconds maxPending) hexec horderly
  have hdeliveries := (deliveries_fresh name ttlSeconds maxPending).exec hexec
  obtain ⟨sent, hsent⟩ := hinv.sent
  refine ⟨?_, ?_⟩
  · refine (hdeliveries.ordered.filter _).imp_of_mem ?_
    intro r r' hr hr' hbefore
    obtain ⟨hr, hsubscriber⟩ := List.mem_filter.mp hr
    obtain ⟨hr', hsubscriber'⟩ := List.mem_filter.mp hr'
    have hfeed : r.feed = r'.feed := by
      have hknown := hdeliveries.known r hr
      have hknown' := hdeliveries.known r' hr'
      have := hinv.feed
      omega
    exact hsent.lt (hdeliveries.about r hr) (hdeliveries.about r' hr')
      (hbefore hfeed ((of_decide_eq_true hsubscriber).trans
        (of_decide_eq_true hsubscriber').symm))
  · intro r hr
    obtain ⟨m, hm, hsequence, hlabel⟩ := hdeliveries.about r hr
    have hmem := List.mem_of_getElem? hm
    rw [hsent.wire] at hmem
    obtain ⟨x, hx, hnotified⟩ := List.mem_map.mp hmem
    obtain ⟨hsequence', hlabel'⟩ := notification_inj hnotified
    exact ⟨x, hsent.accepted x hx, hsequence'.trans hsequence, hlabel'.trans hlabel⟩

/-! ## Runs -/

/-- Two messages, the second published after the first. -/
def inTurn : List SiteAction :=
  ChannelOp.subscribe.runs 0 4 ++ (ChannelOp.publish [1] 7).runs 1 6 ++
    (ChannelOp.publish [2] 8).runs 2 6 ++ List.replicate 10 (.delivers 0)

/-- Both have taken their number when the second publisher overtakes the first. -/
def overtaking : List SiteAction :=
  ChannelOp.subscribe.runs 0 4 ++ (ChannelOp.publish [1] 7).runs 1 4 ++
    (ChannelOp.publish [2] 8).runs 2 6 ++ List.replicate 2 (.advances 1) ++
    List.replicate 10 (.delivers 0)

theorem deliveries_inOrder_inTurn :
    ∃ s, exec (Site.step starMatches) (Site.fresh "log" 0 10000) inTurn = some s ∧
      (s.channel.received.filter (·.subscriber = 1)).Pairwise
        (·.message.sequence < ·.message.sequence) := by
  obtain ⟨s, hexec⟩ := Option.isSome_iff_exists.mp (show (exec (Site.step starMatches)
    (Site.fresh "log" 0 10000) inTurn).isSome = true by decide +kernel)
  have horderly : Along (Site.step starMatches) Site.Orderly (Site.fresh "log" 0 10000) inTurn := by
    decide +kernel
  exact ⟨s, hexec, (deliveries_inOrder starMatches "log" 0 10000 inTurn s hexec horderly 1).1⟩

/-- Number 2 reaches the subscriber in front of number 1. -/
theorem overtaken_delivery :
    ∃ s ∈ exec (Site.step starMatches) (Site.fresh "log" 0 10000) overtaking,
      (s.channel.received.filter (·.subscriber = 1)).map (·.message.sequence) = [2, 1] ∧
        ¬(s.channel.received.filter (·.subscriber = 1)).Pairwise
          (·.message.sequence < ·.message.sequence) := by
  decide +kernel

end Labios
