import Labios.Channel.Steps

/-!
# Deliveries

`Deliveries` holds in every state of a channel object, under any interleaving: a feed
takes the payloads of the wire one after the other, a receipt belongs to a payload
that its feed has taken, and no feed runs the callback of one subscriber twice for
one payload or out of order (`ordered`).

`Serves` is about one subscriber from some state on. As long as it stays registered
on a live channel, every feed has run its callback for every payload that it has
handled since.
-/

namespace Labios

open Foundation

namespace DeliveryPhase

/-- The callbacks that were copied and have not run. -/
def callbacks : DeliveryPhase → List Int
  | .run _ callbacks => callbacks
  | _ => []

/-- The subscriber's callback may still run for the payload taken last. -/
def Due (subscriber : Int) : DeliveryPhase → Prop
  | .idle => False
  | .fetch _ _ | .copy _ => True
  | .run _ callbacks => subscriber ∈ callbacks

/-- Sequence number and label id of the payload taken last. -/
def about : DeliveryPhase → Option (UInt64 × UInt64)
  | .idle => none
  | .fetch sequence labelId => some (sequence, labelId)
  | .copy message | .run message _ => some (message.sequence, message.labelId)

end DeliveryPhase

/-- The payload at this position names this message number and label. -/
def Backend.Names (b : Backend) (position : Nat) (sequence labelId : UInt64) : Prop :=
  ∃ m, b.wire[position]? = some (notification m) ∧ m.sequence = sequence ∧ m.labelId = labelId

structure FeedInv (b : Backend) (ch : Channel) (i : Nat) (feed : Feed) : Prop where
  start : feed.start ≤ feed.cursor
  cursor : feed.cursor ≤ b.wire.length
  callbacks : feed.phase.callbacks.Nodup
  about : ∀ sequence labelId, feed.phase.about = some (sequence, labelId) →
    feed.start < feed.cursor ∧ b.Names (feed.cursor - 1) sequence labelId
  receipts : ∀ r ∈ ch.received, r.feed = i →
    r.position < feed.cursor ∧ (feed.phase.Due r.subscriber → r.position ≠ feed.cursor - 1)

structure Deliveries (s : Site) : Prop where
  nodup : s.channel.subscribers.Nodup
  fresh : ∀ id ∈ s.channel.subscribers, id < s.channel.nextSubId
  wired : ∀ payload ∈ s.backend.wire, ∃ m, payload = notification m
  feeds : ∀ i feed, s.channel.feeds[i]? = some feed → FeedInv s.backend s.channel i feed
  known : ∀ r ∈ s.channel.received, r.feed < s.channel.feeds.length
  about : ∀ r ∈ s.channel.received,
    s.backend.Names r.position r.message.sequence r.message.labelId
  ordered : s.channel.received.Pairwise fun r r' =>
    r.feed = r'.feed → r.subscriber = r'.subscriber → r.position < r'.position

theorem deliveries_fresh (name : String) (ttlSeconds : UInt32) (maxPending : UInt64) :
    Deliveries (Site.fresh name ttlSeconds maxPending) := by
  refine ⟨List.nodup_nil, ?_, ?_, ?_, ?_, ?_, List.Pairwise.nil⟩
  · intro id hid
    cases hid
  · intro payload hpayload
    cases hpayload
  · intro i feed hfeed
    cases hfeed
  · intro r hr
    cases hr
  · intro r hr
    cases hr

/-! ## Calls -/

section Calls

variable {b b' : Backend} {ch ch' : Channel}

theorem Frame.getElem?_wire (h : Frame b ch b' ch') {k : Nat} {payload : String}
    (hk : b.wire[k]? = some payload) : b'.wire[k]? = some payload := by
  rcases h.wire with hwire | ⟨m, hwire⟩
  · rw [hwire]
    exact hk
  · rw [hwire, List.getElem?_append_left (List.getElem?_eq_some_iff.mp hk).1]
    exact hk

theorem Frame.wire_length (h : Frame b ch b' ch') : b.wire.length ≤ b'.wire.length := by
  rcases h.wire with hwire | ⟨m, hwire⟩
  · rw [hwire]
  · rw [hwire, List.length_append]
    omega

theorem Frame.names (h : Frame b ch b' ch') {k : Nat} {sequence labelId : UInt64}
    (hk : b.Names k sequence labelId) : b'.Names k sequence labelId := by
  obtain ⟨m, hm, hnames⟩ := hk
  exact ⟨m, h.getElem?_wire hm, hnames⟩

theorem Frame.nextSubId_le (h : Frame b ch b' ch') : ch.nextSubId ≤ ch'.nextSubId := by
  rcases h.subscribers with ⟨-, hnext⟩ | ⟨-, hnext⟩
  · omega
  · omega

/-- The number of a new subscriber was never given out. -/
theorem Frame.was_registered (h : Frame b ch b' ch') {id : Int} (hold : id < ch.nextSubId)
    (hid : id ∈ ch'.subscribers) : id ∈ ch.subscribers := by
  rcases h.subscribers with ⟨hsub, -⟩ | ⟨happ, -⟩
  · exact hsub.subset hid
  · rw [happ] at hid
    rcases List.mem_append.mp hid with hid | hid
    · exact hid
    · rw [List.mem_singleton.mp hid] at hold
      omega

/-- A feed was there already, or is the new one. -/
theorem Frame.feed_cases (h : Frame b ch b' ch') {i : Nat} {feed : Feed}
    (hfeed : ch'.feeds[i]? = some feed) :
    ch.feeds[i]? = some feed ∨ i = ch.feeds.length ∧
      feed = { start := b.wire.length, cursor := b.wire.length } := by
  rcases h.feeds with hfeeds | hfeeds
  · rw [hfeeds] at hfeed
    exact .inl hfeed
  · rw [hfeeds] at hfeed
    exact getElem?_snoc_cases hfeed

theorem Frame.feeds_length (h : Frame b ch b' ch') : ch.feeds.length ≤ ch'.feeds.length := by
  rcases h.feeds with hfeeds | hfeeds
  · rw [hfeeds]
  · rw [hfeeds, List.length_append]
    omega

/-- A feed that no receipt belongs to yet. -/
theorem feedInv_new (hnone : ∀ r ∈ ch.received, r.feed < ch.feeds.length) {n : Nat}
    (hn : n ≤ b.wire.length) :
    FeedInv b ch ch.feeds.length { start := n, cursor := n } := by
  refine ⟨Nat.le_refl _, hn, List.nodup_nil, ?_, ?_⟩
  · intro sequence labelId habout
    cases habout
  · intro r hr hfeed
    have := hnone r hr
    omega

theorem Deliveries.frame {s : Site} (h : Deliveries s) (hframe : Frame s.backend s.channel b' ch')
    (calls : List ChannelCall) :
    Deliveries { backend := b', channel := ch', calls } := by
  refine ⟨?_, ?_, ?_, ?_, ?_, ?_, ?_⟩
  · show ch'.subscribers.Nodup
    rcases hframe.subscribers with ⟨hsub, -⟩ | ⟨happ, -⟩
    · exact h.nodup.sublist hsub
    · rw [happ]
      refine List.nodup_append'.mpr ⟨h.nodup, List.nodup_singleton _, ?_⟩
      intro id hid hnew
      have := h.fresh id hid
      rw [List.mem_singleton.mp hnew] at this
      omega
  · show ∀ id ∈ ch'.subscribers, id < ch'.nextSubId
    intro id hid
    rcases hframe.subscribers with ⟨hsub, hnext⟩ | ⟨happ, hnext⟩
    · rw [hnext]
      exact h.fresh id (hsub.subset hid)
    · rw [happ] at hid
      rw [hnext]
      rcases List.mem_append.mp hid with hid | hid
      · have := h.fresh id hid
        omega
      · rw [List.mem_singleton.mp hid]
        omega
  · show ∀ payload ∈ b'.wire, ∃ m, payload = notification m
    intro payload hpayload
    rcases hframe.wire with hwire | ⟨m, hwire⟩
    · rw [hwire] at hpayload
      exact h.wired payload hpayload
    · rw [hwire] at hpayload
      rcases List.mem_append.mp hpayload with hpayload | hpayload
      · exact h.wired payload hpayload
      · exact ⟨m, List.mem_singleton.mp hpayload⟩
  · show ∀ i feed, ch'.feeds[i]? = some feed → FeedInv b' ch' i feed
    intro i feed hfeed
    rcases hframe.feed_cases hfeed with hold | ⟨rfl, rfl⟩
    · have hinv := h.feeds i feed hold
      refine ⟨hinv.start, Nat.le_trans hinv.cursor hframe.wire_length, hinv.callbacks, ?_, ?_⟩
      · intro sequence labelId habout
        obtain ⟨hlt, hnames⟩ := hinv.about sequence labelId habout
        exact ⟨hlt, hframe.names hnames⟩
      · rw [hframe.received]
        exact hinv.receipts
    · have hnew := feedInv_new h.known (Nat.le_refl s.backend.wire.length)
      refine ⟨hnew.start, hframe.wire_length, hnew.callbacks, ?_, ?_⟩
      · intro sequence labelId habout
        cases habout
      · rw [hframe.received]
        exact hnew.receipts
  · show ∀ r ∈ ch'.received, r.feed < ch'.feeds.length
    rw [hframe.received]
    intro r hr
    exact Nat.lt_of_lt_of_le (h.known r hr) hframe.feeds_length
  · show ∀ r ∈ ch'.received, b'.Names r.position r.message.sequence r.message.labelId
    rw [hframe.received]
    intro r hr
    exact hframe.names (h.about r hr)
  · show ch'.received.Pairwise _
    rw [hframe.received]
    exact h.ordered

end Calls

/-! ## Steps of a delivery -/

section Delivering

variable {s : Site} {i : Nat} {feed feed' : Feed}

/-- A feed moves on and runs no callback. -/
theorem Deliveries.setFeed (h : Deliveries s)
    (hinv : FeedInv s.backend s.channel i feed') :
    Deliveries { s with
      channel := { s.channel with
        feeds := s.channel.feeds.set i feed'
        received := s.channel.received ++ [] } } := by
  rw [List.append_nil]
  refine ⟨h.nodup, h.fresh, h.wired, ?_, ?_, h.about, h.ordered⟩
  · intro j x hx
    rcases getElem?_set_cases hx with ⟨rfl, rfl⟩ | ⟨-, hold⟩
    · exact ⟨hinv.start, hinv.cursor, hinv.callbacks, hinv.about, hinv.receipts⟩
    · have hold := h.feeds j x hold
      exact ⟨hold.start, hold.cursor, hold.callbacks, hold.about, hold.receipts⟩
  · intro r hr
    show r.feed < (s.channel.feeds.set i feed').length
    rw [List.length_set]
    exact h.known r hr

theorem parse_names {b : Backend} (hwired : ∀ payload ∈ b.wire, ∃ m, payload = notification m)
    {k : Nat} {payload : String} (hk : b.wire[k]? = some payload) :
    ∃ sequence labelId, parseNotification payload.toList = some (sequence, labelId) ∧
      b.Names k sequence labelId := by
  obtain ⟨m, rfl⟩ := hwired payload (List.mem_of_getElem? hk)
  exact ⟨m.sequence, m.labelId, parseNotification_notification m, m, hk, rfl, rfl⟩

theorem Deliveries.take (h : Deliveries s) (hfeed : s.channel.feeds[i]? = some feed)
    {payload : String} (hpayload : s.backend.wire[feed.cursor]? = some payload) :
    FeedInv s.backend s.channel i { feed with
      cursor := feed.cursor + 1
      phase :=
        if s.channel.destroyed then .idle
        else match parseNotification payload.toList with
          | some (sequence, labelId) => .fetch sequence labelId
          | none => .idle } := by
  have hinv := h.feeds i feed hfeed
  have hbound := (List.getElem?_eq_some_iff.mp hpayload).1
  obtain ⟨sequence, labelId, hparse, hnames⟩ := parse_names h.wired hpayload
  have hposition : ∀ r ∈ s.channel.received, r.feed = i →
      r.position < feed.cursor + 1 ∧ r.position ≠ feed.cursor + 1 - 1 := by
    intro r hr hi
    have := (hinv.receipts r hr hi).1
    omega
  rw [hparse]
  have hstart := hinv.start
  refine ⟨?_, hbound, ?_, ?_, ?_⟩
  · show feed.start ≤ feed.cursor + 1
    omega
  · show (if s.channel.destroyed = true then DeliveryPhase.idle
      else .fetch sequence labelId).callbacks.Nodup
    split
    · exact List.nodup_nil
    · exact List.nodup_nil
  · intro n l habout
    dsimp only at habout
    split at habout
    · cases habout
    · cases habout
      refine ⟨?_, hnames⟩
      show feed.start < feed.cursor + 1
      omega
  · intro r hr hi
    exact ⟨(hposition r hr hi).1, fun _ => (hposition r hr hi).2⟩

/-- A callback runs: the payload is the one taken last, and it did not run for it. -/
theorem Deliveries.run (h : Deliveries s) (hfeed : s.channel.feeds[i]? = some feed)
    {message : ChannelMessage} {subscriber : Int} {rest : List Int}
    (hphase : feed.phase = .run message (subscriber :: rest)) :
    Deliveries { s with
      channel := { s.channel with
        feeds := s.channel.feeds.set i { feed with phase := .run message rest }
        received := s.channel.received ++
          [{ feed := i, position := feed.cursor - 1, subscriber, message }] } } := by
  have hinv := h.feeds i feed hfeed
  have hnodup := hinv.callbacks
  rw [hphase] at hnodup
  obtain ⟨hnotMem, hrest⟩ := List.nodup_cons.mp hnodup
  obtain ⟨hlt, hnames⟩ := hinv.about message.sequence message.labelId (by rw [hphase]; rfl)
  have hbound := (List.getElem?_eq_some_iff.mp hfeed).1
  refine ⟨h.nodup, h.fresh, h.wired, ?_, ?_, ?_, ?_⟩
  · intro j x hx
    rcases getElem?_set_cases hx with ⟨rfl, rfl⟩ | ⟨hne, hold⟩
    · refine ⟨hinv.start, hinv.cursor, hrest, ?_, ?_⟩
      · intro sequence labelId habout
        cases habout
        exact ⟨hlt, hnames⟩
      · intro r hr hi
        rcases List.mem_append.mp hr with hr | hr
        · obtain ⟨hposition, hdue⟩ := hinv.receipts r hr hi
          refine ⟨hposition, fun hmem => hdue ?_⟩
          rw [hphase]
          exact List.mem_cons_of_mem _ hmem
        · obtain rfl := List.mem_singleton.mp hr
          refine ⟨?_, fun hmem => absurd hmem hnotMem⟩
          show feed.cursor - 1 < feed.cursor
          omega
    · have hold := h.feeds j x hold
      refine ⟨hold.start, hold.cursor, hold.callbacks, hold.about, ?_⟩
      intro r hr hi
      rcases List.mem_append.mp hr with hr | hr
      · exact hold.receipts r hr hi
      · obtain rfl := List.mem_singleton.mp hr
        exact absurd hi.symm hne
  · intro r hr
    show r.feed < (s.channel.feeds.set i _).length
    rw [List.length_set]
    rcases List.mem_append.mp hr with hr | hr
    · exact h.known r hr
    · obtain rfl := List.mem_singleton.mp hr
      exact hbound
  · intro r hr
    rcases List.mem_append.mp hr with hr | hr
    · exact h.about r hr
    · obtain rfl := List.mem_singleton.mp hr
      exact hnames
  · refine List.pairwise_append.mpr ⟨h.ordered, List.pairwise_singleton _ _, ?_⟩
    intro r hr r' hr' hfeeds hsubscribers
    obtain rfl := List.mem_singleton.mp hr'
    obtain ⟨hposition, hdue⟩ := hinv.receipts r hr hfeeds
    have hne : r.position ≠ feed.cursor - 1 := by
      apply hdue
      rw [hphase, hsubscribers]
      exact List.mem_cons_self
    show r.position < feed.cursor - 1
    omega

theorem Deliveries.delivers (h : Deliveries s) (hfeed : s.channel.feeds[i]? = some feed)
    {receipts : List Receipt} (hstep : Delivers s.backend s.channel i feed feed' receipts) :
    Deliveries { s with
      channel := { s.channel with
        feeds := s.channel.feeds.set i feed'
        received := s.channel.received ++ receipts } } := by
  have hinv := h.feeds i feed hfeed
  cases hstep with
  | take hphase hpayload => exact h.setFeed (h.take hfeed hpayload)
  | @fetch sequence labelId hphase =>
      refine h.setFeed ⟨hinv.start, hinv.cursor, List.nodup_nil, ?_, ?_⟩
      · intro n l habout
        cases habout
        exact hinv.about sequence labelId (by rw [hphase]; rfl)
      · intro r hr hi
        obtain ⟨hposition, hdue⟩ := hinv.receipts r hr hi
        rw [hphase] at hdue
        exact ⟨hposition, fun _ => hdue trivial⟩
  | @copy message hphase =>
      refine h.setFeed ⟨hinv.start, hinv.cursor, h.nodup, ?_, ?_⟩
      · intro n l habout
        cases habout
        exact hinv.about message.sequence message.labelId (by rw [hphase]; rfl)
      · intro r hr hi
        obtain ⟨hposition, hdue⟩ := hinv.receipts r hr hi
        rw [hphase] at hdue
        exact ⟨hposition, fun _ => hdue trivial⟩
  | run hphase => exact h.run hfeed hphase
  | done hphase =>
      refine h.setFeed ⟨hinv.start, hinv.cursor, List.nodup_nil, ?_, ?_⟩
      · intro n l habout
        cases habout
      · intro r hr hi
        exact ⟨(hinv.receipts r hr hi).1, fun hdue => absurd hdue id⟩

end Delivering

/-! ## Every run -/

section Runs

variable {scanMatches : String → String → Bool} {s s' : Site}

theorem Deliveries.step {a : SiteAction} (h : Deliveries s)
    (hstep : s.step scanMatches a = some s') : Deliveries s' := by
  cases a with
  | begins op =>
      cases hstep
      exact h.frame (Frame.refl _ _) _
  | advances i =>
      obtain ⟨call, b, ch, call', -, hcall, rfl⟩ := Site.step_advances hstep
      exact h.frame (ChannelCall.step_frame hcall) _
  | delivers i =>
      obtain ⟨feed, feed', receipts, hfeed, hdelivers, rfl⟩ := Site.step_delivers hstep
      exact h.delivers hfeed (deliverStep_delivers hdelivers)
  | expires key =>
      obtain ⟨-, rfl⟩ := Site.step_expires hstep
      refine ⟨h.nodup, h.fresh, h.wired, ?_, h.known, h.about, h.ordered⟩
      intro i feed hfeed
      have hinv := h.feeds i feed hfeed
      exact ⟨hinv.start, hinv.cursor, hinv.callbacks, hinv.about, hinv.receipts⟩

theorem Deliveries.exec {s s' : Site} {actions : List SiteAction} (h : Deliveries s)
    (hexec : exec (Site.step scanMatches) s actions = some s') : Deliveries s' :=
  exec_kept (fun h hstep => h.step hstep) h hexec

end Runs

/-! ## A subscriber that stays registered -/

/-- Every payload from `base` on that a feed has taken is due for the subscriber or
its callback ran, while it is registered on a live channel. -/
structure Serves (base : Nat) (subscriber : Int) (s : Site) : Prop where
  old : subscriber < s.channel.nextSubId
  served : s.channel.destroyed = false → subscriber ∈ s.channel.subscribers →
    ∀ i feed, s.channel.feeds[i]? = some feed → ∀ p, base ≤ p → feed.start ≤ p →
      p < feed.cursor → p + 1 = feed.cursor ∧ feed.phase.Due subscriber ∨
        ∃ r ∈ s.channel.received, r.feed = i ∧ r.position = p ∧ r.subscriber = subscriber

section Serving

variable {scanMatches : String → String → Bool} {base : Nat} {subscriber : Int} {s s' : Site}

theorem serves_start (h : Deliveries s) (hmem : subscriber ∈ s.channel.subscribers) :
    Serves s.backend.wire.length subscriber s := by
  refine ⟨h.fresh subscriber hmem, fun _ _ i feed hfeed p hbase _ hp => ?_⟩
  have := (h.feeds i feed hfeed).cursor
  omega

theorem Serves.frame (h : Serves base subscriber s) {b' : Backend} {ch' : Channel}
    (hframe : Frame s.backend s.channel b' ch') (calls : List ChannelCall) :
    Serves base subscriber { backend := b', channel := ch', calls } := by
  constructor
  · exact Int.lt_of_lt_of_le h.old hframe.nextSubId_le
  · show ch'.destroyed = false → subscriber ∈ ch'.subscribers → _
    intro hlive hmem i feed hfeed p hbase hstart hp
    have hlive' : s.channel.destroyed = false := by
      cases hdestroyed : s.channel.destroyed with
      | false => rfl
      | true => exact absurd (hframe.destroyed hdestroyed) (by rw [hlive]; decide)
    have hmem' := hframe.was_registered h.old hmem
    show _ ∨ ∃ r ∈ ch'.received, _
    rw [hframe.received]
    rcases hframe.feed_cases hfeed with hold | ⟨-, rfl⟩
    · exact h.served hlive' hmem' i feed hold p hbase hstart hp
    · dsimp only at hstart hp
      omega

theorem Serves.delivers (h : Serves base subscriber s) (hinv : Deliveries s) {i : Nat}
    {feed feed' : Feed} {receipts : List Receipt} (hfeed : s.channel.feeds[i]? = some feed)
    (hstep : Delivers s.backend s.channel i feed feed' receipts) :
    Serves base subscriber { s with
      channel := { s.channel with
        feeds := s.channel.feeds.set i feed'
        received := s.channel.received ++ receipts } } := by
  refine ⟨h.old, fun hlive hmem j x hx p hbase hstart hp => ?_⟩
  have hserved := h.served hlive hmem
  -- a receipt stays
  have hkept : ∀ k, (∃ r ∈ s.channel.received, r.feed = k ∧ r.position = p ∧
      r.subscriber = subscriber) → ∃ r ∈ s.channel.received ++ receipts,
        r.feed = k ∧ r.position = p ∧ r.subscriber = subscriber := by
    rintro k ⟨r, hr, hrest⟩
    exact ⟨r, List.mem_append_left _ hr, hrest⟩
  rcases getElem?_set_cases hx with ⟨rfl, rfl⟩ | ⟨-, hold⟩
  · have hbefore := hserved j feed hfeed p hbase
    cases hstep with
    | @take payload hphase hpayload =>
        dsimp only at hstart hp
        by_cases hlast : p = feed.cursor
        · left
          refine ⟨congrArg (· + 1) hlast, ?_⟩
          obtain ⟨sequence, labelId, hparse, -⟩ := parse_names hinv.wired hpayload
          show DeliveryPhase.Due subscriber (if s.channel.destroyed = true then _ else _)
          rw [if_neg (by rw [hlive]; decide), hparse]
          trivial
        · right
          rcases hbefore hstart (by omega) with ⟨-, hdue⟩ | hreceipt
          · rw [hphase] at hdue
            exact absurd hdue id
          · exact hkept j hreceipt
    | fetch hphase =>
        rcases hbefore hstart hp with ⟨hcursor, -⟩ | hreceipt
        · exact .inl ⟨hcursor, trivial⟩
        · exact .inr (hkept j hreceipt)
    | copy hphase =>
        rcases hbefore hstart hp with ⟨hcursor, -⟩ | hreceipt
        · exact .inl ⟨hcursor, hmem⟩
        · exact .inr (hkept j hreceipt)
    | @run message current rest hphase =>
        rcases hbefore hstart hp with ⟨hcursor, hdue⟩ | hreceipt
        · rw [hphase] at hdue
          rcases List.mem_cons.mp hdue with heq | hrest
          · right
            refine ⟨_, List.mem_append_right _ (List.mem_singleton_self _), rfl, ?_, heq.symm⟩
            show feed.cursor - 1 = p
            omega
          · exact .inl ⟨hcursor, hrest⟩
        · exact .inr (hkept j hreceipt)
    | done hphase =>
        rcases hbefore hstart hp with ⟨-, hdue⟩ | hreceipt
        · rw [hphase] at hdue
          exact absurd hdue List.not_mem_nil
        · exact .inr (hkept j hreceipt)
  · rcases hserved j x hold p hbase hstart hp with hdue | hreceipt
    · exact .inl hdue
    · exact .inr (hkept j hreceipt)

theorem Serves.step {a : SiteAction} (h : Serves base subscriber s) (hinv : Deliveries s)
    (hstep : s.step scanMatches a = some s') : Serves base subscriber s' := by
  cases a with
  | begins op =>
      cases hstep
      exact h.frame (Frame.refl _ _) _
  | advances i =>
      obtain ⟨call, b, ch, call', -, hcall, rfl⟩ := Site.step_advances hstep
      exact h.frame (ChannelCall.step_frame hcall) _
  | delivers i =>
      obtain ⟨feed, feed', receipts, hfeed, hdelivers, rfl⟩ := Site.step_delivers hstep
      exact h.delivers hinv hfeed (deliverStep_delivers hdelivers)
  | expires key =>
      obtain ⟨-, rfl⟩ := Site.step_expires hstep
      exact ⟨h.old, h.served⟩

theorem serves_exec {actions : List SiteAction} (h : Deliveries s)
    (hmem : subscriber ∈ s.channel.subscribers)
    (hexec : exec (Site.step scanMatches) s actions = some s') :
    Serves s.backend.wire.length subscriber s' :=
  (exec_kept (I := fun t => Deliveries t ∧ Serves s.backend.wire.length subscriber t)
    (fun h hstep => ⟨h.1.step hstep, h.2.step h.1 hstep⟩) ⟨h, serves_start h hmem⟩ hexec).2

/-- What every feed has handled, each of them ran the subscriber's callback for. -/
theorem Serves.receipt (h : Serves base subscriber s) (hlive : s.channel.destroyed = false)
    (hmem : subscriber ∈ s.channel.subscribers) (hdelivered : s.Delivered) {i : Nat}
    {feed : Feed} (hfeed : s.channel.feeds[i]? = some feed) {p : Nat} (hbase : base ≤ p)
    (hstart : feed.start ≤ p) (hp : p < s.backend.wire.length) :
    ∃ r ∈ s.channel.received, r.feed = i ∧ r.position = p ∧ r.subscriber = subscriber := by
  obtain ⟨hcursor, hidle⟩ := hdelivered feed (List.mem_of_getElem? hfeed)
  rcases h.served hlive hmem i feed hfeed p hbase hstart (by omega) with ⟨-, hdue⟩ | hreceipt
  · rw [hidle] at hdue
    exact absurd hdue id
  · exact hreceipt

/-- No feed runs a subscriber's callback twice for one payload. -/
theorem Deliveries.receipts_le_one (h : Deliveries s) (i p : Nat) (subscriber : Int) :
    (s.channel.received.filter
      fun r => r.feed = i ∧ r.position = p ∧ r.subscriber = subscriber).length ≤ 1 := by
  have hpairwise := h.ordered.filter
    fun r => decide (r.feed = i ∧ r.position = p ∧ r.subscriber = subscriber)
  have hall : ∀ r ∈ s.channel.received.filter
      (fun r => r.feed = i ∧ r.position = p ∧ r.subscriber = subscriber),
      r.feed = i ∧ r.position = p ∧ r.subscriber = subscriber := by
    intro r hr
    exact of_decide_eq_true (List.mem_filter.mp hr).2
  cases hreceipts : s.channel.received.filter
      (fun r => r.feed = i ∧ r.position = p ∧ r.subscriber = subscriber) with
  | nil => exact Nat.zero_le 1
  | cons r rest =>
      cases rest with
      | nil => exact Nat.le_refl 1
      | cons r' rest =>
          rw [hreceipts] at hpairwise hall
          obtain ⟨hfeed, hposition, hsubscriber⟩ := hall r List.mem_cons_self
          obtain ⟨hfeed', hposition', hsubscriber'⟩ :=
            hall r' (List.mem_cons_of_mem _ List.mem_cons_self)
          have := (List.pairwise_cons.mp hpairwise).1 r' List.mem_cons_self
            (hfeed.trans hfeed'.symm) (hsubscriber.trans hsubscriber'.symm)
          omega

end Serving

end Labios
