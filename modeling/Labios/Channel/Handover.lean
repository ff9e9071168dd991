import Labios.Channel.Cleanup

/-!
# From acceptance to delivery

On a live channel without expiry: a message stays staged from before its notification
is sent until it is fetched (`Kept`); every message accepted from some state on is
carried by its publisher or on the wire behind that state (`Forwards`); and a feed
started before every notification (`Heard`), provided that none is sent while a
registered subscriber whose `subscribe` has returned has no native subscription.
-/

namespace Labios

open Foundation

/-- The next step sets the expiry of a key. -/
def ChannelCall.marks : ChannelCall → Bool
  | .publish _ _ (.setExpiry _) => true
  | _ => false

section Calls

variable {scanMatches : String → String → Bool} {b b' : Backend} {ch ch' : Channel}
  {call call' : ChannelCall}

theorem publishStep_sending {data : List UInt8} {labelId : UInt64} {phase phase' : PublishPhase}
    (h : publishStep b ch data labelId phase = some (b', ch', phase'))
    (hmarks : (ChannelCall.publish data labelId phase).marks = false)
    (httl : ch.ttlSeconds = 0) :
    (ChannelCall.publish data labelId phase').marks = false ∧
      ((ChannelCall.publish data labelId phase').sends →
        ∀ m, (ChannelCall.publish data labelId phase').inFlight = some m →
          warehouseKey ch.name m.sequence ∈ b'.warehouse) := by
  cases phase with
  | returned result => cases h
  | loadDraining =>
      cases h
      cases ch.draining with
      | _ => exact ⟨rfl, fun hsends => by cases hsends⟩
  | loadDestroyed =>
      cases h
      cases ch.destroyed with
      | _ => exact ⟨rfl, fun hsends => by cases hsends⟩
  | checkLimit =>
      cases h
      cases ch.overLimit with
      | _ => exact ⟨rfl, fun hsends => by cases hsends⟩
  | take =>
      cases h
      exact ⟨rfl, fun hsends => by cases hsends⟩
  | stage sequence =>
      cases h
      have hnot : ¬(0 : UInt32) < ch.ttlSeconds := by
        rw [httl]
        decide
      rw [if_neg hnot]
      refine ⟨rfl, fun _ m hm => ?_⟩
      cases hm
      exact (AList.mem_insert _).mpr (.inl rfl)
  | setExpiry sequence => cases hmarks
  | notify sequence =>
      cases h
      exact ⟨rfl, fun hsends => by cases hsends⟩

/-- Without expiry, what is sent next is staged. -/
theorem ChannelCall.step_sending (h : call.step scanMatches b ch = some (b', ch', call'))
    (hmarks : call.marks = false) (httl : ch.ttlSeconds = 0) :
    call'.marks = false ∧ (call'.sends → ∀ m, call'.inFlight = some m →
      warehouseKey ch.name m.sequence ∈ b'.warehouse) := by
  cases ChannelCall.step_method h with
  | publish hstep => exact publishStep_sending hstep hmarks httl
  | subscribe | erase | drain | checkEmpty => exact ⟨rfl, fun hsends => by cases hsends⟩
  | destroy _ hafter _ =>
      cases hafter with
      | unsubscribe | drain | destroy => exact ⟨rfl, fun hsends => by cases hsends⟩

/-- Only a deletion takes a key out of the warehouse. -/
theorem WarehouseStep.mem (h : WarehouseStep b ch call b' call')
    (hkeeps : ∀ keys, call.destroying ≠ some (.delete keys)) {key : String}
    (hkey : key ∈ b.warehouse) : key ∈ b'.warehouse := by
  cases h with
  | staged m _ _ hwarehouse =>
      rw [hwarehouse]
      exact (AList.mem_insert _).mpr (.inr hkey)
  | marked marked staged _ hwarehouse _ =>
      rw [hwarehouse]
      exact (AList.mem_insert _).mpr (.inr hkey)
  | erased erased rest hphase _ _ => exact absurd hphase (hkeeps _)
  | same hwarehouse =>
      rw [hwarehouse]
      exact hkey

/-- Only `setExpiry` marks a key. -/
theorem WarehouseStep.unmarked (h : WarehouseStep b ch call b' call') (hmarks : call.marks = false)
    (hbefore : ∀ key staged, b.warehouse.lookup key = some staged → staged.expires = false)
    {key : String} {staged : Staged} (hlookup : b'.warehouse.lookup key = some staged) :
    staged.expires = false := by
  cases h with
  | staged m _ _ hwarehouse =>
      rw [hwarehouse] at hlookup
      rcases Foundation.lookup_insert_cases hlookup with ⟨-, rfl⟩ | ⟨-, hold⟩
      · rfl
      · exact hbefore key staged hold
  | marked marked before _ _ hcall =>
      obtain ⟨data, labelId, sequence, rfl⟩ := hcall
      cases hmarks
  | erased erased rest _ _ hwarehouse =>
      rw [hwarehouse] at hlookup
      exact hbefore key staged (Foundation.lookup_of_erase hlookup).2
  | same hwarehouse =>
      rw [hwarehouse] at hlookup
      exact hbefore key staged hlookup

end Calls

/-! ## A message stays staged -/

/-- What holds while the channel is live: messages come from those accepted, and are
staged where they are sent, notified or fetched. -/
structure LiveMessages (s : Site) : Prop where
  backed : Backed s.channel.name (· ∈ s.channel.accepted) s.backend
  carries : Conveys (· ∈ s.channel.accepted) s.channel s.calls
  wired : ∀ m, notification m ∈ s.backend.wire →
    warehouseKey s.channel.name m.sequence ∈ s.backend.warehouse
  sending : ∀ c ∈ s.calls, c.sends → ∀ m, c.inFlight = some m →
    warehouseKey s.channel.name m.sequence ∈ s.backend.warehouse
  fetching : ∀ feed ∈ s.channel.feeds, ∀ sequence ∈ feed.phase.fetches,
    warehouseKey s.channel.name sequence ∈ s.backend.warehouse

structure Kept (s : Site) : Prop where
  ttl : s.channel.ttlSeconds = 0
  unmarked : ∀ key staged, s.backend.warehouse.lookup key = some staged → staged.expires = false
  unmarking : ∀ c ∈ s.calls, c.marks = false
  live : s.channel.destroyed = false → LiveMessages s

theorem kept_fresh (name : String) (maxPending : UInt64) : Kept (Site.fresh name 0 maxPending) := by
  refine ⟨rfl, ?_, ?_, fun _ => ⟨⟨?_, ?_⟩, ⟨?_, ?_, ?_⟩, ?_, ?_, ?_⟩⟩
  · intro key staged hlookup
    cases hlookup
  · intro c hc
    cases hc
  · intro sequence staged hlookup
    cases hlookup
  · intro payload hpayload
    cases hpayload
  · intro i m hm
    cases hm
  · intro feed hfeed
    cases hfeed
  · intro r hr
    cases hr
  · intro m hm
    cases hm
  · intro c hc
    cases hc
  · intro feed hfeed
    cases hfeed

section Steps

variable {scanMatches : String → String → Bool} {s s' : Site} {a : SiteAction}

theorem destroyed_step (hstep : s.step scanMatches a = some s')
    (hlive : s'.channel.destroyed = false) : s.channel.destroyed = false := by
  cases a with
  | begins op =>
      cases hstep
      exact hlive
  | advances i =>
      obtain ⟨call, b, ch, call', -, hmove, rfl⟩ := Site.step_advances hstep
      refine Bool.eq_false_iff.mpr fun hdestroyed => ?_
      exact Bool.false_ne_true (hlive.symm.trans ((ChannelCall.step_frame hmove).destroyed hdestroyed))
  | delivers i =>
      obtain ⟨feed, feed', receipts, -, -, rfl⟩ := Site.step_delivers hstep
      exact hlive
  | expires key =>
      obtain ⟨-, rfl⟩ := Site.step_expires hstep
      exact hlive

theorem accepted_mono (hstep : s.step scanMatches a = some s') :
    ∀ m ∈ s.channel.accepted, m ∈ s'.channel.accepted := by
  intro m hm
  rcases accepted_step hstep with hsame | ⟨-, m', hnew⟩
  · rw [hsame]
    exact hm
  · rw [hnew]
    exact List.mem_append_left _ hm

theorem fetchesStaged_of_live (h : LiveMessages s) : s.FetchesStaged a := by
  cases a with
  | delivers i =>
      intro feed hfeed sequence hsequence
      rw [AList.lookup_isSome]
      exact h.fetching feed (List.mem_of_getElem? hfeed) sequence hsequence
  | _ => trivial

theorem LiveMessages.advance (h : LiveMessages s) (hkept : Kept s) (hcleanup : Cleanup s)
    (hlive : s.channel.destroyed = false) {i : Nat} {call call' : ChannelCall} {b : Backend}
    {ch : Channel} (hcall : s.calls[i]? = some call)
    (hmove : call.step scanMatches s.backend s.channel = some (b, ch, call')) :
    (∀ m, notification m ∈ b.wire → warehouseKey s.channel.name m.sequence ∈ b.warehouse) ∧
      (∀ c ∈ s.calls.set i call', c.sends → ∀ m, c.inFlight = some m →
        warehouseKey s.channel.name m.sequence ∈ b.warehouse) ∧
      ∀ feed ∈ ch.feeds, ∀ sequence ∈ feed.phase.fetches,
        warehouseKey s.channel.name sequence ∈ b.warehouse := by
  have hmem := List.mem_of_getElem? hcall
  -- no call deletes anything yet
  have hstays : ∀ {key}, key ∈ s.backend.warehouse → key ∈ b.warehouse := by
    intro key hkey
    refine (ChannelCall.step_warehouse hmove).mem (fun keys hphase => ?_) hkey
    rcases hcleanup.unswept hlive call hmem _ hphase with heq | heq
    · cases heq
    · cases heq
  obtain ⟨-, hsends⟩ := ChannelCall.step_sending hmove (hkept.unmarking call hmem) hkept.ttl
  refine ⟨?_, ?_, ?_⟩
  · intro m hm
    cases ChannelCall.step_messages hmove with
    | took _ _ _ _ _ _ hb =>
        rw [hb] at hm
        exact hstays (h.wired m hm)
    | kept _ _ _ hwire =>
        rw [hwire] at hm
        exact hstays (h.wired m hm)
    | sent m' hcalls hm' _ _ hb =>
        rw [hb] at hm
        rcases List.mem_append.mp hm with hold | hnew
        · exact hstays (h.wired m hold)
        · rw [(notification_inj (List.mem_singleton.mp hnew)).1]
          exact hstays (h.sending call hmem hcalls m' hm')
  · intro c hc hcalls m hm
    rcases List.mem_or_eq_of_mem_set hc with hold | rfl
    · exact hstays (h.sending c hold hcalls m hm)
    · exact hsends hcalls m hm
  · intro feed hfeed sequence hsequence
    rcases (ChannelCall.step_frame hmove).feeds with hsame | hnew
    · rw [hsame] at hfeed
      exact hstays (h.fetching feed hfeed sequence hsequence)
    · rw [hnew] at hfeed
      rcases List.mem_append.mp hfeed with hold | hlast
      · exact hstays (h.fetching feed hold sequence hsequence)
      · rw [List.mem_singleton.mp hlast] at hsequence
        cases hsequence

/-- The payload that a delivery takes is of a staged message. -/
theorem LiveMessages.fetching_set (h : LiveMessages s) {i : Nat} {feed feed' : Feed}
    {receipts : List Receipt}
    (hstep : Delivers s.backend s.channel i feed feed' receipts) :
    ∀ x ∈ s.channel.feeds.set i feed', ∀ sequence ∈ x.phase.fetches,
      warehouseKey s.channel.name sequence ∈ s.backend.warehouse := by
  intro x hx sequence hsequence
  rcases List.mem_or_eq_of_mem_set hx with hold | rfl
  · exact h.fetching x hold sequence hsequence
  · cases hstep with
    | @take payload _ hpayload =>
        have hmem := List.mem_of_getElem? hpayload
        obtain ⟨m, -, rfl⟩ := h.backed.wired payload hmem
        dsimp only at hsequence
        rw [parseNotification_notification] at hsequence
        split at hsequence
        · cases hsequence
        · cases hsequence
          exact h.wired m hmem
    | fetch | copy | run | done => cases hsequence

theorem Kept.step (h : Kept s) (hnumbered : Numbered s.channel) (hcleanup : Cleanup s)
    (hstep : s.step scanMatches a = some s') : Kept s' := by
  have hconfig := config_step hstep
  have hunmarking : ∀ c ∈ s'.calls, c.marks = false := by
    cases a with
    | begins op =>
        cases hstep
        intro c hc
        rcases List.mem_append.mp hc with hold | hnew
        · exact h.unmarking c hold
        · rw [List.mem_singleton.mp hnew]
          cases op with
          | _ => rfl
    | advances i =>
        obtain ⟨call, b, ch, call', hcall, hmove, rfl⟩ := Site.step_advances hstep
        refine forall_set h.unmarking ?_
        exact (ChannelCall.step_sending hmove (h.unmarking call (List.mem_of_getElem? hcall))
          h.ttl).1
    | delivers i =>
        obtain ⟨feed, feed', receipts, -, -, rfl⟩ := Site.step_delivers hstep
        exact h.unmarking
    | expires key =>
        obtain ⟨-, rfl⟩ := Site.step_expires hstep
        exact h.unmarking
  have hunmarked : ∀ key staged, s'.backend.warehouse.lookup key = some staged →
      staged.expires = false := by
    cases a with
    | begins op =>
        cases hstep
        exact h.unmarked
    | advances i =>
        obtain ⟨call, b, ch, call', hcall, hmove, rfl⟩ := Site.step_advances hstep
        intro key staged hlookup
        exact (ChannelCall.step_warehouse hmove).unmarked
          (h.unmarking call (List.mem_of_getElem? hcall)) h.unmarked hlookup
    | delivers i =>
        obtain ⟨feed, feed', receipts, -, -, rfl⟩ := Site.step_delivers hstep
        exact h.unmarked
    | expires key =>
        obtain ⟨⟨staged, hlookup, hexpires⟩, -⟩ := Site.step_expires hstep
        rw [h.unmarked key staged hlookup] at hexpires
        cases hexpires
  refine ⟨hconfig.2.1.trans h.ttl, hunmarked, hunmarking, fun hlive' => ?_⟩
  have hlive := destroyed_step hstep hlive'
  have hmessages := h.live hlive
  have hgrows := accepted_mono hstep
  have hbacked : Backed s'.channel.name (· ∈ s'.channel.accepted) s'.backend := by
    rw [hconfig.1]
    exact (backed_step hmessages.backed hmessages.carries rfl hstep).mono hgrows
  have hcarries : Conveys (· ∈ s'.channel.accepted) s'.channel s'.calls :=
    carries_step hmessages.backed hmessages.carries rfl
      (fun _ _ hm hm' heq => hnumbered.unique hm hm' heq) (fetchesStaged_of_live hmessages) hstep
      hgrows (fun _ hm => hm)
  suffices hrest : (∀ m, notification m ∈ s'.backend.wire →
        warehouseKey s'.channel.name m.sequence ∈ s'.backend.warehouse) ∧
      (∀ c ∈ s'.calls, c.sends → ∀ m, c.inFlight = some m →
        warehouseKey s'.channel.name m.sequence ∈ s'.backend.warehouse) ∧
      ∀ feed ∈ s'.channel.feeds, ∀ sequence ∈ feed.phase.fetches,
        warehouseKey s'.channel.name sequence ∈ s'.backend.warehouse from
    ⟨hbacked, hcarries, hrest.1, hrest.2.1, hrest.2.2⟩
  rw [hconfig.1]
  cases a with
  | begins op =>
      cases hstep
      refine ⟨hmessages.wired, ?_, hmessages.fetching⟩
      intro c hc hsends m hm
      rcases List.mem_append.mp hc with hold | hnew
      · exact hmessages.sending c hold hsends m hm
      · rw [List.mem_singleton.mp hnew] at hsends
        cases op with
        | _ => cases hsends
  | advances i =>
      obtain ⟨call, b, ch, call', hcall, hmove, rfl⟩ := Site.step_advances hstep
      exact hmessages.advance h hcleanup hlive hcall hmove
  | delivers i =>
      obtain ⟨feed, feed', receipts, hfeed, hdelivers, rfl⟩ := Site.step_delivers hstep
      exact ⟨hmessages.wired, hmessages.sending,
        hmessages.fetching_set (deliverStep_delivers hdelivers)⟩
  | expires key =>
      obtain ⟨⟨staged, hlookup, hexpires⟩, -⟩ := Site.step_expires hstep
      rw [h.unmarked key staged hlookup] at hexpires
      cases hexpires

end Steps

/-! ## Every accepted message is on its way -/

/-- The messages accepted from number `count` on are carried by their publishers or on
the wire from `base` on. -/
structure Forwards (base count : Nat) (s : Site) : Prop where
  behind : base ≤ s.backend.wire.length
  onward : ∀ (k : Nat) (m : ChannelMessage), count ≤ k → s.channel.accepted[k]? = some m →
    (∃ i, carried? s.calls i = some m) ∨
      ∃ p, base ≤ p ∧ s.backend.wire[p]? = some (notification m)

section Forwarding

variable {scanMatches : String → String → Bool} {base count : Nat} {s s' : Site} {a : SiteAction}

theorem forwards_start (s : Site) :
    Forwards s.backend.wire.length s.channel.accepted.length s := by
  refine ⟨Nat.le_refl _, fun k m hk hm => ?_⟩
  have := (List.getElem?_eq_some_iff.mp hm).1
  omega

theorem Forwards.advance (h : Forwards base count s) {i : Nat} {call call' : ChannelCall}
    {b : Backend} {ch : Channel} (hcall : s.calls[i]? = some call)
    (hstep : MessageStep s.backend s.channel call b ch call') :
    Forwards base count { backend := b, channel := ch, calls := s.calls.set i call' } := by
  have hself : ∀ {m}, call'.inFlight = some m → carried? (s.calls.set i call') i = some m :=
    fun hm => carried?_of_call (List.getElem?_set_self (List.getElem?_eq_some_iff.mp hcall).1) hm
  -- what another call carries it still carries
  have hother : ∀ {j m}, j ≠ i → carried? s.calls j = some m →
      carried? (s.calls.set i call') j = some m := by
    intro j m hne hm
    unfold carried? at hm ⊢
    rw [List.getElem?_set_ne (Ne.symm hne)]
    exact hm
  have hmoved : ∀ {m}, carried? s.calls i = some m → call.inFlight = some m := by
    intro m hm
    unfold carried? at hm
    rw [hcall] at hm
    exact hm
  have hbehind := h.behind
  cases hstep with
  | took m hcalls hm hnone hcarries hch hb =>
      rw [hch, hb]
      refine ⟨h.behind, fun k x hk hx => ?_⟩
      rcases getElem?_snoc_cases hx with hold | ⟨-, rfl⟩
      · rcases h.onward k x hk hold with ⟨j, hj⟩ | hwire
        · by_cases hji : j = i
          · subst hji
            have := hmoved hj
            rw [hnone] at this
            cases this
          · exact .inl ⟨j, hother hji hj⟩
        · exact .inr hwire
      · exact .inl ⟨i, hself hcarries⟩
  | kept hcarries _ haccepted hwire =>
      refine ⟨?_, fun k x hk hx => ?_⟩
      · show base ≤ b.wire.length
        rw [hwire]
        exact h.behind
      · show _ ∨ ∃ p, base ≤ p ∧ b.wire[p]? = some (notification x)
        rw [hwire]
        have hx : ch.accepted[k]? = some x := hx
        rw [haccepted] at hx
        rcases h.onward k x hk hx with ⟨j, hj⟩ | hsent
        · by_cases hji : j = i
          · subst hji
            exact .inl ⟨j, hself (hcarries.trans (hmoved hj))⟩
          · exact .inl ⟨j, hother hji hj⟩
        · exact .inr hsent
  | sent m _ hm hnone hch hb =>
      rw [hch, hb]
      refine ⟨?_, fun k x hk hx => ?_⟩
      · show base ≤ (s.backend.wire ++ [notification m]).length
        rw [List.length_append]
        omega
      · show _ ∨ ∃ p, base ≤ p ∧ (s.backend.wire ++ [notification m])[p]? = some (notification x)
        rcases h.onward k x hk hx with ⟨j, hj⟩ | ⟨p, hp, hwire⟩
        · by_cases hji : j = i
          · subst hji
            obtain rfl := Option.some.inj (hm.symm.trans (hmoved hj))
            refine .inr ⟨s.backend.wire.length, h.behind, ?_⟩
            rw [List.getElem?_append_right (Nat.le_refl _), Nat.sub_self]
            rfl
          · exact .inl ⟨j, hother hji hj⟩
        · refine .inr ⟨p, hp, ?_⟩
          rw [List.getElem?_append_left (List.getElem?_eq_some_iff.mp hwire).1]
          exact hwire

theorem Forwards.step (h : Forwards base count s) (hstep : s.step scanMatches a = some s') :
    Forwards base count s' := by
  cases a with
  | begins op =>
      cases hstep
      refine ⟨h.behind, fun k m hk hm => ?_⟩
      rcases h.onward k m hk hm with ⟨j, hj⟩ | hwire
      · left
        obtain ⟨c, hc, hcarries⟩ := Option.bind_eq_some_iff.mp hj
        have hstays : (s.calls ++ [op.start])[j]? = some c := by
          rw [List.getElem?_append_left (List.getElem?_eq_some_iff.mp hc).1]
          exact hc
        exact ⟨j, carried?_of_call hstays hcarries⟩
      · exact .inr hwire
  | advances i =>
      obtain ⟨call, b, ch, call', hcall, hmove, rfl⟩ := Site.step_advances hstep
      exact h.advance hcall (ChannelCall.step_messages hmove)
  | delivers i =>
      obtain ⟨feed, feed', receipts, -, -, rfl⟩ := Site.step_delivers hstep
      exact ⟨h.behind, h.onward⟩
  | expires key =>
      obtain ⟨-, rfl⟩ := Site.step_expires hstep
      exact ⟨h.behind, h.onward⟩

/-- A message that no call carries any more is on the wire. -/
theorem Forwards.on_wire (h : Forwards base count s) {k : Nat} {m : ChannelMessage}
    (hdone : ∀ c ∈ s.calls, c.inFlight ≠ some m) (hk : count ≤ k)
    (hm : s.channel.accepted[k]? = some m) :
    ∃ p, base ≤ p ∧ s.backend.wire[p]? = some (notification m) := by
  rcases h.onward k m hk hm with ⟨i, hi⟩ | hwire
  · obtain ⟨c, hc, hcarries⟩ := mem_of_carried? hi
    exact absurd hcarries (hdone c hc)
  · exact hwire

end Forwarding

/-! ## Every notification is heard -/

/-- The number that a `subscribe` has returned. -/
def ChannelCall.subscribed : ChannelCall → Option Int
  | .subscribe (.returned subId) => some subId
  | _ => none

/-- A notification is sent while a native subscription exists, if any subscriber is
registered whose `subscribe` has returned. -/
def Site.SendsHeard (s : Site) : SiteAction → Prop
  | .advances i => ∀ call ∈ s.calls[i]?, call.sends →
      ∀ other ∈ s.calls, ∀ subId ∈ other.subscribed, subId ∈ s.channel.subscribers →
        s.channel.feeds ≠ []
  | .begins _ | .delivers _ | .expires _ => True

instance Site.decidableSendsHeard (s : Site) : (a : SiteAction) → Decidable (s.SendsHeard a)
  | .advances i => inferInstanceAs (Decidable (∀ call ∈ s.calls[i]?, _))
  | .begins _ | .delivers _ | .expires _ => inferInstanceAs (Decidable True)

/-- While the subscriber stays registered, the first feed started before every
notification from `base` on. -/
structure Heard (base : Nat) (subscriber : Int) (s : Site) : Prop where
  old : subscriber < s.channel.nextSubId
  subscribed : ∃ c ∈ s.calls, c.subscribed = some subscriber
  heard : subscriber ∈ s.channel.subscribers → ∀ p, base ≤ p → p < s.backend.wire.length →
    ∃ feed, s.channel.feeds[0]? = some feed ∧ feed.start ≤ p

section Hearing

variable {scanMatches : String → String → Bool} {base : Nat} {subscriber : Int} {s s' : Site}
  {a : SiteAction}

theorem heard_start (h : Deliveries s) (hmem : subscriber ∈ s.channel.subscribers)
    (hcall : ∃ c ∈ s.calls, c.subscribed = some subscriber) :
    Heard s.backend.wire.length subscriber s := by
  refine ⟨h.fresh subscriber hmem, hcall, fun _ p hbase hp => ?_⟩
  omega

theorem Heard.advance (h : Heard base subscriber s) (hinv : Deliveries s) {i : Nat}
    {call call' : ChannelCall} {b : Backend} {ch : Channel} (hcall : s.calls[i]? = some call)
    (hok : s.SendsHeard (.advances i))
    (hmove : call.step scanMatches s.backend s.channel = some (b, ch, call')) :
    Heard base subscriber { backend := b, channel := ch, calls := s.calls.set i call' } := by
  have hframe := ChannelCall.step_frame hmove
  refine ⟨Int.lt_of_lt_of_le h.old hframe.nextSubId_le, ?_, fun hmem p hbase hp => ?_⟩
  · refine (exists_set hcall h.subscribed).resolve_left fun hdone => ?_
    -- a call that has returned makes no step
    cases call with
    | subscribe phase =>
        cases phase with
        | returned subId => cases hmove
        | _ => cases hdone
    | _ => cases hdone
  · have hmem' := hframe.was_registered h.old hmem
    have hstays : ∀ feed, s.channel.feeds[0]? = some feed → feed.start ≤ p →
        ∃ feed', ch.feeds[0]? = some feed' ∧ feed'.start ≤ p := by
      intro feed hfeed hstart
      refine ⟨feed, ?_, hstart⟩
      rcases hframe.feeds with hsame | hnew
      · rw [hsame]
        exact hfeed
      · rw [hnew, List.getElem?_append_left (List.getElem?_eq_some_iff.mp hfeed).1]
        exact hfeed
    have hold : p < s.backend.wire.length → ∃ feed, ch.feeds[0]? = some feed ∧ feed.start ≤ p := by
      intro hlt
      obtain ⟨feed, hfeed, hstart⟩ := h.heard hmem' p hbase hlt
      exact hstays feed hfeed hstart
    have hp : p < b.wire.length := hp
    cases ChannelCall.step_messages hmove with
    | took _ _ _ _ _ _ hb =>
        rw [hb] at hp
        exact hold hp
    | kept _ _ _ hwire =>
        rw [hwire] at hp
        exact hold hp
    | sent m hsends _ _ _ hb =>
        rw [hb, List.length_append, List.length_singleton] at hp
        by_cases hlast : p < s.backend.wire.length
        · exact hold hlast
        · obtain ⟨c, hc, hsubscribed⟩ := h.subscribed
          have hne := hok call hcall hsends c hc subscriber hsubscribed hmem'
          obtain ⟨feed, rest, hfeeds⟩ := List.exists_cons_of_ne_nil hne
          have hfirst : s.channel.feeds[0]? = some feed := by
            rw [hfeeds]
            rfl
          have hbounds := hinv.feeds 0 feed hfirst
          have hstart := hbounds.start
          have hcursor := hbounds.cursor
          exact hstays feed hfirst (by omega)

theorem Heard.step (h : Heard base subscriber s) (hinv : Deliveries s) (hok : s.SendsHeard a)
    (hstep : s.step scanMatches a = some s') : Heard base subscriber s' := by
  cases a with
  | begins op =>
      cases hstep
      obtain ⟨c, hc, hsubscribed⟩ := h.subscribed
      exact ⟨h.old, ⟨c, List.mem_append_left _ hc, hsubscribed⟩, h.heard⟩
  | advances i =>
      obtain ⟨call, b, ch, call', hcall, hmove, rfl⟩ := Site.step_advances hstep
      exact h.advance hinv hcall hok hmove
  | delivers i =>
      have hstays := @feed_stays_step scanMatches s s' 0
      obtain ⟨feed, feed', receipts, -, -, rfl⟩ := Site.step_delivers hstep
      refine ⟨h.old, h.subscribed, fun hmem p hbase hp => ?_⟩
      obtain ⟨first, hfirst, hstart⟩ := h.heard hmem p hbase hp
      obtain ⟨first', hfirst', heq⟩ := hstays hstep hfirst
      exact ⟨first', hfirst', by omega⟩
  | expires key =>
      obtain ⟨-, rfl⟩ := Site.step_expires hstep
      exact ⟨h.old, h.subscribed, h.heard⟩

end Hearing
end Labios
