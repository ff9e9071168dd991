import Labios.Channel.Subscriptions

/-!
# One feed per channel

Does exactly one native subscription feed a live channel whenever all calls have
returned and a subscriber is registered, so that a callback runs once for each
message? `subscribe` registers, and creates the native subscription outside the lock
if it then counts one subscriber; nothing ever removes it. It does if every such count
is one just when nothing feeds the channel (`channel_oneFeed`). A channel that loses
its last subscriber and gets a new one is fed twice, and two first subscribers at the
same time may both leave it to the other (`channel_fedTwice_orNever`).
-/

namespace Labios

open Foundation

/-! ## The condition -/

/-- A `subscribe` that counts one subscriber finds no native subscription and none
about to be created; one that counts more finds one, or another `subscribe` that has
yet to count. -/
def Site.CountsRight (s : Site) : SiteAction → Prop
  | .advances i => ∀ call ∈ s.calls[i]?, call.counts →
      (s.channel.subscribers.length = 1 →
        s.channel.feeds = [] ∧ ∀ other ∈ s.calls, ¬other.opensFeed) ∧
      (2 ≤ s.channel.subscribers.length →
        s.channel.feeds ≠ [] ∨ ∃ other ∈ s.calls.eraseIdx i, other.opensFeed ∨ other.counts)
  | .begins _ | .delivers _ | .expires _ => True

instance Site.decidableCountsRight (s : Site) : (a : SiteAction) → Decidable (s.CountsRight a)
  | .advances i => inferInstanceAs (Decidable (∀ call ∈ s.calls[i]?, _))
  | .begins _ | .delivers _ | .expires _ => inferInstanceAs (Decidable True)

/-! ## At most one feed, and one where a subscriber is registered -/

structure OneFeed (s : Site) : Prop where
  atMost : s.channel.feeds.length ≤ 1
  single : ∀ (i j : Nat) (c c' : ChannelCall), s.calls[i]? = some c → s.calls[j]? = some c' →
    c.opensFeed → c'.opensFeed → i = j
  exclusive : ∀ c ∈ s.calls, c.opensFeed → s.channel.feeds = []
  fed : s.channel.subscribers ≠ [] →
    s.channel.feeds ≠ [] ∨ ∃ c ∈ s.calls, c.opensFeed ∨ c.counts

theorem oneFeed_fresh (name : String) (ttlSeconds : UInt32) (maxPending : UInt64) :
    OneFeed (Site.fresh name ttlSeconds maxPending) := by
  refine ⟨Nat.zero_le 1, ?_, ?_, fun hne => absurd rfl hne⟩
  · intro i j c c' hc
    cases hc
  · intro c hc
    cases hc

section Steps

variable {scanMatches : String → String → Bool} {s s' : Site} {b b' : Backend} {ch : Channel}
  {i : Nat} {call call' : ChannelCall}

/-- The call that moves does not open a feed afterwards. -/
theorem OneFeed.moves (h : OneFeed s) (hopens : call'.opensFeed = false)
    (hatMost : ch.feeds.length ≤ 1)
    (hfeeds : ∀ j c, j ≠ i → s.calls[j]? = some c → c.opensFeed → ch.feeds = [])
    (hfed : ch.subscribers ≠ [] →
      ch.feeds ≠ [] ∨ ∃ c ∈ s.calls.set i call', c.opensFeed ∨ c.counts) :
    OneFeed { backend := b', channel := ch, calls := s.calls.set i call' } := by
  refine ⟨hatMost, ?_, ?_, hfed⟩
  · intro j k c c' hc hc' ho ho'
    rcases getElem?_set_cases hc with ⟨-, rfl⟩ | ⟨-, hc⟩
    · rw [hopens] at ho
      cases ho
    · rcases getElem?_set_cases hc' with ⟨-, rfl⟩ | ⟨-, hc'⟩
      · rw [hopens] at ho'
        cases ho'
      · exact h.single j k c c' hc hc' ho ho'
  · intro c hc ho
    obtain ⟨j, hj⟩ := List.mem_iff_getElem?.mp hc
    rcases getElem?_set_cases hj with ⟨-, rfl⟩ | ⟨hne, hj⟩
    · rw [hopens] at ho
      cases ho
    · exact hfeeds j c hne hj ho

theorem OneFeed.advance (h : OneFeed s) (hcall : s.calls[i]? = some call)
    (hok : s.CountsRight (.advances i))
    (hstep : SubscriptionStep s.backend s.channel call ch call') :
    OneFeed { backend := b', channel := ch, calls := s.calls.set i call' } := by
  have hmem := List.mem_of_getElem? hcall
  have hothers : ∀ j c, j ≠ i → s.calls[j]? = some c → c.opensFeed → s.channel.feeds = [] :=
    fun j c _ hc ho => h.exclusive c (List.mem_of_getElem? hc) ho
  cases hstep with
  | registered hcall₀ hcall₁ hch =>
      subst hcall₀ hcall₁ hch
      refine h.moves rfl h.atMost hothers fun _ => .inr ?_
      exact ⟨_, mem_set_self hcall, .inr rfl⟩
  | counted subId hcall₀ hcall₁ hch =>
      subst hcall₀ hch
      obtain ⟨hone, hmore⟩ := hok _ hcall rfl
      by_cases hlength : s.channel.subscribers.length = 1
      · -- it will create the feed, and nobody else has one or will
        rw [if_pos hlength] at hcall₁
        subst hcall₁
        obtain ⟨hnone, hidle⟩ := hone hlength
        refine ⟨h.atMost, ?_, fun _ _ _ => hnone, fun _ => .inr ?_⟩
        · intro j k c c' hc hc' ho ho'
          rcases getElem?_set_cases hc with ⟨rfl, -⟩ | ⟨-, hc⟩
          · rcases getElem?_set_cases hc' with ⟨rfl, -⟩ | ⟨-, hc'⟩
            · rfl
            · exact absurd ho' (hidle c' (List.mem_of_getElem? hc'))
          · exact absurd ho (hidle c (List.mem_of_getElem? hc))
        · exact ⟨_, mem_set_self hcall, .inl rfl⟩
      · rw [if_neg hlength] at hcall₁
        subst hcall₁
        refine h.moves rfl h.atMost hothers fun hne => ?_
        have hpos := List.length_pos_iff.mpr hne
        rcases hmore (by omega) with hfeeds | ⟨other, hother, hwill⟩
        · exact .inl hfeeds
        · obtain ⟨j, hne, hj⟩ := List.mem_eraseIdx_iff_getElem?.mp hother
          exact .inr ⟨other, mem_set_of_ne hj hne, hwill⟩
  | opened subId hcall₀ hcall₁ hch =>
      subst hcall₀ hcall₁ hch
      have hnone := h.exclusive _ hmem rfl
      refine h.moves rfl ?_ ?_ fun _ => .inl ?_
      · show (s.channel.feeds ++ _).length ≤ 1
        rw [hnone]
        exact Nat.le_refl 1
      · intro j c hne hc ho
        exact absurd (h.single j i c _ hc hcall ho rfl) hne
      · exact List.append_ne_nil_of_right_ne_nil _ (List.cons_ne_nil _ _)
  | other hcounts hopens hcounts' hopens' hfeeds hsub _ =>
      refine h.moves hopens' ?_ ?_ ?_
      · rw [hfeeds]
        exact h.atMost
      · rw [hfeeds]
        exact hothers
      · intro hne
        have hne' : s.channel.subscribers ≠ [] := by
          intro hnil
          rw [hnil] at hsub
          exact hne (List.eq_nil_of_sublist_nil hsub)
        rw [hfeeds]
        rcases h.fed hne' with hfed | ⟨c, hc, hwill⟩
        · exact .inl hfed
        · obtain ⟨j, hj⟩ := List.mem_iff_getElem?.mp hc
          right
          refine ⟨c, mem_set_of_ne hj ?_, hwill⟩
          rintro rfl
          obtain rfl := Option.some.inj (hj.symm.trans hcall)
          rw [hcounts, hopens] at hwill
          rcases hwill with hwill | hwill
          · cases hwill
          · cases hwill

theorem OneFeed.step {a : SiteAction} (h : OneFeed s) (hok : s.CountsRight a)
    (hstep : s.step scanMatches a = some s') : OneFeed s' := by
  cases a with
  | begins op =>
      cases hstep
      have hidle : op.start.opensFeed = false := by
        cases op with
        | _ => rfl
      refine ⟨h.atMost, ?_, ?_, ?_⟩
      · intro j k c c' hc hc' ho ho'
        rcases getElem?_snoc_cases hc with hc | ⟨-, rfl⟩
        · rcases getElem?_snoc_cases hc' with hc' | ⟨-, rfl⟩
          · exact h.single j k c c' hc hc' ho ho'
          · rw [hidle] at ho'
            cases ho'
        · rw [hidle] at ho
          cases ho
      · intro c hc ho
        rcases List.mem_append.mp hc with hc | hc
        · exact h.exclusive c hc ho
        · rw [List.mem_singleton.mp hc, hidle] at ho
          cases ho
      · intro hne
        rcases h.fed hne with hfed | ⟨c, hc, hwill⟩
        · exact .inl hfed
        · exact .inr ⟨c, List.mem_append_left _ hc, hwill⟩
  | advances i =>
      obtain ⟨call, b, ch, call', hcall, hmove, rfl⟩ := Site.step_advances hstep
      exact h.advance hcall hok (ChannelCall.step_subscription hmove)
  | delivers i =>
      obtain ⟨feed, feed', receipts, -, -, rfl⟩ := Site.step_delivers hstep
      have hnil : s.channel.feeds.set i feed' = [] ↔ s.channel.feeds = [] :=
        List.set_eq_nil_iff _ _
      refine ⟨?_, h.single, ?_, ?_⟩
      · show (s.channel.feeds.set i feed').length ≤ 1
        rw [List.length_set]
        exact h.atMost
      · intro c hc ho
        exact hnil.mpr (h.exclusive c hc ho)
      · intro hne
        rcases h.fed hne with hfed | hwill
        · exact .inl fun heq => hfed (hnil.mp heq)
        · exact .inr hwill
  | expires key =>
      obtain ⟨-, rfl⟩ := Site.step_expires hstep
      exact ⟨h.atMost, h.single, h.exclusive, h.fed⟩

/-- When all calls have returned nobody is about to create a feed. -/
theorem OneFeed.feeds_length (h : OneFeed s) (hquiet : s.Quiet)
    (hne : s.channel.subscribers ≠ []) : s.channel.feeds.length = 1 := by
  have hatMost := h.atMost
  rcases h.fed hne with hfed | ⟨c, hc, hwill⟩
  · have := List.length_pos_iff.mpr hfed
    omega
  · obtain ⟨hcounts, hopens⟩ := returned_idle (hquiet c hc)
    rw [hcounts, hopens] at hwill
    rcases hwill with hwill | hwill
    · cases hwill
    · cases hwill

end Steps

/-! ## One run of the callback for each message -/

/-- The receipts of one subscriber for the payload at one position. -/
def Site.runsFor (s : Site) (position : Nat) (subscriber : Int) : List Receipt :=
  s.channel.received.filter fun r => r.position = position ∧ r.subscriber = subscriber

/-- With one feed, a subscriber that stays registered is served once. -/
theorem runsFor_length {scanMatches : String → String → Bool} {s t : Site}
    {actions : List SiteAction} (hs : Deliveries s)
    (hexec : exec (Site.step scanMatches) s actions = some t)
    (hone : s.channel.feeds.length = 1) (hatMost : t.channel.feeds.length ≤ 1)
    (hlive : t.channel.destroyed = false) (hdelivered : t.Delivered) {subscriber : Int}
    (hmem : subscriber ∈ s.channel.subscribers) (hstays : subscriber ∈ t.channel.subscribers)
    {p : Nat} (hbase : s.backend.wire.length ≤ p) (hp : p < t.backend.wire.length) :
    (t.runsFor p subscriber).length = 1 := by
  have ht := hs.exec hexec
  obtain ⟨feed, hfeed⟩ := List.length_eq_one_iff.mp hone
  have hfirst : s.channel.feeds[0]? = some feed := by
    rw [hfeed]
    rfl
  obtain ⟨feed', hfeed', hstart⟩ := feed_stays hexec hfirst
  have hbounds := hs.feeds 0 feed hfirst
  have hbefore : feed'.start ≤ p := by
    have hstart' := hbounds.start
    have hcursor := hbounds.cursor
    omega
  obtain ⟨r, hr, hr₀, hposition, hsubscriber⟩ :=
    (serves_exec hs hmem hexec).receipt hlive hstays hdelivered hfeed' hbase hbefore hp
  -- all receipts are of this feed
  have hsame : t.runsFor p subscriber = t.channel.received.filter
      fun r => r.feed = 0 ∧ r.position = p ∧ r.subscriber = subscriber := by
    refine List.filter_congr fun x hx => ?_
    have hx₀ : x.feed = 0 := by
      have := ht.known x hx
      omega
    simp [hx₀]
  have hle := ht.receipts_le_one 0 p subscriber
  rw [← hsame] at hle
  have hpos : 0 < (t.runsFor p subscriber).length := by
    refine List.length_pos_iff.mpr (List.ne_nil_of_mem (a := r) ?_)
    exact List.mem_filter.mpr ⟨hr, decide_eq_true ⟨hposition, hsubscriber⟩⟩
  omega

/-- **One feed.** In a run whose counts are right, when all calls have returned and a
subscriber is registered there is exactly one native subscription, and from then on
the callback of a subscriber that stays registered on the live channel runs exactly
once for each message published. -/
theorem channel_oneFeed (scanMatches : String → String → Bool) (name : String)
    (ttlSeconds : UInt32) (maxPending : UInt64) (front : List SiteAction) (s : Site)
    (hexec : exec (Site.step scanMatches) (Site.fresh name ttlSeconds maxPending) front = some s)
    (hfront : Along (Site.step scanMatches) Site.CountsRight
      (Site.fresh name ttlSeconds maxPending) front)
    (hquiet : s.Quiet) (hne : s.channel.subscribers ≠ []) :
    s.channel.feeds.length = 1 ∧
      ∀ back t, exec (Site.step scanMatches) s back = some t →
        Along (Site.step scanMatches) Site.CountsRight s back →
        t.channel.destroyed = false → t.Delivered →
        ∀ subscriber ∈ s.channel.subscribers, subscriber ∈ t.channel.subscribers →
          ∀ p, s.backend.wire.length ≤ p → p < t.backend.wire.length →
            (t.runsFor p subscriber).length = 1 := by
  have hinv : OneFeed s := exec_invariant (fun h hok hstep => h.step hok hstep)
    (oneFeed_fresh name ttlSeconds maxPending) hexec hfront
  have hdeliveries := (deliveries_fresh name ttlSeconds maxPending).exec hexec
  have hone := hinv.feeds_length hquiet hne
  refine ⟨hone, fun back t hback hok hlive hdelivered subscriber hmem hstays p hbase hp => ?_⟩
  have hinv' : OneFeed t := exec_invariant (fun h hok hstep => h.step hok hstep) hinv hback hok
  exact runsFor_length hdeliveries hback hone hinv'.atMost hlive hdelivered hmem hstays hbase hp

/-! ## Runs -/

/-- One message with one subscriber. -/
def publishOnce : List SiteAction :=
  (ChannelOp.publish [1] 7).runs 1 6 ++ List.replicate 5 (.delivers 0)

/-- The only subscriber leaves, and another one comes. -/
def resubscribed : List SiteAction :=
  ChannelOp.subscribe.runs 0 4 ++ (ChannelOp.unsubscribe 1).runs 1 1 ++
    ChannelOp.subscribe.runs 2 4 ++ (ChannelOp.publish [1] 7).runs 3 6 ++
    List.replicate 5 (.delivers 0) ++ List.replicate 5 (.delivers 1)

/-- Two subscribers register before either counts. -/
def bothRegister : List SiteAction :=
  ChannelOp.subscribe.runs 0 2 ++ ChannelOp.subscribe.runs 1 3 ++ [.advances 0]

theorem channel_oneFeed_publishOnce :
    ∃ s, exec (Site.step starMatches) (Site.fresh "log" 0 10000) (ChannelOp.subscribe.runs 0 4) =
        some s ∧ s.channel.feeds.length = 1 ∧
      ∃ t, exec (Site.step starMatches) s publishOnce = some t ∧ (t.runsFor 0 1).length = 1 := by
  obtain ⟨t, hexec⟩ := Option.isSome_iff_exists.mp (show (exec (Site.step starMatches)
    (Site.fresh "log" 0 10000) (ChannelOp.subscribe.runs 0 4 ++ publishOnce)).isSome = true by
      decide +kernel)
  have hok : Along (Site.step starMatches) Site.CountsRight (Site.fresh "log" 0 10000)
      (ChannelOp.subscribe.runs 0 4 ++ publishOnce) := by decide +kernel
  obtain ⟨s, hfront, hback⟩ := exec_append hexec
  obtain ⟨hokFront, hokBack⟩ := hok.append hfront
  have hs : ∀ x ∈ exec (Site.step starMatches) (Site.fresh "log" 0 10000)
      (ChannelOp.subscribe.runs 0 4),
      x.Quiet ∧ x.channel.subscribers = [1] ∧ x.backend.wire = [] := by decide +kernel
  have ht : ∀ x ∈ exec (Site.step starMatches) (Site.fresh "log" 0 10000)
      (ChannelOp.subscribe.runs 0 4 ++ publishOnce),
      x.channel.destroyed = false ∧ x.Delivered ∧ x.channel.subscribers = [1] ∧
        x.backend.wire.length = 1 := by decide +kernel
  obtain ⟨hquiet, hsubscribers, hwire⟩ := hs s hfront
  obtain ⟨hlive, hdelivered, hstays, hlength⟩ := ht t hexec
  obtain ⟨hone, honce⟩ := channel_oneFeed starMatches "log" 0 10000 _ s hfront hokFront hquiet
    (by rw [hsubscribers]; decide)
  refine ⟨s, hfront, hone, t, hback, honce _ t hback hokBack hlive hdelivered 1 ?_ ?_ 0 ?_ ?_⟩
  · rw [hsubscribers]
    decide
  · rw [hstays]
    decide
  · rw [hwire]
    decide
  · rw [hlength]
    decide

/-- With two native subscriptions the callback runs twice; with none, two subscribers
wait for messages that nothing delivers. -/
theorem channel_fedTwice_orNever :
    (∃ s ∈ exec (Site.step starMatches) (Site.fresh "log" 0 10000) resubscribed,
      s.Quiet ∧ s.channel.destroyed = false ∧ s.channel.subscribers = [2] ∧
        s.channel.feeds.length = 2 ∧ (s.runsFor 0 2).length = 2) ∧
    ∃ s ∈ exec (Site.step starMatches) (Site.fresh "log" 0 10000) bothRegister,
      s.Quiet ∧ s.channel.destroyed = false ∧ s.channel.subscribers = [1, 2] ∧
        s.channel.feeds = [] := by
  decide +kernel

end Labios
