import Labios.Channel.Deliveries

/-!
# Registering and feeding

What the steps of a call do to the list of subscribers and to the native
subscriptions: `subscribe` registers first, then counts the subscribers, and creates
a native subscription if it counted one (`SubscriptionStep`). A native subscription
stays, and keeps where it started (`feed_stays`).
-/

namespace Labios

open Foundation

/-- The next step counts the subscribers. -/
def ChannelCall.counts : ChannelCall → Bool
  | .subscribe (.count _) => true
  | _ => false

/-- What a step of a call does to subscribers and native subscriptions. -/
inductive SubscriptionStep (b : Backend) (ch : Channel) (call : ChannelCall) (ch' : Channel)
    (call' : ChannelCall) : Prop
  | registered : call = .subscribe .insert → call' = .subscribe (.count ch.nextSubId) →
      ch' = { ch with
        subscribers := ch.subscribers ++ [ch.nextSubId], nextSubId := ch.nextSubId + 1 } →
      SubscriptionStep b ch call ch' call'
  | counted (subId : Int) : call = .subscribe (.count subId) →
      call' = .subscribe (if ch.subscribers.length = 1 then .feed subId else .returned subId) →
      ch' = ch → SubscriptionStep b ch call ch' call'
  | opened (subId : Int) : call = .subscribe (.feed subId) →
      call' = .subscribe (.returned subId) →
      ch' = { ch with
        feeds := ch.feeds ++ [{ start := b.wire.length, cursor := b.wire.length }] } →
      SubscriptionStep b ch call ch' call'
  | other : call.counts = false → call.opensFeed = false → call'.counts = false →
      call'.opensFeed = false → ch'.feeds = ch.feeds → ch'.subscribers.Sublist ch.subscribers →
      (∀ subId, call' = .subscribe (.returned subId) → subId = -1) →
      SubscriptionStep b ch call ch' call'

section Steps

variable {scanMatches : String → String → Bool} {b b' : Backend} {ch ch' : Channel}
  {call call' : ChannelCall}

theorem Destroying.not_subscribe {phase : DestroyPhase} (h : Destroying call phase) :
    call.counts = false ∧ call.opensFeed = false ∧ ∀ p, call ≠ .subscribe p := by
  cases h with
  | unsubscribe | drain | destroy => exact ⟨rfl, rfl, fun _ heq => by cases heq⟩

theorem ChannelCall.step_subscription (h : call.step scanMatches b ch = some (b', ch', call')) :
    SubscriptionStep b ch call ch' call' := by
  have hframe := ChannelCall.step_frame h
  have hfeeds := ChannelCall.step_feeds h
  cases ChannelCall.step_method h with
  | @publish data labelId phase _ _ phase' hstep =>
      refine .other rfl rfl rfl rfl (hfeeds.resolve_right Bool.false_ne_true) ?_
        (fun subId heq => by cases heq)
      cases phase with
      | returned result => cases hstep
      | _ =>
          cases hstep
          exact List.Sublist.refl _
  | @subscribe phase _ phase' hstep =>
      cases phase with
      | returned result => cases hstep
      | checkDestroyed =>
          cases hstep
          cases hdestroyed : ch.destroyed with
          | true =>
              refine .other rfl rfl rfl rfl rfl (List.Sublist.refl _) fun subId heq => ?_
              cases heq
              rfl
          | false =>
              exact .other rfl rfl rfl rfl rfl (List.Sublist.refl _) fun subId heq => by cases heq
      | insert =>
          cases hstep
          exact .registered rfl rfl rfl
      | count subId =>
          cases hstep
          exact .counted subId rfl rfl rfl
      | feed subId =>
          cases hstep
          exact .opened subId rfl rfl rfl
  | erase =>
      exact .other rfl rfl rfl rfl rfl List.erase_sublist fun subId heq => by cases heq
  | drain => exact .other rfl rfl rfl rfl rfl (List.Sublist.refl _) fun subId heq => by cases heq
  | checkEmpty =>
      exact .other rfl rfl rfl rfl rfl (List.Sublist.refl _) fun subId heq => by cases heq
  | @destroy _ phase _ _ _ phase' hbefore hafter hstep =>
      obtain ⟨hcounts, hopens, -⟩ := hbefore.not_subscribe
      obtain ⟨hcounts', hopens', hnever⟩ := hafter.not_subscribe
      refine .other hcounts hopens hcounts' hopens'
        (hfeeds.resolve_right (by rw [hopens]; decide)) ?_ (fun subId heq => absurd heq (hnever _))
      cases phase with
      | returned => cases hstep
      | clear =>
          cases hstep
          exact List.nil_sublist _
      | delete keys =>
          cases keys with
          | _ =>
              cases hstep
              exact List.Sublist.refl _
      | _ =>
          cases hstep
          exact List.Sublist.refl _

theorem returned_idle (h : call.returned) : call.counts = false ∧ call.opensFeed = false := by
  cases call with
  | subscribe phase =>
      cases phase with
      | returned result => exact ⟨rfl, rfl⟩
      | _ => cases h
  | _ => exact ⟨rfl, rfl⟩

end Steps

/-! ## Native subscriptions stay -/

section Stays

variable {scanMatches : String → String → Bool} {s s' : Site} {i : Nat} {feed : Feed}

theorem feed_stays_step {a : SiteAction} (hstep : s.step scanMatches a = some s')
    (hfeed : s.channel.feeds[i]? = some feed) :
    ∃ feed', s'.channel.feeds[i]? = some feed' ∧ feed'.start = feed.start := by
  cases a with
  | begins op =>
      cases hstep
      exact ⟨feed, hfeed, rfl⟩
  | advances j =>
      obtain ⟨call, b, ch, call', -, hmove, rfl⟩ := Site.step_advances hstep
      refine ⟨feed, ?_, rfl⟩
      show ch.feeds[i]? = some feed
      rcases (ChannelCall.step_frame hmove).feeds with hsame | hnew
      · rw [hsame]
        exact hfeed
      · rw [hnew, List.getElem?_append_left (List.getElem?_eq_some_iff.mp hfeed).1]
        exact hfeed
  | delivers j =>
      obtain ⟨feed₀, feed₁, receipts, hfeed₀, hdelivers, rfl⟩ := Site.step_delivers hstep
      by_cases hij : j = i
      · subst hij
        obtain rfl : feed₀ = feed := Option.some.inj (hfeed₀.symm.trans hfeed)
        refine ⟨feed₁, List.getElem?_set_self (List.getElem?_eq_some_iff.mp hfeed).1, ?_⟩
        cases deliverStep_delivers hdelivers with
        | _ => rfl
      · refine ⟨feed, ?_, rfl⟩
        show (s.channel.feeds.set j feed₁)[i]? = some feed
        rw [List.getElem?_set_ne hij]
        exact hfeed
  | expires key =>
      obtain ⟨-, rfl⟩ := Site.step_expires hstep
      exact ⟨feed, hfeed, rfl⟩

theorem feed_stays {actions : List SiteAction}
    (hexec : exec (Site.step scanMatches) s actions = some s')
    (hfeed : s.channel.feeds[i]? = some feed) :
    ∃ feed', s'.channel.feeds[i]? = some feed' ∧ feed'.start = feed.start := by
  refine exec_kept (I := fun t => ∃ feed', t.channel.feeds[i]? = some feed' ∧
    feed'.start = feed.start) ?_ ⟨feed, hfeed, rfl⟩ hexec
  rintro t a t' ⟨feed', hfeed', hstart⟩ hstep
  obtain ⟨feed₁, hfeed₁, hstart₁⟩ := feed_stays_step hstep hfeed'
  exact ⟨feed₁, hfeed₁, hstart₁.trans hstart⟩

end Stays
end Labios
