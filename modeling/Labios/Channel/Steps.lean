import Labios.Channel.Model
import Labios.Foundation.Entries

/-!
# What a step of a channel can change

One lemma for the steps of all calls (`ChannelCall.step_frame`), and one for each kind
of action on a channel object. The invariants of the channel are derived from these.
-/

namespace Labios

open Foundation

/-! ## What no step does -/

/-- What any step of any call leaves alone or only extends. -/
structure Frame (b : Backend) (ch : Channel) (b' : Backend) (ch' : Channel) : Prop where
  wire : b'.wire = b.wire ∨ ∃ m, b'.wire = b.wire ++ [notification m]
  feeds : ch'.feeds = ch.feeds ∨
    ch'.feeds = ch.feeds ++ [{ start := b.wire.length, cursor := b.wire.length }]
  received : ch'.received = ch.received
  subscribers : ch'.subscribers.Sublist ch.subscribers ∧ ch'.nextSubId = ch.nextSubId ∨
    ch'.subscribers = ch.subscribers ++ [ch.nextSubId] ∧ ch'.nextSubId = ch.nextSubId + 1
  config : ch'.name = ch.name ∧ ch'.ttlSeconds = ch.ttlSeconds ∧ ch'.maxPending = ch.maxPending
  destroyed : ch.destroyed → ch'.destroyed
  draining : ch.draining → ch'.draining

theorem Frame.refl (b : Backend) (ch : Channel) : Frame b ch b ch :=
  ⟨.inl rfl, .inl rfl, rfl, .inl ⟨List.Sublist.refl _, rfl⟩, ⟨rfl, rfl, rfl⟩, id, id⟩

section Frames

variable {scanMatches : String → String → Bool} {b b' : Backend} {ch ch' : Channel}

theorem publishStep_frame {data : List UInt8} {labelId : UInt64} {phase phase' : PublishPhase}
    (h : publishStep b ch data labelId phase = some (b', ch', phase')) : Frame b ch b' ch' := by
  cases phase with
  | returned result => cases h
  | take =>
      cases h
      exact ⟨.inl rfl, .inl rfl, rfl, .inl ⟨List.Sublist.refl _, rfl⟩, ⟨rfl, rfl, rfl⟩, id, id⟩
  | stage sequence =>
      cases h
      exact ⟨.inl rfl, .inl rfl, rfl, .inl ⟨List.Sublist.refl _, rfl⟩, ⟨rfl, rfl, rfl⟩, id, id⟩
  | setExpiry sequence =>
      cases h
      exact ⟨.inl rfl, .inl rfl, rfl, .inl ⟨List.Sublist.refl _, rfl⟩, ⟨rfl, rfl, rfl⟩, id, id⟩
  | notify sequence =>
      cases h
      exact ⟨.inr ⟨_, rfl⟩, .inl rfl, rfl, .inl ⟨List.Sublist.refl _, rfl⟩, ⟨rfl, rfl, rfl⟩, id, id⟩
  | loadDraining | loadDestroyed | checkLimit =>
      cases h
      exact Frame.refl b ch

theorem subscribeStep_frame {phase phase' : SubscribePhase}
    (h : subscribeStep b ch phase = some (ch', phase')) : Frame b ch b ch' := by
  cases phase with
  | returned result => cases h
  | insert =>
      cases h
      exact ⟨.inl rfl, .inl rfl, rfl, .inr ⟨rfl, rfl⟩, ⟨rfl, rfl, rfl⟩, id, id⟩
  | feed subId =>
      cases h
      exact ⟨.inl rfl, .inr rfl, rfl, .inl ⟨List.Sublist.refl _, rfl⟩, ⟨rfl, rfl, rfl⟩, id, id⟩
  | checkDestroyed | count subId =>
      cases h
      exact Frame.refl b ch

theorem destroyStep_frame {phase phase' : DestroyPhase}
    (h : destroyStep scanMatches b ch phase = some (b', ch', phase')) : Frame b ch b' ch' := by
  cases phase with
  | returned => cases h
  | exchange =>
      cases h
      exact ⟨.inl rfl, .inl rfl, rfl, .inl ⟨List.Sublist.refl _, rfl⟩, ⟨rfl, rfl, rfl⟩,
        fun _ => rfl, id⟩
  | clear =>
      cases h
      exact ⟨.inl rfl, .inl rfl, rfl, .inl ⟨List.nil_sublist _, rfl⟩, ⟨rfl, rfl, rfl⟩, id, id⟩
  | scan =>
      cases h
      exact Frame.refl b ch
  | delete keys =>
      cases keys with
      | nil =>
          cases h
          exact Frame.refl b ch
      | cons key rest =>
          cases h
          exact ⟨.inl rfl, .inl rfl, rfl, .inl ⟨List.Sublist.refl _, rfl⟩, ⟨rfl, rfl, rfl⟩, id, id⟩

end Frames

/-! ## The steps of a call, by its method -/

section Methods

variable {scanMatches : String → String → Bool} {b b' : Backend} {ch ch' : Channel}

/-- `unsubscribe`, `drain` or `destroy` inside `destroy`. -/
inductive Destroying : ChannelCall → DestroyPhase → Prop
  | unsubscribe (subId : Int) (phase : DestroyPhase) :
      Destroying (.unsubscribe subId (.destroying phase)) phase
  | drain (phase : DestroyPhase) : Destroying (.drain (.destroying phase)) phase
  | destroy (phase : DestroyPhase) : Destroying (.destroy phase) phase

/-- The step of a call as a step of its method. -/
inductive MethodStep (scanMatches : String → String → Bool) (b : Backend) (ch : Channel) :
    ChannelCall → Backend → Channel → ChannelCall → Prop
  | publish {data labelId phase b' ch' phase'} :
      publishStep b ch data labelId phase = some (b', ch', phase') →
      MethodStep scanMatches b ch (.publish data labelId phase) b' ch'
        (.publish data labelId phase')
  | subscribe {phase ch' phase'} : subscribeStep b ch phase = some (ch', phase') →
      MethodStep scanMatches b ch (.subscribe phase) b ch' (.subscribe phase')
  | erase {subId} : MethodStep scanMatches b ch (.unsubscribe subId .erase) b
      { ch with subscribers := ch.subscribers.erase subId }
      (.unsubscribe subId (.destroying
        (if ch.subscribers.erase subId = [] ∧ ch.draining then .exchange else .returned)))
  | drain : MethodStep scanMatches b ch (.drain .store) b { ch with draining := true }
      (.drain .checkEmpty)
  | checkEmpty : MethodStep scanMatches b ch (.drain .checkEmpty) b ch
      (.drain (.destroying (if ch.subscribers = [] then .exchange else .returned)))
  | destroy {call phase b' ch' call' phase'} :
      Destroying call phase → Destroying call' phase' →
      destroyStep scanMatches b ch phase = some (b', ch', phase') →
      MethodStep scanMatches b ch call b' ch' call'

variable {call call' : ChannelCall}

theorem ChannelCall.step_method (h : call.step scanMatches b ch = some (b', ch', call')) :
    MethodStep scanMatches b ch call b' ch' call' := by
  unfold ChannelCall.step at h
  split at h
  · obtain ⟨⟨b₁, ch₁, phase'⟩, hstep, heq⟩ := Option.map_eq_some_iff.mp h
    cases heq
    exact .publish hstep
  · obtain ⟨⟨ch₁, phase'⟩, hstep, heq⟩ := Option.map_eq_some_iff.mp h
    cases heq
    exact .subscribe hstep
  · cases h
    exact .erase
  · obtain ⟨⟨b₁, ch₁, phase'⟩, hstep, heq⟩ := Option.map_eq_some_iff.mp h
    cases heq
    exact .destroy (.unsubscribe _ _) (.unsubscribe _ _) hstep
  · cases h
    exact .drain
  · cases h
    exact .checkEmpty
  · obtain ⟨⟨b₁, ch₁, phase'⟩, hstep, heq⟩ := Option.map_eq_some_iff.mp h
    cases heq
    exact .destroy (.drain _) (.drain _) hstep
  · obtain ⟨⟨b₁, ch₁, phase'⟩, hstep, heq⟩ := Option.map_eq_some_iff.mp h
    cases heq
    exact .destroy (.destroy _) (.destroy _) hstep

theorem ChannelCall.step_frame (h : call.step scanMatches b ch = some (b', ch', call')) :
    Frame b ch b' ch' := by
  cases ChannelCall.step_method h with
  | publish hstep => exact publishStep_frame hstep
  | subscribe hstep => exact subscribeStep_frame hstep
  | erase =>
      exact ⟨.inl rfl, .inl rfl, rfl, .inl ⟨List.erase_sublist, rfl⟩, ⟨rfl, rfl, rfl⟩, id, id⟩
  | drain =>
      exact ⟨.inl rfl, .inl rfl, rfl, .inl ⟨List.Sublist.refl _, rfl⟩, ⟨rfl, rfl, rfl⟩, id,
        fun _ => rfl⟩
  | checkEmpty => exact Frame.refl b ch
  | destroy _ _ hstep => exact destroyStep_frame hstep

/-- The next step creates a native subscription. -/
def ChannelCall.opensFeed : ChannelCall → Bool
  | .subscribe (.feed _) => true
  | _ => false

theorem ChannelCall.step_feeds (h : call.step scanMatches b ch = some (b', ch', call')) :
    ch'.feeds = ch.feeds ∨ call.opensFeed := by
  cases ChannelCall.step_method h with
  | @publish data labelId phase _ _ _ hstep =>
      left
      cases phase with
      | returned result => cases hstep
      | _ =>
          cases hstep
          rfl
  | @subscribe phase _ _ hstep =>
      cases phase with
      | feed subId => exact .inr rfl
      | returned result => cases hstep
      | _ =>
          cases hstep
          exact .inl rfl
  | @destroy _ phase _ _ _ _ _ _ hstep =>
      left
      cases phase with
      | delete keys =>
          cases keys with
          | _ =>
              cases hstep
              rfl
      | returned => cases hstep
      | _ =>
          cases hstep
          rfl
  | erase | drain | checkEmpty => exact .inl rfl

end Methods

/-! ## The actions on a channel object -/

section Actions

variable {scanMatches : String → String → Bool} {s s' : Site}

theorem Site.step_advances {i : Nat} (h : s.step scanMatches (.advances i) = some s') :
    ∃ call b ch call', s.calls[i]? = some call ∧
      call.step scanMatches s.backend s.channel = some (b, ch, call') ∧
      s' = { backend := b, channel := ch, calls := s.calls.set i call' } := by
  obtain ⟨call, hcall, h⟩ := Option.bind_eq_some_iff.mp h
  obtain ⟨⟨b, ch, call'⟩, hstep, heq⟩ := Option.map_eq_some_iff.mp h
  exact ⟨call, b, ch, call', hcall, hstep, heq.symm⟩

theorem Site.step_delivers {i : Nat} (h : s.step scanMatches (.delivers i) = some s') :
    ∃ feed feed' receipts, s.channel.feeds[i]? = some feed ∧
      deliverStep s.backend s.channel i feed = some (feed', receipts) ∧
      s' = { s with
        channel := { s.channel with
          feeds := s.channel.feeds.set i feed'
          received := s.channel.received ++ receipts } } := by
  obtain ⟨feed, hfeed, h⟩ := Option.bind_eq_some_iff.mp h
  obtain ⟨⟨feed', receipts⟩, hstep, heq⟩ := Option.map_eq_some_iff.mp h
  exact ⟨feed, feed', receipts, hfeed, hstep, heq.symm⟩

theorem Site.step_expires {key : String} (h : s.step scanMatches (.expires key) = some s') :
    (∃ staged, s.backend.warehouse.lookup key = some staged ∧ staged.expires) ∧
      s' = { s with backend := { s.backend with warehouse := s.backend.warehouse.erase key } } := by
  unfold Site.step at h
  dsimp only at h
  split at h
  · next staged hstaged =>
      split at h
      · next hexpires => exact ⟨⟨staged, hstaged, hexpires⟩, (Option.some.inj h).symm⟩
      · cases h
  · cases h

end Actions

theorem config_step {scanMatches : String → String → Bool} {s s' : Site} {a : SiteAction}
    (h : s.step scanMatches a = some s') : s'.channel.name = s.channel.name ∧
      s'.channel.ttlSeconds = s.channel.ttlSeconds ∧
      s'.channel.maxPending = s.channel.maxPending := by
  cases a with
  | begins op =>
      cases h
      exact ⟨rfl, rfl, rfl⟩
  | advances i =>
      obtain ⟨call, b, ch, call', -, hmove, rfl⟩ := Site.step_advances h
      exact (ChannelCall.step_frame hmove).config
  | delivers i =>
      obtain ⟨feed, feed', receipts, -, -, rfl⟩ := Site.step_delivers h
      exact ⟨rfl, rfl, rfl⟩
  | expires key =>
      obtain ⟨-, rfl⟩ := Site.step_expires h
      exact ⟨rfl, rfl, rfl⟩

/-! ## Deliveries -/

/-- The step of a delivery, by its phase. -/
inductive Delivers (b : Backend) (ch : Channel) (index : Nat) (feed : Feed) :
    Feed → List Receipt → Prop
  | take {payload} : feed.phase = .idle → b.wire[feed.cursor]? = some payload →
      Delivers b ch index feed { feed with
        cursor := feed.cursor + 1
        phase :=
          if ch.destroyed then .idle
          else match parseNotification payload.toList with
            | some (sequence, labelId) => .fetch sequence labelId
            | none => .idle } []
  | fetch {sequence labelId} : feed.phase = .fetch sequence labelId →
      Delivers b ch index feed { feed with
        phase := .copy
          { sequence, labelId, data := b.getBinary (warehouseKey ch.name sequence) } } []
  | copy {message} : feed.phase = .copy message →
      Delivers b ch index feed { feed with phase := .run message ch.subscribers } []
  | run {message subscriber rest} : feed.phase = .run message (subscriber :: rest) →
      Delivers b ch index feed { feed with phase := .run message rest }
        [{ feed := index, position := feed.cursor - 1, subscriber, message }]
  | done {message} : feed.phase = .run message [] →
      Delivers b ch index feed { feed with phase := .idle } []

theorem deliverStep_delivers {b : Backend} {ch : Channel} {index : Nat} {feed feed' : Feed}
    {receipts : List Receipt} (h : deliverStep b ch index feed = some (feed', receipts)) :
    Delivers b ch index feed feed' receipts := by
  unfold deliverStep at h
  split at h
  · next hphase =>
      split at h
      · cases h
      · next payload hpayload =>
          cases h
          exact .take hphase hpayload
  · next hphase =>
      cases h
      exact .fetch hphase
  · next hphase =>
      cases h
      exact .copy hphase
  · next hphase =>
      cases h
      exact .run hphase
  · next hphase =>
      cases h
      exact .done hphase

end Labios
