import Labios.Channel.Handover

/-!
# What `drain` and `destroy` promise

Once a channel is destroyed and all calls have returned, is nothing of it left; is
every publish rejected that starts after a `drain` or a `destroy` returned; and does
every message accepted before reach the subscribers that stay registered? The second
always holds. The others hold if no call that had passed its check of the destroyed
flag registers after the subscribers were cleared or stages after the keys were
scanned, and if no notification is sent while a `subscribe` has returned and left the
native subscription to another one (`destroyed_leavesNothing`). Otherwise a key, a
subscriber or a message is left behind (`destroyed_leavesBehind`).
-/

namespace Labios

open Foundation

/-! ## The condition -/

/-- On a destroyed channel nobody registers after the clear or stages after the scan;
a notification is sent to a native subscription if there are subscribers; and the
counter has not wrapped. -/
def Site.Guarded (s : Site) (a : SiteAction) : Prop := s.InTime a ∧ s.SendsHeard a ∧ s.Unwrapped a

instance (s : Site) (a : SiteAction) : Decidable (s.Guarded a) :=
  inferInstanceAs (Decidable (s.InTime a ∧ s.SendsHeard a ∧ s.Unwrapped a))

/-! ## The promises -/

/-- Nothing is left of a destroyed channel whose calls have all returned. -/
def Site.LeavesNothing (s : Site) : Prop :=
  s.channel.destroyed → s.Quiet → s.channel.subscribers = [] ∧
    ∀ sequence, s.backend.warehouse.lookup (warehouseKey s.channel.name sequence) = none

/-- A `drain` or a `destroy` that has returned. -/
def ChannelCall.closed : ChannelCall → Bool
  | .drain (.destroying .returned) | .destroy .returned => true
  | _ => false

/-- Publishes from the call at this index on return 0. -/
def Site.RejectsFrom (s : Site) (first : Nat) : Prop :=
  ∀ (i : Nat) (data : List UInt8) (labelId result : UInt64), first ≤ i →
    s.calls[i]? = some (.publish data labelId (.returned result)) → result = 0

/-- The notification of the message was sent, and every feed it reached is done with it. -/
def Site.Handled (s : Site) (m : ChannelMessage) : Prop :=
  (∀ c ∈ s.calls, c.inFlight ≠ some m) ∧
    ∀ p, s.backend.wire[p]? = some (notification m) → ∀ feed ∈ s.channel.feeds, feed.start ≤ p →
      p < feed.cursor ∧ (p + 1 = feed.cursor → feed.phase = .idle)

/-- The callback of the subscriber has run with the message. -/
def Site.Received (s : Site) (subscriber : Int) (m : ChannelMessage) : Prop :=
  ∃ r ∈ s.channel.received, r.subscriber = subscriber ∧ r.message = m

/-! ## Publishes that start too late -/

/-- A `drain` or a `destroy` that has set its flag. -/
def ChannelCall.flagged : ChannelCall → Bool
  | .drain .store | .destroy .exchange => false
  | .drain _ | .destroy _ => true
  | _ => false

theorem ChannelCall.flagged_of_closed {call : ChannelCall} (h : call.closed) : call.flagged := by
  cases call with
  | drain phase =>
      cases phase with
      | store => cases h
      | _ => rfl
  | destroy phase =>
      cases phase with
      | exchange => cases h
      | _ => rfl
  | _ => cases h

/-- Publishes from this index on are on their way to a rejection, or rejected. -/
structure Refuses (first : Nat) (s : Site) : Prop where
  flag : s.channel.draining ∨ s.channel.destroyed
  late : ∀ (i : Nat) (data : List UInt8) (labelId : UInt64) (phase : PublishPhase), first ≤ i →
    s.calls[i]? = some (.publish data labelId phase) →
      phase = .loadDraining ∨ phase = .loadDestroyed ∧ s.channel.destroyed ∨ phase = .returned 0

section Flags

variable {scanMatches : String → String → Bool} {s s' : Site} {a : SiteAction} {first : Nat}

theorem ChannelCall.step_flagged {b b' : Backend} {ch ch' : Channel} {call call' : ChannelCall}
    (h : call.step scanMatches b ch = some (b', ch', call')) (hflagged : call'.flagged) :
    call.flagged ∨ ch'.draining ∨ ch'.destroyed := by
  cases call with
  | publish data labelId phase =>
      obtain ⟨x, -, heq⟩ := Option.map_eq_some_iff.mp h
      cases heq
      cases hflagged
  | subscribe phase =>
      obtain ⟨x, -, heq⟩ := Option.map_eq_some_iff.mp h
      cases heq
      cases hflagged
  | unsubscribe subId phase =>
      cases phase with
      | erase =>
          cases h
          cases hflagged
      | destroying phase =>
          obtain ⟨x, -, heq⟩ := Option.map_eq_some_iff.mp h
          cases heq
          cases hflagged
  | drain phase =>
      cases phase with
      | store =>
          cases h
          exact .inr (.inl rfl)
      | checkEmpty | destroying phase => exact .inl rfl
  | destroy phase =>
      cases phase with
      | exchange =>
          cases h
          exact .inr (.inr rfl)
      | _ => exact .inl rfl

/-- A call that has set its flag finds it set. -/
theorem flagged_step (h : ∀ c ∈ s.calls, c.flagged → s.channel.draining ∨ s.channel.destroyed)
    (hstep : s.step scanMatches a = some s') :
    ∀ c ∈ s'.calls, c.flagged → s'.channel.draining ∨ s'.channel.destroyed := by
  cases a with
  | begins op =>
      cases hstep
      refine forall_snoc h fun hflagged => ?_
      cases op with
      | _ => cases hflagged
  | advances i =>
      obtain ⟨call, b, ch, call', hcall, hmove, rfl⟩ := Site.step_advances hstep
      have hframe := ChannelCall.step_frame hmove
      have hstays : s.channel.draining ∨ s.channel.destroyed → ch.draining ∨ ch.destroyed :=
        Or.imp hframe.draining hframe.destroyed
      refine forall_set (fun c hc hflagged => hstays (h c hc hflagged)) fun hflagged => ?_
      rcases ChannelCall.step_flagged hmove hflagged with hbefore | hset
      · exact hstays (h call (List.mem_of_getElem? hcall) hbefore)
      · exact hset
  | delivers i =>
      obtain ⟨feed, feed', receipts, -, -, rfl⟩ := Site.step_delivers hstep
      exact h
  | expires key =>
      obtain ⟨-, rfl⟩ := Site.step_expires hstep
      exact h

theorem refuses_start (h : s.channel.draining ∨ s.channel.destroyed) :
    Refuses s.calls.length s := by
  refine ⟨h, fun i data labelId phase hi hcall => ?_⟩
  have := (List.getElem?_eq_some_iff.mp hcall).1
  omega

/-- A publish at one of its two checks goes on to a rejection. -/
theorem Refuses.refused (h : Refuses first s) {b : Backend} {ch : Channel} {data : List UInt8}
    {labelId : UInt64} {phase phase' : PublishPhase}
    (hstep : publishStep s.backend s.channel data labelId phase = some (b, ch, phase'))
    (hphase : phase = .loadDraining ∨ phase = .loadDestroyed ∧ s.channel.destroyed ∨
      phase = .returned 0) :
    phase' = .loadDestroyed ∧ ch.destroyed ∨ phase' = .returned 0 := by
  rcases hphase with rfl | ⟨rfl, hdestroyed⟩ | rfl
  · cases hstep
    by_cases hdraining : s.channel.draining
    · rw [if_pos hdraining]
      exact .inr rfl
    · rw [if_neg hdraining]
      exact .inl ⟨rfl, h.flag.resolve_left hdraining⟩
  · cases hstep
    rw [if_pos hdestroyed]
    exact .inr rfl
  · cases hstep

theorem Refuses.step (h : Refuses first s) (hstep : s.step scanMatches a = some s') :
    Refuses first s' := by
  cases a with
  | begins op =>
      cases hstep
      refine ⟨h.flag, fun i data labelId phase hi hcall => ?_⟩
      rcases getElem?_snoc_cases hcall with hold | ⟨-, heq⟩
      · exact h.late i data labelId phase hi hold
      · cases op with
        | publish _ _ =>
            cases heq
            exact .inl rfl
        | _ => cases heq
  | advances i =>
      obtain ⟨call, b, ch, call', hcall, hmove, rfl⟩ := Site.step_advances hstep
      have hframe := ChannelCall.step_frame hmove
      refine ⟨h.flag.imp hframe.draining hframe.destroyed, ?_⟩
      intro j data labelId phase hj hpublish
      rcases getElem?_set_cases hpublish with ⟨rfl, rfl⟩ | ⟨-, hold⟩
      · cases ChannelCall.step_method hmove with
        | publish hpublishes =>
            exact .inr (h.refused hpublishes (h.late j data labelId _ hj hcall))
        | destroy _ hafter _ => cases hafter
      · rcases h.late j data labelId phase hj hold with hphase | ⟨hphase, hdestroyed⟩ | hphase
        · exact .inl hphase
        · exact .inr (.inl ⟨hphase, hframe.destroyed hdestroyed⟩)
        · exact .inr (.inr hphase)
  | delivers i =>
      obtain ⟨feed, feed', receipts, -, -, rfl⟩ := Site.step_delivers hstep
      exact ⟨h.flag, h.late⟩
  | expires key =>
      obtain ⟨-, rfl⟩ := Site.step_expires hstep
      exact ⟨h.flag, h.late⟩

theorem Refuses.rejects (h : Refuses first s) : s.RejectsFrom first := by
  intro i data labelId result hi hcall
  rcases h.late i data labelId _ hi hcall with hphase | ⟨hphase, -⟩ | hphase
  · cases hphase
  · cases hphase
  · cases hphase
    rfl

end Flags

/-! ## Every run -/

/-- What holds in every state of a run that meets the condition. -/
structure Orderly (name : String) (s : Site) : Prop where
  named : s.channel.name = name
  numbered : Numbered s.channel
  cleanup : Cleanup s
  kept : Kept s

section Runs

variable {scanMatches : String → String → Bool} {name : String} {s t : Site}
  {actions : List SiteAction}

theorem orderly_fresh (name : String) (maxPending : UInt64) :
    Orderly name (Site.fresh name 0 maxPending) :=
  ⟨rfl, numbered_fresh name 0 maxPending, cleanup_fresh name 0 maxPending,
    kept_fresh name maxPending⟩

theorem Orderly.exec (h : Orderly name s)
    (hmatch : ∀ sequence, scanMatches (warehousePattern name) (warehouseKey name sequence))
    (hexec : exec (Site.step scanMatches) s actions = some t)
    (hok : Along (Site.step scanMatches) Site.Guarded s actions) : Orderly name t := by
  refine exec_invariant ?_ h hexec hok
  intro u a u' hu hguarded hstep
  obtain ⟨hintime, -, hunwrapped⟩ := hguarded
  refine ⟨(config_step hstep).1.trans hu.named, hu.numbered.step hunwrapped hstep, ?_,
    hu.kept.step hu.numbered hu.cleanup hstep⟩
  refine hu.cleanup.step (fun sequence => ?_) hintime hstep
  rw [hu.named]
  exact hmatch sequence

theorem heard_exec {subscriber : Int} (h : Deliveries s)
    (hmem : subscriber ∈ s.channel.subscribers)
    (hcall : ∃ c ∈ s.calls, c.subscribed = some subscriber)
    (hexec : exec (Site.step scanMatches) s actions = some t)
    (hok : Along (Site.step scanMatches) Site.Guarded s actions) :
    Heard s.backend.wire.length subscriber t := by
  refine (exec_invariant (I := fun u => Deliveries u ∧ Heard s.backend.wire.length subscriber u)
    ?_ ⟨h, heard_start h hmem hcall⟩ hexec hok).2
  intro u a u' hu hguarded hstep
  exact ⟨hu.1.step hstep, hu.2.step hu.1 hguarded.2.1 hstep⟩

/-- A handled message has reached the subscriber that stayed registered. -/
theorem received_of_handled {subscriber : Int} (h : Deliveries s) (horderly : Orderly name t)
    (hmem : subscriber ∈ s.channel.subscribers)
    (hcall : ∃ c ∈ s.calls, c.subscribed = some subscriber)
    (hexec : exec (Site.step scanMatches) s actions = some t)
    (hok : Along (Site.step scanMatches) Site.Guarded s actions)
    (hlive : t.channel.destroyed = false) (hstays : subscriber ∈ t.channel.subscribers)
    {k : Nat} {m : ChannelMessage} (hk : s.channel.accepted.length ≤ k)
    (hm : t.channel.accepted[k]? = some m) (hhandled : t.Handled m) :
    t.Received subscriber m := by
  have ht := h.exec hexec
  have hforwards : Forwards s.backend.wire.length s.channel.accepted.length t :=
    exec_kept (fun h hstep => h.step hstep) (forwards_start s) hexec
  obtain ⟨p, hbase, hwire⟩ := hforwards.on_wire hhandled.1 hk hm
  have hp := (List.getElem?_eq_some_iff.mp hwire).1
  obtain ⟨feed, hfeed, hstart⟩ := (heard_exec h hmem hcall hexec hok).heard hstays p hbase hp
  obtain ⟨hcursor, hidle⟩ := hhandled.2 p hwire feed (List.mem_of_getElem? hfeed) hstart
  have hserved := (serves_exec h hmem hexec).served hlive hstays 0 feed hfeed p hbase hstart hcursor
  rcases hserved with ⟨hlast, hdue⟩ | ⟨r, hr, -, hposition, hsubscriber⟩
  · rw [hidle hlast] at hdue
    exact absurd hdue id
  · refine ⟨r, hr, hsubscriber, ?_⟩
    -- the receipt is of a message accepted under the number of the notification
    obtain ⟨m', hm', hsequence, -⟩ := ht.about r hr
    rw [hposition, hwire] at hm'
    have hsame := (notification_inj (Option.some.inj hm')).1
    have haccepted := (horderly.kept.live hlive).carries.received r hr
    exact horderly.numbered.unique haccepted (List.mem_of_getElem? hm)
      (hsequence.symm.trans hsame.symm)

/-- **Nothing left behind.** Publishes that start after a `drain` or a `destroy`
returned are rejected. If the steps all meet the condition, a destroyed channel whose
calls have returned has no key and no subscriber, and a message accepted while a
subscriber is registered is received by it if it still is when the message is handled. -/
theorem destroyed_leavesNothing (scanMatches : String → String → Bool)
    (hscan : MatchesStar scanMatches) (name : String) (hname : Literal name) (maxPending : UInt64)
    (front : List SiteAction) (s : Site)
    (hexec : exec (Site.step scanMatches) (Site.fresh name 0 maxPending) front = some s) :
    (∀ back t, exec (Site.step scanMatches) s back = some t →
      (∃ c ∈ s.calls, c.closed) → t.RejectsFrom s.calls.length) ∧
    (Along (Site.step scanMatches) Site.Guarded (Site.fresh name 0 maxPending) front →
      s.LeavesNothing ∧
      ∀ back t, exec (Site.step scanMatches) s back = some t →
        Along (Site.step scanMatches) Site.Guarded s back → t.channel.destroyed = false →
          ∀ subscriber ∈ s.channel.subscribers,
            (∃ c ∈ s.calls, c.subscribed = some subscriber) →
            subscriber ∈ t.channel.subscribers →
              ∀ (k : Nat) (m : ChannelMessage), s.channel.accepted.length ≤ k →
                t.channel.accepted[k]? = some m → t.Handled m → t.Received subscriber m) := by
  constructor
  · rintro back t hback ⟨c, hc, hclosed⟩
    have hflagged : ∀ c ∈ s.calls, c.flagged → s.channel.draining ∨ s.channel.destroyed :=
      exec_kept (I := fun u => ∀ c ∈ u.calls, c.flagged → u.channel.draining ∨ u.channel.destroyed)
        (fun h hstep => flagged_step h hstep) (fun c hc => by cases hc) hexec
    have hrefuses : Refuses s.calls.length t :=
      exec_kept (fun h hstep => h.step hstep)
        (refuses_start (hflagged c hc (ChannelCall.flagged_of_closed hclosed))) hback
    exact hrefuses.rejects
  · intro hfront
    have hmatch : ∀ sequence, scanMatches (warehousePattern name) (warehouseKey name sequence) :=
      hscan.warehouseKey hname
    have horderly := (orderly_fresh name maxPending).exec hmatch hexec hfront
    refine ⟨horderly.cleanup.nothing_left, ?_⟩
    intro back t hback hok hlive subscriber hmem hcall hstays k m hk hm hhandled
    exact received_of_handled ((deliveries_fresh name 0 maxPending).exec hexec)
      (horderly.exec hmatch hback hok) hmem hcall hback hok hlive hstays hk hm hhandled

end Runs

/-! ## Runs -/

/-- When all calls have returned and all payloads are delivered, all messages are
handled. -/
theorem handled_of_quiet {s : Site} (hquiet : s.Quiet) (hdelivered : s.Delivered)
    (m : ChannelMessage) : s.Handled m := by
  refine ⟨fun c hc hcarries => ?_, fun p hp feed hfeed _ => ?_⟩
  · have hreturned := hquiet c hc
    cases c with
    | publish data labelId phase =>
        cases phase with
        | returned result => cases hcarries
        | _ => cases hreturned
    | _ => cases hcarries
  · obtain ⟨hcursor, hidle⟩ := hdelivered feed hfeed
    have := (List.getElem?_eq_some_iff.mp hp).1
    exact ⟨by omega, fun _ => hidle⟩

/-- A subscriber gets one message. -/
def oneMessage : List SiteAction :=
  (ChannelOp.publish [1] 7).runs 1 6 ++ List.replicate 5 (.delivers 0)

/-- The channel is drained, and the last subscriber leaves. -/
def closedDown : List SiteAction :=
  ChannelOp.subscribe.runs 0 4 ++ oneMessage ++ ChannelOp.drain.runs 2 2 ++
    (ChannelOp.unsubscribe 1).runs 3 6

/-- A publish has passed its checks when the channel is destroyed. -/
def stagedLate : List SiteAction :=
  (ChannelOp.publish [1] 7).runs 0 4 ++ ChannelOp.destroy.runs 1 4 ++ List.replicate 2 (.advances 0)

/-- A subscribe has passed its check when the channel is destroyed. -/
def registeredLate : List SiteAction :=
  ChannelOp.subscribe.runs 0 1 ++ ChannelOp.destroy.runs 1 4 ++ List.replicate 3 (.advances 0)

/-- The second `subscribe` returns before the first one has created the native
subscription. -/
def leftToTheFirst : List SiteAction :=
  ChannelOp.subscribe.runs 0 3 ++ ChannelOp.subscribe.runs 1 3

/-- A message comes in between, and then the channel is drained. -/
def notHeard : List SiteAction :=
  (ChannelOp.publish [1] 7).runs 2 6 ++ [.advances 0] ++ ChannelOp.drain.runs 3 2

theorem destroyed_leavesNothing_closedDown :
    (∃ s, exec (Site.step starMatches) (Site.fresh "log" 0 10000) closedDown = some s ∧
      s.channel.subscribers = [] ∧ s.backend.warehouse.lookup (warehouseKey "log" 1) = none ∧
      ∃ t, exec (Site.step starMatches) s ((ChannelOp.publish [2] 8).runs 4 1) = some t ∧
        t.RejectsFrom 4) ∧
    ∃ s t, exec (Site.step starMatches) (Site.fresh "log" 0 10000) (ChannelOp.subscribe.runs 0 4) =
        some s ∧ exec (Site.step starMatches) s oneMessage = some t ∧
      t.Received 1 { sequence := 1, labelId := 7, data := [1] } := by
  constructor
  · obtain ⟨t, hexec⟩ := Option.isSome_iff_exists.mp (show (exec (Site.step starMatches)
      (Site.fresh "log" 0 10000) (closedDown ++ (ChannelOp.publish [2] 8).runs 4 1)).isSome = true
        by decide +kernel)
    obtain ⟨s, hfront, hback⟩ := exec_append hexec
    have hok : Along (Site.step starMatches) Site.Guarded (Site.fresh "log" 0 10000) closedDown := by
      decide +kernel
    have hs : ∀ x ∈ exec (Site.step starMatches) (Site.fresh "log" 0 10000) closedDown,
        x.channel.name = "log" ∧ x.channel.destroyed ∧ x.Quiet ∧ x.calls.length = 4 ∧
          ∃ c ∈ x.calls, c.closed := by decide +kernel
    obtain ⟨hname, hdestroyed, hquiet, hlength, hclosed⟩ := hs s hfront
    obtain ⟨hrejects, hguarded⟩ := destroyed_leavesNothing starMatches matchesStar_starMatches
      "log" (by decide) 10000 closedDown s hfront
    obtain ⟨hsubscribers, hkeys⟩ := (hguarded hok).1 hdestroyed hquiet
    have hkey := hkeys 1
    rw [hname] at hkey
    have hafter := hrejects _ t hback hclosed
    rw [hlength] at hafter
    exact ⟨s, hfront, hsubscribers, hkey, t, hback, hafter⟩
  · obtain ⟨t, hexec⟩ := Option.isSome_iff_exists.mp (show (exec (Site.step starMatches)
      (Site.fresh "log" 0 10000) (ChannelOp.subscribe.runs 0 4 ++ oneMessage)).isSome = true by
        decide +kernel)
    have hok : Along (Site.step starMatches) Site.Guarded (Site.fresh "log" 0 10000)
        (ChannelOp.subscribe.runs 0 4 ++ oneMessage) := by decide +kernel
    obtain ⟨s, hfront, hback⟩ := exec_append hexec
    obtain ⟨hokFront, hokBack⟩ := hok.append hfront
    have hs : ∀ x ∈ exec (Site.step starMatches) (Site.fresh "log" 0 10000)
        (ChannelOp.subscribe.runs 0 4),
        x.channel.subscribers = [1] ∧ x.channel.accepted = [] ∧
          ∃ c ∈ x.calls, c.subscribed = some 1 := by decide +kernel
    have ht : ∀ x ∈ exec (Site.step starMatches) (Site.fresh "log" 0 10000)
        (ChannelOp.subscribe.runs 0 4 ++ oneMessage),
        x.channel.destroyed = false ∧ x.Quiet ∧ x.Delivered ∧ x.channel.subscribers = [1] ∧
          x.channel.accepted = [{ sequence := 1, labelId := 7, data := [1] }] := by decide +kernel
    obtain ⟨hsubscribers, haccepted, hcall⟩ := hs s hfront
    obtain ⟨hlive, hquiet, hdelivered, hstays, haccepted'⟩ := ht t hexec
    have hguarded := (destroyed_leavesNothing starMatches matchesStar_starMatches
      "log" (by decide) 10000 _ s hfront).2 hokFront
    refine ⟨s, t, hfront, hback, hguarded.2 oneMessage t hback hokBack hlive 1 ?_ hcall ?_ 0 _ ?_ ?_
      (handled_of_quiet hquiet hdelivered _)⟩
    · rw [hsubscribers]
      decide
    · rw [hstays]
      decide
    · rw [haccepted]
      decide
    · rw [haccepted']
      rfl

/-- A key or a subscriber is left of a destroyed channel, or a subscriber that stays
registered never gets a message that was accepted before the `drain`. -/
theorem destroyed_leavesBehind :
    (∃ s, exec (Site.step starMatches) (Site.fresh "log" 0 10000) stagedLate = some s ∧
      s.channel.destroyed ∧ s.Quiet ∧
        s.backend.warehouse.lookup (warehouseKey "log" 1) = some { data := [1] }) ∧
    (∃ s, exec (Site.step starMatches) (Site.fresh "log" 0 10000) registeredLate = some s ∧
      s.channel.destroyed ∧ s.Quiet ∧ s.channel.subscribers = [1]) ∧
    ∃ s t, exec (Site.step starMatches) (Site.fresh "log" 0 10000) leftToTheFirst = some s ∧
      exec (Site.step starMatches) s notHeard = some t ∧
      2 ∈ s.channel.subscribers ∧ (∃ c ∈ s.calls, c.subscribed = some 2) ∧
      s.channel.accepted = [] ∧ 2 ∈ t.channel.subscribers ∧ t.channel.destroyed = false ∧
      t.channel.accepted = [{ sequence := 1, labelId := 7, data := [1] }] ∧
      t.Handled { sequence := 1, labelId := 7, data := [1] } ∧
      ¬t.Received 2 { sequence := 1, labelId := 7, data := [1] } := by
  refine ⟨?_, ?_, ?_⟩
  · obtain ⟨s, hexec⟩ := Option.isSome_iff_exists.mp (show (exec (Site.step starMatches)
      (Site.fresh "log" 0 10000) stagedLate).isSome = true by decide +kernel)
    have hs : ∀ x ∈ exec (Site.step starMatches) (Site.fresh "log" 0 10000) stagedLate,
        x.channel.destroyed ∧ x.Quiet ∧
          x.backend.warehouse.lookup (warehouseKey "log" 1) = some { data := [1] } := by
      decide +kernel
    exact ⟨s, hexec, hs s hexec⟩
  · obtain ⟨s, hexec⟩ := Option.isSome_iff_exists.mp (show (exec (Site.step starMatches)
      (Site.fresh "log" 0 10000) registeredLate).isSome = true by decide +kernel)
    have hs : ∀ x ∈ exec (Site.step starMatches) (Site.fresh "log" 0 10000) registeredLate,
        x.channel.destroyed ∧ x.Quiet ∧ x.channel.subscribers = [1] := by decide +kernel
    exact ⟨s, hexec, hs s hexec⟩
  · obtain ⟨t, hexec⟩ := Option.isSome_iff_exists.mp (show (exec (Site.step starMatches)
      (Site.fresh "log" 0 10000) (leftToTheFirst ++ notHeard)).isSome = true by decide +kernel)
    obtain ⟨s, hfront, hback⟩ := exec_append hexec
    have hs : ∀ x ∈ exec (Site.step starMatches) (Site.fresh "log" 0 10000) leftToTheFirst,
        2 ∈ x.channel.subscribers ∧ (∃ c ∈ x.calls, c.subscribed = some 2) ∧
          x.channel.accepted = [] := by decide +kernel
    have ht : ∀ x ∈ exec (Site.step starMatches) (Site.fresh "log" 0 10000)
        (leftToTheFirst ++ notHeard),
        x.Quiet ∧ x.Delivered ∧ 2 ∈ x.channel.subscribers ∧ x.channel.destroyed = false ∧
          x.channel.accepted = [{ sequence := 1, labelId := 7, data := [1] }] ∧
          x.channel.received = [] := by decide +kernel
    obtain ⟨hmem, hcall, haccepted⟩ := hs s hfront
    obtain ⟨hquiet, hdelivered, hstays, hlive, haccepted', hnone⟩ := ht t hexec
    refine ⟨s, t, hfront, hback, hmem, hcall, haccepted, hstays, hlive, haccepted',
      handled_of_quiet hquiet hdelivered _, ?_⟩
    rintro ⟨r, hr, -⟩
    rw [hnone] at hr
    cases hr

end Labios
