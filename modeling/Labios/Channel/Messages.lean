import Labios.Channel.Numbering

/-!
# Where messages come from

Every staged value, every notification and every message in the hands of a call, a
delivery or a subscriber comes from a set of accepted messages: `Backed` for what the
processes share, `Conveys` for one channel object. Both are kept by a step as long as
no two accepted messages bear one number and no delivery finds its key gone
(`backed_step`, `carries_step`). The set may hold what other objects accepted.
-/

namespace Labios

open Foundation

/-- The next step stages a message. -/
def ChannelCall.stages : ChannelCall → Bool
  | .publish _ _ (.stage _) => true
  | _ => false

/-- The phase of `destroy` that an `unsubscribe`, a `drain` or a `destroy` is in. -/
def ChannelCall.destroying : ChannelCall → Option DestroyPhase
  | .unsubscribe _ (.destroying phase) => some phase
  | .drain (.destroying phase) => some phase
  | .destroy phase => some phase
  | _ => none

theorem Destroying.destroying {call : ChannelCall} {phase : DestroyPhase}
    (h : Destroying call phase) : call.destroying = some phase := by
  cases h with
  | unsubscribe | drain | destroy => rfl

/-! ## The warehouse -/

/-- What a step of a call does to the warehouse. -/
inductive WarehouseStep (b : Backend) (ch : Channel) (call : ChannelCall) (b' : Backend)
    (call' : ChannelCall) : Prop
  | staged (m : ChannelMessage) : call.inFlight = some m → call.stages →
      b'.warehouse = b.warehouse.insert (warehouseKey ch.name m.sequence) { data := m.data } →
      WarehouseStep b ch call b' call'
  | marked (key : String) (staged : Staged) : b.warehouse.lookup key = some staged →
      b'.warehouse = b.warehouse.insert key { staged with expires := true } →
      (∃ data labelId sequence, call = .publish data labelId (.setExpiry sequence)) →
      WarehouseStep b ch call b' call'
  | erased (key : String) (rest : List String) :
      call.destroying = some (.delete (key :: rest)) →
      call'.destroying = some (.delete rest) → b'.warehouse = b.warehouse.erase key →
      WarehouseStep b ch call b' call'
  | same : b'.warehouse = b.warehouse → WarehouseStep b ch call b' call'

section Calls

variable {scanMatches : String → String → Bool} {b b' : Backend} {ch ch' : Channel}
  {call call' : ChannelCall}

theorem ChannelCall.step_warehouse (h : call.step scanMatches b ch = some (b', ch', call')) :
    WarehouseStep b ch call b' call' := by
  cases ChannelCall.step_method h with
  | @publish data labelId phase _ _ _ hstep =>
      cases phase with
      | returned result => cases hstep
      | stage sequence =>
          cases hstep
          exact .staged _ rfl rfl rfl
      | setExpiry sequence =>
          cases hstep
          cases hlookup : b.warehouse.lookup (warehouseKey ch.name sequence) with
          | none => exact .same rfl
          | some staged =>
              exact .marked _ staged hlookup rfl ⟨data, labelId, sequence, rfl⟩
      | _ =>
          cases hstep
          exact .same rfl
  | subscribe | erase | drain | checkEmpty => exact .same rfl
  | @destroy _ phase _ _ _ _ hbefore hafter hstep =>
      cases phase with
      | returned => cases hstep
      | delete keys =>
          cases keys with
          | nil =>
              cases hstep
              exact .same rfl
          | cons key rest =>
              cases hstep
              exact .erased key rest hbefore.destroying hafter.destroying rfl
      | _ =>
          cases hstep
          exact .same rfl

/-- What is staged was staged already, or the call stages its message now. -/
theorem WarehouseStep.lookup (h : WarehouseStep b ch call b' call') {key : String}
    {staged : Staged} (hlookup : b'.warehouse.lookup key = some staged) :
    (∃ before, b.warehouse.lookup key = some before ∧ before.data = staged.data) ∨
      ∃ m, call.inFlight = some m ∧ key = warehouseKey ch.name m.sequence ∧
        staged.data = m.data := by
  cases h with
  | staged m hm _ hwarehouse =>
      rw [hwarehouse] at hlookup
      rcases Foundation.lookup_insert_cases hlookup with ⟨hkey, rfl⟩ | ⟨-, hold⟩
      · exact .inr ⟨m, hm, hkey, rfl⟩
      · exact .inl ⟨staged, hold, rfl⟩
  | marked marked before hbefore hwarehouse _ =>
      left
      rw [hwarehouse] at hlookup
      rcases Foundation.lookup_insert_cases hlookup with ⟨hkey, rfl⟩ | ⟨-, hold⟩
      · rw [hkey]
        exact ⟨before, hbefore, rfl⟩
      · exact ⟨staged, hold, rfl⟩
  | erased erased rest _ _ hwarehouse =>
      left
      rw [hwarehouse] at hlookup
      exact ⟨staged, (Foundation.lookup_of_erase hlookup).2, rfl⟩
  | same hwarehouse =>
      rw [hwarehouse] at hlookup
      exact .inl ⟨staged, hlookup, rfl⟩

end Calls

/-! ## Provenance -/

/-- The delivery is about messages of the set. -/
def DeliveryPhase.From (all : ChannelMessage → Prop) : DeliveryPhase → Prop
  | .idle => True
  | .fetch sequence labelId => ∃ m, all m ∧ m.sequence = sequence ∧ m.labelId = labelId
  | .copy message | .run message _ => all message

theorem DeliveryPhase.From.mono {all all' : ChannelMessage → Prop} (hall : ∀ m, all m → all' m)
    {phase : DeliveryPhase} (h : phase.From all) : phase.From all' := by
  cases phase with
  | idle => trivial
  | fetch sequence labelId =>
      obtain ⟨m, hm, hnames⟩ := h
      exact ⟨m, hall m hm, hnames⟩
  | copy message => exact hall message h
  | run message callbacks => exact hall message h

structure Backed (name : String) (all : ChannelMessage → Prop) (b : Backend) : Prop where
  keyed : ∀ sequence staged, b.warehouse.lookup (warehouseKey name sequence) = some staged →
    ∃ m, all m ∧ m.sequence = sequence ∧ m.data = staged.data
  wired : ∀ payload ∈ b.wire, ∃ m, all m ∧ payload = notification m

structure Conveys (all : ChannelMessage → Prop) (ch : Channel) (calls : List ChannelCall) :
    Prop where
  carried : ∀ i m, carried? calls i = some m → all m
  feeds : ∀ feed ∈ ch.feeds, feed.phase.From all
  received : ∀ r ∈ ch.received, all r.message

/-- The number that the delivery looks up next. -/
def DeliveryPhase.fetches : DeliveryPhase → Option UInt64
  | .fetch sequence _ => some sequence
  | _ => none

/-- A message is still staged when a delivery looks it up. -/
def Site.FetchesStaged (s : Site) : SiteAction → Prop
  | .delivers i => ∀ feed ∈ s.channel.feeds[i]?, ∀ sequence ∈ feed.phase.fetches,
      (s.backend.warehouse.lookup (warehouseKey s.channel.name sequence)).isSome
  | .begins _ | .advances _ | .expires _ => True

-- over the number that is looked up, not over all numbers
instance Site.decidableFetchesStaged (s : Site) : (a : SiteAction) → Decidable (s.FetchesStaged a)
  | .delivers i =>
      let _ (feed : Feed) : Decidable (∀ sequence ∈ feed.phase.fetches,
          (s.backend.warehouse.lookup (warehouseKey s.channel.name sequence)).isSome) :=
        Option.decidableForallMem _
      inferInstanceAs (Decidable (∀ feed ∈ s.channel.feeds[i]?, _))
  | .begins _ | .advances _ | .expires _ => inferInstanceAs (Decidable True)

section Steps

variable {scanMatches : String → String → Bool} {name : String} {all all' : ChannelMessage → Prop}
  {s s' : Site} {a : SiteAction}

theorem Backed.mono {b : Backend} (h : Backed name all b) (hall : ∀ m, all m → all' m) :
    Backed name all' b := by
  constructor
  · intro sequence staged hlookup
    obtain ⟨m, hm, hrest⟩ := h.keyed sequence staged hlookup
    exact ⟨m, hall m hm, hrest⟩
  · intro payload hpayload
    obtain ⟨m, hm, heq⟩ := h.wired payload hpayload
    exact ⟨m, hall m hm, heq⟩

theorem Conveys.mono {ch : Channel} {calls : List ChannelCall} (h : Conveys all ch calls)
    (hall : ∀ m, all m → all' m) : Conveys all' ch calls :=
  ⟨fun i m hm => hall m (h.carried i m hm), fun feed hfeed => (h.feeds feed hfeed).mono hall,
    fun r hr => hall r.message (h.received r hr)⟩

/-- What is shared changes by messages that the stepping object carries. -/
theorem backed_step (hb : Backed name all s.backend) (hc : Conveys all s.channel s.calls)
    (hname : s.channel.name = name) (hstep : s.step scanMatches a = some s') :
    Backed name all s'.backend := by
  cases a with
  | begins op =>
      cases hstep
      exact hb
  | advances i =>
      obtain ⟨call, b, ch, call', hcall, hmove, rfl⟩ := Site.step_advances hstep
      constructor
      · intro sequence staged hlookup
        rcases (ChannelCall.step_warehouse hmove).lookup hlookup with
          ⟨before, hbefore, hdata⟩ | ⟨m, hm, hkey, hdata⟩
        · obtain ⟨m, hm, hsequence, hm'⟩ := hb.keyed sequence before hbefore
          exact ⟨m, hm, hsequence, hm'.trans hdata⟩
        · rw [hname] at hkey
          exact ⟨m, hc.carried i m (carried?_of_call hcall hm), (warehouseKey_inj hkey).symm,
            hdata.symm⟩
      · show ∀ payload ∈ b.wire, _
        intro payload hpayload
        cases ChannelCall.step_messages hmove with
        | took m _ _ _ _ _ hsame =>
            rw [hsame] at hpayload
            exact hb.wired payload hpayload
        | kept _ _ _ hwire =>
            rw [hwire] at hpayload
            exact hb.wired payload hpayload
        | sent m _ hm _ _ hsent =>
            rw [hsent] at hpayload
            rcases List.mem_append.mp hpayload with hold | hnew
            · exact hb.wired payload hold
            · exact ⟨m, hc.carried i m (carried?_of_call hcall hm), List.mem_singleton.mp hnew⟩
  | delivers i =>
      obtain ⟨feed, feed', receipts, -, -, rfl⟩ := Site.step_delivers hstep
      exact hb
  | expires key =>
      obtain ⟨-, rfl⟩ := Site.step_expires hstep
      refine ⟨?_, hb.wired⟩
      show ∀ sequence staged, AList.lookup _ (s.backend.warehouse.erase key) = some staged → _
      intro sequence staged hlookup
      by_cases hkey : warehouseKey name sequence = key
      · rw [hkey, AList.lookup_erase] at hlookup
        cases hlookup
      · rw [AList.lookup_erase_ne hkey] at hlookup
        exact hb.keyed sequence staged hlookup

/-- A delivery looks its message up by the number, and finds the message. -/
theorem Backed.fetch {b : Backend} (hb : Backed name all b)
    (hunique : ∀ m m', all m → all m' → m.sequence = m'.sequence → m = m') {m : ChannelMessage}
    (hm : all m) (hstaged : (b.warehouse.lookup (warehouseKey name m.sequence)).isSome) :
    all { sequence := m.sequence, labelId := m.labelId,
          data := b.getBinary (warehouseKey name m.sequence) } := by
  obtain ⟨staged, hlookup⟩ := Option.isSome_iff_exists.mp hstaged
  obtain ⟨m', hm', hsequence, hdata⟩ := hb.keyed m.sequence staged hlookup
  obtain rfl := hunique m' m hm' hm hsequence
  unfold Backend.getBinary
  rw [hlookup]
  dsimp only
  rw [← hdata]
  exact hm

theorem Conveys.delivers (hb : Backed name all s.backend) (hc : Conveys all s.channel s.calls)
    (hname : s.channel.name = name)
    (hunique : ∀ m m', all m → all m' → m.sequence = m'.sequence → m = m') {i : Nat}
    (hstaged : s.FetchesStaged (.delivers i)) {feed feed' : Feed} {receipts : List Receipt}
    (hfeed : s.channel.feeds[i]? = some feed)
    (hstep : Delivers s.backend s.channel i feed feed' receipts) :
    feed'.phase.From all ∧ ∀ r ∈ receipts, all r.message := by
  have hfrom := hc.feeds feed (List.mem_of_getElem? hfeed)
  cases hstep with
  | @take payload hphase hpayload =>
      refine ⟨?_, fun r hr => by cases hr⟩
      obtain ⟨m, hm, rfl⟩ := hb.wired payload (List.mem_of_getElem? hpayload)
      dsimp only
      rw [parseNotification_notification]
      split
      · trivial
      · exact ⟨m, hm, rfl, rfl⟩
  | @fetch sequence labelId hphase =>
      refine ⟨?_, fun r hr => by cases hr⟩
      rw [hphase] at hfrom
      obtain ⟨m, hm, rfl, rfl⟩ := hfrom
      have := hstaged feed hfeed m.sequence (by rw [hphase]; rfl)
      rw [hname] at this
      show all _
      rw [hname]
      exact hb.fetch hunique hm this
  | copy hphase =>
      rw [hphase] at hfrom
      exact ⟨hfrom, fun r hr => by cases hr⟩
  | run hphase =>
      rw [hphase] at hfrom
      refine ⟨hfrom, fun r hr => ?_⟩
      rw [List.mem_singleton.mp hr]
      exact hfrom
  | done hphase => exact ⟨trivial, fun r hr => by cases hr⟩

theorem carries_step (hb : Backed name all s.backend) (hc : Conveys all s.channel s.calls)
    (hname : s.channel.name = name)
    (hunique : ∀ m m', all m → all m' → m.sequence = m'.sequence → m = m')
    (hstaged : s.FetchesStaged a) (hstep : s.step scanMatches a = some s')
    (hall : ∀ m, all m → all' m) (htaken : ∀ m ∈ s'.channel.accepted, all' m) :
    Conveys all' s'.channel s'.calls := by
  cases a with
  | begins op =>
      cases hstep
      exact ⟨fun i m hm => hall m (hc.carried i m (carried?_begins hm)),
        (hc.mono hall).feeds, (hc.mono hall).received⟩
  | advances i =>
      obtain ⟨call, b, ch, call', hcall, hmove, rfl⟩ := Site.step_advances hstep
      have hframe := ChannelCall.step_frame hmove
      refine ⟨?_, ?_, ?_⟩
      · intro j m hm
        rcases carried?_set_cases hm with ⟨rfl, hcarries⟩ | ⟨-, hold⟩
        · cases ChannelCall.step_messages hmove with
          | took m' _ _ _ hcarries' hch _ =>
              obtain rfl := Option.some.inj (hcarries.symm.trans hcarries')
              refine htaken m ?_
              show m ∈ ch.accepted
              rw [hch]
              exact List.mem_append_right _ (List.mem_singleton_self m)
          | kept hsame _ _ _ =>
              exact hall m (hc.carried j m (carried?_of_call hcall (hsame.symm.trans hcarries)))
          | sent m' _ _ hnone _ _ =>
              rw [hnone] at hcarries
              cases hcarries
        · exact hall m (hc.carried j m hold)
      · show ∀ feed ∈ ch.feeds, feed.phase.From all'
        intro feed hfeed
        obtain ⟨j, hj⟩ := List.mem_iff_getElem?.mp hfeed
        rcases hframe.feeds with hsame | hnew
        · rw [hsame] at hfeed
          exact (hc.feeds feed hfeed).mono hall
        · rw [hnew] at hj
          rcases getElem?_snoc_cases hj with hold | ⟨-, rfl⟩
          · exact (hc.feeds feed (List.mem_of_getElem? hold)).mono hall
          · trivial
      · show ∀ r ∈ ch.received, all' r.message
        rw [hframe.received]
        exact (hc.mono hall).received
  | delivers i =>
      obtain ⟨feed, feed', receipts, hfeed, hdelivers, rfl⟩ := Site.step_delivers hstep
      obtain ⟨hfrom, hreceipts⟩ :=
        hc.delivers hb hname hunique hstaged hfeed (deliverStep_delivers hdelivers)
      refine ⟨(hc.mono hall).carried, ?_, ?_⟩
      · intro x hx
        rcases List.mem_or_eq_of_mem_set hx with hold | rfl
        · exact (hc.feeds x hold).mono hall
        · exact hfrom.mono hall
      · intro r hr
        rcases List.mem_append.mp hr with hold | hnew
        · exact hall r.message (hc.received r hold)
        · exact hall r.message (hreceipts r hnew)
  | expires key =>
      obtain ⟨-, rfl⟩ := Site.step_expires hstep
      exact ⟨(hc.mono hall).carried, (hc.mono hall).feeds, (hc.mono hall).received⟩

end Steps
end Labios
