import Labios.Foundation.Decimal
import Labios.Foundation.Machine
import Labios.Foundation.Separators
import Mathlib.Data.List.AList

/-!
# Channel messages on the wire

The texts of `labios/channel.cpp`: the warehouse key of a message, the pattern over
all keys of a channel, and the notification `seq:label_id:data_size` with the parser
that the delivery callback uses. A parsed notification names the message it was
built for (`parseNotification_notification`), and different sequence numbers have
different keys (`warehouseKey_inj`).
-/

namespace Labios

open Foundation

/-- What a subscriber's callback gets. -/
structure ChannelMessage where
  sequence : UInt64
  labelId : UInt64
  data : List UInt8
  deriving DecidableEq, Repr

def warehouseKey (name : String) (sequence : UInt64) : String :=
  "labios:channel:" ++ name ++ ":" ++ toString sequence.toNat

def warehousePattern (name : String) : String := "labios:channel:" ++ name ++ ":" ++ "*"

def notification (message : ChannelMessage) : String :=
  toString message.sequence.toNat ++ ":" ++ toString message.labelId.toNat ++ ":" ++
    toString message.data.length

/-- `std::from_chars` over the whole input: at least one digit, nothing else, and
the value fits. -/
def parseU64 (input : List Char) : Option UInt64 :=
  if input ≠ [] ∧ input.all Char.isDigit ∧ Nat.ofDigitChars 10 input 0 < 2 ^ 64 then
    some (UInt64.ofNat (Nat.ofDigitChars 10 input 0))
  else none

/-- The sequence number and the label id; what follows the second colon is not read. -/
def parseNotification (raw : List Char) : Option (UInt64 × UInt64) :=
  match raw.dropWhile (· ≠ ':') with
  | [] => none
  | _ :: rest =>
      match rest.dropWhile (· ≠ ':') with
      | [] => none
      | _ :: _ =>
          (parseU64 (raw.takeWhile (· ≠ ':'))).bind fun sequence =>
            (parseU64 (rest.takeWhile (· ≠ ':'))).map fun labelId => (sequence, labelId)

/-! ## Decimal texts -/

theorem colon_notMem (n : Nat) : ':' ∉ Nat.toDigits 10 n := notMem_toDigits (by decide) n

theorem parseU64_toDigits (n : UInt64) : parseU64 (Nat.toDigits 10 n.toNat) = some n := by
  unfold parseU64
  rw [Nat.ofDigitChars_ten_toDigits, if_pos, UInt64.ofNat_toNat]
  refine ⟨Nat.toDigits_ne_nil, ?_, UInt64.toNat_lt n⟩
  rw [List.all_eq_true]
  intro c hc
  exact isDigit_of_mem hc

theorem notification_toList (m : ChannelMessage) :
    (notification m).toList = Nat.toDigits 10 m.sequence.toNat ++
      ':' :: (Nat.toDigits 10 m.labelId.toNat ++ ':' :: Nat.toDigits 10 m.data.length) := by
  unfold notification
  simp only [String.toList_append, toList_toString, List.append_assoc]
  rfl

/-- The delivery callback reads what `publish` wrote. -/
theorem parseNotification_notification (m : ChannelMessage) :
    parseNotification (notification m).toList = some (m.sequence, m.labelId) := by
  rw [notification_toList]
  unfold parseNotification
  rw [dropWhile_separator (colon_notMem _), takeWhile_separator (colon_notMem _)]
  dsimp only
  rw [dropWhile_separator (colon_notMem _), takeWhile_separator (colon_notMem _)]
  dsimp only
  rw [parseU64_toDigits, parseU64_toDigits]
  rfl

/-- A notification names one sequence number and one label. -/
theorem notification_inj {m m' : ChannelMessage} (h : notification m = notification m') :
    m.sequence = m'.sequence ∧ m.labelId = m'.labelId := by
  have hparse := parseNotification_notification m
  rw [h, parseNotification_notification] at hparse
  have := Option.some.inj hparse
  exact ⟨(congrArg Prod.fst this).symm, (congrArg Prod.snd this).symm⟩

/-! ## Keys -/

theorem warehouseKey_toList (name : String) (sequence : UInt64) :
    (warehouseKey name sequence).toList =
      ("labios:channel:" ++ name ++ ":").toList ++ Nat.toDigits 10 sequence.toNat := by
  unfold warehouseKey
  rw [String.toList_append, toList_toString]

theorem warehouseKey_inj {name : String} {m n : UInt64}
    (h : warehouseKey name m = warehouseKey name n) : m = n := by
  have hlist := congrArg String.toList h
  rw [warehouseKey_toList, warehouseKey_toList] at hlist
  exact UInt64.toNat_inj.mp (toDigits_inj (List.append_cancel_left hlist))

/-! ## Patterns -/

/-- No character has a meaning in a pattern of `SCAN`. -/
def Literal (text : String) : Prop := ∀ c ∈ text.toList, c ∉ ['*', '?', '[', '\\']

-- over the characters of the text, not over all characters
instance (text : String) : Decidable (Literal text) := List.decidableBAll _ _

theorem Literal.append {a b : String} (ha : Literal a) (hb : Literal b) : Literal (a ++ b) := by
  intro c hc
  rw [String.toList_append] at hc
  rcases List.mem_append.mp hc with hc | hc
  · exact ha c hc
  · exact hb c hc

/-- How `SCAN` matches a literal text with a star behind it. -/
def MatchesStar (scanMatches : String → String → Bool) : Prop :=
  ∀ text key : String, Literal text →
    (scanMatches (text ++ "*") key ↔ text.toList.isPrefixOf key.toList)

/-- A matcher for patterns whose only special character is a star at the end. -/
def starMatches (pattern key : String) : Bool := pattern.toList.dropLast.isPrefixOf key.toList

theorem matchesStar_starMatches : MatchesStar starMatches := by
  intro text key _
  unfold starMatches
  rw [String.toList_append, show ("*" : String).toList = ['*'] from rfl, List.dropLast_concat]

/-- The pattern of a channel finds its keys, unless the name reads as a pattern. -/
theorem MatchesStar.warehouseKey {scanMatches : String → String → Bool}
    (h : MatchesStar scanMatches) {name : String} (hname : Literal name) (sequence : UInt64) :
    scanMatches (warehousePattern name) (warehouseKey name sequence) := by
  have hfront : Literal "labios:channel:" := by decide
  have hliteral := (hfront.append hname).append (show Literal ":" by decide)
  refine (h _ _ hliteral).mpr ?_
  rw [warehouseKey_toList, List.isPrefixOf_iff_prefix]
  exact List.prefix_append _ _

end Labios

/-!
## Channels

`Channel` of `labios/channel.cpp` as a machine. A call is a sequence of steps, each of
them one access to an atomic, one section under the lock, one Redis command or one
call of NATS; the steps of different calls and deliveries interleave freely.

NATS is the list of payloads that were published on the channel's subject. Each native
subscription reads it in order, from where it was created on, and runs the callback
of its connection; `NatsConnection` keeps one callback for the subject and never
removes a native subscription. Of Redis there are the staged messages, and whether
a key will expire.

`accepted` and `received` are histories that no step reads.
-/

namespace Labios

open Foundation

structure Staged where
  data : List UInt8
  expires : Bool := false
  deriving DecidableEq, Repr

/-- What all processes share: the warehouse, and the subject of one channel name. -/
structure Backend where
  warehouse : AList fun _ : String => Staged := ∅
  wire : List String := []

/-- The callback of `subscribe`, after it took a notification. -/
inductive DeliveryPhase where
  | idle
  | fetch (sequence labelId : UInt64)
  | copy (message : ChannelMessage)
  | run (message : ChannelMessage) (callbacks : List Int)
  deriving DecidableEq, Repr

/-- A native subscription: the payloads from `start` to `cursor` were taken. -/
structure Feed where
  start : Nat
  cursor : Nat
  phase : DeliveryPhase := .idle
  deriving DecidableEq, Repr

/-- A subscriber's callback ran, for the payload at this position. -/
structure Receipt where
  feed : Nat
  position : Nat
  subscriber : Int
  message : ChannelMessage
  deriving DecidableEq, Repr

structure Channel where
  name : String
  ttlSeconds : UInt32 := 0
  maxPending : UInt64 := 10000
  nextSeq : UInt64 := 1
  subscribers : List Int := []
  nextSubId : Int := 1
  draining : Bool := false
  destroyed : Bool := false
  feeds : List Feed := []
  accepted : List ChannelMessage := []
  received : List Receipt := []
  deriving DecidableEq, Repr

/-! ## The phases of a call -/

inductive PublishPhase where
  | loadDraining
  | loadDestroyed
  | checkLimit
  | take
  | stage (sequence : UInt64)
  | setExpiry (sequence : UInt64)
  | notify (sequence : UInt64)
  | returned (result : UInt64)
  deriving DecidableEq, Repr

inductive SubscribePhase where
  | checkDestroyed
  | insert
  | count (subId : Int)
  | feed (subId : Int)
  | returned (result : Int)
  deriving DecidableEq, Repr

inductive DestroyPhase where
  | exchange
  | clear
  | scan
  | delete (keys : List String)
  | returned
  deriving DecidableEq, Repr

inductive UnsubscribePhase where
  | erase
  | destroying (phase : DestroyPhase)
  deriving DecidableEq, Repr

inductive DrainPhase where
  | store
  | checkEmpty
  | destroying (phase : DestroyPhase)
  deriving DecidableEq, Repr

inductive ChannelCall where
  | publish (data : List UInt8) (labelId : UInt64) (phase : PublishPhase)
  | subscribe (phase : SubscribePhase)
  | unsubscribe (subId : Int) (phase : UnsubscribePhase)
  | drain (phase : DrainPhase)
  | destroy (phase : DestroyPhase)
  deriving DecidableEq, Repr

/-- What a client may call. -/
inductive ChannelOp where
  | publish (data : List UInt8) (labelId : UInt64)
  | subscribe
  | unsubscribe (subId : Int)
  | drain
  | destroy
  deriving DecidableEq, Repr

def ChannelOp.start : ChannelOp → ChannelCall
  | .publish data labelId => .publish data labelId .loadDraining
  | .subscribe => .subscribe .checkDestroyed
  | .unsubscribe subId => .unsubscribe subId .erase
  | .drain => .drain .store
  | .destroy => .destroy .exchange

/-- The call has returned. -/
def ChannelCall.returned : ChannelCall → Bool
  | .publish _ _ (.returned _) => true
  | .subscribe (.returned _) => true
  | .unsubscribe _ (.destroying .returned) => true
  | .drain (.destroying .returned) => true
  | .destroy .returned => true
  | _ => false

/-- The message whose number the call has taken and whose notification it has not
sent. -/
def ChannelCall.inFlight : ChannelCall → Option ChannelMessage
  | .publish data labelId (.stage sequence) => some { sequence, labelId, data }
  | .publish data labelId (.setExpiry sequence) => some { sequence, labelId, data }
  | .publish data labelId (.notify sequence) => some { sequence, labelId, data }
  | _ => none

/-! ## Steps -/

/-- `max_pending_ > 0 && (next_seq_.load() - 1) >= max_pending_`. -/
def Channel.overLimit (ch : Channel) : Bool := 0 < ch.maxPending && ch.maxPending ≤ ch.nextSeq - 1

/-- `get_binary`: an absent key reads as no bytes. -/
def Backend.getBinary (b : Backend) (key : String) : List UInt8 :=
  match b.warehouse.lookup key with
  | some staged => staged.data
  | none => []

/-- One step of `publish`. -/
def publishStep (b : Backend) (ch : Channel) (data : List UInt8) (labelId : UInt64) :
    PublishPhase → Option (Backend × Channel × PublishPhase)
  | .loadDraining => some (b, ch, if ch.draining then .returned 0 else .loadDestroyed)
  | .loadDestroyed => some (b, ch, if ch.destroyed then .returned 0 else .checkLimit)
  | .checkLimit => some (b, ch, if ch.overLimit then .returned 0 else .take)
  | .take => some (b, { ch with
      nextSeq := ch.nextSeq + 1
      accepted := ch.accepted ++ [{ sequence := ch.nextSeq, labelId, data }] },
      .stage ch.nextSeq)
  | .stage sequence => some ({ b with
      warehouse := b.warehouse.insert (warehouseKey ch.name sequence) { data } }, ch,
      if 0 < ch.ttlSeconds then .setExpiry sequence else .notify sequence)
  | .setExpiry sequence =>
      let key := warehouseKey ch.name sequence
      some ({ b with
        warehouse := match b.warehouse.lookup key with
          | some staged => b.warehouse.insert key { staged with expires := true }
          | none => b.warehouse }, ch, .notify sequence)
  | .notify sequence => some ({ b with
      wire := b.wire ++ [notification { sequence, labelId, data }] }, ch, .returned sequence)
  | .returned _ => none

/-- One step of `subscribe`; the callback of the native subscription is the same
for all of them. -/
def subscribeStep (b : Backend) (ch : Channel) :
    SubscribePhase → Option (Channel × SubscribePhase)
  | .checkDestroyed => some (ch, if ch.destroyed then .returned (-1) else .insert)
  | .insert => some ({ ch with
      subscribers := ch.subscribers ++ [ch.nextSubId]
      nextSubId := ch.nextSubId + 1 }, .count ch.nextSubId)
  | .count subId => some (ch, if ch.subscribers.length = 1 then .feed subId else .returned subId)
  | .feed subId => some ({ ch with
      feeds := ch.feeds ++ [{ start := b.wire.length, cursor := b.wire.length }] },
      .returned subId)
  | .returned _ => none

/-- One step of `destroy`, with `cleanup_warehouse`. -/
def destroyStep (scanMatches : String → String → Bool) (b : Backend) (ch : Channel) :
    DestroyPhase → Option (Backend × Channel × DestroyPhase)
  | .exchange =>
      some (b, { ch with destroyed := true }, if ch.destroyed then .returned else .clear)
  | .clear => some (b, { ch with subscribers := [] }, .scan)
  | .scan =>
      some (b, ch, .delete (b.warehouse.keys.filter (scanMatches (warehousePattern ch.name))))
  | .delete [] => some (b, ch, .returned)
  | .delete (key :: rest) =>
      some ({ b with warehouse := b.warehouse.erase key }, ch, .delete rest)
  | .returned => none

/-- One step of a call. -/
def ChannelCall.step (scanMatches : String → String → Bool) (b : Backend) (ch : Channel) :
    ChannelCall → Option (Backend × Channel × ChannelCall)
  | .publish data labelId phase =>
      (publishStep b ch data labelId phase).map fun (b', ch', phase') =>
        (b', ch', .publish data labelId phase')
  | .subscribe phase =>
      (subscribeStep b ch phase).map fun (ch', phase') => (b, ch', .subscribe phase')
  | .unsubscribe subId .erase =>
      let subscribers := ch.subscribers.erase subId
      some (b, { ch with subscribers }, .unsubscribe subId (.destroying
        (if subscribers = [] ∧ ch.draining then .exchange else .returned)))
  | .unsubscribe subId (.destroying phase) =>
      (destroyStep scanMatches b ch phase).map fun (b', ch', phase') =>
        (b', ch', .unsubscribe subId (.destroying phase'))
  | .drain .store => some (b, { ch with draining := true }, .drain .checkEmpty)
  | .drain .checkEmpty =>
      some (b, ch, .drain (.destroying (if ch.subscribers = [] then .exchange else .returned)))
  | .drain (.destroying phase) =>
      (destroyStep scanMatches b ch phase).map fun (b', ch', phase') =>
        (b', ch', .drain (.destroying phase'))
  | .destroy phase =>
      (destroyStep scanMatches b ch phase).map fun (b', ch', phase') =>
        (b', ch', .destroy phase')

/-- One step of a delivery: what the callback does with the feed and which
subscriber's callback it runs. -/
def deliverStep (b : Backend) (ch : Channel) (index : Nat) (feed : Feed) :
    Option (Feed × List Receipt) :=
  match feed.phase with
  | .idle =>
      match b.wire[feed.cursor]? with
      | none => none
      | some payload =>
          some ({ feed with
            cursor := feed.cursor + 1
            phase :=
              if ch.destroyed then .idle
              else match parseNotification payload.toList with
                | some (sequence, labelId) => .fetch sequence labelId
                | none => .idle }, [])
  | .fetch sequence labelId =>
      let data := b.getBinary (warehouseKey ch.name sequence)
      some ({ feed with phase := .copy { sequence, labelId, data } }, [])
  | .copy message => some ({ feed with phase := .run message ch.subscribers }, [])
  | .run message (subscriber :: rest) =>
      some ({ feed with phase := .run message rest },
        [{ feed := index, position := feed.cursor - 1, subscriber, message }])
  | .run _ [] => some ({ feed with phase := .idle }, [])

/-! ## One channel object -/

structure Site where
  backend : Backend
  channel : Channel
  calls : List ChannelCall := []

inductive SiteAction where
  | begins (op : ChannelOp)
  | advances (call : Nat)
  | delivers (feed : Nat)
  | expires (key : String)
  deriving DecidableEq, Repr

/-- A call begins, a call or a delivery makes a step, or a key expires. -/
def Site.step (scanMatches : String → String → Bool) (s : Site) : SiteAction → Option Site
  | .begins op => some { s with calls := s.calls ++ [op.start] }
  | .advances i =>
      s.calls[i]?.bind fun call =>
        (call.step scanMatches s.backend s.channel).map fun (backend, channel, call') =>
          { backend, channel, calls := s.calls.set i call' }
  | .delivers i =>
      s.channel.feeds[i]?.bind fun feed =>
        (deliverStep s.backend s.channel i feed).map fun (feed', receipts) =>
          { s with
            channel := { s.channel with
              feeds := s.channel.feeds.set i feed'
              received := s.channel.received ++ receipts } }
  | .expires key =>
      match s.backend.warehouse.lookup key with
      | some staged =>
          if staged.expires then
            some { s with
              backend := { s.backend with warehouse := s.backend.warehouse.erase key } }
          else none
      | none => none

/-- All calls have returned. -/
def Site.Quiet (s : Site) : Prop := ∀ call ∈ s.calls, call.returned

/-- Every feed has handled every payload. -/
def Site.Delivered (s : Site) : Prop :=
  ∀ feed ∈ s.channel.feeds, feed.cursor = s.backend.wire.length ∧ feed.phase = .idle

instance (s : Site) : Decidable s.Quiet :=
  inferInstanceAs (Decidable (∀ call ∈ s.calls, call.returned))

instance (s : Site) : Decidable s.Delivered :=
  inferInstanceAs (Decidable (∀ feed ∈ s.channel.feeds, _))

/-- A channel object as constructed, on an empty backend. -/
def Site.fresh (name : String) (ttlSeconds : UInt32) (maxPending : UInt64) : Site :=
  { backend := {}, channel := { name, ttlSeconds, maxPending } }

/-- A call begins as the i-th one and makes this many steps. -/
def ChannelOp.runs (op : ChannelOp) (i steps : Nat) : List SiteAction :=
  .begins op :: List.replicate steps (.advances i)

end Labios
