import Labios.Client.Model

/-!
# Waiting for replies

`resolve_reply`, `wait` and `wait_read` of `labios/label_manager.cpp`, over the deferred
reply handles of `labios/transport/nats.cpp`. `deserialize_completion` is a
parameter; its status is the byte of the message, which `static_cast` takes as it
is.

A wait returns exactly when every label was answered and no answer is an error;
an empty answer is skipped (`wait_returns_iff`, `waitRead_returns_iff`).
-/

namespace Labios

/-! ## Transport -/

/-- `AsyncReply`: what has arrived on one inbox. -/
structure AsyncReply where
  data : List UInt8 := []
  completed : Bool := false
  deriving DecidableEq, Repr

/-- `on_inbox_message`: an empty payload completes the reply without data. -/
def AsyncReply.deliver (reply : AsyncReply) (payload : List UInt8) : AsyncReply :=
  { data := if 0 < payload.length then payload else reply.data, completed := true }

def AsyncReply.wait (reply : AsyncReply) : Except String (List UInt8) :=
  if reply.completed then .ok reply.data else .error "nats: async reply timed out"

structure PendingLabel where
  labelId : UInt64
  replyData : List UInt8 := []
  asyncReply : Option AsyncReply
  deriving DecidableEq, Repr

/-- What `deserialize_completion` reads from a reply. -/
structure DecodedReply where
  status : UInt8
  error : String
  dataKey : String
  deriving DecidableEq, Repr

/-- The code of a completion status. -/
def CompletionStatus.code : CompletionStatus → UInt8
  | .complete => 0
  | .error => 1

/-! ## Waiting -/

def resolveReply (p : PendingLabel) : Except String PendingLabel :=
  match p.asyncReply with
  | none => .ok p
  | some reply =>
      if p.replyData = [] then
        match reply.wait with
        | .error text => .error text
        | .ok data => .ok { p with replyData := data, asyncReply := none }
      else .ok p

/-- The common part of both loops: the decoded reply, none when it is empty.
`what` names the label in the error. -/
def takeReply (decode : List UInt8 → DecodedReply) (what : String) (p : PendingLabel) :
    Except String (PendingLabel × Option DecodedReply) :=
  match resolveReply p with
  | .error text => .error text
  | .ok p =>
      if p.replyData = [] then .ok (p, none)
      else
        let comp := decode p.replyData
        if comp.status = CompletionStatus.error.code then
          .error (what ++ toString p.labelId ++ " failed: " ++ comp.error)
        else .ok (p, some comp)

/-- `wait`; the labels are returned with their replies taken. -/
def wait (decode : List UInt8 → DecodedReply) :
    List PendingLabel → Except String (List PendingLabel)
  | [] => .ok []
  | p :: rest =>
      match takeReply decode "label " p with
      | .error text => .error text
      | .ok (p, _) =>
          match wait decode rest with
          | .error text => .error text
          | .ok rest => .ok (p :: rest)

/-- `ContentManager::data_key` of a label id. -/
def dataKey (id : UInt64) : String := "labios:data:" ++ toString id

/-- The bytes under the keys of the warehouse. -/
abbrev KeyStore := String → Option (List UInt8)

/-- `wait_read`: the data of all replies, each key removed once it is read. -/
def waitRead (decode : List UInt8 → DecodedReply) (store : KeyStore) :
    List PendingLabel → Except String (List UInt8 × KeyStore)
  | [] => .ok ([], store)
  | p :: rest =>
      match takeReply decode "read label " p with
      | .error text => .error text
      | .ok (_, none) => waitRead decode store rest
      | .ok (p, some comp) =>
          let key := if comp.dataKey = "" then dataKey p.labelId else comp.dataKey
          match waitRead decode (Function.update store key none) rest with
          | .error text => .error text
          | .ok (data, store') => .ok ((store key).getD [] ++ data, store')

/-! ## What arrives -/

/-- A published label and the message that reaches its inbox in time, if any. -/
structure Arrival where
  labelId : UInt64
  message : Option (List UInt8)
  deriving DecidableEq, Repr

/-- The pending label of `publish_request_async` once the message is in. -/
def Arrival.pending (a : Arrival) : PendingLabel :=
  { labelId := a.labelId
    asyncReply := some (a.message.elim {} fun payload => AsyncReply.deliver {} payload) }

/-- The label got a reply that is no error; an empty reply counts. -/
def Arrival.Passes (decode : List UInt8 → DecodedReply) (a : Arrival) : Prop :=
  ∃ payload, a.message = some payload ∧
    (payload = [] ∨ (decode payload).status ≠ CompletionStatus.error.code)

/-- The label got a reply that decodes to `Complete`. -/
def Arrival.Completed (decode : List UInt8 → DecodedReply) (a : Arrival) : Prop :=
  ∃ payload, a.message = some payload ∧ payload ≠ [] ∧
    (decode payload).status = CompletionStatus.complete.code

variable {decode : List UInt8 → DecodedReply}

theorem resolveReply_pending (a : Arrival) :
    resolveReply a.pending =
      match a.message with
      | none => .error "nats: async reply timed out"
      | some payload =>
          .ok { labelId := a.labelId, replyData := payload, asyncReply := none } := by
  unfold resolveReply Arrival.pending
  cases a.message with
  | none => rfl
  | some payload =>
      cases payload with
      | nil => rfl
      | cons b rest => rfl

/-- The common part of both loops goes on exactly for a reply that passes. -/
theorem takeReply_pending (what : String) (a : Arrival) :
    (∃ r, takeReply decode what a.pending = .ok r) ↔ a.Passes decode := by
  unfold takeReply Arrival.Passes
  rw [resolveReply_pending]
  cases a.message with
  | none => simp
  | some payload =>
      dsimp only
      by_cases hempty : payload = []
      · simp [hempty]
      · rw [if_neg hempty]
        by_cases herror : (decode payload).status = CompletionStatus.error.code
        · simp [herror, hempty]
        · simp [herror]

theorem wait_returns_iff (arrivals : List Arrival) :
    (∃ r, wait decode (arrivals.map Arrival.pending) = .ok r) ↔
      ∀ a ∈ arrivals, a.Passes decode := by
  induction arrivals with
  | nil => simp [wait]
  | cons a rest ih =>
      rw [List.forall_mem_cons, ← ih, ← takeReply_pending "label ", List.map_cons, wait]
      cases takeReply decode "label " a.pending with
      | error text => simp
      | ok r =>
          dsimp only
          cases wait decode (rest.map Arrival.pending) with
          | error text => simp
          | ok r' => simp

theorem waitRead_returns_iff (store : KeyStore) (arrivals : List Arrival) :
    (∃ r, waitRead decode store (arrivals.map Arrival.pending) = .ok r) ↔
      ∀ a ∈ arrivals, a.Passes decode := by
  induction arrivals generalizing store with
  | nil => simp [waitRead]
  | cons a rest ih =>
      rw [List.forall_mem_cons, ← takeReply_pending "read label ", List.map_cons, waitRead]
      rcases takeReply decode "read label " a.pending with text | ⟨p, _ | comp⟩
      · simp
      · rw [← ih store]
        simp
      · dsimp only
        rw [← ih (Function.update store (if comp.dataKey = "" then dataKey p.labelId
          else comp.dataKey) none)]
        cases waitRead decode (Function.update store (if comp.dataKey = "" then dataKey p.labelId
            else comp.dataKey) none) (rest.map Arrival.pending) with
        | error text => simp
        | ok r => simp

end Labios

/-!
## Whether a wait that returns can be trusted

The handle of a label starts with empty data, and an empty reply leaves it so;
the loops take empty data for "nothing to check" and skip the label. A status
byte that is no status is not an error either. `waiting_sound_iff` is the exact
condition on what arrives.
-/

namespace Labios

/-- A wait returns only when every label got a reply that decodes to `Complete`. -/
structure WaitingSound (decode : List UInt8 → DecodedReply) (store : KeyStore)
    (arrivals : List Arrival) : Prop where
  wait : (∃ r, wait decode (arrivals.map Arrival.pending) = .ok r) →
    ∀ a ∈ arrivals, a.Completed decode
  waitRead : (∃ r, waitRead decode store (arrivals.map Arrival.pending) = .ok r) →
    ∀ a ∈ arrivals, a.Completed decode

/-- Some label gets no reply or an error, or every reply has data and one of the
two statuses. -/
def RepliesWellFormed (decode : List UInt8 → DecodedReply) (arrivals : List Arrival) : Prop :=
  (∃ a ∈ arrivals, a.message = none ∨
    ∃ payload, a.message = some payload ∧ payload ≠ [] ∧
      (decode payload).status = CompletionStatus.error.code) ∨
  ∀ a ∈ arrivals, ∀ payload, a.message = some payload → payload ≠ [] ∧
    ((decode payload).status = CompletionStatus.complete.code ∨
      (decode payload).status = CompletionStatus.error.code)

variable {decode : List UInt8 → DecodedReply}

/-- Waiting is sound exactly when passing replies are complete ones. -/
theorem waiting_sound_iff (decode : List UInt8 → DecodedReply) (store : KeyStore)
    (arrivals : List Arrival) :
    WaitingSound decode store arrivals ↔ RepliesWellFormed decode arrivals := by
  have hsound : WaitingSound decode store arrivals ↔
      ((∀ a ∈ arrivals, a.Passes decode) → ∀ a ∈ arrivals, a.Completed decode) := by
    constructor
    · exact fun h hpass => h.wait ((wait_returns_iff arrivals).mpr hpass)
    · exact fun h => ⟨fun hret => h ((wait_returns_iff arrivals).mp hret),
        fun hret => h ((waitRead_returns_iff store arrivals).mp hret)⟩
  rw [hsound]
  unfold RepliesWellFormed
  constructor
  · intro h
    by_cases hpass : ∀ a ∈ arrivals, a.Passes decode
    · right
      intro a ha payload hpayload
      obtain ⟨payload', hpayload', hne, hstatus⟩ := h hpass a ha
      obtain rfl := Option.some.inj (hpayload.symm.trans hpayload')
      exact ⟨hne, .inl hstatus⟩
    · left
      push Not at hpass
      obtain ⟨a, ha, hfail⟩ := hpass
      refine ⟨a, ha, ?_⟩
      unfold Arrival.Passes at hfail
      push Not at hfail
      cases hmessage : a.message with
      | none => exact .inl rfl
      | some payload => exact .inr ⟨payload, rfl, hfail payload hmessage⟩
  · rintro (⟨a, ha, hfail⟩ | hgood) hpass
    · -- a label that fails stops the wait
      obtain ⟨payload, hpayload, hok⟩ := hpass a ha
      rcases hfail with hnone | ⟨payload', hpayload', hne, herror⟩
      · exact absurd (hpayload.symm.trans hnone) (by simp)
      · obtain rfl := Option.some.inj (hpayload.symm.trans hpayload')
        exact absurd herror (hok.resolve_left hne)
    · intro a ha
      obtain ⟨payload, hpayload, hok⟩ := hpass a ha
      obtain ⟨hne, hstatus⟩ := hgood a ha payload hpayload
      exact ⟨payload, hpayload, hne, hstatus.resolve_right (hok.resolve_left hne)⟩

/-- A message without payload, as a "no responders" status is: the wait returns. -/
theorem emptyReply_not_sound :
    ¬WaitingSound (fun _ => { status := 0, error := "", dataKey := "" }) (fun _ => none)
      [{ labelId := 1, message := some [] }] := by
  intro h
  obtain ⟨payload, hpayload, hne, _⟩ := h.wait ⟨_, rfl⟩ _ List.mem_cons_self
  exact hne (Option.some.inj hpayload).symm

end Labios
