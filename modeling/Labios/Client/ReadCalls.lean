import Labios.Client.Waiting
import Labios.Foundation.Decimal
import Mathlib.Data.List.Forall2

/-!
# Reads that are waited for more than once

`wait_read` of `labios/label_manager.cpp` with everything it leaves behind: the labels,
whose replies it has taken, and the warehouse, from which it has removed what it read.
`waitRead` is what a single call returns (`waitRead_eq`).

A call concatenates what the replies carry (`waitRead_answers`). Where it succeeded, a
second call on the same labels succeeds and returns nothing (`waitReadLoop_again`).
-/

namespace Labios

/-- What one call of `wait_read` leaves behind. -/
structure ReadOutcome where
  result : Except String (List UInt8)
  pending : List PendingLabel
  store : KeyStore

/-- The loop went on after `p`, whose reply carried `data`. -/
def ReadOutcome.prepend (p : PendingLabel) (data : List UInt8) (o : ReadOutcome) : ReadOutcome :=
  { result := o.result.map (data ++ ·), pending := p :: o.pending, store := o.store }

/-- The key a reply's data is fetched from. -/
def replyKey (decode : List UInt8 → DecodedReply) (p : PendingLabel) : String :=
  if (decode p.replyData).dataKey = "" then dataKey p.labelId else (decode p.replyData).dataKey

/-- `wait_read`. A timeout leaves its label as it was; an error reply stays with it. -/
def waitReadLoop (decode : List UInt8 → DecodedReply) : KeyStore → List PendingLabel → ReadOutcome
  | store, [] => { result := .ok [], pending := [], store }
  | store, p :: rest =>
      match resolveReply p with
      | .error text => { result := .error text, pending := p :: rest, store }
      | .ok p =>
          if p.replyData = [] then (waitReadLoop decode store rest).prepend p []
          else if (decode p.replyData).status = CompletionStatus.error.code then
            { result := .error ("read label " ++ toString p.labelId ++ " failed: " ++
                (decode p.replyData).error)
              pending := p :: rest
              store }
          else
            (waitReadLoop decode (Function.update store (replyKey decode p) none) rest).prepend p
              ((store (replyKey decode p)).getD [])

variable {decode : List UInt8 → DecodedReply}

/-! ## One turn of the loop -/

section Turn

variable {store : KeyStore} {p p' : PendingLabel} {rest : List PendingLabel}

theorem waitReadLoop_timeout {text : String} (h : resolveReply p = .error text) :
    waitReadLoop decode store (p :: rest) =
      { result := .error text, pending := p :: rest, store } := by
  rw [waitReadLoop, h]

theorem waitReadLoop_skip (h : resolveReply p = .ok p') (hempty : p'.replyData = []) :
    waitReadLoop decode store (p :: rest) = (waitReadLoop decode store rest).prepend p' [] := by
  rw [waitReadLoop, h]
  exact if_pos hempty

theorem waitReadLoop_error (h : resolveReply p = .ok p') (hdata : p'.replyData ≠ [])
    (herror : (decode p'.replyData).status = CompletionStatus.error.code) :
    waitReadLoop decode store (p :: rest) =
      { result := .error ("read label " ++ toString p'.labelId ++ " failed: " ++
          (decode p'.replyData).error)
        pending := p' :: rest
        store } := by
  rw [waitReadLoop, h]
  dsimp only
  rw [if_neg hdata, if_pos herror]

theorem waitReadLoop_fetch (h : resolveReply p = .ok p') (hdata : p'.replyData ≠ [])
    (hok : (decode p'.replyData).status ≠ CompletionStatus.error.code) :
    waitReadLoop decode store (p :: rest) =
      (waitReadLoop decode (Function.update store (replyKey decode p') none) rest).prepend p'
        ((store (replyKey decode p')).getD []) := by
  rw [waitReadLoop, h]
  dsimp only
  rw [if_neg hdata, if_neg hok]

end Turn

/-- The result of one call, and on success the warehouse it leaves. -/
theorem waitRead_eq (store : KeyStore) (pending : List PendingLabel) :
    waitRead decode store pending =
      (waitReadLoop decode store pending).result.map
        fun data => (data, (waitReadLoop decode store pending).store) := by
  induction pending generalizing store with
  | nil => rfl
  | cons p rest ih =>
      rw [waitRead, takeReply]
      cases hresolve : resolveReply p with
      | error text =>
          rw [waitReadLoop_timeout hresolve]
          rfl
      | ok p' =>
          dsimp only
          by_cases hempty : p'.replyData = []
          · rw [if_pos hempty, waitReadLoop_skip hresolve hempty]
            dsimp only
            rw [ih]
            unfold ReadOutcome.prepend
            cases (waitReadLoop decode store rest).result with
            | error text => rfl
            | ok data => rfl
          · rw [if_neg hempty]
            by_cases herror : (decode p'.replyData).status = CompletionStatus.error.code
            · rw [if_pos herror, waitReadLoop_error hresolve hempty herror]
              rfl
            · rw [if_neg herror, waitReadLoop_fetch hresolve hempty herror]
              dsimp only
              rw [← replyKey, ih]
              unfold ReadOutcome.prepend
              cases (waitReadLoop decode (Function.update store (replyKey decode p') none)
                  rest).result with
              | error text => rfl
              | ok data => rfl

/-! ## A call after a successful one -/

theorem resolveReply_idem {p p' : PendingLabel} (h : resolveReply p = .ok p') :
    resolveReply p' = .ok p' := by
  unfold resolveReply at h
  cases hreply : p.asyncReply with
  | none =>
      rw [hreply] at h
      obtain rfl := Except.ok.inj h
      unfold resolveReply
      rw [hreply]
  | some reply =>
      rw [hreply] at h
      dsimp only at h
      by_cases hempty : p.replyData = []
      · rw [if_pos hempty] at h
        cases hwait : reply.wait with
        | error text =>
            rw [hwait] at h
            cases h
        | ok data =>
            rw [hwait] at h
            obtain rfl := Except.ok.inj h
            rfl
      · rw [if_neg hempty] at h
        obtain rfl := Except.ok.inj h
        unfold resolveReply
        rw [hreply]
        exact if_neg hempty

/-- The label's reply is in and the data it names is gone. -/
structure Spent (decode : List UInt8 → DecodedReply) (store : KeyStore) (p : PendingLabel) :
    Prop where
  resolved : resolveReply p = .ok p
  passes : p.replyData ≠ [] → (decode p.replyData).status ≠ CompletionStatus.error.code
  gone : p.replyData ≠ [] → store (replyKey decode p) = none

/-- What was removed stays removed. -/
theorem waitReadLoop_store_none {store : KeyStore} {pending : List PendingLabel} {key : String}
    (h : store key = none) : (waitReadLoop decode store pending).store key = none := by
  induction pending generalizing store with
  | nil => exact h
  | cons p rest ih =>
      cases hresolve : resolveReply p with
      | error text =>
          rw [waitReadLoop_timeout hresolve]
          exact h
      | ok p' =>
          by_cases hempty : p'.replyData = []
          · rw [waitReadLoop_skip hresolve hempty]
            exact ih h
          · by_cases herror : (decode p'.replyData).status = CompletionStatus.error.code
            · rw [waitReadLoop_error hresolve hempty herror]
              exact h
            · rw [waitReadLoop_fetch hresolve hempty herror]
              refine ih ?_
              by_cases hkey : key = replyKey decode p'
              · rw [hkey, Function.update_self]
              · rw [Function.update_of_ne hkey, h]

theorem ReadOutcome.prepend_ok {p : PendingLabel} {front data : List UInt8} {o : ReadOutcome}
    (h : (o.prepend p front).result = .ok data) :
    ∃ back, o.result = .ok back ∧ data = front ++ back := by
  unfold ReadOutcome.prepend at h
  cases hresult : o.result with
  | error text =>
      rw [hresult] at h
      cases h
  | ok back =>
      rw [hresult] at h
      exact ⟨back, rfl, (Except.ok.inj h).symm⟩

/-- A successful call spends every label. -/
theorem spent_of_waitReadLoop {store : KeyStore} {pending : List PendingLabel} {data : List UInt8}
    (h : (waitReadLoop decode store pending).result = .ok data) :
    ∀ p ∈ (waitReadLoop decode store pending).pending,
      Spent decode (waitReadLoop decode store pending).store p := by
  induction pending generalizing store data with
  | nil => intro p hp; cases hp
  | cons p rest ih =>
      cases hresolve : resolveReply p with
      | error text =>
          rw [waitReadLoop_timeout hresolve] at h
          cases h
      | ok p' =>
          have hidem := resolveReply_idem hresolve
          by_cases hempty : p'.replyData = []
          · rw [waitReadLoop_skip hresolve hempty] at h ⊢
            obtain ⟨back, hback, -⟩ := ReadOutcome.prepend_ok h
            intro q hq
            rcases List.mem_cons.mp hq with rfl | hq
            · exact ⟨hidem, fun hne => absurd hempty hne, fun hne => absurd hempty hne⟩
            · exact ih hback q hq
          · by_cases herror : (decode p'.replyData).status = CompletionStatus.error.code
            · rw [waitReadLoop_error hresolve hempty herror] at h
              cases h
            · rw [waitReadLoop_fetch hresolve hempty herror] at h ⊢
              obtain ⟨back, hback, -⟩ := ReadOutcome.prepend_ok h
              intro q hq
              rcases List.mem_cons.mp hq with rfl | hq
              · exact ⟨hidem, fun _ => herror,
                  fun _ => waitReadLoop_store_none (Function.update_self _ _ _)⟩
              · exact ih hback q hq

/-- On spent labels the call returns nothing and changes nothing. -/
theorem waitReadLoop_spent {store : KeyStore} {pending : List PendingLabel}
    (h : ∀ p ∈ pending, Spent decode store p) :
    waitReadLoop decode store pending = { result := .ok [], pending, store } := by
  induction pending with
  | nil => rfl
  | cons p rest ih =>
      obtain ⟨hp, hrest⟩ := List.forall_mem_cons.mp h
      by_cases hempty : p.replyData = []
      · rw [waitReadLoop_skip hp.resolved hempty, ih hrest]
        rfl
      · have hgone := hp.gone hempty
        have hsame : Function.update store (replyKey decode p) none = store := by
          rw [← hgone, Function.update_eq_self]
        rw [waitReadLoop_fetch hp.resolved hempty (hp.passes hempty), hsame, ih hrest, hgone]
        rfl

/-- **A second call.** Whatever the first one returned, it is not returned again. -/
theorem waitReadLoop_again {store : KeyStore} {pending : List PendingLabel} {data : List UInt8}
    (h : (waitReadLoop decode store pending).result = .ok data) :
    waitReadLoop decode (waitReadLoop decode store pending).store
        (waitReadLoop decode store pending).pending =
      { result := .ok []
        pending := (waitReadLoop decode store pending).pending
        store := (waitReadLoop decode store pending).store } :=
  waitReadLoop_spent (spent_of_waitReadLoop h)

/-! ## What the replies carry -/

theorem dataKey_inj {i j : UInt64} (h : dataKey i = dataKey j) : i = j := by
  have htext : toString i.toNat = toString j.toNat := by
    have h' := congrArg String.toList h
    simp only [dataKey, String.toList_append] at h'
    exact String.toList_inj.mp (List.append_cancel_left h')
  refine UInt64.toNat_inj.mp (Foundation.toDigits_inj ?_)
  rw [← Foundation.toList_toString, ← Foundation.toList_toString, htext]

/-- The label's reply is in, is no error, and carries `data`: either it is empty, or it
names the label's own key, under which the warehouse has the data. -/
def Arrival.Carries (decode : List UInt8 → DecodedReply) (store : KeyStore) (a : Arrival)
    (data : List UInt8) : Prop :=
  ∃ payload, a.message = some payload ∧
    (payload = [] ∧ data = [] ∨
      payload ≠ [] ∧ (decode payload).status = CompletionStatus.complete.code ∧
        ((decode payload).dataKey = "" ∨ (decode payload).dataKey = dataKey a.labelId) ∧
        (store (dataKey a.labelId)).getD [] = data)

theorem Arrival.Carries.congr {store store' : KeyStore} {a : Arrival} {data : List UInt8}
    (h : a.Carries decode store data)
    (hkey : store' (dataKey a.labelId) = store (dataKey a.labelId)) :
    a.Carries decode store' data := by
  obtain ⟨payload, hmessage, hdata⟩ := h
  refine ⟨payload, hmessage, hdata.imp id fun ⟨h1, h2, h3, h4⟩ => ⟨h1, h2, h3, ?_⟩⟩
  rw [hkey]
  exact h4

/-- The loop takes the data of one reply and leaves the other labels' data alone. -/
theorem waitReadLoop_carries {store : KeyStore} {a : Arrival} {data : List UInt8}
    (h : a.Carries decode store data) (rest : List PendingLabel) :
    ∃ p store', (∀ id, id ≠ a.labelId → store' (dataKey id) = store (dataKey id)) ∧
      waitReadLoop decode store (a.pending :: rest) =
        (waitReadLoop decode store' rest).prepend p data := by
  obtain ⟨payload, hmessage, hdata⟩ := h
  have hresolve : resolveReply a.pending =
      .ok { labelId := a.labelId, replyData := payload, asyncReply := none } := by
    rw [resolveReply_pending, hmessage]
  rcases hdata with ⟨rfl, rfl⟩ | ⟨hpayload, hstatus, hkey, rfl⟩
  · exact ⟨_, store, fun _ _ => rfl, waitReadLoop_skip hresolve rfl⟩
  · have hown : replyKey decode
        { labelId := a.labelId, replyData := payload, asyncReply := none } =
          dataKey a.labelId := by
      unfold replyKey
      dsimp only
      rcases hkey with hnone | hown
      · rw [if_pos hnone]
      · split
        · rfl
        · exact hown
    have hfetch : waitReadLoop decode store (a.pending :: rest) = _ :=
      waitReadLoop_fetch hresolve hpayload
        (fun he => absurd (hstatus.symm.trans he) (by decide))
    rw [hown] at hfetch
    exact ⟨_, _, fun id hid =>
      Function.update_of_ne (fun he => hid (dataKey_inj he)) _ _, hfetch⟩

/-- **Concatenation.** With distinct ids, `wait_read` returns what the replies carry, in
the order of the labels. -/
theorem waitReadLoop_answers {store : KeyStore} {arrivals : List Arrival}
    {replies : List (List UInt8)} (hids : (arrivals.map (·.labelId)).Nodup)
    (h : List.Forall₂ (Arrival.Carries decode store) arrivals replies) :
    (waitReadLoop decode store (arrivals.map Arrival.pending)).result = .ok replies.flatten := by
  induction arrivals generalizing store replies with
  | nil =>
      cases h
      rfl
  | cons a rest ih =>
      cases h with
      | cons ha hrest =>
          rw [List.map_cons, List.nodup_cons] at hids
          obtain ⟨p, store', hothers, hloop⟩ :=
            waitReadLoop_carries ha (rest.map Arrival.pending)
          rw [List.map_cons, hloop, ReadOutcome.prepend, ih hids.2]
          · rfl
          · refine ((List.forall₂_and_left _ _).mpr ⟨fun b hb => hb, hrest⟩).imp ?_
            rintro b data ⟨hb, hcarries⟩
            exact hcarries.congr (hothers b.labelId fun he =>
              hids.1 (he ▸ List.mem_map_of_mem hb))

end Labios
