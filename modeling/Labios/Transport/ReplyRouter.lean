import Labios.Client.Waiting
import Labios.Foundation.Decimal
import Labios.Foundation.Machine

/-!
# Routing replies to their requests

`publish_request_async`, `create_reply_inbox`, `on_inbox_message` and
`AsyncReply::wait` of `transport/nats.cpp`. Any number of threads call; the
callback of the wildcard subscription runs beside them, one message at a time. A
step is what happens under one lock or in one atomic access.

`Stage` says how far one request is, given what has arrived for it, and `Sorted`
holds of every state of a run that reserves no more numbers than the counter has.
-/

namespace Labios
namespace Transport

open Foundation

/-- `AsyncReply` beside the subject that it was registered under. -/
structure Inbox where
  subject : String
  reply : AsyncReply := {}
  /-- `publish_request_async` threw; nobody holds the handle. -/
  refused : Bool := false
  deriving DecidableEq, Repr

/-- How far a call of a thread is. -/
inductive Calling
  | idle
  | reserved (subject : String)
  | registered (subject : String) (handle : Nat)
  deriving DecidableEq, Repr

structure ReplyRouter where
  inboxPrefix : Option String := none
  inboxCounter : UInt64 := 0
  /-- The handles, in the order in which they were made. -/
  inboxes : List Inbox := []
  pendingReplies : String → Option Nat := fun _ => none
  threads : Nat → Calling := fun _ => .idle
  /-- The callback has found the handle and goes on to fill it. -/
  delivering : Option (Nat × List UInt8) := none
  /-- What the waits returned, oldest first. -/
  answers : List (Nat × Except String (List UInt8)) := []

inductive RouterAction
  /-- `ensure_inbox_sub`, with the name that the library makes. -/
  | ensureInboxSub (inbox : String)
  | reserve (thread : Nat)
  | register (thread : Nat)
  /-- The request goes out, or cannot; `create_reply_inbox` has none to send. -/
  | publish (thread : Nat) (ok : Bool)
  /-- `on_inbox_message` looks the subject up. -/
  | arrive (subject : String) (payload : List UInt8)
  /-- `on_inbox_message` fills the handle. -/
  | complete
  /-- A wait comes to its end. -/
  | wait (handle : Nat)
  deriving DecidableEq, Repr

/-- The trailing dot of an inbox name is removed. -/
def inboxPrefixOf (inbox : String) : String :=
  if inbox.toList.getLast? = some '.' then String.ofList inbox.toList.dropLast else inbox

def replySubject (inboxPrefix : String) (seq : UInt64) : String :=
  inboxPrefix ++ "." ++ toString seq

/-- A wait moves the data out of the handle. -/
def Inbox.waited (i : Inbox) : Inbox :=
  if i.reply.completed then { i with reply := { i.reply with data := [] } } else i

namespace ReplyRouter

def step (s : ReplyRouter) : RouterAction → Option ReplyRouter
  | .ensureInboxSub inbox =>
      if s.inboxPrefix.isSome then some s
      else some { s with inboxPrefix := some (inboxPrefixOf inbox) }
  | .reserve t =>
      match s.threads t, s.inboxPrefix with
      | .idle, some p =>
          some { s with
            inboxCounter := s.inboxCounter + 1
            threads := Function.update s.threads t (.reserved (replySubject p s.inboxCounter)) }
      | _, _ => none
  | .register t =>
      match s.threads t with
      | .reserved subject =>
          some { s with
            inboxes := s.inboxes ++ [{ subject }]
            pendingReplies := Function.update s.pendingReplies subject (some s.inboxes.length)
            threads := Function.update s.threads t (.registered subject s.inboxes.length) }
      | _ => none
  | .publish t ok =>
      match s.threads t with
      | .registered subject h =>
          if ok then some { s with threads := Function.update s.threads t .idle }
          else
            some { s with
              inboxes := s.inboxes.modify h fun i => { i with refused := true }
              pendingReplies := Function.update s.pendingReplies subject none
              threads := Function.update s.threads t .idle }
      | _ => none
  | .arrive subject payload =>
      if s.delivering.isSome then none
      else
        match s.pendingReplies subject with
        | none => some s
        | some h =>
            some { s with
              pendingReplies := Function.update s.pendingReplies subject none
              delivering := some (h, payload) }
  | .complete =>
      s.delivering.map fun (h, payload) =>
        { s with
          inboxes := s.inboxes.modify h fun i => { i with reply := i.reply.deliver payload }
          delivering := none }
  | .wait h =>
      s.inboxes[h]?.map fun i =>
        { s with
          inboxes := s.inboxes.modify h Inbox.waited
          answers := s.answers ++ [(h, i.reply.wait)] }

/-- The data that waits on one handle returned. -/
def received (s : ReplyRouter) (h : Nat) : List (List UInt8) :=
  s.answers.filterMap fun a => if a.1 = h then a.2.toOption else none

end ReplyRouter

/-! ## What arrives for a request -/

/-- The actions behind the registration of handle `h`. -/
def since : Nat → List RouterAction → List RouterAction
  | _, [] => []
  | 0, .register _ :: rest => rest
  | h + 1, .register _ :: rest => since h rest
  | h, _ :: rest => since h rest

/-- The first message on a subject. -/
def firstArrival (subject : String) : List RouterAction → Option (List UInt8)
  | [] => none
  | .arrive s payload :: rest => if s = subject then some payload else firstArrival subject rest
  | _ :: rest => firstArrival subject rest

/-- The message that a request registered as handle `h` is answered by. -/
def replyTo (actions : List RouterAction) (h : Nat) (subject : String) : Option (List UInt8) :=
  firstArrival subject (since h actions)

def registrations (actions : List RouterAction) : Nat :=
  actions.countP fun a => match a with | .register _ => true | _ => false

def reservations (actions : List RouterAction) : Nat :=
  actions.countP fun a => match a with | .reserve _ => true | _ => false

theorem firstArrival_append (subject : String) (front back : List RouterAction) :
    firstArrival subject (front ++ back) =
      (firstArrival subject front).or (firstArrival subject back) := by
  induction front with
  | nil => rfl
  | cons a rest ih =>
      cases a with
      | arrive s payload =>
          rw [List.cons_append, firstArrival, firstArrival]
          by_cases hs : s = subject
          · rw [if_pos hs, if_pos hs]
            rfl
          · rw [if_neg hs, if_neg hs, ih]
      | _ => exact ih

theorem since_append {actions : List RouterAction} {h : Nat} (hreg : h < registrations actions)
    (a : RouterAction) : since h (actions ++ [a]) = since h actions ++ [a] := by
  induction actions generalizing h with
  | nil => exact absurd hreg (Nat.not_lt_zero _)
  | cons b rest ih =>
      cases b with
      | register t =>
          cases h with
          | zero => rfl
          | succ h =>
              have hrest : h < registrations rest := by
                unfold registrations at hreg ⊢
                rw [List.countP_cons_of_pos rfl] at hreg
                omega
              exact ih hrest
      | _ =>
          have hrest : h < registrations rest := by
            unfold registrations at hreg ⊢
            rwa [List.countP_cons_of_neg (by simp)] at hreg
          cases h with
          | zero => exact ih hrest
          | succ h => exact ih hrest

/-- Nothing has happened yet behind the last registration. -/
theorem since_register (actions : List RouterAction) (t : Nat) :
    since (registrations actions) (actions ++ [.register t]) = [] := by
  induction actions with
  | nil => rfl
  | cons b rest ih =>
      cases b with
      | register t' =>
          unfold registrations at ih ⊢
          rw [List.countP_cons_of_pos rfl]
          exact ih
      | _ =>
          unfold registrations at ih ⊢
          rw [List.countP_cons_of_neg (by simp)]
          generalize rest.countP _ = n at ih
          cases n with
          | zero => exact ih
          | succ n => exact ih

/-! ## Subjects -/

theorem replySubject_inj {p : String} {a b : UInt64}
    (h : replySubject p a = replySubject p b) : a = b := by
  have hlist := congrArg String.toList h
  unfold replySubject at hlist
  simp only [String.toList_append, List.append_cancel_left_eq] at hlist
  have hnat : Nat.toDigits 10 a.toNat = Nat.toDigits 10 b.toNat := by
    rw [← toList_toString, ← toList_toString]
    exact hlist
  exact UInt64.toNat_inj.mp (toDigits_inj hnat)

namespace ReplyRouter

/-- The subject carries a number that was reserved. -/
def Given (s : ReplyRouter) (n : Nat) (subject : String) : Prop :=
  ∃ p k, s.inboxPrefix = some p ∧ k < n ∧ subject = replySubject p (UInt64.ofNat k)

/-- No two requests have the same subject, at whatever point they are. -/
structure Named (s : ReplyRouter) (n : Nat) : Prop where
  counter : s.inboxCounter = UInt64.ofNat n
  inbox : ∀ i ∈ s.inboxes, s.Given n i.subject
  thread : ∀ t subject, s.threads t = .reserved subject → s.Given n subject
  apart : ∀ t t' subject, s.threads t = .reserved subject → s.threads t' = .reserved subject →
    t = t'
  new : ∀ t subject, s.threads t = .reserved subject → subject ∉ s.inboxes.map (·.subject)
  distinct : (s.inboxes.map (·.subject)).Nodup

variable {s s' : ReplyRouter} {n : Nat}

theorem Given.mono {subject : String} {m : Nat} (h : s.Given n subject) (hle : n ≤ m)
    (hinbox : ∀ p, s.inboxPrefix = some p → s'.inboxPrefix = some p) : s'.Given m subject := by
  obtain ⟨p, k, hp, hk, rfl⟩ := h
  exact ⟨p, k, hinbox p hp, by omega, rfl⟩

/-- Numbers that are not used up yet give new subjects. -/
theorem Given.ne_next {subject p : String} (h : s.Given n subject) (hn : n < 2 ^ 64)
    (hp : s.inboxPrefix = some p) : subject ≠ replySubject p (UInt64.ofNat n) := by
  obtain ⟨q, k, hq, hk, rfl⟩ := h
  obtain rfl := Option.some.inj (hp.symm.trans hq)
  intro heq
  have hnumber := congrArg UInt64.toNat (replySubject_inj heq)
  rw [UInt64.toNat_ofNat_of_lt' (Nat.lt_trans hk hn), UInt64.toNat_ofNat_of_lt' hn] at hnumber
  omega

/-- A step that makes no subject. -/
theorem Named.mono (h : s.Named n) (hcounter : s'.inboxCounter = s.inboxCounter)
    (hinbox : ∀ p, s.inboxPrefix = some p → s'.inboxPrefix = some p)
    (hinboxes : s'.inboxes.map (·.subject) = s.inboxes.map (·.subject))
    (hthreads : ∀ t subject, s'.threads t = .reserved subject → s.threads t = .reserved subject) :
    s'.Named n := by
  refine ⟨hcounter.trans h.counter, fun i hi => ?_, fun t subject ht => ?_,
    fun t t' subject ht ht' => ?_, fun t subject ht => ?_, ?_⟩
  · have hmem : i.subject ∈ s.inboxes.map (·.subject) := hinboxes ▸ List.mem_map_of_mem hi
    obtain ⟨j, hj, heq⟩ := List.mem_map.mp hmem
    exact heq ▸ (h.inbox j hj).mono (Nat.le_refl n) hinbox
  · exact (h.thread t subject (hthreads t subject ht)).mono (Nat.le_refl n) hinbox
  · exact h.apart t t' subject (hthreads t subject ht) (hthreads t' subject ht')
  · rw [hinboxes]
    exact h.new t subject (hthreads t subject ht)
  · rw [hinboxes]
    exact h.distinct

theorem Named.reserve (h : s.Named n) (hn : n < 2 ^ 64) {t : Nat} {p : String}
    (hp : s.inboxPrefix = some p) :
    Named { s with
      inboxCounter := s.inboxCounter + 1
      threads := Function.update s.threads t (.reserved (replySubject p s.inboxCounter)) }
        (n + 1) := by
  have hnext : replySubject p s.inboxCounter = replySubject p (UInt64.ofNat n) := by rw [h.counter]
  have hmono : ∀ {subject : String}, s.Given n subject →
      Given { s with
        inboxCounter := s.inboxCounter + 1
        threads := Function.update s.threads t (.reserved (replySubject p s.inboxCounter)) }
          (n + 1) subject := fun hgiven => hgiven.mono (Nat.le_succ n) fun _ hq => hq
  -- a thread other than `t` holds what it held
  have hthread : ∀ {t' : Nat} {subject : String},
      Function.update s.threads t (.reserved (replySubject p s.inboxCounter)) t' =
        .reserved subject →
      (t' = t ∧ subject = replySubject p (UInt64.ofNat n)) ∨
        (t' ≠ t ∧ s.threads t' = .reserved subject) := by
    intro t' subject ht'
    by_cases htt : t' = t
    · subst htt
      rw [Function.update_self] at ht'
      exact .inl ⟨rfl, (Calling.reserved.inj ht').symm.trans hnext⟩
    · rw [Function.update_of_ne htt] at ht'
      exact .inr ⟨htt, ht'⟩
  refine ⟨?_, fun i hi => hmono (h.inbox i hi), fun t' subject ht' => ?_,
    fun t₁ t₂ subject h₁ h₂ => ?_, fun t' subject ht' => ?_, h.distinct⟩
  · show s.inboxCounter + 1 = UInt64.ofNat (n + 1)
    rw [h.counter, UInt64.ofNat_add]
    rfl
  · rcases hthread ht' with ⟨-, rfl⟩ | ⟨-, hold⟩
    · exact ⟨p, n, hp, Nat.lt_succ_self n, rfl⟩
    · exact hmono (h.thread t' subject hold)
  · rcases hthread h₁ with ⟨rfl, hs₁⟩ | ⟨-, hold₁⟩
    · rcases hthread h₂ with ⟨rfl, -⟩ | ⟨-, hold₂⟩
      · rfl
      · exact absurd hs₁ ((h.thread _ _ hold₂).ne_next hn hp)
    · rcases hthread h₂ with ⟨rfl, hs₂⟩ | ⟨-, hold₂⟩
      · exact absurd hs₂ ((h.thread _ _ hold₁).ne_next hn hp)
      · exact h.apart t₁ t₂ subject hold₁ hold₂
  · rcases hthread ht' with ⟨-, rfl⟩ | ⟨-, hold⟩
    · intro hmem
      obtain ⟨i, hi, heq⟩ := List.mem_map.mp hmem
      exact (h.inbox i hi).ne_next hn hp heq
    · exact h.new t' subject hold

theorem Named.register (h : s.Named n) {t : Nat} {subject : String}
    (ht : s.threads t = .reserved subject) :
    Named { s with
      inboxes := s.inboxes ++ [{ subject }]
      pendingReplies := Function.update s.pendingReplies subject (some s.inboxes.length)
      threads := Function.update s.threads t (.registered subject s.inboxes.length) } n := by
  have hother : ∀ {t' : Nat} {subject' : String},
      Function.update s.threads t (.registered subject s.inboxes.length) t' =
        .reserved subject' → t' ≠ t ∧ s.threads t' = .reserved subject' := by
    intro t' subject' ht'
    by_cases htt : t' = t
    · subst htt
      rw [Function.update_self] at ht'
      cases ht'
    · rw [Function.update_of_ne htt] at ht'
      exact ⟨htt, ht'⟩
  refine ⟨h.counter, fun i hi => ?_, fun t' subject' ht' => h.thread t' subject' (hother ht').2,
    fun t₁ t₂ subject' h₁ h₂ => h.apart t₁ t₂ subject' (hother h₁).2 (hother h₂).2,
    fun t' subject' ht' => ?_, ?_⟩
  · rcases List.mem_append.mp hi with hi | hi
    · exact h.inbox i hi
    · rw [List.mem_singleton.mp hi]
      exact h.thread t subject ht
  · obtain ⟨hne, hold⟩ := hother ht'
    show subject' ∉ (s.inboxes ++ [({ subject } : Inbox)]).map (·.subject)
    rw [List.map_append, List.mem_append, not_or]
    refine ⟨h.new t' subject' hold, fun hmem => hne ?_⟩
    obtain rfl := List.mem_singleton.mp hmem
    exact h.apart t' t _ hold ht
  · show ((s.inboxes ++ [({ subject } : Inbox)]).map (·.subject)).Nodup
    rw [List.map_append, List.nodup_append]
    refine ⟨h.distinct, by simp, fun x hx y hy heq => ?_⟩
    obtain rfl := List.mem_singleton.mp hy
    exact h.new t _ ht (heq ▸ hx)

end ReplyRouter

end Transport
end Labios
