import Labios.Transport.ReplyRouter

/-!
# Every request its own reply

`replies_routed`: whatever the order of the threads, of the messages and of the
waits, a handle is filled by the first message on the subject of its own request,
and by no other; the waits on it return that message once. A message that comes
before anybody waits is not lost, one that comes late completes nobody else's
handle.
-/

namespace Labios
namespace Transport

open Foundation ReplyRouter

/-! ## How far a request is -/

/-- Handle `h` with what has arrived for it, if anything. -/
inductive Stage (s : ReplyRouter) (h : Nat) (i : Inbox) : Option (List UInt8) → Prop
  | waiting (reply : i.reply = {}) (free : ∀ p, s.delivering ≠ some (h, p))
      (pending : i.refused = false → s.pendingReplies i.subject = some h)
      (received : s.received h = []) : Stage s h i none
  | taken {p} (reply : i.reply = {}) (delivering : s.delivering = some (h, p))
      (gone : s.pendingReplies i.subject = none) (received : s.received h = []) :
      Stage s h i (some p)
  | filled {p} (reply : i.reply = AsyncReply.deliver {} p)
      (free : ∀ q, s.delivering ≠ some (h, q)) (gone : s.pendingReplies i.subject = none)
      (received : s.received h = []) : Stage s h i (some p)
  | read {p k} (reply : i.reply = { data := [], completed := true })
      (free : ∀ q, s.delivering ≠ some (h, q)) (gone : s.pendingReplies i.subject = none)
      (received : s.received h = p :: List.replicate k []) : Stage s h i (some p)
  | dropped {p} (refused : i.refused = true) (reply : i.reply = {})
      (free : ∀ q, s.delivering ≠ some (h, q)) (gone : s.pendingReplies i.subject = none)
      (received : s.received h = []) : Stage s h i (some p)

variable {s s' : ReplyRouter} {actions : List RouterAction} {h : Nat} {i : Inbox}
  {arrived : Option (List UInt8)}

/-- A step that does not concern the handle. -/
theorem Stage.other (hstage : Stage s h i arrived)
    (hdelivering : ∀ p, s'.delivering = some (h, p) ↔ s.delivering = some (h, p))
    (hpending : s'.pendingReplies i.subject = s.pendingReplies i.subject)
    (hreceived : s'.received h = s.received h) : Stage s' h i arrived := by
  have hfree : (∀ p, s.delivering ≠ some (h, p)) → ∀ p, s'.delivering ≠ some (h, p) :=
    fun hfree p hp => hfree p ((hdelivering p).mp hp)
  cases hstage with
  | waiting reply free pending received =>
      exact .waiting reply (hfree free) (fun hr => hpending.trans (pending hr))
        (hreceived.trans received)
  | taken reply delivering gone received =>
      exact .taken reply ((hdelivering _).mpr delivering) (hpending.trans gone)
        (hreceived.trans received)
  | filled reply free gone received =>
      exact .filled reply (hfree free) (hpending.trans gone) (hreceived.trans received)
  | read reply free gone received =>
      exact .read reply (hfree free) (hpending.trans gone) (hreceived.trans received)
  | dropped refused reply free gone received =>
      exact .dropped refused reply (hfree free) (hpending.trans gone) (hreceived.trans received)

/-! ## The invariant -/

/-- After `actions`, every request is at the stage that they lead to. -/
structure Sorted (s : ReplyRouter) (actions : List RouterAction) : Prop where
  named : s.Named (reservations actions)
  count : s.inboxes.length = registrations actions
  registered : ∀ t subject h, s.threads t = .registered subject h →
    ∃ i, s.inboxes[h]? = some i ∧ i.subject = subject
  pending : ∀ subject h, s.pendingReplies subject = some h →
    ∃ i, s.inboxes[h]? = some i ∧ i.subject = subject
  delivering : ∀ h p, s.delivering = some (h, p) → h < s.inboxes.length
  answered : ∀ a ∈ s.answers, a.1 < s.inboxes.length
  stage : ∀ h i, s.inboxes[h]? = some i → Stage s h i (replyTo actions h i.subject)

theorem sorted_start : Sorted {} [] := by
  refine ⟨⟨rfl, ?_, ?_, ?_, ?_, List.nodup_nil⟩, rfl, ?_, ?_, ?_, ?_, ?_⟩ <;> simp

theorem registrations_append (actions : List RouterAction) (a : RouterAction) :
    registrations (actions ++ [a]) = registrations actions + registrations [a] :=
  List.countP_append

theorem reservations_append (actions : List RouterAction) (a : RouterAction) :
    reservations (actions ++ [a]) = reservations actions + reservations [a] :=
  List.countP_append

theorem Sorted.lt_registrations (hs : Sorted s actions) (hi : s.inboxes[h]? = some i) :
    h < registrations actions := by
  rw [← hs.count]
  exact (List.getElem?_eq_some_iff.mp hi).1

/-- Another action adds at most a message. -/
theorem Sorted.replyTo_append (hs : Sorted s actions) (hi : s.inboxes[h]? = some i)
    (a : RouterAction) :
    replyTo (actions ++ [a]) h i.subject =
      (replyTo actions h i.subject).or (firstArrival i.subject [a]) := by
  unfold replyTo
  rw [since_append (hs.lt_registrations hi), firstArrival_append]

/-- A step that neither concerns the handle nor brings a message for it. -/
theorem Sorted.stage_other (hs : Sorted s actions) (hi : s.inboxes[h]? = some i)
    {a : RouterAction} (ha : firstArrival i.subject [a] = none)
    (hdelivering : ∀ p, s'.delivering = some (h, p) ↔ s.delivering = some (h, p))
    (hpending : s'.pendingReplies i.subject = s.pendingReplies i.subject)
    (hreceived : s'.received h = s.received h) :
    Stage s' h i (replyTo (actions ++ [a]) h i.subject) := by
  rw [hs.replyTo_append hi, ha, Option.or_none]
  exact (hs.stage h i hi).other hdelivering hpending hreceived

/-- Two handles have two subjects. -/
theorem Sorted.handle_eq (hs : Sorted s actions) {h' : Nat} {j : Inbox}
    (hi : s.inboxes[h]? = some i) (hj : s.inboxes[h']? = some j)
    (heq : i.subject = j.subject) : h = h' := by
  obtain ⟨hlt, rfl⟩ := List.getElem?_eq_some_iff.mp hi
  obtain ⟨hlt', rfl⟩ := List.getElem?_eq_some_iff.mp hj
  have hlength : (s.inboxes.map (·.subject)).length = s.inboxes.length := List.length_map ..
  have hget : (s.inboxes.map (·.subject)).get ⟨h, hlength ▸ hlt⟩ =
      (s.inboxes.map (·.subject)).get ⟨h', hlength ▸ hlt'⟩ := by
    rw [List.get_eq_getElem, List.get_eq_getElem, List.getElem_map, List.getElem_map]
    exact heq
  exact congrArg Fin.val ((List.Nodup.get_inj_iff hs.named.distinct).mp hget)

/-! ## One step -/

section Step

variable (hs : Sorted s actions)

include hs

theorem Sorted.ensure {inbox : String} (hnone : s.inboxPrefix = none) :
    Sorted { s with inboxPrefix := some (inboxPrefixOf inbox) }
      (actions ++ [.ensureInboxSub inbox]) := by
  refine ⟨?_, ?_, hs.registered, hs.pending, hs.delivering, hs.answered, fun h i hi => ?_⟩
  · rw [reservations_append]
    exact hs.named.mono rfl (fun p hp => absurd (hnone.symm.trans hp) (by simp)) rfl fun _ _ => id
  · rw [registrations_append]
    exact hs.count
  · exact hs.stage_other hi rfl (fun _ => Iff.rfl) rfl rfl

theorem Sorted.reserve {t : Nat} {p : String} (hp : s.inboxPrefix = some p)
    (hfew : reservations actions < 2 ^ 64) :
    Sorted { s with
      inboxCounter := s.inboxCounter + 1
      threads := Function.update s.threads t (.reserved (replySubject p s.inboxCounter)) }
        (actions ++ [.reserve t]) := by
  refine ⟨?_, ?_, fun t' subject h ht' => ?_, hs.pending, hs.delivering, hs.answered,
    fun h i hi => ?_⟩
  · rw [reservations_append]
    exact hs.named.reserve hfew hp
  · rw [registrations_append]
    exact hs.count
  · by_cases htt : t' = t
    · subst htt
      change Function.update _ _ _ _ = _ at ht'
      rw [Function.update_self] at ht'
      cases ht'
    · change Function.update _ _ _ _ = _ at ht'
      rw [Function.update_of_ne htt] at ht'
      exact hs.registered t' subject h ht'
  · exact hs.stage_other hi rfl (fun _ => Iff.rfl) rfl rfl

theorem Sorted.register {t : Nat} {subject : String} (ht : s.threads t = .reserved subject) :
    Sorted { s with
      inboxes := s.inboxes ++ [{ subject }]
      pendingReplies := Function.update s.pendingReplies subject (some s.inboxes.length)
      threads := Function.update s.threads t (.registered subject s.inboxes.length) }
        (actions ++ [.register t]) := by
  have hnew := hs.named.new t subject ht
  have hold : ∀ {h : Nat} {i : Inbox}, s.inboxes[h]? = some i →
      (s.inboxes ++ [({ subject } : Inbox)])[h]? = some i := fun hi =>
    (List.getElem?_append_left (List.getElem?_eq_some_iff.mp hi).1).trans hi
  have hlast : (s.inboxes ++ [({ subject } : Inbox)])[s.inboxes.length]? = some { subject } :=
    List.getElem?_concat_length
  have hless : ∀ {h : Nat}, h < s.inboxes.length →
      h < (s.inboxes ++ [({ subject } : Inbox)]).length := fun hlt => by
    rw [List.length_append]
    exact Nat.lt_succ_of_lt hlt
  refine ⟨?_, ?_, fun t' subject' h ht' => ?_, fun subject' h hh => ?_,
    fun h p hp => hless (hs.delivering h p hp), fun a ha => hless (hs.answered a ha),
    fun h i hi => ?_⟩
  · rw [reservations_append]
    exact hs.named.register ht
  · rw [registrations_append, ← hs.count]
    exact List.length_append
  · change Function.update _ _ _ _ = _ at ht'
    by_cases htt : t' = t
    · subst htt
      rw [Function.update_self] at ht'
      obtain ⟨rfl, rfl⟩ := Calling.registered.inj ht'
      exact ⟨_, hlast, rfl⟩
    · rw [Function.update_of_ne htt] at ht'
      obtain ⟨i, hi, hsubject⟩ := hs.registered t' subject' h ht'
      exact ⟨i, hold hi, hsubject⟩
  · change Function.update _ _ _ _ = _ at hh
    by_cases hss : subject' = subject
    · subst hss
      rw [Function.update_self] at hh
      obtain rfl := Option.some.inj hh
      exact ⟨_, hlast, rfl⟩
    · rw [Function.update_of_ne hss] at hh
      obtain ⟨i, hi, hsubject⟩ := hs.pending subject' h hh
      exact ⟨i, hold hi, hsubject⟩
  · change (s.inboxes ++ [({ subject } : Inbox)])[h]? = some i at hi
    by_cases hlt : h < s.inboxes.length
    · rw [List.getElem?_append_left hlt] at hi
      have hne : i.subject ≠ subject := by
        rintro rfl
        exact hnew (List.mem_map_of_mem (List.mem_of_getElem? hi))
      exact hs.stage_other hi rfl (fun _ => Iff.rfl) (Function.update_of_ne hne ..) rfl
    · -- the new handle
      have hbound := (List.getElem?_eq_some_iff.mp hi).1
      rw [List.length_append, List.length_singleton] at hbound
      obtain rfl : h = s.inboxes.length := by omega
      rw [hlast] at hi
      obtain rfl := Option.some.inj hi
      have hnone : replyTo (actions ++ [.register t]) s.inboxes.length subject = none := by
        unfold replyTo
        rw [hs.count, since_register]
        rfl
      show Stage _ _ _ (replyTo _ _ subject)
      rw [hnone]
      refine .waiting rfl (fun p hp => ?_) (fun _ => Function.update_self ..) ?_
      · exact absurd (hs.delivering _ p hp) (Nat.lt_irrefl _)
      · refine List.filterMap_eq_nil_iff.mpr fun a ha => if_neg fun heq => ?_
        exact absurd (heq ▸ hs.answered a ha) (Nat.lt_irrefl _)

theorem Sorted.published {t : Nat} :
    Sorted { s with threads := Function.update s.threads t .idle }
      (actions ++ [.publish t true]) := by
  have hthread : ∀ {t' : Nat} {c : Calling}, c ≠ .idle → Function.update s.threads t .idle t' = c →
      s.threads t' = c := by
    intro t' c hc ht'
    by_cases htt : t' = t
    · subst htt
      rw [Function.update_self] at ht'
      exact absurd ht'.symm hc
    · rwa [Function.update_of_ne htt] at ht'
  refine ⟨?_, ?_, fun t' subject h ht' => hs.registered t' subject h (hthread (by simp) ht'),
    hs.pending, hs.delivering, hs.answered, fun h i hi => ?_⟩
  · rw [reservations_append]
    exact hs.named.mono rfl (fun _ hp => hp) rfl fun _ _ => hthread (by simp)
  · rw [registrations_append]
    exact hs.count
  · exact hs.stage_other hi rfl (fun _ => Iff.rfl) rfl rfl

end Step

/-! ### Changes to one handle -/

section Change

/-- What is said of a handle's subject stays true when its inbox changes. -/
theorem exists_modify {inboxes : List Inbox} {f : Inbox → Inbox}
    (hf : ∀ i, (f i).subject = i.subject) (changed : Nat) {h : Nat} {subject : String}
    (hi : ∃ i, inboxes[h]? = some i ∧ i.subject = subject) :
    ∃ i, (inboxes.modify changed f)[h]? = some i ∧ i.subject = subject := by
  obtain ⟨i, hi, rfl⟩ := hi
  rw [List.getElem?_modify, hi]
  by_cases heq : changed = h
  · exact ⟨f i, by simp [heq], hf i⟩
  · exact ⟨i, by simp [heq], rfl⟩

theorem subjects_modify {inboxes : List Inbox} {f : Inbox → Inbox}
    (hf : ∀ i, (f i).subject = i.subject) (changed : Nat) :
    (inboxes.modify changed f).map (·.subject) = inboxes.map (·.subject) := by
  refine List.ext_getElem? fun h => ?_
  rw [List.getElem?_map, List.getElem?_map, List.getElem?_modify]
  cases inboxes[h]? with
  | none => simp
  | some i =>
      by_cases heq : changed = h
      · simp [heq, hf]
      · simp [heq]

/-- The inbox of a handle after a change. -/
theorem of_getElem?_modify {inboxes : List Inbox} {f : Inbox → Inbox} {changed h : Nat} {i : Inbox}
    (hi : (inboxes.modify changed f)[h]? = some i) :
    (changed = h ∧ ∃ j, inboxes[h]? = some j ∧ i = f j) ∨ (changed ≠ h ∧ inboxes[h]? = some i) := by
  rw [List.getElem?_modify] at hi
  obtain ⟨j, hj, rfl⟩ := Option.map_eq_some_iff.mp hi
  by_cases heq : changed = h
  · exact .inl ⟨heq, j, hj, by simp [heq]⟩
  · exact .inr ⟨heq, by simp [heq, hj]⟩

theorem received_append (s : ReplyRouter) (a : Nat × Except String (List UInt8)) (h : Nat)
    (inboxes : List Inbox) :
    ReplyRouter.received { s with inboxes, answers := s.answers ++ [a] } h =
      s.received h ++ (if a.1 = h then a.2.toOption else none).toList := by
  unfold ReplyRouter.received
  rw [List.filterMap_append]
  congr 1

variable (hs : Sorted s actions)

include hs

/-- A step that changes one inbox and no thread but to idle. -/
theorem Sorted.modify {a : RouterAction} {f : Inbox → Inbox} (changed : Nat)
    (hf : ∀ i, (f i).subject = i.subject) (hreservations : reservations [a] = 0)
    (hregistrations : registrations [a] = 0)
    (hcounter : s'.inboxCounter = s.inboxCounter) (hinbox : s'.inboxPrefix = s.inboxPrefix)
    (hinboxes : s'.inboxes = s.inboxes.modify changed f)
    (hthreads : ∀ t, s'.threads t = s.threads t ∨ s'.threads t = .idle)
    (hpending : ∀ subject h, s'.pendingReplies subject = some h →
      s.pendingReplies subject = some h)
    (hdelivering : ∀ h p, s'.delivering = some (h, p) →
      s.delivering = some (h, p) ∨ ∃ subject, s.pendingReplies subject = some h)
    (hanswers : ∀ x ∈ s'.answers, x ∈ s.answers ∨ x.1 < s.inboxes.length)
    (hstage : ∀ h i, s'.inboxes[h]? = some i →
      Stage s' h i (replyTo (actions ++ [a]) h i.subject)) :
    Sorted s' (actions ++ [a]) := by
  have hlength : s'.inboxes.length = s.inboxes.length := by rw [hinboxes, List.length_modify]
  have hthread : ∀ {t : Nat} {c : Calling}, c ≠ .idle → s'.threads t = c → s.threads t = c := by
    intro t c hc ht
    rcases hthreads t with hsame | hidle
    · exact hsame ▸ ht
    · exact absurd (ht.symm.trans hidle) hc
  refine ⟨?_, ?_, fun t subject h ht => ?_, fun subject h hh => ?_, fun h p hp => ?_,
    fun x hx => ?_, hstage⟩
  · rw [reservations_append, hreservations, Nat.add_zero]
    refine hs.named.mono hcounter (fun p hp => hinbox.trans hp) ?_ fun _ _ => hthread (by simp)
    rw [hinboxes, subjects_modify hf]
  · rw [registrations_append, hregistrations, hlength]
    exact hs.count
  · rw [hinboxes]
    exact exists_modify hf changed (hs.registered t subject h (hthread (by simp) ht))
  · rw [hinboxes]
    exact exists_modify hf changed (hs.pending subject h (hpending subject h hh))
  · rw [hlength]
    rcases hdelivering h p hp with hold | ⟨subject, hh⟩
    · exact hs.delivering h p hold
    · obtain ⟨i, hi, -⟩ := hs.pending subject h hh
      exact (List.getElem?_eq_some_iff.mp hi).1
  · rw [hlength]
    rcases hanswers x hx with hold | hlt
    · exact hs.answered x hold
    · exact hlt

theorem Sorted.refused {t : Nat} {subject : String} {h : Nat}
    (ht : s.threads t = .registered subject h) :
    Sorted { s with
      inboxes := s.inboxes.modify h fun i => { i with refused := true }
      pendingReplies := Function.update s.pendingReplies subject none
      threads := Function.update s.threads t .idle } (actions ++ [.publish t false]) := by
  obtain ⟨i₀, hi₀, rfl⟩ := hs.registered t subject h ht
  refine hs.modify (f := fun i => { i with refused := true }) h (fun _ => rfl) rfl rfl rfl rfl rfl
    (fun t' => ?_) (fun subject' h' hh => ?_)
    (fun _ _ hp => .inl hp) (fun _ hx => .inl hx) fun h' i hi => ?_
  · by_cases htt : t' = t
    · exact .inr (htt ▸ Function.update_self ..)
    · exact .inl (Function.update_of_ne htt ..)
  · change Function.update _ _ _ _ = _ at hh
    by_cases hss : subject' = i₀.subject
    · rw [hss, Function.update_self] at hh
      cases hh
    · rwa [Function.update_of_ne hss] at hh
  · rcases of_getElem?_modify hi with ⟨rfl, j, hj, rfl⟩ | ⟨hne, hi⟩
    · obtain rfl := Option.some.inj (hi₀.symm.trans hj)
      have hstage := hs.stage h i₀ hi₀
      show Stage _ _ _ (replyTo _ _ i₀.subject)
      rw [hs.replyTo_append hi₀, show firstArrival i₀.subject [.publish t false] = none from rfl,
        Option.or_none]
      generalize replyTo actions h i₀.subject = arrived at hstage ⊢
      cases hstage with
      | waiting reply free _ received =>
          exact .waiting reply free (fun hr => absurd hr (by simp)) received
      | taken reply delivering _ received =>
          exact .taken reply delivering (Function.update_self ..) received
      | filled reply free _ received => exact .filled reply free (Function.update_self ..) received
      | read reply free _ received => exact .read reply free (Function.update_self ..) received
      | dropped _ reply free _ received =>
          exact .dropped rfl reply free (Function.update_self ..) received
    · have hsubject : i.subject ≠ i₀.subject := fun heq => hne (hs.handle_eq hi hi₀ heq).symm
      exact hs.stage_other hi rfl (fun _ => Iff.rfl) (Function.update_of_ne hsubject ..) rfl

/-- A message that nobody waits for. -/
theorem Sorted.unclaimed {subject : String} {payload : List UInt8}
    (hnone : s.pendingReplies subject = none) : Sorted s (actions ++ [.arrive subject payload]) := by
  refine hs.modify (f := id) 0 (fun _ => rfl) rfl rfl rfl rfl (by simp)
    (fun _ => .inl rfl) (fun _ _ hh => hh) (fun _ _ hp => .inl hp) (fun _ hx => .inl hx)
    fun h i hi => ?_
  by_cases hsubject : i.subject = subject
  · have hstage := hs.stage h i hi
    rw [hs.replyTo_append hi, hsubject]
    rw [hsubject] at hstage
    cases hstage' : replyTo actions h subject with
    | some p =>
        rw [hstage'] at hstage
        exact hstage
    | none =>
        rw [hstage'] at hstage
        have hfirst : firstArrival subject [.arrive subject payload] = some payload := if_pos rfl
        rw [hfirst]
        cases hstage with
        | waiting reply free pending received =>
            refine .dropped ?_ reply free (hsubject ▸ hnone) received
            by_contra hr
            have hsome := pending (Bool.eq_false_iff.mpr hr)
            rw [hsubject, hnone] at hsome
            cases hsome
  · exact hs.stage_other hi (if_neg fun heq => hsubject heq.symm) (fun _ => Iff.rfl) rfl rfl

theorem Sorted.claimed {subject : String} {payload : List UInt8} {h : Nat}
    (hidle : s.delivering = none) (hpending : s.pendingReplies subject = some h) :
    Sorted { s with
      pendingReplies := Function.update s.pendingReplies subject none
      delivering := some (h, payload) } (actions ++ [.arrive subject payload]) := by
  obtain ⟨i₀, hi₀, rfl⟩ := hs.pending subject h hpending
  refine hs.modify (f := id) 0 (fun _ => rfl) rfl rfl rfl rfl (by simp)
    (fun _ => .inl rfl) (fun subject' h' hh => ?_) (fun h' p hp => ?_) (fun _ hx => .inl hx)
    fun h' i hi => ?_
  · change Function.update _ _ _ _ = _ at hh
    by_cases hss : subject' = i₀.subject
    · rw [hss, Function.update_self] at hh
      cases hh
    · rwa [Function.update_of_ne hss] at hh
  · obtain ⟨rfl, -⟩ := Prod.mk.inj (Option.some.inj hp)
    exact .inr ⟨_, hpending⟩
  · by_cases hhh : h' = h
    · subst hhh
      obtain rfl := Option.some.inj (hi₀.symm.trans hi)
      have hstage := hs.stage h' i₀ hi₀
      rw [hs.replyTo_append hi₀,
        show firstArrival i₀.subject [.arrive i₀.subject payload] = some payload from if_pos rfl]
      generalize replyTo actions h' i₀.subject = arrived at hstage ⊢
      have hclaimed : ∀ {P : Prop}, s.pendingReplies i₀.subject = none → P := fun hnone =>
        absurd (hnone.symm.trans hpending) (by simp)
      cases hstage with
      | waiting reply _ _ received => exact .taken reply rfl (Function.update_self ..) received
      | taken _ _ gone _ => exact hclaimed gone
      | filled _ _ gone _ => exact hclaimed gone
      | read _ _ gone _ => exact hclaimed gone
      | dropped _ _ _ gone _ => exact hclaimed gone
    · have hsubject : i.subject ≠ i₀.subject := fun heq => hhh (hs.handle_eq hi hi₀ heq)
      refine hs.stage_other hi (if_neg fun heq => hsubject heq.symm) (fun p => ?_)
        (Function.update_of_ne hsubject ..) rfl
      refine iff_of_false (fun hp => ?_) (by rw [hidle]; simp)
      exact hhh (Prod.mk.inj (Option.some.inj hp)).1.symm

theorem Sorted.complete {h : Nat} {payload : List UInt8} (hp : s.delivering = some (h, payload)) :
    Sorted { s with
      inboxes := s.inboxes.modify h fun i => { i with reply := i.reply.deliver payload }
      delivering := none } (actions ++ [.complete]) := by
  refine hs.modify (f := fun i => { i with reply := i.reply.deliver payload }) h (fun _ => rfl) rfl
    rfl rfl rfl rfl (fun _ => .inl rfl) (fun _ _ hh => hh) (fun _ _ hp => absurd hp (by simp)) (fun _ hx => .inl hx) fun h' i hi => ?_
  rcases of_getElem?_modify hi with ⟨rfl, j, hj, rfl⟩ | ⟨hne, hi⟩
  · have hstage := hs.stage h j hj
    show Stage _ _ _ (replyTo _ _ j.subject)
    rw [hs.replyTo_append hj, show firstArrival j.subject [.complete] = none from rfl,
      Option.or_none]
    generalize replyTo actions h j.subject = arrived at hstage ⊢
    have hbusy : ∀ {P : Prop}, (∀ q, s.delivering ≠ some (h, q)) → P := fun hfree =>
      absurd hp (hfree payload)
    cases hstage with
    | waiting _ free _ _ => exact hbusy free
    | taken reply delivering gone received =>
        obtain ⟨-, rfl⟩ := Prod.mk.inj (Option.some.inj (hp.symm.trans delivering))
        refine .filled ?_ (by simp) gone received
        show j.reply.deliver payload = _
        rw [reply]
    | filled _ free _ _ => exact hbusy free
    | read _ free _ _ => exact hbusy free
    | dropped _ _ free _ _ => exact hbusy free
  · refine hs.stage_other hi rfl (fun p => ?_) rfl rfl
    refine iff_of_false (by simp) fun hp' => ?_
    exact hne (Prod.mk.inj (Option.some.inj (hp.symm.trans hp'))).1

theorem Sorted.waited {h : Nat} (hi : s.inboxes[h]? = some i) :
    Sorted { s with
      inboxes := s.inboxes.modify h Inbox.waited
      answers := s.answers ++ [(h, i.reply.wait)] } (actions ++ [.wait h]) := by
  have hsubject : ∀ j : Inbox, j.waited.subject = j.subject := by
    intro j
    unfold Inbox.waited
    split
    · rfl
    · rfl
  refine hs.modify h hsubject rfl rfl rfl rfl rfl (fun _ => .inl rfl) (fun _ _ hh => hh)
    (fun _ _ hp => .inl hp) (fun x hx => ?_) fun h' i' hi' => ?_
  · rcases List.mem_append.mp hx with hx | hx
    · exact .inl hx
    · rw [List.mem_singleton.mp hx]
      exact .inr (List.getElem?_eq_some_iff.mp hi).1
  · rcases of_getElem?_modify hi' with ⟨rfl, j, hj, rfl⟩ | ⟨hne, hi'⟩
    · obtain rfl := Option.some.inj (hi.symm.trans hj)
      have hstage := hs.stage h i hi
      rw [hsubject, hs.replyTo_append hi, show firstArrival i.subject [.wait h] = none from rfl,
        Option.or_none]
      generalize replyTo actions h i.subject = arrived at hstage ⊢
      have hreceived := received_append s (h, i.reply.wait) h (s.inboxes.modify h Inbox.waited)
      rw [if_pos rfl] at hreceived
      -- without a reply a wait changes nothing
      have hempty : i.reply = {} → i.waited = i ∧ i.reply.wait.toOption = none := fun heq => by
        unfold Inbox.waited AsyncReply.wait
        rw [heq]
        exact ⟨rfl, rfl⟩
      cases hstage with
      | waiting reply free pending received =>
          obtain ⟨hsame, hnone⟩ := hempty reply
          rw [hnone, received] at hreceived
          rw [hsame]
          exact .waiting reply free pending hreceived
      | taken reply delivering gone received =>
          obtain ⟨hsame, hnone⟩ := hempty reply
          rw [hnone, received] at hreceived
          rw [hsame]
          exact .taken reply delivering gone hreceived
      | @filled p reply free gone received =>
          have hdata : (AsyncReply.deliver {} p).wait = .ok p := by
            cases p with
            | nil => rfl
            | cons b rest => rfl
          rw [reply, hdata, received] at hreceived
          refine .read (k := 0) ?_ free ?_ ?_
          · unfold Inbox.waited
            rw [reply]
            rfl
          · rw [hsubject]
            exact gone
          · rw [reply, hdata]
            exact hreceived
      | @read p k reply free gone received =>
          rw [reply, received] at hreceived
          refine .read (k := k + 1) ?_ free ?_ ?_
          · unfold Inbox.waited
            rw [reply]
            rfl
          · rw [hsubject]
            exact gone
          · rw [reply, hreceived, List.replicate_succ']
            rfl
      | dropped refused reply free gone received =>
          obtain ⟨hsame, hnone⟩ := hempty reply
          rw [hnone, received] at hreceived
          rw [hsame]
          exact .dropped refused reply free gone hreceived
    · refine hs.stage_other hi' rfl (fun _ => Iff.rfl) rfl ?_
      rw [received_append, if_neg hne]
      simp

end Change

/-! ## Runs -/

theorem Sorted.step (hs : Sorted s actions) {a : RouterAction}
    (hfew : reservations (actions ++ [a]) ≤ 2 ^ 64) (hstep : ReplyRouter.step s a = some s') :
    Sorted s' (actions ++ [a]) := by
  cases a with
  | ensureInboxSub inbox =>
      dsimp only [ReplyRouter.step] at hstep
      cases hinbox : s.inboxPrefix with
      | none =>
          rw [hinbox] at hstep
          obtain rfl := Option.some.inj hstep
          exact hs.ensure hinbox
      | some p =>
          rw [hinbox] at hstep
          obtain rfl := Option.some.inj hstep
          refine hs.modify (f := id) 0 (fun _ => rfl) rfl rfl rfl rfl (by simp)
            (fun _ => .inl rfl) (fun _ _ hh => hh) (fun _ _ hp => .inl hp) (fun _ hx => .inl hx) ?_
          exact fun h i hi => hs.stage_other hi rfl (fun _ => Iff.rfl) rfl rfl
  | reserve t =>
      dsimp only [ReplyRouter.step] at hstep
      split at hstep
      · next p _ hp =>
          obtain rfl := Option.some.inj hstep
          rw [reservations_append] at hfew
          exact hs.reserve hp hfew
      · cases hstep
  | register t =>
      dsimp only [ReplyRouter.step] at hstep
      split at hstep
      · next subject ht =>
          obtain rfl := Option.some.inj hstep
          exact hs.register ht
      · cases hstep
  | publish t ok =>
      dsimp only [ReplyRouter.step] at hstep
      split at hstep
      · next subject h ht =>
          cases ok with
          | true =>
              obtain rfl := Option.some.inj hstep
              exact hs.published
          | false =>
              obtain rfl := Option.some.inj hstep
              exact hs.refused ht
      · cases hstep
  | arrive subject payload =>
      dsimp only [ReplyRouter.step] at hstep
      split at hstep
      · cases hstep
      · next hidle =>
          split at hstep
          · next hnone =>
              obtain rfl := Option.some.inj hstep
              exact hs.unclaimed hnone
          · next h hpending =>
              obtain rfl := Option.some.inj hstep
              exact hs.claimed (Option.not_isSome_iff_eq_none.mp hidle) hpending
  | complete =>
      obtain ⟨⟨h, payload⟩, hp, rfl⟩ := Option.map_eq_some_iff.mp hstep
      exact hs.complete hp
  | wait h =>
      obtain ⟨i, hi, rfl⟩ := Option.map_eq_some_iff.mp hstep
      exact hs.waited hi

theorem sorted_run {back : List RouterAction} (hs : Sorted s actions)
    (hfew : reservations (actions ++ back) ≤ 2 ^ 64)
    (hexec : exec ReplyRouter.step s back = some s') : Sorted s' (actions ++ back) := by
  induction back generalizing s actions with
  | nil =>
      obtain rfl := Option.some.inj hexec
      rwa [List.append_nil]
  | cons a rest ih =>
      obtain ⟨s₁, hstep, hrest⟩ := exec_cons hexec
      rw [List.append_cons] at hfew ⊢
      refine ih (hs.step (Nat.le_trans ?_ hfew) hstep) hfew hrest
      exact List.Sublist.countP_le (List.sublist_append_left ..)

/-- **Every request its own reply.** With fewer reservations than numbers, no two
requests share a subject. What the waits on a handle return is the first message on
its own subject behind its registration, once, and then nothing; until a wait takes
it, the handle holds what `Arrival` says of a request with that message. -/
theorem replies_routed (hfew : reservations actions ≤ 2 ^ 64)
    (hexec : exec ReplyRouter.step {} actions = some s) :
    (s.inboxes.map (·.subject)).Nodup ∧ ∀ h i, s.inboxes[h]? = some i →
      (s.received h = [] ∨ ∃ payload k, replyTo actions h i.subject = some payload ∧
        s.received h = payload :: List.replicate k []) ∧
      (i.refused = false → (∀ p, s.delivering ≠ some (h, p)) → s.received h = [] →
        ∀ labelId, ({ labelId, asyncReply := some i.reply } : PendingLabel) =
          Arrival.pending { labelId, message := replyTo actions h i.subject }) := by
  have hs : Sorted s actions := sorted_run sorted_start hfew hexec
  refine ⟨hs.named.distinct, fun h i hi => ?_⟩
  have hstage := hs.stage h i hi
  generalize replyTo actions h i.subject = arrived at hstage ⊢
  cases hstage with
  | waiting reply _ _ received =>
      refine ⟨.inl received, fun _ _ _ labelId => ?_⟩
      rw [reply]
      rfl
  | taken _ delivering _ received =>
      exact ⟨.inl received, fun _ hfree => absurd delivering (hfree _)⟩
  | filled reply _ _ received =>
      refine ⟨.inl received, fun _ _ _ labelId => ?_⟩
      rw [reply]
      rfl
  | @read p k _ _ _ received =>
      exact ⟨.inr ⟨p, k, rfl, received⟩, fun _ _ hnone => absurd (received.symm.trans hnone)
        (by simp)⟩
  | dropped refused _ _ _ received =>
      exact ⟨.inl received, fun hr => absurd (refused.symm.trans hr) (by simp)⟩

/-- Two threads ask, the second one is answered first, and somebody waits too early. -/
def crossedReplies : List RouterAction :=
  [.ensureInboxSub "_INBOX.a.", .reserve 1, .reserve 2, .register 2, .register 1, .publish 2 true,
    .wait 0, .publish 1 true, .arrive "_INBOX.a.1" [7], .wait 1, .complete, .arrive "_INBOX.a.0" [8],
    .complete, .wait 1, .wait 0, .wait 0]

theorem replies_routed_crossed :
    ∃ s, exec ReplyRouter.step {} crossedReplies = some s ∧ s.received 0 = [[7], []] ∧
      s.received 1 = [[8]] ∧ (s.inboxes.map (·.subject)).Nodup := by
  have hrun : (exec ReplyRouter.step {} crossedReplies).map (fun s =>
      (s.received 0, s.received 1)) = some ([[7], []], [[8]]) := by decide +kernel
  obtain ⟨s, hs, hreceived⟩ := Option.map_eq_some_iff.mp hrun
  exact ⟨s, hs, (Prod.mk.inj hreceived).1, (Prod.mk.inj hreceived).2,
    (replies_routed (by decide) hs).1⟩

end Transport
end Labios
