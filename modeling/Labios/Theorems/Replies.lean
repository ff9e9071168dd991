import Labios.Client.Model
import Labios.Dispatcher.Routing
import Labios.Shuffler.Supertasks
import Labios.Worker.Messages

/-!
# Who is answered

A label's requester is reached in one of three ways: the worker answers the label
itself, it answers the child of a supertask, or a fan-out thread passes the
answer of a merged write on. Assembly starts the thread, so a merged write inside
a supertask answers its first member only; and a single requester that is not the
first member has no thread at all.

`replies_answered_iff` is the exact condition, counted inbox by inbox.
-/

namespace Labios

open Foundation

variable {S : StdSort} {batch : List LabelData} {ρ : Type}

/-! ## Deliveries -/

/-- What a fan-out thread publishes, given everything the workers published. -/
def forward (published : List (String × CompletionData)) (f : Fanout) :
    List (String × CompletionData) :=
  match published.find? (fun m => m.1 = f.inbox) with
  | some m => f.replies.map fun r => (r, m.2)
  | none => []

/-- Everything that arrives on an inbox. -/
def deliveries (fanouts : List Fanout) (published : List (String × CompletionData)) :
    List (String × CompletionData) :=
  published ++ fanouts.flatMap (forward published)

/-- Every requester gets one completion for each of its labels: on an inbox that
one label names, exactly one. -/
def RequestersAnswered (batch : List LabelData) (delivered : List (String × CompletionData)) :
    Prop :=
  ∀ l ∈ batch, l.replyTo ≠ "" →
    (delivered.map (·.1)).count l.replyTo = (batch.map (·.replyTo)).count l.replyTo

/-- The bus hands out inbox names that are new, and no client's. -/
structure FreshInboxes (inboxName : Nat → String) (batch : List LabelData) : Prop where
  nonempty : ∀ n, inboxName n ≠ ""
  fresh : ∀ l ∈ batch, ∀ n, l.replyTo ≠ inboxName n

/-- In a merged run only the first write has a requester, or two or more writes
have one and the merged write is not entangled. -/
def RepliesKept (S : StdSort) (config : ShufflerConfig) (batch : List LabelData) : Prop :=
  ∀ c ∈ clusters S config batch,
    (¬EntangledIn S config batch (represent c) ∧ 1 < (runReplies c).length) ∨
      ∀ w ∈ c.tail, w.replyTo = ""

/-- Who is answered when the aggregated label `l` is executed. -/
def answered (S : StdSort) (config : ShufflerConfig) (batch : List LabelData) (l : LabelData) :
    List String :=
  if EntangledIn S config batch l then nonEmpty [l.replyTo]
  else (fannedOut (aggregate S config batch).replyFanout l).getD (nonEmpty [l.replyTo])

/-! ## Counting deliveries -/

theorem forward_inboxes (published : List (String × CompletionData)) {f : Fanout}
    (h : f.inbox ∈ published.map (·.1)) : (forward published f).map (·.1) = f.replies := by
  unfold forward
  cases hfind : published.find? (fun m => m.1 = f.inbox) with
  | some m => simp [Function.comp_def]
  | none =>
      obtain ⟨m, hm, heq⟩ := List.mem_map.mp h
      exact absurd (by simpa using heq) (List.find?_eq_none.mp hfind m hm)

/-- When every thread's inbox is answered, all replies are passed on. -/
theorem deliveries_inboxes (fanouts : List Fanout) (published : List (String × CompletionData))
    (h : ∀ f ∈ fanouts, f.inbox ∈ published.map (·.1)) :
    (deliveries fanouts published).map (·.1) =
      published.map (·.1) ++ fanouts.flatMap (·.replies) := by
  have hforward : (fanouts.flatMap (forward published)).map (·.1) =
      fanouts.flatMap (·.replies) := by
    rw [List.map_flatMap]
    exact List.flatMap_congr fun f hf => forward_inboxes published (h f hf)
  rw [deliveries, List.map_append, hforward]

theorem addressees_request (supertasks : UInt64 → Option (List LabelData)) (l : LabelData) :
    addressees supertasks (request l) = addressees supertasks l := rfl

section Assembled

variable (d : Dispatcher ρ) (fanout : ReplyFanout)

/-- A fan-out thread listens where its label answers. -/
theorem assembled_inbox (labels : List LabelData) (n : Nat) {p : LabelData × Option Fanout}
    (hp : p ∈ assembled d fanout n labels) {f : Fanout} (hf : p.2 = some f) :
    p.1.replyTo = f.inbox ∧ ∃ k, f.inbox = d.inboxName k := by
  induction labels generalizing n with
  | nil => exact absurd hp List.not_mem_nil
  | cons l rest ih =>
      rw [assembled] at hp
      cases hout : fannedOut fanout l with
      | none =>
          rw [hout] at hp
          rcases List.mem_cons.mp hp with rfl | hp
          · exact absurd hf (by simp)
          · exact ih n hp
      | some replies =>
          rw [hout] at hp
          rcases List.mem_cons.mp hp with rfl | hp
          · obtain rfl := Option.some.inj hf
            exact ⟨rfl, n, rfl⟩
          · exact ih (n + 1) hp

theorem assembled_ids (labels : List LabelData) (n : Nat) :
    (assembled d fanout n labels).map (·.1.id) = labels.map (·.id) := by
  induction labels generalizing n with
  | nil => rfl
  | cons l rest ih =>
      rw [assembled]
      cases fannedOut fanout l with
      | none => rw [List.map_cons, ih, List.map_cons]
      | some replies => rw [List.map_cons, ih, List.map_cons]

/-- On a client's inbox, an independent label counts with its own address or
with the replies of its thread. -/
theorem assembled_count (labels : List LabelData) (n : Nat) {r : String}
    (hr : ∀ k, r ≠ d.inboxName k) :
    ((assembled d fanout n labels).flatMap fun p => nonEmpty [p.1.replyTo]).count r +
        (((assembled d fanout n labels).filterMap (·.2)).flatMap (·.replies)).count r =
      (labels.flatMap fun l => (fannedOut fanout l).getD (nonEmpty [l.replyTo])).count r := by
  induction labels generalizing n with
  | nil => rfl
  | cons l rest ih =>
      rw [assembled]
      cases hout : fannedOut fanout l with
      | none =>
          have hrest := ih n
          simp only [List.flatMap_cons, List.count_append, List.filterMap_cons, hout,
            Option.getD_none]
          omega
      | some replies =>
          have hrest := ih (n + 1)
          have hown : (nonEmpty [d.inboxName n]).count r = 0 := by
            rw [List.count_eq_zero]
            intro hmem
            exact hr n (List.mem_singleton.mp (List.mem_of_mem_filter hmem))
          simp only [List.flatMap_cons, List.count_append, List.filterMap_cons, hout,
            Option.getD_some, hown]
          omega

end Assembled

/-! ## A routed batch -/

section Routed

variable (d : Dispatcher ρ) (workers : List WorkerInfo) (lookup : Option LocationLookup)

/-- A composite answers nobody itself. -/
theorem addressees_composite (packed : UInt64 → Option (List LabelData)) {t : Supertask}
    (htype : t.composite.type = .composite) (hreply : t.composite.replyTo = "")
    (hpacked : (packed t.composite.id).map (·.map request) = some (t.children.map request)) :
    addressees packed (request t.composite) = nonEmpty (t.children.map (·.replyTo)) := by
  obtain ⟨children, hchildren, hreq⟩ := Option.map_eq_some_iff.mp hpacked
  have hmap : ∀ ls : List LabelData, ls.map (·.replyTo) = (ls.map request).map (·.replyTo) := by
    intro ls
    simp [request]
  have hreplies : children.map (·.replyTo) = t.children.map (·.replyTo) := by
    rw [hmap, hreq, ← hmap]
  rw [addressees_request, addressees, if_pos htype, hreply, hchildren, Option.getD_some, hreplies,
    nonEmpty_append]
  simp [nonEmpty]

theorem addressees_plain (packed : UInt64 → Option (List LabelData)) {l : LabelData}
    (htype : l.type ≠ .composite) : addressees packed (request l) = nonEmpty [l.replyTo] := by
  rw [addressees_request, addressees, if_neg htype]

/-- The addressees of what is sent, part by part. -/
theorem sent_addressees (hfind : SolverFinds d workers) {R : ShuffleResult}
    (hids : (R.supertasks.map (·.composite.id)).Nodup)
    (hdirect : ∀ p ∈ R.directRoute, p.1.type ≠ .composite)
    (hindependent : ∀ l ∈ R.independent, l.type ≠ .composite)
    (hcomposite : ∀ t ∈ R.supertasks, t.composite.type = .composite ∧ t.composite.replyTo = "")
    {st : DispatchState ρ} (hsent : st.sent = []) :
    (route d workers R st).sent.flatMap
        (fun m => addressees (route d workers R st).supertasks m.2) =
      R.directRoute.flatMap (fun p => nonEmpty [p.1.replyTo]) ++
        R.supertasks.flatMap (fun t => nonEmpty (t.children.map (·.replyTo))) ++
        (assembledBatch d R st).flatMap fun p => nonEmpty [p.1.replyTo] := by
  obtain ⟨hroute, _, hpacked⟩ := route_spec d workers R st hfind hids
  generalize (route d workers R st).supertasks = packed at hpacked ⊢
  have hmessages : (route d workers R st).sent.flatMap (fun m => addressees packed m.2) =
      ((route d workers R st).sent.map fun m => request m.2).flatMap (addressees packed) := by
    rw [List.flatMap_map]
    rfl
  rw [hmessages, hroute, hsent, List.map_nil, List.nil_append, List.flatMap_append,
    List.flatMap_append, List.flatMap_map, List.flatMap_map, List.flatMap_map]
  congr 1
  · congr 1
    · exact List.flatMap_congr fun p hp => addressees_plain packed (hdirect p hp)
    · exact List.flatMap_congr fun t ht =>
        addressees_composite packed (hcomposite t ht).1 (hcomposite t ht).2 (hpacked t ht)
  · apply List.flatMap_congr
    intro p hp
    apply addressees_plain
    obtain ⟨l, hl, htype, _⟩ := assembled_type d _ _ _ hp
    obtain ⟨l', hl', rfl⟩ := List.mem_map.mp hl
    rw [htype, type_of_request (request_markLabelShuffled l' d.now)]
    exact hindependent l' hl'

/-- The workers' state when the routed batch arrives. -/
def arrived {σ : Type} (st : DispatchState ρ) (storage : σ) : WorkerState σ :=
  { storage, catalog := st.status, supertasks := st.supertasks }

theorem sent_ids (hfind : SolverFinds d workers) {R : ShuffleResult}
    (hids : (R.supertasks.map (·.composite.id)).Nodup) {st : DispatchState ρ}
    (hsent : st.sent = []) :
    (route d workers R st).sent.map (·.2.id) =
      R.directRoute.map (fun p => p.1.id) ++ R.supertasks.map (·.composite.id) ++
        R.independent.map (·.id) := by
  obtain ⟨hroute, _, _⟩ := route_spec d workers R st hfind hids
  have hmessages : (route d workers R st).sent.map (·.2.id) =
      ((route d workers R st).sent.map fun m => request m.2).map (·.id) := by
    rw [List.map_map]
    rfl
  have hindependent : (assembledBatch d R st).map (fun p => p.1.id) = R.independent.map (·.id) := by
    rw [assembledBatch, assembled_ids, markShuffled]
    dsimp only
    rw [List.map_map]
    exact List.map_congr_left fun l _ => id_of_request (request_markLabelShuffled l d.now)
  rw [hmessages, hroute, hsent, List.map_nil, List.nil_append, List.map_append, List.map_append,
    List.map_map, List.map_map, List.map_map, ← hindependent]
  rfl

/-- On a client's inbox, the deliveries are those of the three parts. -/
theorem routed_count (hfind : SolverFinds d workers) {R : ShuffleResult}
    (hids : (R.directRoute.map (fun p => p.1.id) ++ R.supertasks.map (·.composite.id) ++
      R.independent.map (·.id)).Nodup)
    (hdirect : ∀ p ∈ R.directRoute, p.1.type ≠ .composite)
    (hindependent : ∀ l ∈ R.independent, l.type ≠ .composite)
    (hcomposite : ∀ t ∈ R.supertasks, t.composite.type = .composite ∧ t.composite.replyTo = "")
    (hinbox : ∀ n, d.inboxName n ≠ "") {st : DispatchState ρ} (hsent : st.sent = [])
    (hfan : st.fanouts = []) {σ : Type} (w : Int → Worker σ) (storage : σ)
    {messages : List (Int × LabelData)} (hperm : messages.Perm (route d workers R st).sent)
    (hok : AllSucceed w messages (arrived (route d workers R st) storage)) {r : String}
    (hr : ∀ n, r ≠ d.inboxName n) :
    ((deliveries (route d workers R st).fanouts
        (processMessages w messages (arrived (route d workers R st) storage)).published).map
          (·.1)).count r =
      (R.directRoute.flatMap fun p => nonEmpty [p.1.replyTo]).count r +
        (R.supertasks.flatMap fun t => nonEmpty (t.children.map (·.replyTo))).count r +
        (R.independent.flatMap fun l =>
          (fannedOut R.replyFanout l).getD (nonEmpty [l.replyTo])).count r := by
  have htasks : (R.supertasks.map (·.composite.id)).Nodup :=
    (List.nodup_append.mp (List.nodup_append.mp hids).1).2.1
  have hnodup : (messages.map (·.2.id)).Nodup := by
    rw [(hperm.map _).nodup_iff, sent_ids d workers hfind htasks hsent]
    exact hids
  have hpublished : ((processMessages w messages
      (arrived (route d workers R st) storage)).published.map (·.1)).Perm
      ((route d workers R st).sent.flatMap
        fun m => addressees (route d workers R st).supertasks m.2) := by
    rw [processMessages_inboxes w messages _ hnodup hok]
    exact hperm.flatMap_right _
  rw [sent_addressees d workers hfind htasks hdirect hindependent hcomposite hsent] at hpublished
  have hfanouts : (route d workers R st).fanouts = (assembledBatch d R st).filterMap (·.2) := by
    rw [(route_spec d workers R st hfind htasks).2.1, hfan, List.nil_append]
  -- every thread is answered by its label
  have hheard : ∀ f ∈ (assembledBatch d R st).filterMap (·.2), f.inbox ∈
      (processMessages w messages (arrived (route d workers R st) storage)).published.map
        (·.1) := by
    intro f hf
    obtain ⟨p, hp, hpf⟩ := List.mem_filterMap.mp hf
    obtain ⟨hreply, k, hk⟩ := assembled_inbox d _ _ _ hp hpf
    rw [hpublished.mem_iff]
    refine List.mem_append_right _ (List.mem_flatMap.mpr ⟨p, hp, ?_⟩)
    rw [hreply]
    simp [nonEmpty, hk, hinbox k]
  have hmarked : (markShuffled d.now R).independent.flatMap
      (fun l => (fannedOut R.replyFanout l).getD (nonEmpty [l.replyTo])) =
      R.independent.flatMap fun l => (fannedOut R.replyFanout l).getD (nonEmpty [l.replyTo]) := by
    have hrequest : ∀ ls : List LabelData,
        ls.flatMap (fun l => (fannedOut R.replyFanout l).getD (nonEmpty [l.replyTo])) =
          (ls.map request).flatMap
            fun l => (fannedOut R.replyFanout l).getD (nonEmpty [l.replyTo]) := by
      intro ls
      rw [List.flatMap_map]
      rfl
    rw [hrequest, markShuffled_independent, ← hrequest]
  have hcount := assembled_count d R.replyFanout (markShuffled d.now R).independent
    st.fanouts.length hr
  rw [hmarked] at hcount
  rw [hfanouts, deliveries_inboxes _ _ hheard, List.count_append, hpublished.count_eq,
    List.count_append, List.count_append, ← hcount]
  exact Nat.add_assoc _ _ _

end Routed

/-! ## A shuffled batch -/

section Shuffled

variable {config : ShufflerConfig} {lookup : Option LocationLookup}

theorem nonEmpty_replies (ls : List LabelData) :
    nonEmpty (ls.map (·.replyTo)) = ls.flatMap fun l => nonEmpty [l.replyTo] := by
  induction ls with
  | nil => rfl
  | cons l ls ih =>
      rw [List.map_cons, List.flatMap_cons, ← ih, ← nonEmpty_append, List.singleton_append]

theorem direct_type (h : DistinctIds batch) {p : LabelData × Int}
    (hp : p ∈ (shuffle S config batch lookup).directRoute) : p.1.type = .read := by
  obtain ⟨_, _, hloc⟩ := (mem_directRoute h).mp hp
  cases htype : p.1.type with
  | read => rfl
  | _ => simp [readLocation, htype] at hloc

/-- Children of supertasks are answered by the worker, all other labels as
assembly has it. -/
theorem shuffle_count (h : DistinctIds batch) (r : String) :
    ((shuffle S config batch lookup).directRoute.flatMap
          fun p => nonEmpty [p.1.replyTo]).count r +
        ((shuffle S config batch lookup).supertasks.flatMap
          fun t => nonEmpty (t.children.map (·.replyTo))).count r +
        ((shuffle S config batch lookup).independent.flatMap fun l =>
          (fannedOut (aggregate S config batch).replyFanout l).getD
            (nonEmpty [l.replyTo])).count r =
      ((aggregated S config batch).flatMap (answered S config batch)).count r := by
  have hdirect : (shuffle S config batch lookup).directRoute.flatMap
        (fun p => nonEmpty [p.1.replyTo]) =
      ((shuffle S config batch lookup).directRoute.map (·.1)).flatMap fun l =>
        (fannedOut (aggregate S config batch).replyFanout l).getD (nonEmpty [l.replyTo]) := by
    rw [List.flatMap_map]
    apply List.flatMap_congr
    intro p hp
    rw [fannedOut, if_neg (by simp [direct_type h hp]), Option.getD_none]
  have hchildren : ((shuffle S config batch lookup).supertasks.flatMap
        fun t => nonEmpty (t.children.map (·.replyTo))).Perm
      (((aggregated S config batch).filter fun l => EntangledIn S config batch l).flatMap
        fun l => nonEmpty [l.replyTo]) := by
    have hcore : ∀ ls : List LabelData, (ls.flatMap fun l => nonEmpty [l.replyTo]) =
        (ls.map core).flatMap fun l => nonEmpty [l.replyTo] := by
      intro ls
      rw [List.flatMap_map]
      rfl
    simp only [nonEmpty_replies]
    rw [← List.flatMap_assoc, hcore, hcore (List.filter _ _)]
    exact (supertasks_core_perm h).flatMap_right _
  have hrest := (rest_perm h :
    ((shuffle S config batch lookup).directRoute.map (·.1) ++
      (shuffle S config batch lookup).independent).Perm _).flatMap_right fun l =>
    (fannedOut (aggregate S config batch).replyFanout l).getD (nonEmpty [l.replyTo])
  have hsplit := (List.filter_append_perm (fun l => decide (EntangledIn S config batch l))
    (aggregated S config batch)).flatMap_right (answered S config batch)
  rw [List.flatMap_append] at hrest hsplit
  have hyes : ((aggregated S config batch).filter fun l => EntangledIn S config batch l).flatMap
        (answered S config batch) =
      ((aggregated S config batch).filter fun l => EntangledIn S config batch l).flatMap
        fun l => nonEmpty [l.replyTo] := by
    apply List.flatMap_congr
    intro l hl
    exact if_pos (of_decide_eq_true (List.mem_filter.mp hl).2)
  have hno : ((aggregated S config batch).filter
        fun l => !decide (EntangledIn S config batch l)).flatMap (answered S config batch) =
      ((aggregated S config batch).filter fun l => ¬EntangledIn S config batch l).flatMap
        fun l => (fannedOut (aggregate S config batch).replyFanout l).getD
          (nonEmpty [l.replyTo]) := by
    simp only [← decide_not]
    apply List.flatMap_congr
    intro l hl
    exact if_neg (of_decide_eq_true (List.mem_filter.mp hl).2)
  rw [hyes, hno] at hsplit
  have hcount := hsplit.count_eq r
  have hcount' := hrest.count_eq r
  rw [List.count_append] at hcount hcount'
  rw [hdirect, hchildren.count_eq, ← hcount, ← hcount']
  omega

/-! ## What a cluster loses -/

/-- The requesters of a cluster that nobody answers. -/
def lost (S : StdSort) (config : ShufflerConfig) (batch : List LabelData) (c : List LabelData) :
    List String :=
  if ¬EntangledIn S config batch (represent c) ∧ 1 < (runReplies c).length then []
  else runReplies c.tail

theorem answered_represent (h : DistinctIds batch) {c : List LabelData}
    (hc : c ∈ clusters S config batch) :
    answered S config batch (represent c) =
      if ¬EntangledIn S config batch (represent c) ∧ 1 < (runReplies c).length then runReplies c
      else nonEmpty [(clusterHead c).replyTo] := by
  have hfanout := aggregate_replyFanout h hc
  have htwo : 1 < (runReplies c).length → 2 ≤ c.length := by
    intro hmany
    have hle : (runReplies c).length ≤ (c.map (·.replyTo)).length := List.length_filter_le _ _
    rw [List.length_map] at hle
    omega
  unfold answered
  rw [represent_replyTo]
  by_cases hent : EntangledIn S config batch (represent c)
  · rw [if_pos hent, if_neg fun hb => hb.1 hent]
  · rw [if_neg hent, fannedOut, represent_id, hfanout]
    by_cases hmany : 1 < (runReplies c).length
    · have h2 := htwo hmany
      have hkept : ¬EntangledIn S config batch (represent c) ∧ 1 < (runReplies c).length :=
        ⟨hent, hmany⟩
      have hrun : 2 ≤ c.length ∧ 1 < (runReplies c).length := ⟨h2, hmany⟩
      have hmerged : (represent c).children ≠ [] ∧ (represent c).type = .write := by
        rw [represent_of_two_le h2]
        refine ⟨?_, rfl⟩
        show c.map (·.id) ≠ []
        intro hnil
        rw [List.map_eq_nil_iff.mp hnil] at h2
        exact absurd h2 (by simp)
      rw [if_pos hkept, if_pos hrun, if_pos hmerged, Option.getD_some]
    · have hkept : ¬(¬EntangledIn S config batch (represent c) ∧ 1 < (runReplies c).length) :=
        fun hb => hmany hb.2
      have hrun : ¬(2 ≤ c.length ∧ 1 < (runReplies c).length) := fun hb => hmany hb.2
      rw [if_neg hkept, if_neg hrun, ite_self, Option.getD_none]

/-- A cluster's requesters are those answered and those lost. -/
theorem runReplies_perm (h : DistinctIds batch) {c : List LabelData}
    (hc : c ∈ clusters S config batch) :
    runReplies c = answered S config batch (represent c) ++ lost S config batch c := by
  rw [answered_represent h hc, lost]
  by_cases hb : ¬EntangledIn S config batch (represent c) ∧ 1 < (runReplies c).length
  · rw [if_pos hb, if_pos hb, List.append_nil]
  · rw [if_neg hb, if_neg hb]
    cases c with
    | nil => exact absurd rfl (cluster_ne_nil hc)
    | cons first rest => exact nonEmpty_append [first.replyTo] (rest.map (·.replyTo))

/-- Labels on an inbox: those answered there, and those lost. -/
theorem requesters_count (S : StdSort) (config : ShufflerConfig) (h : DistinctIds batch)
    {r : String} (hr : r ≠ "") :
    (batch.map (·.replyTo)).count r =
      ((aggregated S config batch).flatMap (answered S config batch)).count r +
        ((clusters S config batch).flatMap (lost S config batch)).count r := by
  have hflat := ((clusters_flatten_perm S config batch).map (·.replyTo)).count_eq r
  have hruns : ((clusters S config batch).flatten.map (·.replyTo)).count r =
      ((clusters S config batch).flatMap runReplies).count r := by
    have hfilter : (clusters S config batch).flatMap runReplies =
        nonEmpty ((clusters S config batch).flatten.map (·.replyTo)) := by
      rw [nonEmpty, List.map_flatten, List.filter_flatten, List.map_map, List.flatMap_def]
      rfl
    rw [hfilter, nonEmpty, List.count_filter (by simpa using hr)]
  have hsplit : ∀ cs : List (List LabelData), (∀ c ∈ cs, c ∈ clusters S config batch) →
      (cs.flatMap runReplies).count r =
        ((cs.map represent).flatMap (answered S config batch)).count r +
          (cs.flatMap (lost S config batch)).count r := by
    intro cs hcs
    induction cs with
    | nil => rfl
    | cons c cs ih =>
        have hrest := ih fun c' hc' => hcs c' (List.mem_cons_of_mem _ hc')
        have hone := congrArg (List.count r) (runReplies_perm h (hcs c List.mem_cons_self))
        rw [List.count_append] at hone
        simp only [List.flatMap_cons, List.map_cons, List.count_append]
        omega
  rw [← hflat, hruns, hsplit _ fun c hc => hc, aggregated, aggregate_output]

/-- The condition says that no cluster loses a requester. -/
theorem repliesKept_iff : RepliesKept S config batch ↔
    ∀ c ∈ clusters S config batch, lost S config batch c = [] := by
  refine forall₂_congr fun c _ => ?_
  unfold lost
  by_cases hb : ¬EntangledIn S config batch (represent c) ∧ 1 < (runReplies c).length
  · simp [hb]
  · rw [if_neg hb, or_iff_right hb, runReplies, List.filter_eq_nil_iff, List.forall_mem_map]
    simp

end Shuffled

/-! ## The result -/

section Result

variable (d : Dispatcher ρ) {cached refreshed : List WorkerInfo} {st : DispatchState ρ}

/-- On a client's inbox, what a dispatched batch delivers. -/
theorem dispatched_count (h : DistinctIds batch)
    (hkind : ∀ l ∈ batch, l.type = .read ∨ l.type = .write) (hcached : cached ≠ [])
    (hfind : SolverFinds d (usableWorkers cached refreshed)) (hinbox : ∀ n, d.inboxName n ≠ "")
    (hsent : st.sent = []) (hfan : st.fanouts = []) {σ : Type} (w : Int → Worker σ) (storage : σ)
    {messages : List (Int × LabelData)}
    (hperm : messages.Perm (dispatchBatch S d cached refreshed batch st).sent)
    (hok : AllSucceed w messages (arrived (dispatchBatch S d cached refreshed batch st) storage))
    {r : String} (hr : ∀ n, r ≠ d.inboxName n) :
    ((deliveries (dispatchBatch S d cached refreshed batch st).fanouts
        (processMessages w messages (arrived (dispatchBatch S d cached refreshed batch st)
          storage)).published).map (·.1)).count r =
      ((aggregated S d.config batch).flatMap (answered S d.config batch)).count r := by
  rw [dispatchBatch_of_ne_nil S d refreshed batch st hcached] at hperm hok ⊢
  have hplain : ∀ l ∈ (shuffle S d.config batch (some st.locations.getLocation)).directRoute.map
      (·.1) ++ (shuffle S d.config batch (some st.locations.getLocation)).independent,
      l.type ≠ .composite := by
    intro l hl
    rcases aggregated_kind hkind (List.mem_of_mem_filter ((rest_perm h).mem_iff.mp hl)) with hl | hl
    · simp [hl]
    · simp [hl]
  have hcomposite : ∀ t ∈ (shuffle S d.config batch (some st.locations.getLocation)).supertasks,
      t.composite.type = .composite ∧ t.composite.replyTo = "" := by
    intro t ht
    obtain ⟨key, first, rest, _, rfl⟩ := (mem_supertasks h).mp ht
    exact ⟨rfl, rfl⟩
  rw [routed_count d (usableWorkers cached refreshed) hfind (sent_ids_nodup S d.config _ h)
    (fun p hp => hplain p.1 (List.mem_append_left _ (List.mem_map_of_mem hp)))
    (fun l hl => hplain l (List.mem_append_right _ hl)) hcomposite hinbox hsent hfan w storage
    hperm hok hr]
  exact shuffle_count h r

/-- A lost requester is a label of the batch. -/
theorem exists_of_lost {config : ShufflerConfig} {c : List LabelData}
    (hc : c ∈ clusters S config batch) {r : String} (hr : r ∈ lost S config batch c) :
    ∃ l ∈ batch, l.replyTo = r ∧ r ≠ "" := by
  unfold lost at hr
  split at hr
  · exact absurd hr List.not_mem_nil
  · obtain ⟨hmap, hne⟩ := List.mem_filter.mp hr
    obtain ⟨l, hl, rfl⟩ := List.mem_map.mp hmap
    exact ⟨l, mem_of_mem_cluster hc (List.mem_of_mem_tail hl), rfl, by simpa using hne⟩

/-- **Replies.** A batch that is dispatched and executed answers every requester
exactly when its merged writes keep their replies. -/
theorem replies_answered_iff (h : DistinctIds batch)
    (hkind : ∀ l ∈ batch, l.type = .read ∨ l.type = .write) (hcached : cached ≠ [])
    (hfind : SolverFinds d (usableWorkers cached refreshed))
    (hinbox : FreshInboxes d.inboxName batch) (hsent : st.sent = []) (hfan : st.fanouts = [])
    {σ : Type} (w : Int → Worker σ) (storage : σ) {messages : List (Int × LabelData)}
    (hperm : messages.Perm (dispatchBatch S d cached refreshed batch st).sent)
    (hok : AllSucceed w messages
      (arrived (dispatchBatch S d cached refreshed batch st) storage)) :
    RequestersAnswered batch
        (deliveries (dispatchBatch S d cached refreshed batch st).fanouts
          (processMessages w messages
            (arrived (dispatchBatch S d cached refreshed batch st) storage)).published) ↔
      RepliesKept S d.config batch := by
  have hcount := fun r => dispatched_count d h hkind hcached hfind hinbox.nonempty hsent hfan w
    storage hperm hok (r := r)
  unfold RequestersAnswered
  rw [repliesKept_iff]
  constructor
  · intro hall c hc
    by_contra hlost
    obtain ⟨r, hr⟩ := List.exists_mem_of_ne_nil _ hlost
    obtain ⟨l, hl, hlr, hne⟩ := exists_of_lost hc hr
    have hgot := hall l hl (hlr ▸ hne)
    rw [hlr, hcount r (fun n => hlr ▸ hinbox.fresh l hl n), requesters_count S d.config h hne] at hgot
    have hmissing : ((clusters S d.config batch).flatMap (lost S d.config batch)).count r = 0 := by
      omega
    exact List.count_eq_zero.mp hmissing (List.mem_flatMap.mpr ⟨c, hc, hr⟩)
  · intro hnone l hl hne
    have hmissing : (clusters S d.config batch).flatMap (lost S d.config batch) = [] :=
      List.flatMap_eq_nil_iff.mpr hnone
    rw [hcount l.replyTo (hinbox.fresh l hl), requesters_count S d.config h hne, hmissing,
      List.count_nil, Nat.add_zero]

end Result

/-! ## Runs -/

theorem complete_of_default {r : CompletionResult}
    (h : (Except.ok {} : Except String CompletionResult) = .ok r) : r.status = .complete := by
  obtain rfl := Except.ok.inj h
  rfl

/-- Executions succeed and do nothing. -/
def allSucceed : Worker Unit :=
  { name := "worker-1"
    now := 1
    executeWrite := fun _ s => (.ok {}, s)
    executeRead := fun _ s => (.ok {}, s)
    processContinuation := fun _ _ s => s
    write_complete := fun _ _ _ h => complete_of_default h
    read_complete := fun _ _ _ h => complete_of_default h }

/-- Two abutting writes of one file, each with a requester. -/
def abuttingWrites : List LabelData :=
  [receive "client.1" 1 (writeChunk 1 7 1 0 "a" 0 10),
    receive "client.2" 1 (writeChunk 2 7 1 0 "a" 10 10)]

/-- The same and a read of both. -/
def abuttingWritesRead : List LabelData :=
  abuttingWrites ++ [receive "client.3" 1 (readChunk 3 7 1 "a" 5 10)]

theorem oneWorker_fresh : FreshInboxes oneWorker.inboxName abuttingWrites := by
  refine ⟨fun n hn => ?_, fun l hl n hn => ?_⟩
  · have hlist := congrArg String.toList hn
    simp [oneWorker] at hlist
  · have hlist := congrArg String.toList hn
    simp only [abuttingWrites, List.mem_cons, List.not_mem_nil, or_false] at hl
    rcases hl with rfl | rfl
    · simp [oneWorker, receive, markLabelQueued, stampCreated, writeChunk, markLabelCreated] at hlist
    · simp [oneWorker, receive, markLabelQueued, stampCreated, writeChunk, markLabelCreated] at hlist

theorem replies_answered_abuttingWrites :
    RequestersAnswered abuttingWrites
        (deliveries (dispatchBatch .insertion oneWorker [{ id := 1 }] [] abuttingWrites idle).fanouts
          (processMessages (fun _ => allSucceed)
            (dispatchBatch .insertion oneWorker [{ id := 1 }] [] abuttingWrites idle).sent
            (arrived (dispatchBatch .insertion oneWorker [{ id := 1 }] [] abuttingWrites idle)
              ())).published) ↔
      RepliesKept .insertion {} abuttingWrites :=
  replies_answered_iff oneWorker (by decide) (by decide) (by decide)
    (oneWorker_finds _) oneWorker_fresh rfl rfl (fun _ => allSucceed) () (.refl _)
    ⟨⟨{}, rfl⟩, trivial⟩

theorem abuttingWritesRead_not_answered :
    AllSucceed (fun _ => allSucceed)
        (dispatchBatch .insertion oneWorker [{ id := 1 }] [] abuttingWritesRead idle).sent
        (arrived (dispatchBatch .insertion oneWorker [{ id := 1 }] [] abuttingWritesRead idle)
          ()) ∧
      ¬RequestersAnswered abuttingWritesRead
        (deliveries
          (dispatchBatch .insertion oneWorker [{ id := 1 }] [] abuttingWritesRead idle).fanouts
          (processMessages (fun _ => allSucceed)
            (dispatchBatch .insertion oneWorker [{ id := 1 }] [] abuttingWritesRead idle).sent
            (arrived
              (dispatchBatch .insertion oneWorker [{ id := 1 }] [] abuttingWritesRead idle)
              ())).published) := by
  refine ⟨⟨⟨_, _, rfl, rfl⟩, trivial⟩, ?_⟩
  unfold RequestersAnswered
  decide

end Labios
