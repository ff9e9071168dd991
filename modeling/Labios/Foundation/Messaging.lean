import Mathlib.Data.List.Basic
import Mathlib.Data.Set.BooleanAlgebra
import Mathlib.Logic.Function.Basic
import Mathlib.Logic.Relation
import Mathlib.Order.CompletePartialOrder

/-!
# A publisher and its parties

One publisher runs a program: commands of its own and messages to parties. A
party runs the commands of its messages in order of arrival. All commands act on
one store, each at once; the publisher and the parties interleave freely.

`rank_mono` is the ordering argument. Commands write ranks to keys. When the
publisher writes no key behind a message that touches it, and the parties' writes
rank no lower and ascend, the rank of every key only grows.
-/

namespace Foundation

variable {σ κ : Type}

/-- A step of the publisher. The commands that handle a message are one of some
programs. -/
inductive PublisherStep (κ : Type)
  | own (c : κ)
  | send (party : Int) (programs : List κ → Prop)

/-- What remains to be done, and the store. -/
structure Parties (σ κ : Type) where
  program : List (PublisherStep κ)
  queues : Int → List κ
  store : σ

section Steps

variable (act : κ → σ → σ)

inductive PartyStep : Parties σ κ → Parties σ κ → Prop
  | own {c rest queues store} :
      PartyStep ⟨.own c :: rest, queues, store⟩ ⟨rest, queues, act c store⟩
  | send {party programs rest queues store commands} (h : programs commands) :
      PartyStep ⟨.send party programs :: rest, queues, store⟩
        ⟨rest, Function.update queues party (queues party ++ commands), store⟩
  | work {program queues store} {party : Int} {c commands} (h : queues party = c :: commands) :
      PartyStep ⟨program, queues, store⟩
        ⟨program, Function.update queues party commands, act c store⟩

/-- Runs of any length. -/
abbrev PartyRun : Parties σ κ → Parties σ κ → Prop := Relation.ReflTransGen (PartyStep act)

/-- A party can run what stands in front of its queue. -/
theorem exists_drain (program : List (PublisherStep κ)) (party : Int) (front back : List κ)
    (queues : Int → List κ) (store : σ) (h : queues party = front ++ back) :
    ∃ queues', PartyRun act ⟨program, queues, store⟩
      ⟨program, queues', front.foldl (fun s c => act c s) store⟩ := by
  induction front generalizing queues store with
  | nil => exact ⟨queues, .refl⟩
  | cons c front ih =>
      obtain ⟨queues', hrun⟩ := ih (Function.update queues party (front ++ back)) (act c store)
        (Function.update_self ..)
      exact ⟨queues', .head (.work h) hrun⟩

/-- The publisher can run what stands in front of its program; the queues grow. -/
theorem exists_advance (front back : List (PublisherStep κ))
    (hprograms : ∀ party programs, .send party programs ∈ front → ∃ commands, programs commands)
    (queues : Int → List κ) (store : σ) :
    ∃ queues' store', PartyRun act ⟨front ++ back, queues, store⟩ ⟨back, queues', store'⟩ ∧
      ∀ party, queues party <+: queues' party := by
  induction front generalizing queues store with
  | nil => exact ⟨queues, store, .refl, fun _ => List.prefix_rfl⟩
  | cons p front ih =>
      have hrest := fun party programs h => hprograms party programs (List.mem_cons_of_mem p h)
      cases p with
      | own c =>
          obtain ⟨queues', store', hrun, hgrow⟩ := ih hrest queues (act c store)
          exact ⟨queues', store', .head .own hrun, hgrow⟩
      | send party programs =>
          obtain ⟨commands, hcommands⟩ := hprograms party programs List.mem_cons_self
          obtain ⟨queues', store', hrun, hgrow⟩ :=
            ih hrest (Function.update queues party (queues party ++ commands)) store
          refine ⟨queues', store', .head (.send hcommands) hrun, fun other => ?_⟩
          refine List.IsPrefix.trans ?_ (hgrow other)
          by_cases ho : other = party
          · subst ho
            rw [Function.update_self]
            exact List.prefix_append _ _
          · have hsame := Function.update_of_ne ho (queues party ++ commands) queues
            exact hsame ▸ List.prefix_rfl

end Steps

/-! ## Ranks -/

/-- Which key a command writes, and with which rank. -/
structure Ranking (σ κ ι : Type) where
  writes : κ → Option (ι × Nat)
  rank : σ → ι → Nat

namespace Ranking

variable {ι : Type} [DecidableEq ι] (R : Ranking σ κ ι)

/-- Acting on the store sets the rank of the key that is written. -/
def Lawful (act : κ → σ → σ) : Prop :=
  ∀ c s x, R.rank (act c s) x =
    match R.writes c with
    | some (key, r) => if key = x then r else R.rank s x
    | none => R.rank s x

/-- The rank a command writes to a key. -/
def rankOf (x : ι) (c : κ) : Option Nat :=
  match R.writes c with
  | some (key, r) => if key = x then some r else none
  | none => none

/-- The ranks that a list of commands writes to a key. -/
def ranksOf (x : ι) (commands : List κ) : List Nat := commands.filterMap (R.rankOf x)

/-- The commands for a message write its keys only, and every key in ascending
ranks of at least `b`. -/
structure Handles (b : Nat) (keys : Set ι) (commands : List κ) : Prop where
  keys : ∀ x, R.ranksOf x commands ≠ [] → x ∈ keys
  ascending : ∀ x, (R.ranksOf x commands).Pairwise (· ≤ ·)
  high : ∀ x, ∀ r ∈ R.ranksOf x commands, b ≤ r

/-- A program over some keys: the publisher writes rank `b`, and what stands
behind a message leaves the keys of the message alone. -/
inductive Orderly (b : Nat) : List (PublisherStep κ) → Set ι → Prop
  | nil {keys} : Orderly b [] keys
  | own {c rest keys} (hown : ∀ x r, R.writes c = some (x, r) → r = b ∧ x ∈ keys)
      (hrest : Orderly b rest keys) : Orderly b (.own c :: rest) keys
  | send {party programs rest keys} {sent : Set ι}
      (hhandles : ∀ commands, programs commands → R.Handles b sent commands)
      (hsent : sent ⊆ keys) (hrest : Orderly b rest (keys \ sent)) :
      Orderly b (.send party programs :: rest) keys

theorem Lawful.rank_act {R : Ranking σ κ ι} {act : κ → σ → σ} (h : R.Lawful act) (c : κ) (s : σ)
    (x : ι) : R.rank (act c s) x = (R.rankOf x c).getD (R.rank s x) := by
  rw [h c s x, rankOf]
  split
  · split
    · rfl
    · rfl
  · rfl

theorem ranksOf_append (x : ι) (front back : List κ) :
    R.ranksOf x (front ++ back) = R.ranksOf x front ++ R.ranksOf x back :=
  List.filterMap_append ..

theorem ranksOf_cons (x : ι) (c : κ) (rest : List κ) :
    R.ranksOf x (c :: rest) = (R.rankOf x c).toList ++ R.ranksOf x rest := by
  unfold ranksOf
  rw [List.filterMap_cons]
  cases R.rankOf x c with
  | none => rfl
  | some r => rfl

/-- Every key is either still the publisher's, or belongs to one party. -/
structure Settled (b : Nat) (s : Parties σ κ) (keys : Set ι) : Prop where
  program : R.Orderly b s.program keys
  fresh : ∀ x ∈ keys, R.rank s.store x ≤ b ∧ ∀ party, R.ranksOf x (s.queues party) = []
  owned : ∀ x ∉ keys, ∃ party, (∀ other, other ≠ party → R.ranksOf x (s.queues other) = []) ∧
    (R.rank s.store x :: R.ranksOf x (s.queues party)).Pairwise (· ≤ ·)

variable {R} {act : κ → σ → σ} {b : Nat}

theorem writes_of_rankOf {x : ι} {c : κ} {r : Nat} (h : R.rankOf x c = some r) :
    R.writes c = some (x, r) := by
  unfold rankOf at h
  split at h
  · next key rank hw =>
      split at h
      · next heq =>
          obtain rfl := Option.some.inj h
          rw [hw, heq]
      · cases h
  · cases h

/-- A queue at whose end commands are put that do not write the key. -/
theorem ranksOf_update_append {x : ι} {commands : List κ} (hnone : R.ranksOf x commands = [])
    (queues : Int → List κ) (party p : Int) :
    R.ranksOf x (Function.update queues party (queues party ++ commands) p) =
      R.ranksOf x (queues p) := by
  by_cases hp : p = party
  · subst hp
    rw [Function.update_self, ranksOf_append, hnone, List.append_nil]
  · rw [Function.update_of_ne hp]

/-- A queue whose first command does not write the key is run. -/
theorem ranksOf_update_tail {x : ι} {c : κ} (hnone : R.rankOf x c = none) {queues : Int → List κ}
    {party : Int} {commands : List κ} (hqueue : queues party = c :: commands) (p : Int) :
    R.ranksOf x (Function.update queues party commands p) = R.ranksOf x (queues p) := by
  by_cases hp : p = party
  · subst hp
    rw [Function.update_self, hqueue, ranksOf_cons, hnone]
    rfl
  · rw [Function.update_of_ne hp]

/-! ## Settled keys, step by step -/

section Settled

variable {program : List (PublisherStep κ)} {queues : Int → List κ} {store : σ} {keys : Set ι}

/-- The publisher writes rank `b` to a key of its own. -/
theorem Settled.own (hlaw : R.Lawful act) {c : κ}
    (h : R.Settled b ⟨.own c :: program, queues, store⟩ keys) :
    R.Settled b ⟨program, queues, act c store⟩ keys ∧
      ∀ x, R.rank store x ≤ R.rank (act c store) x := by
  obtain ⟨hprogram, hfresh, howned⟩ := h
  cases hprogram with
  | own hown hrest =>
      have hrank : ∀ x, R.rank (act c store) x = R.rank store x ∨
          (x ∈ keys ∧ R.rank (act c store) x = b) := by
        intro x
        rw [hlaw.rank_act]
        cases hr : R.rankOf x c with
        | none => exact .inl rfl
        | some r =>
            obtain ⟨rfl, hx⟩ := hown x r (writes_of_rankOf hr)
            exact .inr ⟨hx, rfl⟩
      refine ⟨⟨hrest, fun x hx => ⟨?_, (hfresh x hx).2⟩, fun x hx => ?_⟩, fun x => ?_⟩
      · rcases hrank x with hsame | ⟨-, hb⟩
        · exact hsame.le.trans (hfresh x hx).1
        · exact hb.le
      · rcases hrank x with hsame | ⟨hin, -⟩
        · show ∃ party, _ ∧ (R.rank (act c store) x :: _).Pairwise _
          rw [hsame]
          exact howned x hx
        · exact absurd hin hx
      · rcases hrank x with hsame | ⟨hin, hb⟩
        · exact hsame.ge
        · exact (hfresh x hin).1.trans hb.ge

/-- A message hands its keys to the party. -/
theorem Settled.send {party : Int} {programs : List κ → Prop} {commands : List κ}
    (h : R.Settled b ⟨.send party programs :: program, queues, store⟩ keys)
    (hcommands : programs commands) :
    ∃ keys', R.Settled b
      ⟨program, Function.update queues party (queues party ++ commands), store⟩ keys' := by
  obtain ⟨hprogram, hfresh, howned⟩ := h
  cases hprogram with
  | @send _ _ _ _ sent hhandles hsent hrest =>
      obtain ⟨hin, hascending, hhigh⟩ := hhandles commands hcommands
      have hother : ∀ x, x ∉ sent → ∀ p, R.ranksOf x
          (Function.update queues party (queues party ++ commands) p) =
            R.ranksOf x (queues p) := fun x hx =>
        ranksOf_update_append (by_contra fun hne => hx (hin x hne)) queues party
      refine ⟨keys \ sent, hrest, fun x hx => ?_, fun x hx => ?_⟩
      · obtain ⟨hlow, hempty⟩ := hfresh x hx.1
        exact ⟨hlow, fun p => (hother x hx.2 p).trans (hempty p)⟩
      · by_cases hxs : x ∈ sent
        · obtain ⟨hlow, hempty⟩ := hfresh x (hsent hxs)
          refine ⟨party, fun p hp => ?_, ?_⟩
          · show R.ranksOf x (Function.update queues party _ p) = []
            rw [Function.update_of_ne hp]
            exact hempty p
          · show (R.rank store x :: R.ranksOf x (Function.update queues party _ party)).Pairwise _
            rw [Function.update_self, ranksOf_append, hempty, List.nil_append,
              List.pairwise_cons]
            exact ⟨fun r hr => hlow.trans (hhigh x r hr), hascending x⟩
        · have hxk : x ∉ keys := fun hxk => hx ⟨hxk, hxs⟩
          obtain ⟨p, hothers, hsorted⟩ := howned x hxk
          refine ⟨p, fun q hq => (hother x hxs q).trans (hothers q hq), ?_⟩
          show (R.rank store x :: R.ranksOf x (Function.update queues party _ p)).Pairwise _
          rw [hother x hxs p]
          exact hsorted

/-- A key that a party is about to write is that party's. -/
theorem Settled.written (h : R.Settled b ⟨program, queues, store⟩ keys) {party : Int} {c : κ}
    {commands : List κ} (hqueue : queues party = c :: commands) {x : ι} {r : Nat}
    (hr : R.rankOf x c = some r) :
    x ∉ keys ∧ R.rank store x ≤ r ∧ (∀ p, p ≠ party → R.ranksOf x (queues p) = []) ∧
      (r :: R.ranksOf x commands).Pairwise (· ≤ ·) := by
  have hne : R.ranksOf x (queues party) = r :: R.ranksOf x commands := by
    rw [hqueue, ranksOf_cons, hr]
    rfl
  have hxk : x ∉ keys := by
    intro hxk
    have hempty := (h.fresh x hxk).2 party
    rw [hne] at hempty
    cases hempty
  obtain ⟨p, hothers, hsorted⟩ := h.owned x hxk
  obtain rfl : p = party := by
    by_contra hp
    have hempty := hothers party (Ne.symm hp)
    rw [hne] at hempty
    cases hempty
  rw [hne, List.pairwise_cons] at hsorted
  exact ⟨hxk, hsorted.1 r List.mem_cons_self, hothers, hsorted.2⟩

/-- A party runs the command in front of its queue. -/
theorem Settled.work (hlaw : R.Lawful act) (h : R.Settled b ⟨program, queues, store⟩ keys)
    {party : Int} {c : κ} {commands : List κ} (hqueue : queues party = c :: commands) :
    R.Settled b ⟨program, Function.update queues party commands, act c store⟩ keys ∧
      ∀ x, R.rank store x ≤ R.rank (act c store) x := by
  have hquiet : ∀ x, R.rankOf x c = none → R.rank (act c store) x = R.rank store x := by
    intro x hx
    rw [hlaw.rank_act, hx]
    rfl
  refine ⟨⟨h.program, fun x hx => ?_, fun x hx => ?_⟩, fun x => ?_⟩
  · have hnone : R.rankOf x c = none := by
      cases hr : R.rankOf x c with
      | none => rfl
      | some r => exact absurd hx (h.written hqueue hr).1
    obtain ⟨hlow, hempty⟩ := h.fresh x hx
    exact ⟨(hquiet x hnone).le.trans hlow,
      fun p => (ranksOf_update_tail hnone hqueue p).trans (hempty p)⟩
  · cases hr : R.rankOf x c with
    | none =>
        obtain ⟨p, hothers, hsorted⟩ := h.owned x hx
        refine ⟨p, fun q hq => (ranksOf_update_tail hr hqueue q).trans (hothers q hq), ?_⟩
        show (R.rank (act c store) x :: R.ranksOf x (Function.update queues party _ p)).Pairwise _
        rw [hquiet x hr, ranksOf_update_tail hr hqueue]
        exact hsorted
    | some r =>
        obtain ⟨-, -, hothers, hsorted⟩ := h.written hqueue hr
        refine ⟨party, fun q hq => ?_, ?_⟩
        · show R.ranksOf x (Function.update queues party commands q) = []
          rw [Function.update_of_ne hq]
          exact hothers q hq
        · show (R.rank (act c store) x ::
            R.ranksOf x (Function.update queues party commands party)).Pairwise _
          rw [Function.update_self, hlaw.rank_act, hr]
          exact hsorted
  · cases hr : R.rankOf x c with
    | none => exact (hquiet x hr).ge
    | some r =>
        rw [hlaw.rank_act, hr]
        exact (h.written hqueue hr).2.1

/-- One step keeps the keys settled and lowers no rank. -/
theorem Settled.step (hlaw : R.Lawful act) {s s' : Parties σ κ} (hstep : PartyStep act s s')
    (h : R.Settled b s keys) :
    (∃ keys', R.Settled b s' keys') ∧ ∀ x, R.rank s.store x ≤ R.rank s'.store x := by
  cases hstep with
  | own =>
      obtain ⟨hsettled, hmono⟩ := h.own hlaw
      exact ⟨⟨keys, hsettled⟩, hmono⟩
  | send hcommands => exact ⟨h.send hcommands, fun x => le_refl _⟩
  | work hqueue =>
      obtain ⟨hsettled, hmono⟩ := h.work hlaw hqueue
      exact ⟨⟨keys, hsettled⟩, hmono⟩

end Settled

/-- From a settled state on, no rank is ever lowered. -/
theorem rank_mono (hlaw : R.Lawful act) {s s' s'' : Parties σ κ} {keys : Set ι}
    (h : R.Settled b s keys) (hrun : PartyRun act s s') (hlater : PartyRun act s' s'') (x : ι) :
    R.rank s'.store x ≤ R.rank s''.store x := by
  have hsettled : ∃ keys', R.Settled b s' keys' := by
    clear hlater
    induction hrun with
    | refl => exact ⟨keys, h⟩
    | tail _ hstep ih =>
        obtain ⟨keys', h'⟩ := ih
        exact (h'.step hlaw hstep).1
  obtain ⟨keys', h'⟩ := hsettled
  have hboth : (∃ keys, R.Settled b s'' keys) ∧ R.rank s'.store x ≤ R.rank s''.store x := by
    induction hlater with
    | refl => exact ⟨⟨keys', h'⟩, le_refl _⟩
    | tail _ hstep ih =>
        obtain ⟨⟨keys, hk⟩, hle⟩ := ih
        obtain ⟨hnext, hrank⟩ := hk.step hlaw hstep
        exact ⟨hnext, hle.trans (hrank x)⟩
  exact hboth.2

/-- At the start nothing has been sent. -/
theorem settled_start {program : List (PublisherStep κ)} {keys : Set ι}
    (hprogram : R.Orderly b program keys) (store : σ)
    (hfresh : ∀ x ∈ keys, R.rank store x ≤ b) :
    R.Settled b ⟨program, fun _ => [], store⟩ keys :=
  ⟨hprogram, fun x hx => ⟨hfresh x hx, fun _ => rfl⟩,
    fun _ _ => ⟨0, fun _ _ => rfl, List.pairwise_singleton ..⟩⟩

theorem Orderly.mono {program : List (PublisherStep κ)} {keys : Set ι}
    (h : R.Orderly b program keys) {more : Set ι} (hsub : keys ⊆ more) :
    R.Orderly b program more := by
  induction h generalizing more with
  | nil => exact .nil
  | own hown _ ih => exact .own (fun x r hw => ⟨(hown x r hw).1, hsub (hown x r hw).2⟩) (ih hsub)
  | send hhandles hsent _ ih =>
      exact .send hhandles (hsent.trans hsub) (ih fun x hx => ⟨hsub hx.1, hx.2⟩)

/-- Commands of the publisher in front of a program. -/
theorem Orderly.owns {commands : List κ} {rest : List (PublisherStep κ)} {keys : Set ι}
    (hown : ∀ c ∈ commands, ∀ x r, R.writes c = some (x, r) → r = b ∧ x ∈ keys)
    (hrest : R.Orderly b rest keys) : R.Orderly b (commands.map .own ++ rest) keys := by
  induction commands with
  | nil => exact hrest
  | cons c commands ih =>
      exact .own (hown c List.mem_cons_self) (ih fun c' hc' => hown c' (List.mem_cons_of_mem c hc'))

/-- Programs over disjoint keys, one after the other. -/
theorem Orderly.append {front back : List (PublisherStep κ)} {keys more : Set ι}
    (hfront : R.Orderly b front keys) (hback : R.Orderly b back more)
    (hdisjoint : Disjoint keys more) : R.Orderly b (front ++ back) (keys ∪ more) := by
  induction hfront with
  | nil => exact hback.mono Set.subset_union_right
  | own hown _ ih =>
      exact .own (fun x r hw => ⟨(hown x r hw).1, .inl (hown x r hw).2⟩) (ih hdisjoint)
  | @send _ _ _ keys sent hhandles hsent _ ih =>
      refine .send hhandles (hsent.trans Set.subset_union_left) ?_
      refine (ih (hdisjoint.mono_left Set.sdiff_subset)).mono ?_
      rintro x (hx | hx)
      · exact ⟨.inl hx.1, hx.2⟩
      · exact ⟨.inr hx, fun hxs => (Set.disjoint_left.mp hdisjoint) (hsent hxs) hx⟩

end Ranking
end Foundation
