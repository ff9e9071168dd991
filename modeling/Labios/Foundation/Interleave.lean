import Mathlib.Data.List.Nodup
import Mathlib.Data.List.Pairwise
import Mathlib.Data.List.Perm.Basic

/-!
# Interleavings, and when the order does not matter

`Interleaves units order` says that `order` runs every unit's steps in the
unit's own order and is otherwise free. The rules: an interleaving permutes the
steps (`Interleaves.perm`) and keeps each unit (`Interleaves.sublist`), a property of
ordered pairs holds of every interleaving once it holds inside each unit and, both
ways round, across units (`Interleaves.pairwise`), and running the units one after another, in any order
of the units, is one of the interleavings (`interleaves_of_perm`).

`foldl_eq_of_perm` is the trace theorem the rules feed: two permutations that
order every pair of dependent steps alike have the same effect.
-/

namespace Foundation

variable {α β σ : Type}

/-- `order` is an interleaving of `units`. -/
inductive Interleaves : List (List α) → List α → Prop
  | done {units} : (∀ u ∈ units, u = []) → Interleaves units []
  | step {front u back a order} : Interleaves (front ++ u :: back) order →
      Interleaves (front ++ (a :: u) :: back) (a :: order)

theorem Interleaves.perm {units : List (List α)} {order : List α}
    (h : Interleaves units order) : order.Perm units.flatten := by
  induction h with
  | done hnil =>
      rw [List.flatten_eq_nil_iff.mpr hnil]
  | @step front u back a order _ ih =>
      rw [List.flatten_append, List.flatten_cons] at ih ⊢
      rw [List.cons_append]
      exact (ih.cons a).trans List.perm_middle.symm

theorem Interleaves.mem_iff {units : List (List α)} {order : List α}
    (h : Interleaves units order) {a : α} : a ∈ order ↔ ∃ u ∈ units, a ∈ u := by
  rw [h.perm.mem_iff, List.mem_flatten]

/-- What holds of ordered pairs inside each unit, and of every pair across
units, holds of every ordered pair of an interleaving. -/
theorem Interleaves.pairwise {P : α → α → Prop} {units : List (List α)} {order : List α}
    (h : Interleaves units order) (inside : ∀ u ∈ units, u.Pairwise P)
    (across : units.Pairwise fun u v => ∀ a ∈ u, ∀ b ∈ v, P a b ∧ P b a) :
    order.Pairwise P := by
  induction h with
  | done => exact List.Pairwise.nil
  | @step front u back a order hrest ih =>
      rw [List.pairwise_append] at across
      obtain ⟨hfront, hback, hfb⟩ := across
      rw [List.pairwise_cons] at hback
      have hau := inside (a :: u) (List.mem_append_right _ List.mem_cons_self)
      rw [List.pairwise_cons] at hau
      rw [List.pairwise_cons]
      constructor
      · intro b hb
        obtain ⟨v, hv, hbv⟩ := hrest.mem_iff.mp hb
        rcases List.mem_append.mp hv with hv | hv
        · exact (hfb v hv _ List.mem_cons_self b hbv a List.mem_cons_self).2
        · rcases List.mem_cons.mp hv with rfl | hv
          · exact hau.1 b hbv
          · exact (hback.1 v hv a List.mem_cons_self b hbv).1
      · apply ih
        · intro v hv
          rcases List.mem_append.mp hv with hv | hv
          · exact inside v (List.mem_append_left _ hv)
          · rcases List.mem_cons.mp hv with rfl | hv
            · exact hau.2
            · exact inside v (List.mem_append_right _ (List.mem_cons_of_mem _ hv))
        · rw [List.pairwise_append, List.pairwise_cons]
          refine ⟨hfront, ⟨?_, hback.2⟩, ?_⟩
          · intro v hv x hx y hy
            exact hback.1 v hv x (List.mem_cons_of_mem _ hx) y hy
          · intro v hv w hw x hx y hy
            rcases List.mem_cons.mp hw with rfl | hw
            · exact hfb v hv _ List.mem_cons_self x hx y (List.mem_cons_of_mem _ hy)
            · exact hfb v hv w (List.mem_cons_of_mem _ hw) x hx y hy

/-- Each unit runs in its own order. -/
theorem Interleaves.sublist {units : List (List α)} {order : List α}
    (h : Interleaves units order) {u : List α} (hu : u ∈ units) : u.Sublist order := by
  induction h generalizing u with
  | done hnil =>
      rw [hnil u hu]
  | @step front v back a order _ ih =>
      rcases List.mem_append.mp hu with hu | hu
      · exact (ih (List.mem_append_left _ hu)).cons a
      · rcases List.mem_cons.mp hu with rfl | hu
        · exact (ih (List.mem_append_right _ List.mem_cons_self)).cons_cons a
        · exact (ih (List.mem_append_right _ (List.mem_cons_of_mem _ hu))).cons a

theorem Interleaves.map (f : α → β) {units : List (List α)} {order : List α}
    (h : Interleaves units order) : Interleaves (units.map (List.map f)) (order.map f) := by
  induction h with
  | done hnil =>
      refine .done fun u hu => ?_
      obtain ⟨v, hv, rfl⟩ := List.mem_map.mp hu
      rw [hnil v hv]
      rfl
  | step _ ih =>
      rw [List.map_append, List.map_cons] at ih ⊢
      exact .step ih

/-! ## Running the units one after another -/

theorem Interleaves.cons_nil {units : List (List α)} {order : List α}
    (h : Interleaves units order) : Interleaves ([] :: units) order := by
  induction h with
  | done hnil =>
      refine .done fun u hu => ?_
      rcases List.mem_cons.mp hu with rfl | hu
      · rfl
      · exact hnil u hu
  | @step front u back a order _ ih => exact @Interleaves.step α ([] :: front) u back a _ ih

theorem Interleaves.cons_unit (u : List α) {units : List (List α)} {order : List α}
    (h : Interleaves units order) : Interleaves (u :: units) (u ++ order) := by
  induction u with
  | nil => exact h.cons_nil
  | cons a u ih => exact @Interleaves.step α [] u units a _ ih

theorem interleaves_flatten (units : List (List α)) : Interleaves units units.flatten := by
  induction units with
  | nil => exact .done (by simp)
  | cons u units ih => exact ih.cons_unit u

/-- The order in which the units are listed is immaterial. -/
theorem Interleaves.of_perm {units units' : List (List α)} {order : List α}
    (h : Interleaves units order) (hp : units.Perm units') : Interleaves units' order := by
  induction h generalizing units' with
  | done hnil => exact .done fun u hu => hnil u (hp.mem_iff.mpr hu)
  | @step front u back a order _ ih =>
      have hmem : (a :: u) ∈ units' :=
        hp.mem_iff.mp (List.mem_append_right _ List.mem_cons_self)
      obtain ⟨front', back', rfl⟩ := List.append_of_mem hmem
      have hrest : (front ++ back).Perm (front' ++ back') :=
        (List.perm_middle.symm.trans (hp.trans List.perm_middle)).cons_inv
      exact .step (ih (List.perm_middle.trans ((hrest.cons u).trans List.perm_middle.symm)))

theorem interleaves_of_perm {units units' : List (List α)} (hp : units'.Perm units) :
    Interleaves units units'.flatten :=
  (interleaves_flatten units').of_perm hp

theorem pair_sublist {l : List α} {a b : α} (ha : a ∈ l) (hb : b ∈ l) (hne : a ≠ b) :
    [a, b].Sublist l ∨ [b, a].Sublist l := by
  obtain ⟨front, back, rfl⟩ := List.append_of_mem ha
  rcases List.mem_append.mp hb with hb | hb
  · right
    have hfront : [b].Sublist front := List.singleton_sublist.mpr hb
    exact hfront.append (List.singleton_sublist.mpr List.mem_cons_self)
  · left
    have hback : b ∈ back := (List.mem_cons.mp hb).resolve_left hne.symm
    exact ((List.singleton_sublist.mpr hback).cons_cons a).trans (List.sublist_append_right _ _)

/-- Unless some unit has `b` in front of `a`, some interleaving runs `a` first. -/
theorem exists_interleaving {units : List (List α)} {a b : α} (hne : a ≠ b)
    (ha : a ∈ units.flatten) (hb : b ∈ units.flatten)
    (hno : ∀ u ∈ units, ¬[b, a].Sublist u) :
    ∃ order, Interleaves units order ∧ [a, b].Sublist order := by
  obtain ⟨u, hu, hau⟩ := List.mem_flatten.mp ha
  obtain ⟨front, back, rfl⟩ := List.append_of_mem hu
  by_cases hbu : b ∈ u
  · have hab : [a, b].Sublist u := (pair_sublist hau hbu hne).resolve_right (hno u hu)
    exact ⟨_, interleaves_flatten _, hab.trans (List.sublist_flatten_of_mem hu)⟩
  · -- the unit of `a` first, then all others
    have hperm : (u :: (front ++ back)).Perm (front ++ u :: back) := List.perm_middle.symm
    have hrest : b ∈ (front ++ back).flatten := by
      rw [← hperm.flatten.mem_iff, List.flatten_cons] at hb
      exact (List.mem_append.mp hb).resolve_left hbu
    refine ⟨_, interleaves_of_perm hperm, ?_⟩
    have hfirst : [a].Sublist u := List.singleton_sublist.mpr hau
    exact hfirst.append (List.singleton_sublist.mpr hrest)

/-! ## The trace theorem -/

/-- A step that commutes with everything before it can go first. -/
theorem foldl_to_front (run : σ → α → σ) (front : List α) (a : α)
    (hcomm : ∀ x ∈ front, ∀ s, run (run s x) a = run (run s a) x) (s : σ) :
    run (front.foldl run s) a = front.foldl run (run s a) := by
  induction front generalizing s with
  | nil => rfl
  | cons x front ih =>
      rw [List.foldl_cons, List.foldl_cons,
        ih (fun y hy => hcomm y (List.mem_cons_of_mem _ hy)), hcomm x List.mem_cons_self]

/-- Two permutations that list every dependent pair in the order `R` have the
same effect, when independent steps commute. -/
theorem foldl_eq_of_perm (run : σ → α → σ) (Dep R : α → α → Prop)
    (hcomm : ∀ a b, ¬Dep a b → ∀ s, run (run s a) b = run (run s b) a)
    (hsymm : ∀ a b, Dep a b → Dep b a) (hasymm : ∀ a b, R a b → ¬R b a)
    {l m : List α} (hperm : l.Perm m)
    (hl : l.Pairwise fun a b => Dep a b → R a b)
    (hm : m.Pairwise fun a b => Dep a b → R a b) (s : σ) :
    l.foldl run s = m.foldl run s := by
  induction l generalizing m s with
  | nil => rw [hperm.nil_eq]
  | cons a l ih =>
      obtain ⟨front, back, rfl⟩ := List.append_of_mem (hperm.mem_iff.mp List.mem_cons_self)
      rw [List.pairwise_cons] at hl
      rw [List.pairwise_append, List.pairwise_cons] at hm
      obtain ⟨hfront, ⟨hab, hback⟩, hfb⟩ := hm
      have hrest : l.Perm (front ++ back) := (hperm.trans List.perm_middle).cons_inv
      -- nothing in front of `a` depends on it: the two orders would disagree
      have hfree : ∀ x ∈ front, ∀ s, run (run s x) a = run (run s a) x := by
        intro x hx s'
        by_cases hdep : Dep x a
        · have hxl : x ∈ l := hrest.mem_iff.mpr (List.mem_append_left _ hx)
          exact absurd (hfb x hx a List.mem_cons_self hdep)
            (hasymm _ _ (hl.1 x hxl (hsymm _ _ hdep)))
        · exact hcomm x a hdep s'
      have hpair : (front ++ back).Pairwise fun a b => Dep a b → R a b := by
        rw [List.pairwise_append]
        exact ⟨hfront, hback, fun x hx y hy => hfb x hx y (List.mem_cons_of_mem _ hy)⟩
      rw [List.foldl_cons, ih hrest hl.2 hpair, List.foldl_append, List.foldl_append,
        List.foldl_cons, foldl_to_front run front a hfree]

/-! ## Elements that share a unit -/

/-- Where no element occurs twice, elements of two different units lie in no
common unit. -/
theorem pairwise_not_common {units : List (List α)} (h : units.flatten.Nodup) :
    units.Pairwise fun u v => ∀ a ∈ u, ∀ b ∈ v, ¬∃ w ∈ units, a ∈ w ∧ b ∈ w := by
  have hdisj := (List.nodup_flatten.mp h).2
  have hsymm : Std.Symm (α := List α) List.Disjoint := ⟨fun _ _ => List.disjoint_symm⟩
  have honly : ∀ u ∈ units, ∀ w ∈ units, ∀ a ∈ u, a ∈ w → u = w := by
    intro u hu w hw a hau haw
    by_contra hne
    exact hdisj.forall hu hw hne hau haw
  refine hdisj.imp_of_mem ?_
  rintro u v hu hv huv a ha b hb ⟨w, hw, haw, hbw⟩
  have hu' := honly u hu w hw a ha haw
  have hv' := honly v hv w hw b hb hbw
  exact huv ha (hv'.symm ▸ hu' ▸ ha)

end Foundation
