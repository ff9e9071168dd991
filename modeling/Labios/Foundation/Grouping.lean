import Mathlib.Data.List.Induction
import Mathlib.Data.List.Nodup
import Mathlib.Data.List.Perm.Basic

/-!
# Insertion-ordered grouping

The C++ idiom of an `unordered_map` from a key to a vector, beside a vector that
records the order in which the keys first appeared. The result lists the groups
in that order; a group holds the elements of its key in input order.
-/

namespace Foundation

variable {α κ : Type} [DecidableEq κ]

/-- `try_emplace` the key, then `push_back` the element. -/
def pushGroup (k : κ) (a : α) : List (κ × List α) → List (κ × List α)
  | [] => [(k, [a])]
  | (k', g) :: rest =>
      if k' = k then (k', g ++ [a]) :: rest else (k', g) :: pushGroup k a rest

/-- Group a list by a key, in order of first appearance. -/
def groupBy (key : α → κ) (l : List α) : List (κ × List α) :=
  l.foldl (fun groups a => pushGroup (key a) a groups) []

/-! ## What one insertion does -/

theorem pushGroup_flatMap_perm (k : κ) (a : α) (groups : List (κ × List α)) :
    ((pushGroup k a groups).flatMap (·.2)).Perm (groups.flatMap (·.2) ++ [a]) := by
  induction groups with
  | nil => simp [pushGroup]
  | cons g rest ih =>
      obtain ⟨k', g⟩ := g
      by_cases hk : k' = k
      · simp only [pushGroup, if_pos hk, List.flatMap_cons, List.append_assoc]
        have hswap : ([a] ++ rest.flatMap (·.2)).Perm (rest.flatMap (·.2) ++ [a]) :=
          List.perm_append_comm
        exact hswap.append_left g
      · simp only [pushGroup, if_neg hk, List.flatMap_cons, List.append_assoc]
        exact ih.append_left g

theorem mem_keys_pushGroup (k : κ) (a : α) (groups : List (κ × List α)) (x : κ) :
    x ∈ (pushGroup k a groups).map (·.1) ↔ x = k ∨ x ∈ groups.map (·.1) := by
  induction groups with
  | nil => simp [pushGroup]
  | cons g rest ih =>
      obtain ⟨k', g⟩ := g
      by_cases hk : k' = k
      · subst hk
        simp [pushGroup]
      · simp only [pushGroup, if_neg hk, List.map_cons, List.mem_cons, ih]
        exact or_left_comm

theorem nodup_keys_pushGroup (k : κ) (a : α) {groups : List (κ × List α)}
    (h : (groups.map (·.1)).Nodup) : ((pushGroup k a groups).map (·.1)).Nodup := by
  induction groups with
  | nil => simp [pushGroup]
  | cons g rest ih =>
      obtain ⟨k', g⟩ := g
      rw [List.map_cons, List.nodup_cons] at h
      by_cases hk : k' = k
      · simpa only [pushGroup, if_pos hk, List.map_cons, List.nodup_cons] using h
      · simp only [pushGroup, if_neg hk, List.map_cons, List.nodup_cons]
        refine ⟨?_, ih h.2⟩
        intro hmem
        rcases (mem_keys_pushGroup k a rest k').mp hmem with he | hr
        · exact hk he
        · exact h.1 hr

/-- The groups of `l` under `key`: one per key that occurs, each the elements of
its key in the order of `l`. -/
structure Groups (key : α → κ) (l : List α) (groups : List (κ × List α)) : Prop where
  keys_nodup : (groups.map (·.1)).Nodup
  group_eq : ∀ g ∈ groups, g.2 = l.filter (fun a => key a = g.1)
  key_mem : ∀ a ∈ l, key a ∈ groups.map (·.1)
  nonempty : ∀ g ∈ groups, g.2 ≠ []

theorem mem_pushGroup {k : κ} {a : α} {groups : List (κ × List α)}
    (hkeys : (groups.map (·.1)).Nodup) {g : κ × List α} (hg : g ∈ pushGroup k a groups) :
    (g ∈ groups ∧ g.1 ≠ k) ∨ (g.1 = k ∧ ∃ old, (k, old) ∈ groups ∧ g.2 = old ++ [a]) ∨
      (k ∉ groups.map (·.1) ∧ g = (k, [a])) := by
  induction groups with
  | nil =>
      simp only [pushGroup, List.mem_singleton] at hg
      exact .inr (.inr ⟨by simp, hg⟩)
  | cons g0 rest ih =>
      obtain ⟨k', g0⟩ := g0
      rw [List.map_cons, List.nodup_cons] at hkeys
      by_cases hk : k' = k
      · subst hk
        rw [pushGroup, if_pos rfl] at hg
        rcases List.mem_cons.mp hg with rfl | hg
        · exact .inr (.inl ⟨rfl, g0, List.mem_cons_self, rfl⟩)
        · refine .inl ⟨List.mem_cons_of_mem _ hg, fun he => hkeys.1 ?_⟩
          exact List.mem_map.mpr ⟨g, hg, he⟩
      · rw [pushGroup, if_neg hk] at hg
        rcases List.mem_cons.mp hg with rfl | hg
        · exact .inl ⟨List.mem_cons_self, hk⟩
        · rcases ih hkeys.2 hg with ⟨h1, h2⟩ | ⟨h1, old, h2, h3⟩ | ⟨h1, h2⟩
          · exact .inl ⟨List.mem_cons_of_mem _ h1, h2⟩
          · exact .inr (.inl ⟨h1, old, List.mem_cons_of_mem _ h2, h3⟩)
          · refine .inr (.inr ⟨?_, h2⟩)
            rw [List.map_cons, List.mem_cons, not_or]
            exact ⟨fun he => hk he.symm, h1⟩

/-! ## The whole pass -/

theorem groupBy_append_singleton (key : α → κ) (l : List α) (a : α) :
    groupBy key (l ++ [a]) = pushGroup (key a) a (groupBy key l) := by
  simp only [groupBy, List.foldl_append, List.foldl_cons, List.foldl_nil]

theorem groupBy_groups (key : α → κ) (l : List α) : Groups key l (groupBy key l) := by
  induction l using List.reverseRecOn with
  | nil => exact ⟨by simp [groupBy], by simp [groupBy], by simp, by simp [groupBy]⟩
  | append_singleton l a ih =>
      rw [groupBy_append_singleton]
      refine ⟨nodup_keys_pushGroup _ _ ih.keys_nodup, ?_, ?_, ?_⟩
      · intro g hg
        rcases mem_pushGroup ih.keys_nodup hg with ⟨h1, h2⟩ | ⟨h1, old, h2, h3⟩ | ⟨h1, rfl⟩
        · rw [ih.group_eq g h1, List.filter_append]
          simp [Ne.symm h2]
        · have hold : old = l.filter (fun b => key b = key a) := ih.group_eq _ h2
          rw [h3, hold, h1, List.filter_append]
          simp
        · -- a new key: no earlier element carries it
          have hnone : l.filter (fun b => key b = key a) = [] := by
            rw [List.filter_eq_nil_iff]
            intro b hb he
            exact h1 (of_decide_eq_true he ▸ ih.key_mem b hb)
          rw [List.filter_append, hnone]
          simp
      · intro b hb
        rw [mem_keys_pushGroup]
        rcases List.mem_append.mp hb with hb | hb
        · exact .inr (ih.key_mem b hb)
        · exact .inl (by rw [List.mem_singleton.mp hb])
      · intro g hg
        rcases mem_pushGroup ih.keys_nodup hg with ⟨h1, _⟩ | ⟨_, old, _, h3⟩ | ⟨_, rfl⟩
        · exact ih.nonempty g h1
        · rw [h3]
          simp
        · simp

/-- A map that keeps the key maps the groups. -/
theorem groupBy_map {β : Type} (key : β → κ) (f : α → β) (l : List α) :
    groupBy key (l.map f) = (groupBy (key ∘ f) l).map (fun g => (g.1, g.2.map f)) := by
  have hpush : ∀ (k : κ) (a : α) (groups : List (κ × List α)),
      pushGroup k (f a) (groups.map (fun g => (g.1, g.2.map f))) =
        (pushGroup k a groups).map (fun g => (g.1, g.2.map f)) := by
    intro k a groups
    induction groups with
    | nil => rfl
    | cons g rest ih =>
        by_cases hk : g.1 = k
        · simp [pushGroup, hk]
        · simp [pushGroup, hk, ih]
  induction l using List.reverseRecOn with
  | nil => rfl
  | append_singleton l a ih =>
      rw [List.map_append, List.map_singleton, groupBy_append_singleton, ih, hpush,
        groupBy_append_singleton]
      rfl

/-- Grouping moves elements and loses none. -/
theorem groupBy_perm (key : α → κ) (l : List α) :
    ((groupBy key l).flatMap (·.2)).Perm l := by
  induction l using List.reverseRecOn with
  | nil => simp [groupBy]
  | append_singleton l a ih =>
      rw [groupBy_append_singleton]
      exact (pushGroup_flatMap_perm _ _ _).trans (ih.append_right [a])

/-- An element lies in the group of its key. -/
theorem exists_group (key : α → κ) {l : List α} {a : α} (ha : a ∈ l) :
    (key a, l.filter (fun b => key b = key a)) ∈ groupBy key l := by
  have h := groupBy_groups key l
  obtain ⟨g, hg, hk⟩ := List.mem_map.mp (h.key_mem a ha)
  have hg2 := h.group_eq g hg
  rw [hk] at hg2
  rw [← hk, hk, ← hg2, ← hk]
  exact hg

/-- A pass over the groups that only answers for the group holding `a` visits
the group of `a`'s key. -/
theorem groupBy_flatMap_of_mem [DecidableEq α] {β : Type} (key : α → κ) {l : List α} {a : α}
    (ha : a ∈ l) (visit : List α → List β) :
    (groupBy key l).flatMap (fun g => if a ∈ g.2 then visit g.2 else []) =
      visit (l.filter (fun b => key b = key a)) := by
  have h := groupBy_groups key l
  obtain ⟨front, back, hsplit⟩ := List.append_of_mem (exists_group key ha)
  have hother : ∀ g ∈ groupBy key l, g.1 ≠ key a → a ∉ g.2 := by
    intro g hg hne hmem
    rw [h.group_eq g hg, List.mem_filter] at hmem
    exact hne (of_decide_eq_true hmem.2).symm
  have hkeys := h.keys_nodup
  rw [hsplit, List.map_append, List.map_cons, List.nodup_append] at hkeys
  obtain ⟨_, hback, hdisj⟩ := hkeys
  have hskip : ∀ gs : List (κ × List α), (∀ g ∈ gs, a ∉ g.2) →
      gs.flatMap (fun g => if a ∈ g.2 then visit g.2 else []) = [] := by
    intro gs hgs
    rw [List.flatMap_eq_nil_iff]
    intro g hg
    rw [if_neg (hgs g hg)]
  rw [hsplit, List.flatMap_append, List.flatMap_cons, hskip front, hskip back]
  · rw [if_pos (by simpa using ha)]
    simp
  · intro g hg
    refine hother g (hsplit ▸ List.mem_append_right _ (List.mem_cons_of_mem _ hg)) ?_
    intro he
    exact (List.nodup_cons.mp hback).1 (List.mem_map.mpr ⟨g, hg, he⟩)
  · intro g hg
    refine hother g (hsplit ▸ List.mem_append_left _ hg) ?_
    intro he
    exact hdisj _ (List.mem_map_of_mem hg) _ List.mem_cons_self he

end Foundation
