import Mathlib.Data.List.Basic
import Mathlib.Data.List.TakeWhile
import Mathlib.Order.Lattice

/-!
# Ordered maps

A map as a list of entries in ascending order of their keys. `mem_insert` says
what an insertion does to the entries; `entries_insert` says where the new entry
stands.
-/

namespace Foundation

variable {κ β : Type} [LinearOrder κ]

/-- Keys ascend, so no key occurs twice. -/
structure SortedMap (κ β : Type) [LinearOrder κ] where
  entries : List (κ × β)
  sorted : entries.Pairwise fun a b => a.1 < b.1

namespace SortedMap

def empty : SortedMap κ β := ⟨[], List.Pairwise.nil⟩

instance : Inhabited (SortedMap κ β) := ⟨empty⟩

@[simp] theorem entries_empty : (empty : SortedMap κ β).entries = [] := rfl

/-- The entries before and behind a key. -/
def below (m : SortedMap κ β) (k : κ) : List (κ × β) := m.entries.filter fun e => e.1 < k

def above (m : SortedMap κ β) (k : κ) : List (κ × β) := m.entries.filter fun e => k < e.1

def get? (m : SortedMap κ β) (k : κ) : Option β := (m.entries.find? fun e => e.1 = k).map (·.2)

theorem mem_below {m : SortedMap κ β} {k : κ} {e : κ × β} :
    e ∈ m.below k ↔ e ∈ m.entries ∧ e.1 < k := by
  rw [below, List.mem_filter, decide_eq_true_iff]

theorem mem_above {m : SortedMap κ β} {k : κ} {e : κ × β} :
    e ∈ m.above k ↔ e ∈ m.entries ∧ k < e.1 := by
  rw [above, List.mem_filter, decide_eq_true_iff]

/-- The entry of a key is set. -/
def insert (m : SortedMap κ β) (k : κ) (v : β) : SortedMap κ β where
  entries := m.below k ++ (k, v) :: m.above k
  sorted := by
    refine List.pairwise_append.mpr ⟨m.sorted.filter _, List.pairwise_cons.mpr
      ⟨fun e he => (mem_above.mp he).2, m.sorted.filter _⟩, fun a ha b hb => ?_⟩
    have hlow := (mem_below.mp ha).2
    rcases List.mem_cons.mp hb with rfl | hb
    · exact hlow
    · exact hlow.trans (mem_above.mp hb).2

theorem entries_insert (m : SortedMap κ β) (k : κ) (v : β) :
    (m.insert k v).entries = m.below k ++ (k, v) :: m.above k := rfl

/-- The entries of a map around a key. -/
theorem entries_split (m : SortedMap κ β) (k : κ) :
    m.entries = m.below k ++ ((m.entries.filter fun e => e.1 = k) ++ m.above k) := by
  obtain ⟨entries, sorted⟩ := m
  unfold below above
  dsimp only
  induction entries with
  | nil => rfl
  | cons e rest ih =>
      rw [List.pairwise_cons] at sorted
      obtain ⟨hfirst, hrest⟩ := sorted
      have hsplit := ih hrest
      -- behind an entry that is not below the key, none is
      have hnone : ¬e.1 < k → rest.filter (fun a => decide (a.1 < k)) = [] := by
        intro hk
        refine List.filter_eq_nil_iff.mpr fun a ha => ?_
        rw [decide_eq_true_iff]
        exact fun hlt => hk ((hfirst a ha).trans hlt)
      rcases lt_trichotomy e.1 k with hlt | heq | hgt
      · simp only [List.filter_cons, hlt, hlt.ne, not_lt_of_gt hlt, decide_true, decide_false,
          if_true, Bool.false_eq_true, if_false, List.cons_append]
        exact congrArg (e :: ·) hsplit
      · rw [hnone (by simp [heq])] at hsplit
        simp only [List.filter_cons, heq, lt_irrefl, decide_true, decide_false, if_true,
          Bool.false_eq_true, if_false, hnone (show ¬e.1 < k by simp [heq]), List.nil_append,
          List.cons_append] at hsplit ⊢
        exact congrArg (e :: ·) hsplit
      · have hkey : rest.filter (fun a => decide (a.1 = k)) = [] := by
          refine List.filter_eq_nil_iff.mpr fun a ha => ?_
          rw [decide_eq_true_iff]
          rintro rfl
          exact lt_asymm hgt (hfirst a ha)
        rw [hnone (not_lt_of_gt hgt), hkey] at hsplit
        simp only [List.filter_cons, hgt, hgt.ne', not_lt_of_gt hgt, decide_true, decide_false,
          if_true, Bool.false_eq_true, if_false, hnone (not_lt_of_gt hgt), hkey,
          List.nil_append] at hsplit ⊢
        exact congrArg (e :: ·) hsplit

/-- A key has at most one entry. -/
theorem filter_key (m : SortedMap κ β) (k : κ) :
    m.entries.filter (fun e => e.1 = k) = (m.get? k).toList.map fun v => (k, v) := by
  have hsorted := m.sorted.filter fun e => e.1 = k
  have hkey : ∀ e ∈ m.entries.filter (fun e => e.1 = k), e.1 = k :=
    fun e he => of_decide_eq_true (List.mem_filter.mp he).2
  unfold get?
  rw [← List.head?_filter]
  generalize m.entries.filter (fun e => e.1 = k) = entries at hsorted hkey ⊢
  match entries with
  | [] => rfl
  | [e] =>
      obtain rfl := hkey e (List.mem_singleton.mpr rfl)
      rfl
  | e :: e' :: rest =>
      have hlt := List.rel_of_pairwise_cons hsorted List.mem_cons_self
      rw [hkey e List.mem_cons_self, hkey e' (List.mem_cons_of_mem _ List.mem_cons_self)] at hlt
      exact absurd hlt (lt_irrefl k)

theorem mem_insert {m : SortedMap κ β} {k : κ} {v : β} {e : κ × β} :
    e ∈ (m.insert k v).entries ↔ e = (k, v) ∨ e ∈ m.entries ∧ e.1 ≠ k := by
  rw [entries_insert, List.mem_append, List.mem_cons, mem_below, mem_above, ne_iff_lt_or_gt]
  constructor
  · rintro (⟨he, hlt⟩ | rfl | ⟨he, hlt⟩)
    · exact .inr ⟨he, .inl hlt⟩
    · exact .inl rfl
    · exact .inr ⟨he, .inr hlt⟩
  · rintro (rfl | ⟨he, hlt | hlt⟩)
    · exact .inr (.inl rfl)
    · exact .inl ⟨he, hlt⟩
    · exact .inr (.inr ⟨he, hlt⟩)

/-- The entries from the last one at or below a key on: one step back from the
upper bound. -/
def fromFloor (m : SortedMap κ β) (k : κ) : List (κ × β) :=
  let front := m.entries.takeWhile fun e => e.1 ≤ k
  front.drop (front.length - 1) ++ m.entries.dropWhile fun e => e.1 ≤ k

theorem entries_eq_append_fromFloor (m : SortedMap κ β) (k : κ) :
    ∃ front, m.entries = front ++ m.fromFloor k := by
  let front := m.entries.takeWhile fun e => e.1 ≤ k
  refine ⟨front.take (front.length - 1), ?_⟩
  rw [fromFloor, ← List.append_assoc, List.take_append_drop, List.takeWhile_append_dropWhile]

theorem sorted_fromFloor (m : SortedMap κ β) (k : κ) :
    (m.fromFloor k).Pairwise fun a b => a.1 < b.1 := by
  obtain ⟨front, hfront⟩ := m.entries_eq_append_fromFloor k
  have := m.sorted
  rw [hfront] at this
  exact (List.pairwise_append.mp this).2.1

end SortedMap
end Foundation
