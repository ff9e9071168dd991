import Mathlib.Data.List.Infix

/-!
# First occurrences

The first position at which a text stands in a list. A part in front that does not have the first
symbol of the text only moves it (`firstAt_append`).
-/

namespace Foundation

variable {α : Type} {c : α} {text xs front rest tail : List α}

/-- Symbols that the text does not have make no occurrence at the end. -/
theorem infix_append_iff (hne : text ≠ []) (h : ∀ c ∈ tail, c ∉ text) :
    text <:+: xs ++ tail ↔ text <:+: xs := by
  constructor
  · rintro ⟨before, after, heq⟩
    rcases List.append_eq_append_iff.mp heq with ⟨rest, hxs, -⟩ | ⟨rest, hfront, htail⟩
    · exact ⟨before, rest, hxs.symm⟩
    -- a text that reaches into the tail ends in a symbol of it
    · cases hrest : rest.getLast? with
      | none =>
          obtain rfl := List.getLast?_eq_none_iff.mp hrest
          rw [List.append_nil] at hfront
          exact ⟨before, [], by rw [List.append_nil, hfront]⟩
      | some c =>
          have hlast : text.getLast? = some c := by
            have hboth := congrArg List.getLast? hfront
            rw [List.getLast?_append, List.getLast?_append, hrest] at hboth
            cases htext : text.getLast? with
            | none => exact absurd (List.getLast?_eq_none_iff.mp htext) hne
            | some d =>
                rw [htext] at hboth
                exact hboth
          refine absurd (List.mem_of_getLast? hlast) (h c ?_)
          rw [htail]
          exact List.mem_append_left _ (List.mem_of_getLast? hrest)
  · exact fun hinside => hinside.trans (List.prefix_append xs tail).isInfix

/-- Nor does a front without the first symbol of the text. -/
theorem infix_append_front_iff (h : c ∉ front) :
    c :: text <:+: front ++ xs ↔ c :: text <:+: xs := by
  induction front with
  | nil => rfl
  | cons x front ih =>
      rw [List.cons_append, List.infix_cons_iff, ih fun hmem => h (List.mem_cons_of_mem x hmem)]
      refine or_iff_right fun hbegins => h ?_
      rw [(List.cons_prefix_cons.mp hbegins).1]
      exact List.mem_cons_self

variable [DecidableEq α]

def firstAt (text xs : List α) : Option Nat :=
  (List.range (xs.length + 1)).find? fun i => text.isPrefixOf (xs.drop i)

theorem firstAt_of_begins (h : text <+: xs) : firstAt text xs = some 0 := by
  unfold firstAt
  rw [List.range_succ_eq_map, List.find?_cons_of_pos]
  exact List.isPrefixOf_iff_prefix.mpr h

theorem firstAt_cons {x : α} (h : ¬text <+: x :: xs) :
    firstAt text (x :: xs) = (firstAt text xs).map (· + 1) := by
  unfold firstAt
  rw [List.range_succ_eq_map, List.find?_cons_of_neg, List.find?_map]
  · rfl
  · exact fun hbegins => h (List.isPrefixOf_iff_prefix.mp hbegins)

theorem firstAt_eq_none_iff (c : α) (text xs : List α) :
    firstAt (c :: text) xs = none ↔ ¬c :: text <:+: xs := by
  induction xs with
  | nil => exact iff_of_true rfl (by simp)
  | cons x xs ih =>
      rw [List.infix_cons_iff]
      by_cases h : c :: text <+: x :: xs
      · rw [firstAt_of_begins h]
        exact iff_of_false (Option.some_ne_none 0) (not_not_intro (.inl h))
      · rw [firstAt_cons h, Option.map_eq_none_iff, ih, not_or]
        exact (and_iff_right h).symm

theorem firstAt_append (h : c ∉ front) :
    firstAt (c :: text) (front ++ rest) =
      (firstAt (c :: text) rest).map (front.length + ·) := by
  induction front with
  | nil => simp
  | cons x front ih =>
      have hx : ¬c :: text <+: x :: (front ++ rest) := by
        intro hbegins
        exact h ((List.cons_prefix_cons.mp hbegins).1 ▸ List.mem_cons_self)
      rw [List.cons_append, firstAt_cons hx, ih fun hmem => h (List.mem_cons_of_mem x hmem),
        Option.map_map]
      congr 1
      funext n
      show front.length + n + 1 = front.length + 1 + n
      omega

/-- Where the text is not in front, it stands behind the front. -/
theorem firstAt_pos {i : Nat} (h : ¬text <+: xs) (hat : firstAt text xs = some i) : 0 < i := by
  cases xs with
  | nil =>
      cases text with
      | nil => exact absurd List.prefix_rfl h
      | cons c text => cases hat
  | cons x xs =>
      rw [firstAt_cons h, Option.map_eq_some_iff] at hat
      obtain ⟨j, -, rfl⟩ := hat
      exact Nat.succ_pos j

end Foundation
