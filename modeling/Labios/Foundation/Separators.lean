import Mathlib.Data.List.TakeWhile

/-!
# Separators

Lists that are cut at a separator. What stands before the first separator and what
stands behind it can be read back, so joined parts without it determine each other, and
what `splitOn` gives has none.
-/

namespace Foundation

variable {α : Type} [DecidableEq α] {sep : α} {front front' rest rest' : List α}

theorem takeWhile_separator (h : sep ∉ front) :
    (front ++ sep :: rest).takeWhile (· ≠ sep) = front := by
  rw [List.takeWhile_append_of_pos, List.takeWhile_cons_of_neg, List.append_nil]
  · simp
  · intro x hx
    have hne : x ≠ sep := fun heq => h (heq ▸ hx)
    simp [hne]

theorem dropWhile_separator (h : sep ∉ front) :
    (front ++ sep :: rest).dropWhile (· ≠ sep) = sep :: rest := by
  rw [List.dropWhile_append_of_pos, List.dropWhile_cons_of_neg]
  · simp
  · intro x hx
    have hne : x ≠ sep := fun heq => h (heq ▸ hx)
    simp [hne]

theorem separator_notMem_takeWhile (xs : List α) : sep ∉ xs.takeWhile (· ≠ sep) := by
  intro hmem
  have hne := List.mem_takeWhile_imp hmem
  simp at hne

/-- A list that has a separator is cut into the part before the first one and the part
behind it. -/
theorem takeWhile_append_drop {xs : List α} (h : sep ∈ xs) :
    xs.takeWhile (· ≠ sep) ++ sep :: (xs.dropWhile (· ≠ sep)).drop 1 = xs := by
  induction xs with
  | nil => cases h
  | cons x xs ih =>
      by_cases hx : x = sep
      · subst hx
        simp
      · have hmem : sep ∈ xs := (List.mem_cons.mp h).resolve_left (Ne.symm hx)
        simp only [ne_eq, hx, not_false_eq_true, decide_true, List.takeWhile_cons_of_pos,
          List.dropWhile_cons_of_pos, List.cons_append]
        exact congrArg (x :: ·) (ih hmem)

theorem append_separator_inj (h : sep ∉ front) (h' : sep ∉ front')
    (heq : front ++ sep :: rest = front' ++ sep :: rest') : front = front' ∧ rest = rest' := by
  have hfront := congrArg (List.takeWhile (· ≠ sep)) heq
  rw [takeWhile_separator h, takeWhile_separator h'] at hfront
  subst hfront
  exact ⟨rfl, (List.cons.inj (List.append_cancel_left heq)).2⟩

/-- The part up to the first separator comes back where nothing or a separator stands behind it. -/
theorem takeWhile_eq_left_iff (h : sep ∉ front) :
    (front ++ rest).takeWhile (· ≠ sep) = front ↔ rest = [] ∨ ∃ rest', rest = sep :: rest' := by
  rw [List.takeWhile_append_of_pos fun x hx => by
    simp only [ne_eq, decide_not, Bool.not_eq_true', decide_eq_false_iff_not]
    exact fun heq => h (heq ▸ hx)]
  cases rest with
  | nil => simp
  | cons x rest =>
      by_cases hx : x = sep
      · subst hx
        simp
      · simp [hx]

theorem append_inj_of_separator (h : sep ∉ front) (h' : sep ∉ front')
    (hrest : rest = [] ∨ ∃ back, rest = sep :: back)
    (hrest' : rest' = [] ∨ ∃ back, rest' = sep :: back) (heq : front ++ rest = front' ++ rest') :
    front = front' ∧ rest = rest' := by
  have hfront : front = front' := by
    rw [← (takeWhile_eq_left_iff h).mpr hrest, heq, (takeWhile_eq_left_iff h').mpr hrest']
  subst hfront
  exact ⟨rfl, List.append_cancel_left heq⟩

theorem separator_notMem_splitOn {xs part : List α} (h : part ∈ xs.splitOn sep) :
    sep ∉ part := by
  induction xs generalizing part with
  | nil =>
      rw [List.splitOn_nil, List.mem_singleton] at h
      subst h
      exact List.not_mem_nil
  | cons x xs ih =>
      rw [List.splitOn_cons_eq_if_modifyHead] at h
      split at h
      · rcases List.mem_cons.mp h with rfl | h
        · exact List.not_mem_nil
        · exact ih h
      · next hx =>
          cases hsplit : xs.splitOn sep with
          | nil => exact absurd hsplit (List.splitOn_ne_nil sep xs)
          | cons part' parts =>
              rw [hsplit] at h ih
              rcases List.mem_cons.mp h with rfl | h
              · intro hmem
                rcases List.mem_cons.mp hmem with rfl | hmem
                · simp at hx
                · exact ih List.mem_cons_self hmem
              · exact ih (List.mem_cons_of_mem _ h)

end Foundation

/-!
## Reading up to a separator

`std::getline` on a text: what stands before the next separator, and what is left behind it. A
text that ends with a separator has no empty piece behind it; apart from empty pieces, reading on
and on gives the same as cutting the text at its separators (`filter_pieces`).
-/

namespace Foundation

variable {α : Type} [DecidableEq α] {sep : α} {text front rest piece : List α}

def getline (sep : α) : List α → Option (List α × List α)
  | [] => none
  | text => some (text.takeWhile (· ≠ sep), (text.dropWhile (· ≠ sep)).drop 1)

theorem getline_eq_some (h : text ≠ []) :
    getline sep text = some (text.takeWhile (· ≠ sep), (text.dropWhile (· ≠ sep)).drop 1) := by
  cases text with
  | nil => exact absurd rfl h
  | cons c text => rfl

theorem getline_separator (h : sep ∉ front) :
    getline sep (front ++ sep :: rest) = some (front, rest) := by
  rw [getline_eq_some (by simp), takeWhile_separator h, dropWhile_separator h]
  rfl

theorem getline_last (hne : text ≠ []) (h : sep ∉ text) : getline sep text = some (text, []) := by
  have hall : ∀ c ∈ text, decide (c ≠ sep) = true := by
    intro c hc
    exact decide_eq_true fun heq => h (heq ▸ hc)
  rw [getline_eq_some hne, List.takeWhile_eq_self_iff.mpr hall, List.dropWhile_eq_nil_iff.mpr hall]
  rfl

/-- Either a separator is there, or the whole text is the piece. -/
theorem getline_cases (h : getline sep text = some (piece, rest)) :
    sep ∉ piece ∧ (text = piece ++ sep :: rest ∨ text = piece ∧ rest = [] ∧ piece ≠ []) := by
  have hne : text ≠ [] := by
    rintro rfl
    cases h
  by_cases hmem : sep ∈ text
  · rw [getline_eq_some hne] at h
    obtain ⟨rfl, rfl⟩ := Prod.mk.inj (Option.some.inj h)
    exact ⟨separator_notMem_takeWhile text, .inl (takeWhile_append_drop hmem).symm⟩
  · rw [getline_last hne hmem] at h
    obtain ⟨rfl, rfl⟩ := Prod.mk.inj (Option.some.inj h)
    exact ⟨hmem, .inr ⟨rfl, rfl, hne⟩⟩

theorem length_lt_of_getline (h : getline sep text = some (piece, rest)) :
    rest.length < text.length := by
  rcases (getline_cases h).2 with rfl | ⟨rfl, rfl, hne⟩
  · rw [List.length_append, List.length_cons]
    omega
  · exact List.length_pos_iff.mpr hne

/-- The loop that reads until nothing is left. -/
def pieces (sep : α) (text : List α) : List (List α) :=
  match h : getline sep text with
  | none => []
  | some (piece, rest) =>
      have := length_lt_of_getline h
      piece :: pieces sep rest
termination_by text.length

theorem pieces_of_getline (h : getline sep text = some (piece, rest)) :
    pieces sep text = piece :: pieces sep rest := by
  rw [pieces]
  split
  · next hnone =>
      rw [h] at hnone
      cases hnone
  · next piece' rest' hsome =>
      obtain ⟨rfl, rfl⟩ := Prod.mk.inj (Option.some.inj (h.symm.trans hsome))
      rfl

@[simp] theorem pieces_nil : pieces sep [] = [] := by
  rw [pieces]
  rfl

theorem filter_pieces (sep : α) (text : List α) :
    (pieces sep text).filter (fun piece => !piece.isEmpty) =
      (text.splitOn sep).filter fun piece => !piece.isEmpty := by
  induction hlength : text.length using Nat.strong_induction_on generalizing text with
  | _ n ih =>
      subst hlength
      cases hline : getline sep text with
      | none =>
          cases text with
          | nil =>
              rw [pieces_nil, List.splitOn_nil]
              rfl
          | cons c text => cases hline
      | some line =>
          obtain ⟨piece, rest⟩ := line
          rw [pieces_of_getline hline]
          obtain ⟨hpiece, rfl | ⟨rfl, rfl, -⟩⟩ := getline_cases hline
          · rw [List.splitOn_append_cons_self_of_not_mem hpiece, List.filter_cons, List.filter_cons,
              ih _ (length_lt_of_getline hline) _ rfl]
          · rw [pieces_nil, List.splitOn_eq_singleton hpiece]

end Foundation
