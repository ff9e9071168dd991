import Mathlib.Data.List.Infix

/-!
# Glob patterns

`*` stands for any text, `?` for any character, `[abc]`, `[a-c]` and `[^abc]` for one
character of a class, and a backslash takes the meaning from the next character. A
class that is not closed ends with the pattern.
-/

namespace Foundation

inductive GlobItem where
  | one (accepts : Char → Bool)
  | many

/-- The class behind an opening bracket, and the pattern behind the class. -/
def readClass : List Char → (Char → Bool) × List Char
  | [] => (fun _ => false, [])
  | ']' :: rest => (fun _ => false, rest)
  | '\\' :: c :: rest =>
      let (accepts, tail) := readClass rest
      (fun x => x == c || accepts x, tail)
  | a :: '-' :: b :: rest =>
      let (accepts, tail) := readClass rest
      (fun x => (a ≤ x && x ≤ b) || (b ≤ x && x ≤ a) || accepts x, tail)
  | c :: rest =>
      let (accepts, tail) := readClass rest
      (fun x => x == c || accepts x, tail)

/-- At most as many items as the number says; a pattern has no more than characters. -/
def globItems : Nat → List Char → List GlobItem
  | 0, _ | _, [] => []
  | n + 1, '*' :: rest => .many :: globItems n rest
  | n + 1, '?' :: rest => .one (fun _ => true) :: globItems n rest
  | n + 1, '[' :: '^' :: rest =>
      let (accepts, tail) := readClass rest
      .one (!accepts ·) :: globItems n tail
  | n + 1, '[' :: rest =>
      let (accepts, tail) := readClass rest
      .one accepts :: globItems n tail
  | n + 1, '\\' :: c :: rest => .one (· == c) :: globItems n rest
  | n + 1, c :: rest => .one (· == c) :: globItems n rest

def matchItems : List GlobItem → List Char → Bool
  | [], text => text.isEmpty
  | .one _ :: _, [] => false
  | .one accepts :: items, c :: text => accepts c && matchItems items text
  | .many :: items, text => text.tails.any (matchItems items)

def globMatches (pattern text : String) : Bool :=
  matchItems (globItems pattern.toList.length pattern.toList) text.toList

/-! ## Literal texts -/

theorem globItems_cons {c : Char} (h : c ∉ ['*', '?', '[', '\\']) (n : Nat) (rest : List Char) :
    globItems (n + 1) (c :: rest) = .one (· == c) :: globItems n rest := by
  simp only [List.mem_cons, List.not_mem_nil, or_false, not_or] at h
  obtain ⟨hstar, hany, hclass, hescape⟩ := h
  rw [globItems]
  · exact hstar
  · exact hany
  · exact fun _ hc _ => hclass hc
  · exact hclass
  · exact fun _ _ hc _ => hescape hc

/-- Literal characters at the front of a pattern. -/
theorem globItems_front {front : List Char} (h : ∀ c ∈ front, c ∉ ['*', '?', '[', '\\'])
    (n : Nat) (back : List Char) :
    globItems (front.length + n) (front ++ back) =
      front.map (fun c => .one (· == c)) ++ globItems n back := by
  induction front with
  | nil =>
      rw [List.length_nil, Nat.zero_add]
      rfl
  | cons c rest ih =>
      obtain ⟨hc, hrest⟩ := List.forall_mem_cons.mp h
      rw [List.length_cons, Nat.add_right_comm, List.cons_append, globItems_cons hc, ih hrest]
      rfl

theorem matchItems_literal (text key : List Char) :
    matchItems (text.map (fun c => .one (· == c)) ++ [.many]) key = text.isPrefixOf key := by
  induction text generalizing key with
  | nil =>
      show key.tails.any List.isEmpty = true
      exact List.any_eq_true.mpr ⟨[], (List.mem_tails [] key).mpr List.nil_suffix, rfl⟩
  | cons c rest ih =>
      cases key with
      | nil => rfl
      | cons x key =>
          rw [List.map_cons, List.cons_append, matchItems, ih]
          show (x == c && _) = (c == x && _)
          rw [Bool.beq_comm]

/-- A text without special characters, and a star: the texts that begin with it. -/
theorem globMatches_literal {text : String} (h : ∀ c ∈ text.toList, c ∉ ['*', '?', '[', '\\'])
    (key : String) : globMatches (text ++ "*") key = text.toList.isPrefixOf key.toList := by
  unfold globMatches
  rw [String.toList_append, show ("*" : String).toList = ['*'] from rfl, List.length_append,
    List.length_singleton, globItems_front h, show globItems 1 ['*'] = [.many] from rfl,
    matchItems_literal]

/-! ## A star between literal texts -/

end Foundation
