import Mathlib.Data.List.Basic

/-!
# Lexical paths

The lexical operations of `std::filesystem::path` on POSIX: a path is whether it has a root
directory, and the elements behind it. An empty last element stands for a trailing slash.

A path that does not climb keeps its names when it is normalized (`foldl_normalStep_plain`), so
appended to a root it ends under that root (`Root.names_append`), and so does its parent
(`Root.contains_parent`).
-/

namespace Foundation

/-- A path, as its iteration shows it; the root directory is a flag. -/
structure LexPath where
  rooted : Bool := false
  elements : List (List Char) := []
  deriving DecidableEq, Repr

namespace LexPath

/-- The elements of a text that does not begin with a slash. -/
def elementsOf (text : List Char) : List (List Char) :=
  match text with
  | [] => []
  | _ =>
      let parts := text.splitOn '/'
      parts.dropLast.filter (· ≠ []) ++ parts.getLast?.toList

def ofText (text : List Char) : LexPath where
  rooted := text.head? = some '/'
  elements := elementsOf (text.dropWhile (· = '/'))

def toText (p : LexPath) : List Char :=
  (if p.rooted then ['/'] else []) ++ List.intercalate ['/'] p.elements

def isEmpty (p : LexPath) : Bool := !p.rooted && p.elements.isEmpty

def relativePath (p : LexPath) : LexPath := { p with rooted := false }

def parentPath (p : LexPath) : LexPath := { p with elements := p.elements.dropLast }

/-- A trailing slash is dropped before more is appended. -/
def base (p : LexPath) : List (List Char) :=
  if p.elements.getLast? = some [] then p.elements.dropLast else p.elements

/-- `p / q`. -/
def append (p q : LexPath) : LexPath :=
  if q.rooted then q
  else
    { p with
      elements :=
        p.base ++ if q.elements = [] then (if p.base = [] then [] else [[]]) else q.elements }

/-- One element of `lexically_normal`: the names so far, the last one first, and whether a slash
follows them. -/
def normalStep (rooted : Bool) : List (List Char) × Bool → List Char → List (List Char) × Bool
  | (done, _), [] => (done, true)
  | (done, _), ['.'] => (done, true)
  | (done, _), ['.', '.'] =>
      match done with
      | [] => if rooted then ([], true) else ([['.', '.']], false)
      | last :: rest =>
          if last = ['.', '.'] then (['.', '.'] :: last :: rest, false) else (rest, true)
  | (done, _), name => (name :: done, false)

def lexicallyNormal (p : LexPath) : LexPath :=
  if p.isEmpty then p
  else
    let (done, slash) := p.elements.foldl (normalStep p.rooted) ([], false)
    { p with
      elements :=
        if done = [] then (if p.rooted then [] else [['.']])
        else done.reverse ++ if slash ∧ done.head? ≠ some ['.', '.'] then [[]] else [] }

example : (ofText "a/./b/../../c//d/".toList).lexicallyNormal = ofText "c/d/".toList := by decide

/-! ## Names -/

/-- An element that stays as it is. -/
def IsName (e : List Char) : Prop := e ≠ [] ∧ e ≠ ['.'] ∧ e ≠ ['.', '.']

instance IsName.decidable (e : List Char) : Decidable (IsName e) :=
  inferInstanceAs (Decidable (_ ∧ _))

/-- The path does not climb. -/
def Plain (es : List (List Char)) : Prop := ['.', '.'] ∉ es

/-- The names of a path that does not climb. -/
def namesOf (es : List (List Char)) : List (List Char) := es.filter fun e => IsName e

def names (p : LexPath) : List (List Char) := namesOf p.elements

variable {rooted slash : Bool} {done es front back : List (List Char)} {e : List Char}

theorem normalStep_skip (h : e = [] ∨ e = ['.']) :
    normalStep rooted (done, slash) e = (done, true) := by
  rcases h with rfl | rfl
  · rfl
  · rfl

theorem normalStep_name (h : IsName e) :
    normalStep rooted (done, slash) e = (e :: done, false) := by
  obtain ⟨hne, hdot, hup⟩ := h
  exact normalStep.eq_5 rooted e done slash hne hdot hup

/-- An element that does not climb is a name or is skipped. -/
theorem isName_or_skip (h : e ≠ ['.', '.']) : IsName e ∨ ¬IsName e ∧ (e = [] ∨ e = ['.']) := by
  by_cases hne : e = []
  · exact .inr ⟨fun hname => hname.1 hne, .inl hne⟩
  · by_cases hdot : e = ['.']
    · exact .inr ⟨fun hname => hname.2.1 hdot, .inr hdot⟩
    · exact .inl ⟨hne, hdot, h⟩

theorem namesOf_append (front back : List (List Char)) :
    namesOf (front ++ back) = namesOf front ++ namesOf back := List.filter_append ..

theorem namesOf_of_isName (h : ∀ e ∈ es, IsName e) : namesOf es = es :=
  List.filter_eq_self.mpr fun e he => decide_eq_true (h e he)

theorem isName_of_mem_namesOf (h : e ∈ namesOf es) : IsName e :=
  of_decide_eq_true (List.mem_filter.mp h).2

theorem names_parentPath (p : LexPath) : p.parentPath.names <+: p.names :=
  (List.dropLast_prefix p.elements).filter _

/-- Whether a slash is left behind the last element. -/
def slashAfter (slash : Bool) (es : List (List Char)) : Bool :=
  match es.getLast? with
  | none => slash
  | some e => ¬IsName e

theorem slashAfter_of_nil (h : namesOf es = []) : slashAfter true es = true := by
  unfold slashAfter
  cases hlast : es.getLast? with
  | none => rfl
  | some e =>
      have hname : ¬IsName e := fun hname =>
        List.filter_eq_nil_iff.mp h e (List.mem_of_getLast? hlast) (decide_eq_true hname)
      exact decide_eq_true hname

/-- Normalizing elements that do not climb picks out their names. -/
theorem foldl_normalStep_plain (h : Plain es) (done : List (List Char)) (slash : Bool) :
    es.foldl (normalStep rooted) (done, slash) =
      ((namesOf es).reverse ++ done, slashAfter slash es) := by
  induction es generalizing done slash with
  | nil => rfl
  | cons e es ih =>
      have hes : Plain es := fun hmem => h (List.mem_cons_of_mem e hmem)
      have hup : e ≠ ['.', '.'] := fun heq => h (heq ▸ List.mem_cons_self)
      -- the last element decides about the slash, this one only where it is the last
      have hlast : ∀ b, slashAfter b es = slashAfter (¬IsName e) es →
          slashAfter b es = slashAfter slash (e :: es) := by
        intro b hb
        rw [hb]
        unfold slashAfter
        rw [List.getLast?_cons]
        cases es.getLast? with
        | none => rfl
        | some _ => rfl
      rw [List.foldl_cons]
      rcases isName_or_skip hup with hname | ⟨hname, hskip⟩
      · have hnames : namesOf (e :: es) = e :: namesOf es :=
          List.filter_cons_of_pos (decide_eq_true hname)
        rw [normalStep_name hname, ih hes, hnames, List.reverse_cons, List.append_assoc,
          List.singleton_append, hlast false (by rw [decide_eq_false (not_not_intro hname)])]
      · have hnames : namesOf (e :: es) = namesOf es :=
          List.filter_cons_of_neg fun hpos => hname (of_decide_eq_true hpos)
        rw [normalStep_skip hskip, ih hes, hnames, hlast true (by rw [decide_eq_true hname])]

/-- What normalizing a rooted path leaves, if it does not climb. -/
theorem lexicallyNormal_rooted (h : Plain es) :
    (LexPath.mk true es).lexicallyNormal =
      { rooted := true
        elements := namesOf es ++ if namesOf es ≠ [] ∧ slashAfter false es then [[]] else [] } := by
  have hempty : (LexPath.mk true es).isEmpty = false := rfl
  unfold lexicallyNormal
  rw [hempty, if_neg Bool.false_ne_true]
  show LexPath.mk true (if (es.foldl (normalStep true) ([], false)).1 = [] then _ else _) = _
  rw [foldl_normalStep_plain h, List.append_nil]
  dsimp only
  by_cases hnames : namesOf es = []
  · simp [hnames]
  · have hhead : (namesOf es).reverse.head? ≠ some ['.', '.'] := by
      intro heq
      have hmem : ['.', '.'] ∈ namesOf es :=
        List.mem_reverse.mp (List.mem_of_mem_head? (heq ▸ Option.mem_some_self _))
      exact (isName_of_mem_namesOf hmem).2.2 rfl
    rw [if_neg (by simpa using hnames), List.reverse_reverse]
    simp only [hhead, hnames, ne_eq, not_false_eq_true, and_true, true_and]

/-! ## Normal roots -/

/-- Under a root directory a normal path has names, and perhaps a trailing slash. -/
theorem foldl_normalStep_rooted (hdone : ∀ n ∈ done, IsName n) (slash : Bool) :
    ∀ n ∈ (es.foldl (normalStep true) (done, slash)).1, IsName n := by
  induction es generalizing done slash with
  | nil => exact hdone
  | cons e es ih =>
      rw [List.foldl_cons]
      by_cases hup : e = ['.', '.']
      · subst hup
        cases done with
        -- above the root directory there is nothing to step up to
        | nil => exact ih (fun n hn => absurd hn List.not_mem_nil) true
        | cons last rest =>
            have hlast : last ≠ ['.', '.'] := (hdone last List.mem_cons_self).2.2
            have hstep : normalStep true (last :: rest, slash) ['.', '.'] = (rest, true) :=
              if_neg hlast
            rw [hstep]
            exact ih (fun n hn => hdone n (List.mem_cons_of_mem last hn)) true
      · rcases isName_or_skip hup with hname | ⟨-, hskip⟩
        · rw [normalStep_name hname]
          refine ih (fun n hn => ?_) false
          rcases List.mem_cons.mp hn with rfl | hn
          · exact hname
          · exact hdone n hn
        · rw [normalStep_skip hskip]
          exact ih hdone true

/-- An absolute path that is normal. -/
structure Root where
  path : LexPath
  rooted : path.rooted = true
  normal : path.lexicallyNormal = path

namespace Root

variable (r : Root)

def names : List (List Char) := r.path.names

theorem elements_eq :
    r.path.elements = r.names ∨ r.names ≠ [] ∧ r.path.elements = r.names ++ [[]] := by
  obtain ⟨⟨rooted, es⟩, hrooted, hnormal⟩ := r
  obtain rfl : rooted = true := hrooted
  have helements := congrArg LexPath.elements hnormal
  have hempty : (LexPath.mk true es).isEmpty = false := rfl
  unfold lexicallyNormal at helements
  rw [hempty, if_neg Bool.false_ne_true] at helements
  have hproper : ∀ n ∈ (es.foldl (normalStep true) ([], false)).1, IsName n :=
    foldl_normalStep_rooted (fun n hn => absurd hn List.not_mem_nil) false
  show es = namesOf es ∨ namesOf es ≠ [] ∧ es = namesOf es ++ [[]]
  generalize es.foldl (normalStep true) ([], false) = normalized at helements hproper
  obtain ⟨done, slash⟩ := normalized
  have hnames : namesOf done.reverse = done.reverse :=
    namesOf_of_isName fun e he => hproper e (List.mem_reverse.mp he)
  change (if done = [] then [] else _) = es at helements
  split at helements
  · rw [← helements]
    exact .inl rfl
  · next hne =>
      rw [← helements]
      split
      · right
        rw [namesOf_append, hnames]
        refine ⟨?_, by simp [namesOf, IsName]⟩
        exact List.append_ne_nil_of_left_ne_nil (fun h => hne (List.reverse_eq_nil_iff.mp h)) _
      · left
        rw [List.append_nil, hnames]

theorem isName_of_mem {n : List Char} (h : n ∈ r.names) : IsName n := isName_of_mem_namesOf h

theorem base_eq : r.path.base = r.names := by
  unfold base
  rcases r.elements_eq with h | ⟨-, h⟩
  · have hlast : r.path.elements.getLast? ≠ some [] := by
      intro heq
      rw [h] at heq
      exact (r.isName_of_mem (List.mem_of_getLast? heq)).1 rfl
    rw [if_neg hlast, h]
  · have hlast : r.path.elements.getLast? = some [] := by
      rw [h, List.getLast?_append]
      rfl
    rw [if_pos hlast, h, List.dropLast_concat]

/-- What is appended to a root, and where a slash is left at the end. -/
def under (q : LexPath) : LexPath where
  rooted := true
  elements :=
    (r.names ++ q.names) ++
      if r.names ++ q.names ≠ [] ∧ slashAfter true q.elements then [[]] else []

theorem append_eq (es : List (List Char)) :
    r.path.append { elements := es } =
      { rooted := true
        elements := r.names ++ if es = [] then (if r.names = [] then [] else [[]]) else es } := by
  show LexPath.mk r.path.rooted (r.path.base ++ _) = _
  rw [r.rooted, r.base_eq]

/-- A relative path that does not climb ends under the root it is appended to. -/
theorem names_append {q : LexPath} (hq : q.rooted = false) (hplain : Plain q.elements) :
    (r.path.append q).lexicallyNormal = r.under q := by
  obtain ⟨rooted, es⟩ := q
  obtain rfl : rooted = false := hq
  have hnames : namesOf r.names = r.names := namesOf_of_isName fun e he => r.isName_of_mem he
  have hroot : Plain r.names := fun hmem => (r.isName_of_mem hmem).2.2 rfl
  have hplain : Plain es := hplain
  rw [r.append_eq]
  show _ = LexPath.mk true ((r.names ++ namesOf es) ++
    if r.names ++ namesOf es ≠ [] ∧ slashAfter true es then [[]] else [])
  cases es with
  | nil =>
      rw [if_pos rfl]
      by_cases hne : r.names = []
      · rw [if_pos hne, hne]
        rfl
      · have hes : Plain (r.names ++ [[]]) := fun hmem =>
          (List.mem_append.mp hmem).elim hroot (by decide)
        have hall : namesOf (r.names ++ [[]]) = r.names := by
          rw [namesOf_append, hnames]
          exact List.append_nil _
        have hslash : ∀ b, slashAfter b (r.names ++ [[]]) = true := by
          intro b
          unfold slashAfter
          rw [List.getLast?_append]
          rfl
        rw [if_neg hne, lexicallyNormal_rooted hes, hall, hslash]
        show _ = LexPath.mk true ((r.names ++ []) ++
          if r.names ++ [] ≠ [] ∧ true = true then [[]] else [])
        rw [List.append_nil]
  | cons e es =>
      have hes : Plain (r.names ++ e :: es) := fun hmem =>
        (List.mem_append.mp hmem).elim hroot hplain
      have hslash : slashAfter false (r.names ++ e :: es) = slashAfter true (e :: es) := by
        unfold slashAfter
        rw [List.getLast?_append, List.getLast?_cons]
        rfl
      rw [if_neg (List.cons_ne_nil e es), lexicallyNormal_rooted hes, namesOf_append, hnames,
        hslash]

/-- The path is the root or lies under it. -/
def Contains (p : LexPath) : Prop := p.rooted = true ∧ r.names <+: p.names ∧ Plain p.elements

theorem names_of_proper {names : List (List Char)} (h : ∀ n ∈ names, IsName n) (c : Prop)
    [Decidable c] : namesOf (names ++ if c then [[]] else []) = names := by
  rw [namesOf_append, namesOf_of_isName h]
  split
  · exact List.append_nil names
  · exact List.append_nil names

theorem plain_of_proper {names : List (List Char)} (h : ∀ n ∈ names, IsName n) (c : Prop)
    [Decidable c] : Plain (names ++ if c then [[]] else []) := by
  intro hmem
  rcases List.mem_append.mp hmem with hmem | hmem
  · exact (h _ hmem).2.2 rfl
  · split at hmem
    · exact absurd hmem (by decide)
    · exact absurd hmem List.not_mem_nil

theorem isName_under {q : LexPath} {n : List Char} (h : n ∈ r.names ++ q.names) : IsName n :=
  (List.mem_append.mp h).elim (fun hmem => r.isName_of_mem hmem) isName_of_mem_namesOf

theorem names_under (q : LexPath) : (r.under q).names = r.names ++ q.names :=
  names_of_proper (fun _ hn => r.isName_under hn) _

theorem contains_under (q : LexPath) : r.Contains (r.under q) := by
  refine ⟨rfl, ?_, plain_of_proper (fun _ hn => r.isName_under hn) _⟩
  rw [names_under]
  exact List.prefix_append _ _

/-- The parent of a path under the root lies under the root too: the root itself ends in a
slash. -/
theorem contains_parent (q : LexPath) : r.Contains (r.under q).parentPath := by
  have hproper : ∀ n ∈ r.names ++ q.names, IsName n := fun _ hn => r.isName_under hn
  by_cases hslash : r.names ++ q.names ≠ [] ∧ slashAfter true q.elements = true
  · have hparent : (r.under q).parentPath.elements = r.names ++ q.names := by
      unfold parentPath under
      dsimp only
      rw [if_pos hslash, List.dropLast_concat]
    refine ⟨rfl, ?_, ?_⟩
    · unfold LexPath.names
      rw [hparent, namesOf_of_isName hproper]
      exact List.prefix_append _ _
    · rw [hparent]
      exact fun hmem => (hproper _ hmem).2.2 rfl
  · have hparent : (r.under q).parentPath.elements = (r.names ++ q.names).dropLast := by
      unfold parentPath under
      dsimp only
      rw [if_neg hslash, List.append_nil]
    have hdrop : ∀ n ∈ (r.names ++ q.names).dropLast, IsName n := fun n hn =>
      hproper n (List.dropLast_subset _ hn)
    refine ⟨rfl, ?_, ?_⟩
    -- without a slash the last name is dropped: it is one of `q`, or there are no names at all
    · unfold LexPath.names
      rw [hparent, namesOf_of_isName hdrop]
      by_cases hq : q.names = []
      · have hroot : r.names = [] := by
          by_contra hne
          refine hslash ⟨?_, slashAfter_of_nil hq⟩
          rw [hq, List.append_nil]
          exact hne
        rw [hroot]
        exact List.nil_prefix
      · rw [List.dropLast_append_of_ne_nil hq]
        exact List.prefix_append _ _
    · rw [hparent]
      exact fun hmem => (hdrop _ hmem).2.2 rfl

end Root

end LexPath
end Foundation
