import Labios.Foundation.Separators
import Mathlib.Data.List.Basic

/-!
# URIs

`parse_uri` and `to_string` of `labios/uri.cpp`, over the characters of the string.
-/

namespace Labios

structure Uri where
  scheme : String := ""
  authority : String := ""
  path : String := ""
  query : String := ""
  deriving DecidableEq, Repr

def Uri.empty (uri : Uri) : Bool := uri.scheme.isEmpty && uri.path.isEmpty

/-- `raw.find("://")`: what stands before and after the first `://`. -/
def cutScheme : List Char → Option (List Char × List Char)
  | [] => none
  | ':' :: '/' :: '/' :: rest => some ([], rest)
  | c :: rest => (cutScheme rest).map (fun parts => (c :: parts.1, parts.2))

/-- Path and query: what stands before and after the first `?`. -/
def cutQuery (cs : List Char) : String × String :=
  (String.ofList (cs.takeWhile (· ≠ '?')), String.ofList ((cs.dropWhile (· ≠ '?')).drop 1))

def parseUri (raw : String) : Uri :=
  if raw.isEmpty then {}
  else
    match cutScheme raw.toList with
    | none =>
        -- a bare path defaults to the file scheme
        let (path, query) := cutQuery raw.toList
        { scheme := "file", path, query }
    | some (scheme, []) => { scheme := String.ofList scheme }
    | some (scheme, '/' :: rest) =>
        let (path, query) := cutQuery ('/' :: rest)
        { scheme := String.ofList scheme, path, query }
    | some (scheme, rest) =>
        let (path, query) := cutQuery (rest.dropWhile (· ≠ '/'))
        { scheme := String.ofList scheme
          authority := String.ofList (rest.takeWhile (· ≠ '/'))
          path
          query }

/-- The URI as a text again. -/
def Uri.toString (uri : Uri) : String :=
  if uri.empty then ""
  else
    uri.scheme ++ "://" ++ uri.authority ++ uri.path ++
      if uri.query.isEmpty then "" else "?" ++ uri.query

example : parseUri "s3://bucket/a/b?v=1" =
    { scheme := "s3", authority := "bucket", path := "/a/b", query := "v=1" } := by decide

end Labios

/-!
## The shape of URIs

What `parse_uri` makes of a text: the first `://` ends the scheme, the first slash behind it ends
the authority, and the first question mark behind that ends the path.
-/

namespace Labios

open Foundation

/-! ## The scheme -/

theorem cutScheme_cons {c : Char} {rest : List Char} (h : ¬"://".toList <+: c :: rest) :
    cutScheme (c :: rest) = (cutScheme rest).map fun parts => (c :: parts.1, parts.2) := by
  refine cutScheme.eq_3 c rest fun tail hc hrest => h ?_
  subst hc hrest
  exact List.prefix_append _ tail

theorem cutScheme_eq_none_iff {cs : List Char} :
    cutScheme cs = none ↔ ¬"://".toList <:+: cs := by
  induction cs with
  | nil => exact iff_of_true rfl (by decide)
  | cons c rest ih =>
      rw [List.infix_cons_iff]
      by_cases hstart : "://".toList <+: c :: rest
      · obtain ⟨tail, htail⟩ := hstart
        have hsome : cutScheme (c :: rest) = some ([], tail) := by
          rw [← htail]
          rfl
        rw [hsome]
        exact iff_of_false (Option.some_ne_none _) (not_not_intro (.inl ⟨tail, htail⟩))
      · rw [cutScheme_cons hstart, Option.map_eq_none_iff, ih]
        exact ⟨fun h => not_or.mpr ⟨hstart, h⟩, fun h => (not_or.mp h).2⟩

/-- No `://` begins in a scheme without one and ends behind it. -/
theorem cutScheme_append {scheme : List Char} (h : cutScheme scheme = none) (rest : List Char) :
    cutScheme (scheme ++ ("://".toList ++ rest)) = some (scheme, rest) := by
  induction scheme with
  | nil => rfl
  | cons c scheme ih =>
      rw [cutScheme_eq_none_iff, List.infix_cons_iff, not_or] at h
      have hstart : ¬"://".toList <+: c :: (scheme ++ ("://".toList ++ rest)) := by
        rintro ⟨tail, htail⟩
        refine h.1 ?_
        match scheme, htail with
        | [], htail => cases htail
        | [_], htail => cases htail
        | a :: b :: scheme, htail =>
            cases htail
            exact ⟨scheme, rfl⟩
      rw [List.cons_append, cutScheme_cons hstart, ih (cutScheme_eq_none_iff.mpr h.2)]
      rfl

theorem cutScheme_eq_some {cs scheme rest : List Char} (h : cutScheme cs = some (scheme, rest)) :
    cs = scheme ++ ("://".toList ++ rest) ∧ cutScheme scheme = none := by
  induction cs generalizing scheme with
  | nil => cases h
  | cons c cs ih =>
      by_cases hstart : "://".toList <+: c :: cs
      · obtain ⟨tail, htail⟩ := hstart
        rw [← htail] at h ⊢
        cases Option.some.inj h
        exact ⟨rfl, rfl⟩
      · rw [cutScheme_cons hstart, Option.map_eq_some_iff] at h
        obtain ⟨⟨scheme', rest'⟩, hcut, hparts⟩ := h
        cases hparts
        obtain ⟨rfl, hnone⟩ := ih hcut
        refine ⟨rfl, cutScheme_eq_none_iff.mpr ?_⟩
        rw [List.infix_cons_iff, not_or]
        refine ⟨fun hbegins => hstart ?_, cutScheme_eq_none_iff.mp hnone⟩
        rw [← List.cons_append]
        exact hbegins.trans (List.prefix_append _ _)

/-! ## Reading -/

theorem parseUri_bare {raw : String} (hraw : raw ≠ "") (h : cutScheme raw.toList = none) :
    parseUri raw =
      { scheme := "file", path := (cutQuery raw.toList).1, query := (cutQuery raw.toList).2 } := by
  have hsome : ¬raw.isEmpty := fun hempty => hraw (String.isEmpty_iff.mp hempty)
  unfold parseUri
  rw [if_neg hsome, h]

/-- Behind the scheme all shapes are read alike: the authority up to the first slash, then the
path up to the first question mark. -/
theorem parseUri_scheme {raw : String} {scheme rest : List Char}
    (h : cutScheme raw.toList = some (scheme, rest)) :
    parseUri raw =
      { scheme := String.ofList scheme
        authority := String.ofList (rest.takeWhile (· ≠ '/'))
        path := (cutQuery (rest.dropWhile (· ≠ '/'))).1
        query := (cutQuery (rest.dropWhile (· ≠ '/'))).2 } := by
  have hsome : ¬raw.isEmpty := by
    intro hempty
    rw [String.isEmpty_iff.mp hempty] at h
    cases h
  unfold parseUri
  rw [if_neg hsome, h]
  split
  · cases ‹some _ = none›
  · cases ‹some _ = some _›
    rfl
  · cases ‹some _ = some _›
    rfl
  · cases ‹some _ = some _›
    rfl

/-! ## The parts -/

theorem notMem_takeWhile_ne (c : Char) (cs : List Char) : c ∉ cs.takeWhile (· ≠ c) :=
  separator_notMem_takeWhile cs

theorem cutQuery_free (cs : List Char) : '?' ∉ (cutQuery cs).1.toList := by
  unfold cutQuery
  rw [String.toList_ofList]
  exact notMem_takeWhile_ne '?' cs

/-- What is left behind the authority. -/
theorem dropWhile_slash (rest : List Char) :
    '/' ∉ rest ∧ rest.takeWhile (· ≠ '/') = rest ∧ rest.dropWhile (· ≠ '/') = [] ∨
      '/' ∈ rest ∧ ∃ path, rest.dropWhile (· ≠ '/') = '/' :: path := by
  by_cases hmem : '/' ∈ rest
  · obtain ⟨front, back, rfl, hfront⟩ := List.eq_append_cons_of_mem hmem
    exact .inr ⟨hmem, back, dropWhile_separator hfront⟩
  · have hall : ∀ x ∈ rest, decide (x ≠ '/') = true := by
      intro x hx
      exact decide_eq_true fun heq => hmem (heq ▸ hx)
    exact .inl ⟨hmem, List.takeWhile_eq_self_iff.mpr hall, List.dropWhile_eq_nil_iff.mpr hall⟩

/-- Behind a scheme the authority has no slash, and the path is empty or begins with one. -/
theorem parts_of_scheme {uri : String} (hfile : (parseUri uri).scheme ≠ "file") :
    '/' ∉ (parseUri uri).authority.toList ∧
      ((parseUri uri).path.toList = [] ∨ ∃ rest, (parseUri uri).path.toList = '/' :: rest) := by
  by_cases huri : uri = ""
  · subst huri
    exact ⟨by decide, .inl (by decide)⟩
  · cases hcut : cutScheme uri.toList with
    | none =>
        rw [parseUri_bare huri hcut] at hfile
        exact absurd rfl hfile
    | some parts =>
        obtain ⟨scheme, rest⟩ := parts
        rw [parseUri_scheme hcut]
        dsimp only
        rw [String.toList_ofList]
        refine ⟨notMem_takeWhile_ne '/' rest, ?_⟩
        unfold cutQuery
        rw [String.toList_ofList]
        rcases dropWhile_slash rest with ⟨-, -, hdrop⟩ | ⟨-, path, hdrop⟩
        · rw [hdrop]
          exact .inl rfl
        · rw [hdrop]
          exact .inr ⟨path.takeWhile (· ≠ '?'), rfl⟩

end Labios
