import Labios.Client.Uri

/-!
# URIs and their texts

`to_string` writes the parts one after the other, `parse_uri` looks for them. Which parts come
back is decided by what stands behind the authority: nothing, or a slash (`reparses_iff`). A
relative path or a query without a path is read as authority (`uri_round_trip_iff`).
-/

namespace Labios

open Foundation

/-! ## Writing and reading again -/

theorem Uri.empty_iff {u : Uri} : u.empty = true ↔ u.scheme = "" ∧ u.path = "" := by
  unfold empty
  rw [Bool.and_eq_true, String.isEmpty_iff, String.isEmpty_iff]

/-- Behind the authority: the path, and the query if there is one. -/
def Uri.tail (u : Uri) : List Char :=
  u.path.toList ++ if u.query.isEmpty then [] else '?' :: u.query.toList

theorem Uri.toString_toList {u : Uri} (h : ¬u.empty) :
    u.toString.toList =
      u.scheme.toList ++ ("://".toList ++ (u.authority.toList ++ u.tail)) := by
  unfold toString tail
  rw [if_neg h]
  split
  · simp only [String.toList_append, String.append_empty, List.append_nil, List.append_assoc]
  · simp only [String.toList_append, List.append_assoc]
    rfl

theorem ofList_eq_iff {cs : List Char} {s : String} : String.ofList cs = s ↔ cs = s.toList :=
  ⟨fun h => by rw [← h, String.toList_ofList], fun h => by rw [h, String.ofList_toList]⟩

/-- A path without a question mark comes back, and so does its query. -/
theorem cutQuery_tail {u : Uri} (h : '?' ∉ u.path.toList) :
    cutQuery u.tail = (u.path, u.query) := by
  unfold cutQuery Uri.tail
  by_cases hquery : u.query.isEmpty
  · rw [if_pos hquery, List.append_nil]
    have hall : ∀ x ∈ u.path.toList, decide (x ≠ '?') = true := by
      intro x hx
      exact decide_eq_true fun heq => h (heq ▸ hx)
    rw [List.takeWhile_eq_self_iff.mpr hall, List.dropWhile_eq_nil_iff.mpr hall,
      String.ofList_toList, String.isEmpty_iff.mp hquery]
    rfl
  · rw [if_neg hquery, takeWhile_separator h, dropWhile_separator h, String.ofList_toList,
      List.drop_one, List.tail_cons, String.ofList_toList]

/-- Scheme, authority and path are free of what ends them. -/
structure Uri.Free (u : Uri) : Prop where
  scheme : ¬"://".toList <:+: u.scheme.toList
  authority : '/' ∉ u.authority.toList
  path : '?' ∉ u.path.toList

theorem Uri.tail_eq_nil_iff {u : Uri} : u.tail = [] ↔ u.path = "" ∧ u.query = "" := by
  unfold tail
  rw [List.append_eq_nil_iff, String.toList_eq_nil_iff]
  refine and_congr_right fun _ => ?_
  split
  · next hquery => exact iff_of_true rfl (String.isEmpty_iff.mp hquery)
  · next hquery =>
      exact iff_of_false (List.cons_ne_nil _ _) fun h => hquery (String.isEmpty_iff.mpr h)

/-- A slash stands behind the authority if the path begins with one. -/
theorem Uri.tail_eq_cons_iff {u : Uri} :
    (∃ rest, u.tail = '/' :: rest) ↔ u.path.toList.head? = some '/' := by
  unfold tail
  cases u.path.toList with
  | nil =>
      refine iff_of_false ?_ (by simp)
      rintro ⟨rest, hrest⟩
      split at hrest
      · cases hrest
      · cases hrest
  | cons c path => simp

theorem reparses_iff {u : Uri} (hempty : ¬u.empty) (hfree : u.Free) :
    parseUri u.toString = u ↔
      u.path = "" ∧ u.query = "" ∨ u.path.toList.head? = some '/' := by
  have hcut : cutScheme u.toString.toList =
      some (u.scheme.toList, u.authority.toList ++ u.tail) := by
    rw [Uri.toString_toList hempty]
    exact cutScheme_append (cutScheme_eq_none_iff.mpr hfree.scheme) _
  rw [parseUri_scheme hcut, ← Uri.tail_eq_nil_iff, ← Uri.tail_eq_cons_iff,
    ← takeWhile_eq_left_iff hfree.authority]
  constructor
  · intro h
    exact ofList_eq_iff.mp (congrArg Uri.authority h)
  · intro h
    have hboth : (u.authority.toList ++ u.tail).takeWhile (· ≠ '/') ++
        (u.authority.toList ++ u.tail).dropWhile (· ≠ '/') = u.authority.toList ++ u.tail :=
      List.takeWhile_append_dropWhile
    rw [h] at hboth
    rw [h, List.append_cancel_left hboth, cutQuery_tail hfree.path, String.ofList_toList,
      String.ofList_toList]

/-! ## Which texts and which URIs come back -/

/-- The text is empty or a lone question mark, or it begins with a slash, or it has a `://`;
if it begins with that, a slash follows, or nothing. -/
def Reparses (s : String) : Prop :=
  s = "" ∨ s = "?" ∨ s.toList.head? = some '/' ∨
    "://".toList <:+: s.toList ∧
      ∀ rest, s.toList = "://".toList ++ rest → rest ≠ [] → '/' ∈ rest

/-- A bare text is read as a path, or as a query alone. -/
theorem reparse_bare_iff {s : String} (hs : s ≠ "") (h : cutScheme s.toList = none) :
    parseUri (parseUri s).toString = parseUri s ↔ Reparses s := by
  have hscheme : ¬"://".toList <:+: "file".toList := by decide
  have hempty : ∀ path query : String, ¬Uri.empty { scheme := "file", path, query } := by
    intro path query hempty
    have hfile : "file" = "" := (Uri.empty_iff.mp hempty).1
    exact absurd hfile (by decide)
  rw [parseUri_bare hs h,
    reparses_iff (hempty _ _) ⟨hscheme, List.not_mem_nil, cutQuery_free _⟩]
  have hnone := cutScheme_eq_none_iff.mp h
  unfold Reparses cutQuery
  simp only [hs, hnone, false_and, or_false, false_or, String.toList_ofList, ofList_eq_iff]
  have hcs : s = "?" ↔ s.toList = ['?'] := String.toList_inj.symm
  rw [hcs]
  cases hlist : s.toList with
  | nil => exact absurd (String.toList_eq_nil_iff.mp hlist) hs
  | cons c cs =>
      by_cases hc : c = '?'
      · subst hc
        simp
      · simp [hc]

theorem reparse_scheme_iff {s : String} {scheme rest : List Char}
    (h : cutScheme s.toList = some (scheme, rest)) :
    parseUri (parseUri s).toString = parseUri s ↔ Reparses s := by
  obtain ⟨hs, hfree⟩ := cutScheme_eq_some h
  have hbegins : ∀ rest', s.toList = "://".toList ++ rest' → scheme = [] ∧ rest' = rest := by
    intro rest' heq
    rw [heq] at h
    cases Option.some.inj h
    exact ⟨rfl, rfl⟩
  have hinside : "://".toList <:+: s.toList := by
    rw [hs, ← List.append_assoc]
    exact ⟨scheme, rest, rfl⟩
  have hscheme : ∀ authority path query : String,
      '/' ∉ authority.toList → '?' ∉ path.toList →
        Uri.Free { scheme := String.ofList scheme, authority, path, query } := by
    intro authority path query hauthority hpath
    refine ⟨?_, hauthority, hpath⟩
    have hlist : (String.ofList scheme).toList = scheme := String.toList_ofList
    show ¬"://".toList <:+: (String.ofList scheme).toList
    rw [hlist]
    exact cutScheme_eq_none_iff.mp hfree
  rw [parseUri_scheme h]
  rcases dropWhile_slash rest with ⟨hslash, htake, hdrop⟩ | ⟨hslash, path, hdrop⟩
  · rw [htake, hdrop]
    show parseUri (Uri.toString
        { scheme := String.ofList scheme, authority := String.ofList rest }) =
      { scheme := String.ofList scheme, authority := String.ofList rest } ↔ Reparses s
    cases scheme with
    | nil =>
        -- without scheme and path nothing is written, and the authority is lost
        constructor
        · intro heq
          have hrest : rest = [] := (ofList_eq_iff.mp (congrArg Uri.authority heq).symm)
          exact .inr (.inr (.inr ⟨hinside, fun rest' heq hne => absurd
            ((hbegins rest' heq).2.trans hrest) hne⟩))
        · rintro (rfl | rfl | hhead | ⟨-, hall⟩)
          · cases h
          · cases h
          · rw [hs] at hhead
            cases hhead
          · by_cases hrest : rest = []
            · subst hrest
              rfl
            · exact absurd (hall rest hs hrest) hslash
    | cons c scheme =>
        refine iff_of_true ((reparses_iff ?_ (hscheme _ _ _ ?_ List.not_mem_nil)).mpr
          (.inl ⟨rfl, rfl⟩)) (.inr (.inr (.inr ⟨hinside, fun rest' heq => ?_⟩)))
        · intro hempty
          exact List.cons_ne_nil c scheme (ofList_eq_iff.mp (Uri.empty_iff.mp hempty).1)
        · rwa [String.toList_ofList]
        · exact absurd (hbegins rest' heq).1 (List.cons_ne_nil c scheme)
  · rw [hdrop]
    have hpath : (cutQuery ('/' :: path)).1.toList.head? = some '/' := by
      unfold cutQuery
      rw [String.toList_ofList]
      rfl
    refine iff_of_true ((reparses_iff ?_ (hscheme _ _ _ ?_ (cutQuery_free _))).mpr (.inr hpath))
      (.inr (.inr (.inr ⟨hinside, fun rest' heq _ => (hbegins rest' heq).2 ▸ hslash⟩)))
    · intro hempty
      have hnone : (cutQuery ('/' :: path)).1 = "" := (Uri.empty_iff.mp hempty).2
      rw [hnone] at hpath
      cases hpath
    · rw [String.toList_ofList]
      exact notMem_takeWhile_ne '/' rest

theorem reparse_iff (s : String) :
    parseUri (parseUri s).toString = parseUri s ↔ Reparses s := by
  by_cases hs : s = ""
  · subst hs
    exact iff_of_true (by decide) (.inl rfl)
  · cases h : cutScheme s.toList with
    | none => exact reparse_bare_iff hs h
    | some parts => exact reparse_scheme_iff h

/-- A scheme, no separator in the wrong part, and a path that is empty or absolute. -/
structure Uri.Plain (u : Uri) : Prop extends u.Free where
  scheme_ne : u.scheme ≠ ""
  authority_query : '?' ∉ u.authority.toList
  absolute : u.path = "" ∨ u.path.toList.head? = some '/'

theorem render_reparses_iff {u : Uri} (h : u.Plain) :
    parseUri u.toString = u ↔ (u.path = "" → u.query = "") := by
  rw [reparses_iff (fun hempty => h.scheme_ne (Uri.empty_iff.mp hempty).1) h.toFree]
  rcases h.absolute with hpath | hpath
  · simp [hpath]
  · have hne : u.path ≠ "" := by
      intro heq
      rw [heq] at hpath
      cases hpath
    simp [hpath, hne]

/-- **Round trip of URIs.** Reading, writing and reading again changes nothing exactly for the
texts of `Reparses`; writing and reading a plain URI changes nothing exactly if it has no query
or has a path. -/
theorem uri_round_trip_iff (s : String) (u : Uri) :
    (parseUri (parseUri s).toString = parseUri s ↔ Reparses s) ∧
      (u.Plain → (parseUri u.toString = u ↔ (u.path = "" → u.query = ""))) :=
  ⟨reparse_iff s, fun h => render_reparses_iff h⟩

theorem uri_round_trip_kv :
    parseUri (parseUri "kv://redis/a?v=1").toString = parseUri "kv://redis/a?v=1" ∧
      parseUri (Uri.toString { scheme := "kv", authority := "redis", path := "/a", query := "?" }) =
        { scheme := "kv", authority := "redis", path := "/a", query := "?" } := by
  obtain ⟨hread, hwritten⟩ := uri_round_trip_iff "kv://redis/a?v=1"
    { scheme := "kv", authority := "redis", path := "/a", query := "?" }
  refine ⟨hread.mpr ?_, (hwritten ?_).mpr ?_⟩
  · exact .inr (.inr (.inr ⟨⟨"kv".toList, "redis/a?v=1".toList, by decide⟩, fun rest h => by
      cases h⟩))
  · exact ⟨⟨by decide, by decide, by decide⟩, by decide, by decide, .inr (by decide)⟩
  · exact fun h => absurd h (by decide)

/-- A relative path comes back as an authority, and so does a query without a path. -/
theorem relativePath_lost :
    parseUri (parseUri "data.txt").toString ≠ parseUri "data.txt" ∧
      parseUri (Uri.toString { scheme := "kv", authority := "redis", query := "v=1" }) =
        { scheme := "kv", authority := "redis?v=1" } := by
  decide

end Labios
