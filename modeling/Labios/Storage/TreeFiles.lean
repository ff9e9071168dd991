import Labios.Storage.Tree

/-!
# The files of a tree

The two models of the file backend agree. They take a path for the same names, and both or
neither for a file (`sanitize_resolves`). What `put` and `get` do on the tree without an error,
they do on the files of the tree under the root (`put_refines`, `get_refines`).
-/

namespace Labios

open Foundation LexPath

namespace PosixTree

/-! ## Names of a path -/

section Names

variable {done es : List (List Char)} {text : List Char}

theorem splitSlash_eq (text : List Char) : splitSlash text = text.splitOn '/' := by
  induction text with
  | nil => rfl
  | cons c rest ih =>
      rw [List.splitOn_cons_eq_if_modifyHead, splitSlash, ih]
      by_cases hslash : c = '/'
      · rw [if_pos hslash, if_pos (beq_iff_eq.mpr hslash)]
      · rw [if_neg hslash, if_neg (fun heq => hslash (beq_iff_eq.mp heq))]
        obtain ⟨part, parts, hparts⟩ := List.exists_cons_of_ne_nil (List.splitOn_ne_nil '/' rest)
        rw [hparts]
        rfl

/-- A component does to the names what an element does. -/
theorem pushComponent_eq (done : List (List Char)) (slash : Bool) (part : List Char) :
    pushComponent done part = (normalStep false (done, slash) part).1 := by
  unfold pushComponent
  by_cases hup : part = ['.', '.']
  · subst hup
    cases done with
    | nil => rfl
    | cons last rest =>
        show (if last = ['.', '.'] then _ else _) = (if last = ['.', '.'] then _ else _ : _ × _).1
        split
        · rfl
        · rfl
  · rcases isName_or_skip hup with hname | ⟨-, hskip⟩
    · rw [if_neg (not_or.mpr ⟨hname.1, hname.2.1⟩), if_neg hup, normalStep_name hname]
    · rw [if_pos hskip, normalStep_skip hskip]

theorem foldl_pushComponent (es done : List (List Char)) (slash : Bool) :
    es.foldl pushComponent done = (es.foldl (normalStep false) (done, slash)).1 := by
  induction es generalizing done slash with
  | nil => rfl
  | cons e es ih =>
      rw [List.foldl_cons, List.foldl_cons, pushComponent_eq done slash e]
      exact ih _ _

theorem foldl_filter_empty (es done : List (List Char)) :
    (es.filter (· ≠ [])).foldl pushComponent done = es.foldl pushComponent done := by
  induction es generalizing done with
  | nil => rfl
  | cons e es ih =>
      by_cases hempty : e = []
      · subst hempty
        rw [List.filter_cons_of_neg (by simp), List.foldl_cons]
        exact ih done
      · rw [List.filter_cons_of_pos (by simpa using hempty), List.foldl_cons, List.foldl_cons]
        exact ih _

/-- Of the components, the elements leave out empty ones. -/
theorem foldl_elementsOf (text : List Char) (done : List (List Char)) :
    (elementsOf text).foldl pushComponent done = (splitSlash text).foldl pushComponent done := by
  cases text with
  | nil => rfl
  | cons c rest =>
      rw [splitSlash_eq]
      show ((((c :: rest).splitOn '/').dropLast.filter (· ≠ [])) ++
        ((c :: rest).splitOn '/').getLast?.toList).foldl pushComponent done = _
      rw [List.foldl_append, foldl_filter_empty, ← List.foldl_append]
      congr 1
      have hne := List.splitOn_ne_nil '/' (c :: rest)
      rw [List.getLast?_eq_some_getLast hne]
      exact List.dropLast_concat_getLast hne

theorem foldl_dropWhile_slash (text : List Char) :
    (splitSlash (text.dropWhile (· = '/'))).foldl pushComponent [] =
      (splitSlash text).foldl pushComponent [] := by
  induction text with
  | nil => rfl
  | cons c rest ih =>
      by_cases hslash : c = '/'
      · rw [List.dropWhile_cons_of_pos (by simp [hslash]), ih, splitSlash, if_pos hslash]
        rfl
      · rw [List.dropWhile_cons_of_neg (by simpa using hslash)]

/-- The names that the elements of a path come to, the last one first. -/
theorem foldl_ofText (path : String) (slash : Bool) :
    ((ofText path.toList).elements.foldl (normalStep false) ([], slash)).1 =
      (normalizedPath path).reverse := by
  rw [← foldl_pushComponent]
  show (elementsOf (path.toList.dropWhile (· = '/'))).foldl pushComponent [] = _
  rw [foldl_elementsOf, foldl_dropWhile_slash]
  exact (List.reverse_reverse _).symm

/-- Normalizing leaves names and steps up. -/
theorem foldl_normalStep_elements (es : List (List Char)) {done : List (List Char)}
    (slash : Bool) (hdone : ∀ n ∈ done, IsName n ∨ n = ['.', '.']) :
    ∀ n ∈ (es.foldl (normalStep false) (done, slash)).1, IsName n ∨ n = ['.', '.'] := by
  induction es generalizing done slash with
  | nil => exact hdone
  | cons e es ih =>
      rw [List.foldl_cons]
      by_cases hup : e = ['.', '.']
      · subst hup
        cases done with
        | nil =>
            refine ih false fun n hn => ?_
            exact .inr (List.mem_singleton.mp hn)
        | cons last rest =>
            show ∀ n ∈ (es.foldl (normalStep false) (if last = ['.', '.'] then _ else _)).1, _
            split
            · refine ih false fun n hn => ?_
              rcases List.mem_cons.mp hn with rfl | hn
              · exact .inr rfl
              · exact hdone n hn
            · exact ih true fun n hn => hdone n (List.mem_cons_of_mem last hn)
      · rcases isName_or_skip hup with hname | ⟨-, hskip⟩
        · rw [normalStep_name hname]
          refine ih false fun n hn => ?_
          rcases List.mem_cons.mp hn with rfl | hn
          · exact .inl hname
          · exact hdone n hn
        · rw [normalStep_skip hskip]
          exact ih true hdone

theorem isName_of_mem_normalizedPath {path : String} (hplain : ['.', '.'] ∉ normalizedPath path)
    {n : List Char} (hn : n ∈ normalizedPath path) : IsName n := by
  have hall := foldl_normalStep_elements (ofText path.toList).elements false
    (fun n hn => absurd hn List.not_mem_nil)
  rw [foldl_ofText] at hall
  exact (hall n (List.mem_reverse.mpr hn)).resolve_right fun heq => hplain (heq ▸ hn)

/-! ## Whether the path ends in a name -/

theorem splitSlash_ne_nil (text : List Char) : splitSlash text ≠ [] := by
  rw [splitSlash_eq]
  exact List.splitOn_ne_nil '/' text

theorem getLast?_dropWhile_slash (text : List Char) :
    (splitSlash (text.dropWhile (· = '/'))).getLast? = (splitSlash text).getLast? := by
  induction text with
  | nil => rfl
  | cons c rest ih =>
      by_cases hslash : c = '/'
      · rw [List.dropWhile_cons_of_pos (by simp [hslash]), ih, splitSlash, if_pos hslash,
          List.getLast?_cons, List.getLast?_eq_some_getLast (splitSlash_ne_nil rest)]
        rfl
      · rw [List.dropWhile_cons_of_neg (by simpa using hslash)]

theorem namesFile_eq (path : String) : namesFile path = hasFilename (ofText path.toList) := by
  have hlast := getLast?_dropWhile_slash path.toList
  unfold namesFile hasFilename
  rw [← hlast]
  show _ = (elementsOf (path.toList.dropWhile (· = '/'))).getLast?.any _
  cases path.toList.dropWhile (· = '/') with
  | nil => rfl
  | cons c rest =>
      have hne := splitSlash_ne_nil (c :: rest)
      have helements : elementsOf (c :: rest) =
          (((c :: rest).splitOn '/').dropLast.filter (· ≠ [])) ++
            ((c :: rest).splitOn '/').getLast?.toList := rfl
      rw [helements, ← splitSlash_eq, List.getLast?_eq_some_getLast hne, Option.toList_some,
        List.getLast?_concat]
      rfl

/-- Without a step up in the result, a slash is left exactly where the last element is no name. -/
theorem foldl_normalStep_slash {es : List (List Char)} (hne : es ≠ [])
    (hplain : ['.', '.'] ∉ (es.foldl (normalStep false) ([], false)).1) :
    (es.foldl (normalStep false) ([], false)).2 = !es.getLast?.any (fun e => IsName e) ∧
      ((es.foldl (normalStep false) ([], false)).1 = [] →
        es.getLast?.any (fun e => IsName e) = false) := by
  obtain ⟨front, e, rfl⟩ := (List.eq_nil_or_concat' es).resolve_left hne
  rw [List.getLast?_concat, Option.any_some]
  rw [List.foldl_append] at hplain ⊢
  generalize front.foldl (normalStep false) ([], false) = before at hplain ⊢
  obtain ⟨done, slash⟩ := before
  rw [List.foldl_cons, List.foldl_nil] at hplain ⊢
  by_cases hup : e = ['.', '.']
  · subst hup
    cases done with
    -- a step up that meets no name is left in the result
    | nil => exact absurd List.mem_cons_self hplain
    | cons last rest =>
        have hstep : normalStep false (last :: rest, slash) ['.', '.'] =
            if last = ['.', '.'] then (['.', '.'] :: last :: rest, false) else (rest, true) := rfl
        rw [hstep] at hplain ⊢
        split
        · next hlast =>
            rw [if_pos hlast] at hplain
            exact absurd List.mem_cons_self hplain
        · exact ⟨rfl, fun _ => rfl⟩
  · rcases isName_or_skip hup with hname | ⟨hname, hskip⟩
    · rw [normalStep_name hname, decide_eq_true hname]
      exact ⟨rfl, fun hnil => absurd hnil (List.cons_ne_nil _ _)⟩
    · rw [normalStep_skip hskip, decide_eq_false hname]
      exact ⟨rfl, fun _ => rfl⟩

end Names

/-! ## Sanitized paths -/

section Sanitized

variable {r : Root} {path : String} {q : LexPath}

/-- A path, relative and normalized. -/
def relativeNormal (path : String) : LexPath :=
  (LexPath.mk false (ofText path.toList).elements).lexicallyNormal

theorem relative_eq (p : LexPath) :
    (if p.rooted then p.relativePath else p) = { rooted := false, elements := p.elements } := by
  obtain ⟨rooted, es⟩ := p
  cases rooted with
  | _ => rfl

theorem lexicallyNormal_relative {es names : List (List Char)} (hne : es ≠ [])
    (hnames : (es.foldl (normalStep false) ([], false)).1 = names.reverse) :
    (LexPath.mk false es).lexicallyNormal.elements =
      if names = [] then [['.']]
      else names ++ if (es.foldl (normalStep false) ([], false)).2 = true ∧
        names.reverse.head? ≠ some ['.', '.'] then [[]] else [] := by
  obtain ⟨e, es, rfl⟩ := List.exists_cons_of_ne_nil hne
  have hempty : (LexPath.mk false (e :: es)).isEmpty = false := rfl
  unfold lexicallyNormal
  rw [hempty, if_neg Bool.false_ne_true]
  show (if ((e :: es).foldl (normalStep false) ([], false)).1 = [] then [['.']]
    else ((e :: es).foldl (normalStep false) ([], false)).1.reverse ++ if _ then _ else _) = _
  rw [hnames, List.reverse_reverse]
  by_cases hnil : names = []
  · rw [if_pos hnil, if_pos (List.reverse_eq_nil_iff.mpr hnil)]
  · rw [if_neg hnil, if_neg (mt List.reverse_eq_nil_iff.mp hnil)]

/-- Its elements are its names, and a slash where the path does not end in a name; without names
at most a dot. -/
theorem relativeNormal_elements (hplain : ['.', '.'] ∉ normalizedPath path) :
    normalizedPath path = [] ∧ namesFile path = false ∧
        ((relativeNormal path).elements = [] ∨ (relativeNormal path).elements = [['.']]) ∨
      normalizedPath path ≠ [] ∧ (relativeNormal path).elements =
        normalizedPath path ++ if namesFile path = false then [[]] else [] := by
  have hnames := foldl_ofText path false
  have hslash := @foldl_normalStep_slash (ofText path.toList).elements
  rw [hnames, List.mem_reverse] at hslash
  rw [namesFile_eq]
  unfold relativeNormal hasFilename
  generalize (ofText path.toList).elements = es at hnames hslash ⊢
  by_cases hne : es = []
  · subst hne
    exact .inl ⟨List.reverse_eq_nil_iff.mp hnames.symm, rfl, .inl rfl⟩
  · obtain ⟨hlast, hnone⟩ := hslash hne hplain
    rw [lexicallyNormal_relative hne hnames, hlast]
    by_cases hnil : normalizedPath path = []
    · rw [if_pos hnil]
      exact .inl ⟨hnil, hnone (List.reverse_eq_nil_iff.mpr hnil), .inr rfl⟩
    · have hhead : (normalizedPath path).reverse.head? ≠ some ['.', '.'] := fun heq =>
        hplain (List.mem_reverse.mp (List.mem_of_mem_head? heq))
      rw [if_neg hnil]
      refine .inr ⟨hnil, congrArg (normalizedPath path ++ ·) ?_⟩
      cases es.getLast?.any (fun e => IsName e) with
      | true => rfl
      | false => exact if_pos ⟨rfl, hhead⟩

theorem mem_relativeNormal (hclimbs : ['.', '.'] ∈ normalizedPath path) :
    ['.', '.'] ∈ (relativeNormal path).elements := by
  have hnames := foldl_ofText path false
  have hsome : normalizedPath path ≠ [] := List.ne_nil_of_mem hclimbs
  unfold relativeNormal
  generalize (ofText path.toList).elements = es at hnames ⊢
  by_cases hne : es = []
  · subst hne
    exact absurd (List.reverse_eq_nil_iff.mp hnames.symm) hsome
  · rw [lexicallyNormal_relative hne hnames, if_neg hsome]
    exact List.mem_append_left _ hclimbs

theorem isEmpty_ofText (path : String) : (ofText path.toList).isEmpty = path.isEmpty := by
  have hempty : path.isEmpty = path.toList.isEmpty := by
    rw [Bool.eq_iff_iff, String.isEmpty_iff, List.isEmpty_iff, String.toList_eq_nil_iff]
  rw [hempty]
  cases path.toList with
  | nil => rfl
  | cons c rest =>
      show (!decide (some c = some '/') && (elementsOf ((c :: rest).dropWhile (· = '/'))).isEmpty) =
        false
      by_cases hslash : c = '/'
      · rw [hslash]
        rfl
      · rw [List.dropWhile_cons_of_neg (by simpa using hslash)]
        have hne := List.splitOn_ne_nil '/' (c :: rest)
        show (_ && (_ ++ ((c :: rest).splitOn '/').getLast?.toList).isEmpty) = false
        rw [List.getLast?_eq_some_getLast hne]
        simp

theorem sanitize_eq (path : String) :
    sanitizeRelativePath (ofText path.toList) =
      if path.isEmpty then none
      else if ['.', '.'] ∈ normalizedPath path then none else some (relativeNormal path) := by
  unfold sanitizeRelativePath
  rw [isEmpty_ofText, relative_eq]
  by_cases hempty : path.isEmpty = true
  · rw [if_pos hempty, if_pos hempty]
  · rw [if_neg hempty, if_neg hempty]
    show (if (relativeNormal path).elements.any (fun part => part = ['.', '.']) = true then none
      else some (relativeNormal path)) = _
    by_cases hclimbs : ['.', '.'] ∈ normalizedPath path
    · rw [if_pos hclimbs, if_pos]
      exact List.any_eq_true.mpr ⟨_, mem_relativeNormal hclimbs, decide_eq_true rfl⟩
    · have hnone : ¬(relativeNormal path).elements.any (fun part => part = ['.', '.']) = true := by
        intro hany
        obtain ⟨part, hmem, heq⟩ := List.any_eq_true.mp hany
        obtain rfl := of_decide_eq_true heq
        rcases relativeNormal_elements hclimbs with ⟨-, -, helements | helements⟩ | ⟨-, helements⟩
        · rw [helements] at hmem
          exact absurd hmem List.not_mem_nil
        · rw [helements] at hmem
          exact absurd hmem (by decide)
        · rw [helements] at hmem
          rcases List.mem_append.mp hmem with hmem | hmem
          · exact hclimbs hmem
          · split at hmem
            · exact absurd hmem (by decide)
            · exact absurd hmem List.not_mem_nil
      rw [if_neg hclimbs, if_neg hnone]

theorem names_relativeNormal (hplain : ['.', '.'] ∉ normalizedPath path) :
    (relativeNormal path).names = normalizedPath path := by
  show namesOf (relativeNormal path).elements = _
  rcases relativeNormal_elements hplain with ⟨hnil, -, helements | helements⟩ | ⟨-, helements⟩
  · rw [helements, hnil]
    rfl
  · rw [helements, hnil]
    decide
  · rw [helements]
    exact Root.names_of_proper (fun _ hn => isName_of_mem_normalizedPath hplain hn) _

/-- A slash is left behind a path that does not end in a name. -/
theorem slashAfter_relativeNormal (hplain : ['.', '.'] ∉ normalizedPath path) :
    slashAfter true (relativeNormal path).elements = !namesFile path := by
  rcases relativeNormal_elements hplain with
    ⟨-, hends, helements | helements⟩ | ⟨hne, helements⟩
  · rw [helements, hends]
    rfl
  · rw [helements, hends]
    decide
  · rw [helements]
    unfold slashAfter
    cases namesFile path with
    | true =>
        have hlast := List.getLast?_eq_some_getLast hne
        have hname := isName_of_mem_normalizedPath hplain (List.getLast_mem hne)
        rw [if_neg Bool.noConfusion, List.append_nil, hlast]
        exact decide_eq_false (not_not_intro hname)
    | false =>
        rw [if_pos rfl, List.getLast?_concat]
        decide

/-- A path under the root ends in a name if it leaves no slash. -/
theorem hasFilename_under (r : Root) (q : LexPath) :
    hasFilename (r.under q) = !slashAfter true q.elements := by
  unfold hasFilename Root.under
  dsimp only
  cases hslash : slashAfter true q.elements with
  | true =>
      by_cases hnil : r.names ++ q.names = []
      · rw [if_neg fun h => h.1 hnil, hnil]
        rfl
      · rw [if_pos ⟨hnil, rfl⟩, List.getLast?_concat]
        decide
  | false =>
      have hne : q.names ≠ [] := by
        intro hnil
        rw [slashAfter_of_nil hnil] at hslash
        cases hslash
      have hall : r.names ++ q.names ≠ [] := List.append_ne_nil_of_right_ne_nil _ hne
      rw [if_neg fun h => Bool.noConfusion h.2, List.append_nil,
        List.getLast?_eq_some_getLast hall, Option.any_some]
      exact decide_eq_true (r.isName_under (List.getLast_mem hall))

/-- The two models take a path for the same names, and both or neither for a file. -/
theorem sanitize_resolves (r : Root) (path : String) :
    (sanitizeRelativePath (ofText path.toList)).map
        (fun q => ((r.under q).names, hasFilename (r.under q))) =
      (resolvePath path).map fun file => (r.names ++ file.1, file.2) := by
  rw [sanitize_eq]
  unfold resolvePath Labios.sanitizeRelativePath
  split
  · rfl
  · split
    · rfl
    · next hplain =>
        rw [Option.map_some, Option.map_some, Option.map_some, r.names_under,
          names_relativeNormal hplain, hasFilename_under, slashAfter_relativeNormal hplain,
          Bool.not_not]

end Sanitized

/-! ## Operations on the files -/

section Operations

variable {root : String} {r : Root} {os : OperatingSystem} {t : Tree} {label : LabelData}
  {path : LexPath} {offset : UInt64}

/-- The files under the root. -/
def files (r : Root) (t : Tree) : FileSystem := fun name =>
  match t (r.names ++ name) with
  | some (.file content) => some content
  | _ => none

theorem resolve_map (r : Root) (path : String) (offset : UInt64) :
    ((sanitizeRelativePath (ofText path.toList)).map
          fun relative => (fullPath r.path relative, offset)).map
        (fun p => ((p.1.names, hasFilename p.1), p.2)) =
      ((resolvePath path).map fun file => (file, offset)).map
        fun p => ((r.names ++ p.1.1, p.1.2), p.2) := by
  have hresolves := congrArg (Option.map fun file => (file, offset)) (sanitize_resolves r path)
  rw [Option.map_map, Option.map_map] at hresolves ⊢
  refine Eq.trans ?_ hresolves
  cases hq : sanitizeRelativePath (ofText path.toList) with
  | none => rfl
  | some q =>
      show some _ = some _
      dsimp only [Function.comp_apply]
      rw [fullPath_under hq]

theorem resolveDest_files (r : Root) (label : LabelData) :
    (resolveDest r.path label).map (fun p => ((p.1.names, hasFilename p.1), p.2)) =
      (Labios.resolveDest label).map fun p => ((r.names ++ p.1.1, p.1.2), p.2) := by
  unfold resolveDest Labios.resolveDest
  split
  · have hmap := resolve_map r
      (String.ofList (stripLeadingSlash (parseUri label.destUri).path.toList)) 0
    rwa [String.toList_ofList] at hmap
  · cases label.destination with
    | filePath fp => exact resolve_map r fp.path fp.offset
    | _ => rfl

theorem resolveSource_files (r : Root) (label : LabelData) :
    (resolveSource r.path label).map (fun p => ((p.1.names, hasFilename p.1), p.2)) =
      (Labios.resolveSource label).map fun p => ((r.names ++ p.1.1, p.1.2), p.2) := by
  unfold resolveSource Labios.resolveSource
  split
  · have hmap := resolve_map r
      (String.ofList (stripLeadingSlash (parseUri label.sourceUri).path.toList)) 0
    rwa [String.toList_ofList] at hmap
  · cases label.source with
    | filePath fp => exact resolve_map r fp.path fp.offset
    | _ => rfl

/-- Creating directories leaves the files. -/
theorem files_createDirectories (os : OperatingSystem) (r : Root) (path : LexPath) (t : Tree) :
    files r (createDirectories os path t).2.1 = files r t := by
  funext name
  show (match (makeDirectories os [] path.names t).2.1 (r.names ++ name) with
    | some (.file content) => some content
    | _ => none) = _
  rcases makeDirectories_tree os [] path.names t (r.names ++ name) with hsame | ⟨hnone, hmade, -⟩
  · rw [hsame]
    rfl
  · rw [hmade]
    unfold files
    rw [hnone]

theorem files_update (r : Root) (t : Tree) (name : List (List Char)) (content : List UInt8) :
    files r (Function.update t (r.names ++ name) (some (.file content))) =
      Function.update (files r t) name (some content) := by
  funext other
  unfold files
  by_cases hother : other = name
  · rw [hother, Function.update_self, Function.update_self]
  · rw [Function.update_of_ne fun heq => hother (List.append_cancel_left heq),
      Function.update_of_ne hother]

theorem openedContent_files (t : Tree) {name : List (List Char)}
    (hnames : path.names = r.names ++ name) :
    openedContent t path offset = openForPut (files r t) name offset := by
  unfold openedContent openForPut files
  rw [hnames]
  cases t (r.names ++ name) with
  | none => rfl
  | some node =>
      cases node with
      | directory => rfl
      | file content => rfl

/-- A `put` that succeeds on the tree does the same to the files. -/
theorem put_refines {data : List UInt8}
    (h : (put os r.path label data t).result = .ok ()) :
    posixPut root label data (files r t) =
      (.ok (), files r (put os r.path label data t).tree) := by
  have hresolves := resolveDest_files r label
  unfold posixPut
  unfold put at h ⊢
  cases hdest : resolveDest r.path label with
  | none =>
      rw [hdest] at h
      cases h
  | some resolved =>
      obtain ⟨path, offset⟩ := resolved
      rw [hdest, Option.map_some, eq_comm, Option.map_eq_some_iff] at hresolves
      obtain ⟨⟨⟨name, isFile⟩, offset'⟩, hname, heq⟩ := hresolves
      obtain ⟨hfile, rfl⟩ := Prod.mk.inj heq
      obtain ⟨hnames, hends⟩ := Prod.mk.inj hfile
      have hmade := files_createDirectories os r path.parentPath t
      rw [hdest] at h
      rw [hname]
      dsimp only at h hnames hends ⊢
      generalize createDirectories os path.parentPath t = made at h hmade ⊢
      obtain ⟨made, t', touched⟩ := made
      cases made with
      | false => cases h
      | true =>
          dsimp only at h hmade ⊢
          split at h
          · cases h
          · next hopened =>
              rw [if_neg hopened]
              rw [not_or, not_or, not_not, not_not] at hopened
              split at h
              · next hseek =>
                  rw [if_pos hseek, hends, hopened.2.1, Bool.not_true,
                    if_neg Bool.false_ne_true, if_pos hseek]
                  dsimp only
                  rw [← hnames, files_update, hmade, openedContent_files t' hnames.symm, hmade]
                  rfl
              · cases h

/-- What `get` reads from a file of the tree, it reads from the files. -/
theorem get_refines {bytes : List UInt8} (h : (get os r.path label t).result = .ok bytes)
    (hfile : ∀ path offset, resolveSource r.path label = some (path, offset) →
      t path.names ≠ some .directory) :
    posixGet root label (files r t) = .ok bytes := by
  have hresolves := resolveSource_files r label
  unfold posixGet
  unfold get at h
  cases hsource : resolveSource r.path label with
  | none =>
      rw [hsource] at h
      cases h
  | some resolved =>
      obtain ⟨path, offset⟩ := resolved
      have hnot := hfile path offset hsource
      rw [hsource, Option.map_some, eq_comm, Option.map_eq_some_iff] at hresolves
      obtain ⟨⟨⟨name, isFile⟩, offset'⟩, hname, heq⟩ := hresolves
      obtain ⟨hpath, rfl⟩ := Prod.mk.inj heq
      obtain ⟨hnames, hends⟩ := Prod.mk.inj hpath
      rw [hsource] at h
      rw [hname]
      dsimp only at h hnames hends ⊢
      split at h
      · cases hnode : t path.names with
        | none =>
            rw [hnode] at h
            cases h
        | some node =>
            rw [hnode] at h hnot
            cases node with
            | directory => exact absurd rfl hnot
            | file content =>
                dsimp only at h
                have hcontent : files r t name = some content := by
                  unfold files
                  rw [hnames, hnode]
                split at h
                · next hfilename =>
                    rw [hends, hfilename, if_pos rfl, hcontent]
                    dsimp only
                    unfold readContent at h
                    split at h
                    · cases h
                    · next hseek =>
                        rw [if_neg hseek]
                        split at h
                        · next hsize =>
                            rw [if_pos hsize]
                            split at h
                            · cases h
                            · next hbehind => rw [if_neg hbehind, h]
                        · next hsize => rw [if_neg hsize, h]
                · cases h
      · cases h

end Operations

end PosixTree

end Labios
