import Labios.Foundation.LexicalPath
import Labios.Storage.Posix

/-!
# The file backend on a tree of directories

`PosixBackend` of `labios/backend/posix_backend.cpp` once more, with absolute paths, directories,
and what each operation touches. What the operating system grants, and what it makes of reading
a directory, is a parameter. There are no symbolic links.
-/

namespace Labios

open Foundation LexPath

inductive Node
  | directory
  | file (content : List UInt8)
  deriving DecidableEq, Repr

/-- What stands at the names behind the root directory, which is always there. -/
abbrev Tree := List (List Char) → Option Node

/-- An access that changes the tree or opens a file. -/
inductive Touch
  | creates (path : LexPath)
  | opens (path : LexPath)
  | removes (path : LexPath)
  deriving DecidableEq, Repr

def Touch.path : Touch → LexPath
  | .creates path => path
  | .opens path => path
  | .removes path => path

structure OperatingSystem where
  grants : Touch → Bool
  /-- The text of an error. -/
  message : Touch → String
  readDirectory : LexPath → Except String (List UInt8)

/-- What comes of an operation. -/
structure Ran (α : Type) where
  result : Except String α
  tree : Tree
  touched : List Touch := []

namespace PosixTree

def sanitizeRelativePath (rawPath : LexPath) : Option LexPath :=
  if rawPath.isEmpty then none
  else
    let normalized :=
      (if rawPath.rooted then rawPath.relativePath else rawPath).lexicallyNormal
    if normalized.elements.any fun part => part = ['.', '.'] then none else some normalized

/-- `(root_ / *relative).lexically_normal()`. -/
def fullPath (root relative : LexPath) : LexPath := (root.append relative).lexicallyNormal

def resolveDest (root : LexPath) (label : LabelData) : Option (LexPath × UInt64) :=
  if label.destUri ≠ "" then
    (sanitizeRelativePath
      (LexPath.ofText (stripLeadingSlash (parseUri label.destUri).path.toList))).map
        fun relative => (fullPath root relative, 0)
  else
    match label.destination with
    | .filePath fp =>
        (sanitizeRelativePath (LexPath.ofText fp.path.toList)).map
          fun relative => (fullPath root relative, fp.offset)
    | _ => none

def resolveSource (root : LexPath) (label : LabelData) : Option (LexPath × UInt64) :=
  if label.sourceUri ≠ "" then
    (sanitizeRelativePath
      (LexPath.ofText (stripLeadingSlash (parseUri label.sourceUri).path.toList))).map
        fun relative => (fullPath root relative, 0)
  else
    match label.source with
    | .filePath fp =>
        (sanitizeRelativePath (LexPath.ofText fp.path.toList)).map
          fun relative => (fullPath root relative, fp.offset)
    | _ => none

/-! ## Operations -/

/-- Behind the directories `above`, the missing ones of `names` are created in turn. -/
def makeDirectories (os : OperatingSystem) :
    List (List Char) → List (List Char) → Tree → Bool × Tree × List Touch
  | _, [], t => (true, t, [])
  | above, name :: names, t =>
      let path := above ++ [name]
      match t path with
      | some .directory => makeDirectories os path names t
      | some (.file _) => (false, t, [])
      | none =>
          -- `mkdir` of a missing directory may be refused
          let touch := Touch.creates { rooted := true, elements := path }
          if os.grants touch then
            let (made, t, touched) :=
              makeDirectories os path names (Function.update t path (some .directory))
            (made, t, touch :: touched)
          else (false, t, [touch])

/-- `std::filesystem::create_directories`. -/
def createDirectories (os : OperatingSystem) (path : LexPath) (t : Tree) :
    Bool × Tree × List Touch :=
  makeDirectories os [] path.names t

/-- A text with the path behind it. -/
def withPath (text : String) (path : LexPath) : String := text ++ String.ofList path.toText

/-- The path ends in a name, not in a slash. -/
def hasFilename (path : LexPath) : Bool := path.elements.getLast?.any fun e => LexPath.IsName e

/-- The content that a `put` finds in the file it opens; without `std::ios::in` it is cut off. -/
def openedContent (t : Tree) (path : LexPath) (offset : UInt64) : List UInt8 :=
  match t path.names with
  | some (.file content) => if 0 < offset then content else []
  | _ => []

def put (os : OperatingSystem) (root : LexPath) (label : LabelData) (data : List UInt8)
    (t : Tree) : Ran Unit :=
  match resolveDest root label with
  | none => { result := .error "invalid destination path", tree := t }
  | some (path, offset) =>
      match createDirectories os path.parentPath t with
      | (false, t, touched) =>
          { result := .error "filesystem error: cannot create directories", tree := t, touched }
      | (true, t, touched) =>
          let touched := touched ++ [.opens path]
          if ¬os.grants (.opens path) ∨ ¬hasFilename path ∨ t path.names = some .directory then
            { result := .error (withPath "failed to open " path), tree := t, touched }
          else if seekable offset then
            { result := .ok ()
              tree := Function.update t path.names
                (some (.file (writeAt (openedContent t path offset) offset.toNat data)))
              touched }
          else
            { result := .error (withPath "failed to write " path)
              tree := Function.update t path.names (some (.file (openedContent t path offset)))
              touched }

/-- What `get` reads from an open file. -/
def readContent (path : LexPath) (content : List UInt8) (offset dataSize : UInt64) :
    Except String (List UInt8) :=
  if !seekable offset then .error (withPath "failed to seek " path)
  else if dataSize = 0 then
    if content.length < offset.toNat then .error "cannot create std::vector larger than max_size()"
    else .ok (content.drop offset.toNat)
  else .ok ((content.drop offset.toNat).take dataSize.toNat)

def get (os : OperatingSystem) (root : LexPath) (label : LabelData) (t : Tree) :
    Ran (List UInt8) :=
  match resolveSource root label with
  | none => { result := .error "invalid source path", tree := t }
  | some (path, offset) =>
      { result :=
          if os.grants (.opens path) then
            match t path.names with
            | none => .error (withPath "data not found: " path)
            | some .directory => os.readDirectory path
            | some (.file content) =>
                if hasFilename path then readContent path content offset label.dataSize
                else .error (withPath "data not found: " path)
          else .error (withPath "data not found: " path)
        tree := t
        touched := [.opens path] }

/-- `std::filesystem::remove`; that a directory must be empty is part of what is granted. -/
def del (os : OperatingSystem) (root : LexPath) (label : LabelData) (t : Tree) : Ran Unit :=
  match resolveDest root label with
  | none => { result := .error "invalid destination path", tree := t }
  | some (path, _) =>
      match t path.names with
      | none => { result := .ok (), tree := t, touched := [.removes path] }
      | some node =>
          if os.grants (.removes path) ∧ (node = .directory ∨ hasFilename path) then
            { result := .ok ()
              tree := Function.update t path.names none
              touched := [.removes path] }
          else
            { result := .error (os.message (.removes path))
              tree := t
              touched := [.removes path] }

/-! ## Where paths end -/

section Paths

variable {r : Root} {raw q path : LexPath} {label : LabelData} {offset : UInt64}

theorem lexicallyNormal_keeps_rooted (p : LexPath) : p.lexicallyNormal.rooted = p.rooted := by
  unfold lexicallyNormal
  split
  · rfl
  · rfl

theorem sanitize_relative (h : sanitizeRelativePath raw = some q) :
    q.rooted = false ∧ Plain q.elements := by
  have hrelative : (if raw.rooted then raw.relativePath else raw).rooted = false := by
    split
    · rfl
    · next hrooted => exact Bool.eq_false_iff.mpr hrooted
  unfold sanitizeRelativePath at h
  generalize (if raw.rooted then raw.relativePath else raw) = relative at h hrelative
  split at h
  · cases h
  · dsimp only at h
    split at h
    · cases h
    · next hplain =>
        obtain rfl := Option.some.inj h
        rw [lexicallyNormal_keeps_rooted]
        refine ⟨hrelative, fun hmem => hplain ?_⟩
        exact List.any_eq_true.mpr ⟨_, hmem, decide_eq_true rfl⟩

/-- A sanitized path ends under the root. -/
theorem fullPath_under (h : sanitizeRelativePath raw = some q) :
    fullPath r.path q = r.under q :=
  r.names_append (sanitize_relative h).1 (sanitize_relative h).2

theorem sanitized_under {offset' : UInt64}
    (h : (sanitizeRelativePath raw).map (fun relative => (fullPath r.path relative, offset')) =
      some (path, offset)) : ∃ q, path = r.under q := by
  obtain ⟨q, hq, heq⟩ := Option.map_eq_some_iff.mp h
  obtain ⟨rfl, -⟩ := Prod.mk.inj heq
  exact ⟨q, fullPath_under hq⟩

theorem resolveDest_under (h : resolveDest r.path label = some (path, offset)) :
    ∃ q, path = r.under q := by
  unfold resolveDest at h
  split at h
  · exact sanitized_under h
  · split at h
    · exact sanitized_under h
    · cases h

theorem resolveSource_under (h : resolveSource r.path label = some (path, offset)) :
    ∃ q, path = r.under q := by
  unfold resolveSource at h
  split at h
  · exact sanitized_under h
  · split at h
    · exact sanitized_under h
    · cases h

end Paths

/-! ## What creating directories does -/

section Directories

variable {os : OperatingSystem} {above names : List (List Char)} {t : Tree}

/-- A path that goes on behind `above` has the next name or ends before it. -/
theorem prefix_cons {path : List (List Char)} {name : List Char} (h : above <+: path)
    (hpath : path <+: above ++ name :: names) : path = above ∨ above ++ [name] <+: path := by
  obtain ⟨rest, rfl⟩ := h
  rw [List.prefix_append_right_inj] at hpath
  cases rest with
  | nil => exact .inl (List.append_nil above)
  | cons first rest =>
      obtain ⟨rfl, -⟩ := List.cons_prefix_cons.mp hpath
      exact .inr ⟨rest, by rw [List.append_assoc, List.singleton_append]⟩

/-- The cases of the first name. -/
theorem makeDirectories_cons (os : OperatingSystem) (above names : List (List Char)) (t : Tree)
    (name : List Char) :
    t (above ++ [name]) = some .directory ∧
        makeDirectories os above (name :: names) t =
          makeDirectories os (above ++ [name]) names t ∨
      (∃ content, t (above ++ [name]) = some (.file content)) ∧
        makeDirectories os above (name :: names) t = (false, t, []) ∨
      t (above ++ [name]) = none ∧
        (∃ made,
          makeDirectories os (above ++ [name]) names
              (Function.update t (above ++ [name]) (some .directory)) = made ∧
            makeDirectories os above (name :: names) t =
              (made.1, made.2.1,
                .creates { rooted := true, elements := above ++ [name] } :: made.2.2)) ∨
      t (above ++ [name]) = none ∧
        makeDirectories os above (name :: names) t =
          (false, t, [.creates { rooted := true, elements := above ++ [name] }]) := by
  rw [makeDirectories]
  dsimp only
  cases t (above ++ [name]) with
  | some node =>
      cases node with
      | directory => exact .inl ⟨rfl, rfl⟩
      | file content => exact .inr (.inl ⟨⟨content, rfl⟩, rfl⟩)
  | none =>
      dsimp only
      by_cases hgrants : os.grants (.creates { rooted := true, elements := above ++ [name] }) = true
      · rw [if_pos hgrants]
        exact .inr (.inr (.inl ⟨rfl, _, rfl, rfl⟩))
      · rw [if_neg hgrants]
        exact .inr (.inr (.inr ⟨rfl, rfl⟩))

/-- Only directories on the way that were missing are created. -/
theorem makeDirectories_tree (os : OperatingSystem) (above names : List (List Char)) (t : Tree)
    (q : List (List Char)) :
    (makeDirectories os above names t).2.1 q = t q ∨
      t q = none ∧ (makeDirectories os above names t).2.1 q = some .directory ∧
        q <+: above ++ names := by
  induction names generalizing above t with
  | nil => exact .inl rfl
  | cons name names ih =>
      have happend : above ++ name :: names = above ++ [name] ++ names := by
        rw [List.append_assoc, List.singleton_append]
      rcases makeDirectories_cons os above names t name with
        ⟨-, heq⟩ | ⟨-, heq⟩ | ⟨hnone, _, rfl, heq⟩ | ⟨-, heq⟩
      · rw [heq, happend]
        exact ih _ _
      · rw [heq]
        exact .inl rfl
      · rw [heq, happend]
        dsimp only
        -- the directory just made stays, by the induction on what comes after it
        by_cases hq : q = above ++ [name]
        · subst hq
          right
          refine ⟨hnone, ?_, List.prefix_append _ _⟩
          rcases ih (above ++ [name]) (Function.update t (above ++ [name]) (some .directory)) with
            h | ⟨hmissing, -⟩
          · rw [h, Function.update_self]
          · rw [Function.update_self] at hmissing
            cases hmissing
        · have hstep := ih (above ++ [name])
            (Function.update t (above ++ [name]) (some .directory))
          rwa [Function.update_of_ne hq] at hstep
      · rw [heq]
        exact .inl rfl

/-- What it touches is a missing directory on the way. -/
theorem makeDirectories_touched {x : Touch} (hx : x ∈ (makeDirectories os above names t).2.2) :
    ∃ path, x = .creates { rooted := true, elements := path } ∧ above <+: path ∧ path ≠ above ∧
      path <+: above ++ names ∧ t path = none := by
  induction names generalizing above t with
  | nil => exact absurd hx List.not_mem_nil
  | cons name names ih =>
      have happend : above ++ name :: names = above ++ [name] ++ names := by
        rw [List.append_assoc, List.singleton_append]
      have hnext : above ++ [name] ≠ above := by simp
      have hbelow : ∀ path, above ++ [name] <+: path → path ≠ above ++ [name] →
          above <+: path ∧ path ≠ above := by
        intro path hpath _
        refine ⟨(List.prefix_append _ _).trans hpath, ?_⟩
        rintro rfl
        have hlength := hpath.length_le
        rw [List.length_append, List.length_singleton] at hlength
        omega
      rcases makeDirectories_cons os above names t name with
        ⟨-, heq⟩ | ⟨-, heq⟩ | ⟨hnone, _, rfl, heq⟩ | ⟨hnone, heq⟩
      · rw [heq] at hx
        obtain ⟨path, rfl, habove, hne, hpath, hmissing⟩ := ih hx
        rw [happend]
        exact ⟨path, rfl, (hbelow path habove hne).1, (hbelow path habove hne).2, hpath, hmissing⟩
      · rw [heq] at hx
        exact absurd hx List.not_mem_nil
      · rw [heq] at hx
        rw [happend]
        rcases List.mem_cons.mp hx with rfl | hx
        · exact ⟨_, rfl, List.prefix_append _ _, hnext, List.prefix_append _ _, hnone⟩
        · obtain ⟨path, rfl, habove, hne, hpath, hmissing⟩ := ih hx
          rw [Function.update_of_ne hne] at hmissing
          exact ⟨path, rfl, (hbelow path habove hne).1, (hbelow path habove hne).2, hpath,
            hmissing⟩
      · rw [heq] at hx
        rw [happend]
        obtain rfl := List.mem_singleton.mp hx
        exact ⟨_, rfl, List.prefix_append _ _, hnext, List.prefix_append _ _, hnone⟩

/-- When it succeeds, all directories on the way are there. -/
theorem makeDirectories_made (h : (makeDirectories os above names t).1 = true)
    {path : List (List Char)} (habove : above <+: path) (hne : path ≠ above)
    (hpath : path <+: above ++ names) :
    (makeDirectories os above names t).2.1 path = some .directory := by
  induction names generalizing above t with
  | nil =>
      rw [List.append_nil] at hpath
      exact absurd (hpath.eq_of_length_le habove.length_le) hne
  | cons name names ih =>
      have happend : above ++ name :: names = above ++ [name] ++ names := by
        rw [List.append_assoc, List.singleton_append]
      have hnext := (prefix_cons habove hpath).resolve_left hne
      rw [happend] at hpath
      rcases makeDirectories_cons os above names t name with
        ⟨hdir, heq⟩ | ⟨-, heq⟩ | ⟨-, _, rfl, heq⟩ | ⟨-, heq⟩
      · rw [heq] at h ⊢
        by_cases hlast : path = above ++ [name]
        · subst hlast
          rcases makeDirectories_tree os (above ++ [name]) names t (above ++ [name]) with
            hsame | hmade
          · rw [hsame, hdir]
          · exact hmade.2.1
        · exact ih h hnext hlast hpath
      · rw [heq] at h
        cases h
      · rw [heq] at h ⊢
        dsimp only at h ⊢
        by_cases hlast : path = above ++ [name]
        · subst hlast
          rcases makeDirectories_tree os (above ++ [name]) names
              (Function.update t (above ++ [name]) (some .directory)) (above ++ [name]) with
            hsame | hmade
          · rw [hsame, Function.update_self]
          · exact hmade.2.1
        · exact ih h hnext hlast hpath
      · rw [heq] at h
        cases h

end Directories

end PosixTree
end Labios
