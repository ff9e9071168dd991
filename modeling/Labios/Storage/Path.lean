import Mathlib.Data.List.Basic

/-!
# Paths under a storage root

`sanitize_relative_path` of `labios/backend/posix_backend.cpp` over the components of a path: the path
is made relative, normalized as `lexically_normal` does, and refused when it is
empty or still climbs out with `..`.
-/

namespace Labios

/-- The components between slashes. -/
def splitSlash : List Char → List (List Char)
  | [] => [[]]
  | c :: rest =>
      if c = '/' then [] :: splitSlash rest
      else
        match splitSlash rest with
        | [] => [[c]]
        | part :: parts => (c :: part) :: parts

/-- One component of `lexically_normal`; `done` holds the components so far, the
last one first. -/
def pushComponent (done : List (List Char)) (part : List Char) : List (List Char) :=
  if part = [] ∨ part = ['.'] then done
  else if part = ['.', '.'] then
    match done with
    | [] => [part]
    | last :: rest => if last = ['.', '.'] then part :: last :: rest else rest
  else part :: done

/-- The components of a path under the storage root. -/
def normalizedPath (path : String) : List (List Char) :=
  ((splitSlash path.toList).foldl pushComponent []).reverse

def stripLeadingSlash : List Char → List Char
  | '/' :: rest => rest
  | cs => cs

def sanitizeRelativePath (path : String) : Option (List (List Char)) :=
  if path.isEmpty then none
  else if ['.', '.'] ∈ normalizedPath path then none
  else some (normalizedPath path)

/-- Whether the normalized path has a file name: otherwise it ends in a slash, and
opening it as a file fails. -/
def namesFile (path : String) : Bool :=
  match (splitSlash path.toList).getLast? with
  | some last => decide (last ≠ [] ∧ last ≠ ['.'] ∧ last ≠ ['.', '.'])
  | none => false

/-- `(root / relative).string()`. -/
def fullPath (root : String) (name : List (List Char)) : String :=
  String.intercalate "/" (root :: name.map String.ofList)

example : sanitizeRelativePath "/data/./a/../b" = some ["data".toList, "b".toList] := by decide

example : sanitizeRelativePath "a/../../b" = none := by decide

end Labios
