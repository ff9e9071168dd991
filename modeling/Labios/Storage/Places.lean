import Labios.Client.Uri
import Labios.Label.Basic
import Labios.Storage.Posix
import Mathlib.Logic.Function.Basic

/-!
# The places of URIs

Where a URI points to in the backend of its scheme: a file, a row of the table, or an entry of
the key-value server. A label has two URIs, and each backend has its own rule which of them it
takes (`makeKey_of_destUri` and its companions).
-/

/-!
## The key-value and SQLite backends

`labios/backend/kv_backend.cpp` and `labios/backend/sqlite_backend.cpp` as maps
from keys to data. The metadata that `put` writes beside the data, expiry, and
what the two servers may refuse are left out.
-/

namespace Labios

/-- What the key-value server and the `labios_store` table hold. -/
structure KeyedStores where
  redis : String → Option (List UInt8)
  table : String → Option (List UInt8)

/-- The URI that a backend derives its key from. -/
def keyUri (label : LabelData) : String :=
  if label.destUri ≠ "" then label.destUri else label.sourceUri

namespace KVBackend

def makeKey (keyPrefix : String) (label : LabelData) : String :=
  if keyUri label ≠ "" then
    let parsed := parseUri (keyUri label)
    if parsed.authority ≠ "" then keyPrefix ++ parsed.authority ++ parsed.path
    else keyPrefix ++ parsed.path
  else keyPrefix ++ toString label.id

def put (keyPrefix : String) (label : LabelData) (data : List UInt8) (s : KeyedStores) :
    Except String Unit × KeyedStores :=
  (.ok (), { s with redis := Function.update s.redis (makeKey keyPrefix label) (some data) })

def get (keyPrefix : String) (label : LabelData) (s : KeyedStores) :
    Except String (List UInt8) :=
  match s.redis (makeKey keyPrefix label) with
  | some data => .ok data
  | none => .error ("key not found: " ++ makeKey keyPrefix label)

end KVBackend

namespace SQLiteBackend

def extractKey (label : LabelData) : String :=
  if keyUri label ≠ "" then
    let path := (parseUri (keyUri label)).path
    match path.toList with
    | '/' :: rest => String.ofList rest
    | _ => path
  else toString label.id

def put (label : LabelData) (data : List UInt8) (s : KeyedStores) :
    Except String Unit × KeyedStores :=
  (.ok (), { s with table := Function.update s.table (extractKey label) (some data) })

def get (label : LabelData) (s : KeyedStores) : Except String (List UInt8) :=
  match s.table (extractKey label) with
  | some data => .ok data
  | none => .error ("key not found: " ++ extractKey label)

end SQLiteBackend
end Labios

namespace Labios

namespace KVBackend

/-- The key of a URI; the query plays no part. -/
def uriKey (keyPrefix uri : String) : String :=
  keyPrefix ++ (parseUri uri).authority ++ (parseUri uri).path

theorem makeKey_of_uri {keyPrefix : String} {label : LabelData} (h : keyUri label ≠ "") :
    makeKey keyPrefix label = uriKey keyPrefix (keyUri label) := by
  unfold makeKey uriKey
  rw [if_pos h]
  dsimp only
  split
  · rfl
  · next hauthority =>
      rw [not_ne_iff.mp hauthority, String.append_empty]

end KVBackend

namespace SQLiteBackend

/-- The key of a URI: its path without one leading slash. -/
def uriKey (uri : String) : String :=
  String.ofList (stripLeadingSlash (parseUri uri).path.toList)

theorem extractKey_of_uri {label : LabelData} (h : keyUri label ≠ "") :
    extractKey label = uriKey (keyUri label) := by
  unfold extractKey uriKey
  rw [if_pos h]
  dsimp only
  split
  · next rest hpath =>
      rw [hpath]
      rfl
  · next hpath => rw [stripLeadingSlash.eq_2 _ hpath, String.ofList_toList]

end SQLiteBackend

/-- A `put` to a URI. -/
structure UriPut where
  label : LabelData
  data : List UInt8
  toUri : label.destUri ≠ ""

/-- A `get` from a URI. -/
structure UriGet where
  label : LabelData
  fromUri : label.sourceUri ≠ ""
  onlySource : label.destUri = ""

variable {label : LabelData}

/-- A destination comes first. -/
theorem keyUri_of_destUri (h : label.destUri ≠ "") : keyUri label = label.destUri := if_pos h

theorem keyUri_of_no_destUri (h : label.destUri = "") : keyUri label = label.sourceUri :=
  if_neg (not_not_intro h)

theorem keyUri_ne (h : label.sourceUri ≠ "") : keyUri label ≠ "" := by
  unfold keyUri
  split
  · next hdest => exact hdest
  · exact h

/-! ## Places -/

inductive Place
  | file (name : List (List Char))
  | row (key : String)
  | entry (key : String)
  deriving DecidableEq, Repr

/-- What the stores hold at a place. -/
def heldAt (files : FileSystem) (stores : KeyedStores) : Place → Option (List UInt8)
  | .file name => files name
  | .row key => stores.table key
  | .entry key => stores.redis key

end Labios
