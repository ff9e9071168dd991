import Labios.Client.Model
import Labios.Storage.Path

/-!
# What a label addresses

The object and byte range that a worker touches for a read or a write, whatever
client call built the label: `execute_write` and `execute_read` look at the URI
first and at the pointer only when there is none, and the ranges come from the
data size.

Objects are named as the backends name them: the file and SQLite backends drop
the leading slash and the authority, the file backend normalizes the path, the
others keep authority and path.
-/

namespace Labios

/-! ## Objects -/

structure Object where
  scheme : String
  name : List (List Char)
  deriving DecidableEq, Repr

def fileObject (path : String) : Object := { scheme := "file", name := normalizedPath path }

def uriObject (raw : String) : Object :=
  let uri := parseUri raw
  if uri.scheme = "file" then fileObject uri.path
  else if uri.scheme = "sqlite" then
    { scheme := uri.scheme, name := [stripLeadingSlash uri.path.toList] }
  else { scheme := uri.scheme, name := [uri.authority.toList, uri.path.toList] }

/-! ## Ranges -/

/-- The bytes from `first` up to `stop`, or to the end of the object. -/
structure Access where
  object : Object
  first : Nat
  stop : Option Nat
  deriving DecidableEq, Repr

/-- `p` lies below the end of an access. -/
def belowStop (p : Nat) (stop : Option Nat) : Bool := stop.elim true (fun e => decide (p < e))

/-- The two ranges share a byte. -/
def Access.meets (a b : Access) : Bool :=
  belowStop a.first a.stop && belowStop b.first b.stop &&
    belowStop a.first b.stop && belowStop b.first a.stop

/-- What executing a label touches; only reads and writes touch anything. -/
def access (l : LabelData) : Option Access :=
  match l.type with
  | .write =>
      if l.destUri ≠ "" then
        some { object := uriObject l.destUri, first := 0, stop := some l.dataSize.toNat }
      else
        match l.destination with
        | .filePath fp =>
            some
              { object := fileObject fp.path
                first := fp.offset.toNat
                stop := some (fp.offset.toNat + l.dataSize.toNat) }
        | _ => none
  | .read =>
      if l.sourceUri ≠ "" then
        some
          { object := uriObject l.sourceUri
            first := 0
            stop := if l.dataSize = 0 then none else some l.dataSize.toNat }
      else
        match l.source with
        | .filePath fp =>
            -- `read_size` falls back to the pointer's length, then to the whole file
            let size := if 0 < l.dataSize then l.dataSize else fp.length
            some
              { object := fileObject fp.path
                first := fp.offset.toNat
                stop := if size = 0 then none else some (fp.offset.toNat + size.toNat) }
        | _ => none
  | _ => none

/-- Two labels that address shared bytes of one object, one of them writing. -/
def hazardous (a b : LabelData) : Bool :=
  match access a, access b with
  | some x, some y =>
      x.object == y.object && x.meets y && (a.type == .write || b.type == .write)
  | _, _ => false

/-! ## Labels of the label manager -/

variable {a b l : LabelData}

theorem FromLabelManager.access_eq (h : FromLabelManager l) :
    access l = some
      { object := fileObject l.fileKey
        first := start l
        stop := some (finish l) } := by
  have hsize := UInt64.lt_iff_toNat_lt.mp h.plain.nonempty
  have hne : ¬l.dataSize = 0 := fun he => by simp [he] at hsize
  unfold access
  rcases h.plain.kind with hr | hw
  · rw [hr]
    simp only [h.sourceUri, ne_eq, not_true_eq_false, if_false, h.plain.source_eq hr, filePath,
      h.plain.nonempty, if_true, hne]
    rfl
  · rw [hw]
    simp only [h.destUri, ne_eq, not_true_eq_false, if_false, h.plain.destination_eq hw, filePath]
    rfl

/-- On the labels of the label manager the detector's test is exact: two labels
of one file are hazardous when they conflict. -/
theorem hazardous_iff_conflict (ha : FromLabelManager a) (hb : FromLabelManager b)
    (hkey : a.fileKey = b.fileKey) : hazardous a b = true ↔ Conflict a b := by
  have hoverlap := ha.plain.overlap_iff hb.plain
  have hpa := ha.plain.start_lt_finish
  have hpb := hb.plain.start_lt_finish
  unfold hazardous Conflict
  rw [ha.access_eq, hb.access_eq, hoverlap]
  rcases ha.plain.kind with hra | hwa <;> rcases hb.plain.kind with hrb | hwb
  · simp [hra, hrb]
  · simp [hra, hwb, hkey, Access.meets, belowStop, hpa, hpb]
  · simp [hwa, hrb, hkey, Access.meets, belowStop, hpa, hpb]
  · simp [hwa, hwb, hkey, Access.meets, belowStop, hpa, hpb]

end Labios
