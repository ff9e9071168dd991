import Labios.Client.Uri
import Labios.Label.Basic
import Labios.Storage.Path

/-!
# The file backend

`PosixBackend` of `labios/backend/posix_backend.cpp`. A file system is the content
of every file under one storage root; directories and what the operating system
may refuse are left out.

A `put` above offset 0 of a file that exists overlays its bytes (`writeAt`); any
other `put` opens the file for output alone and so truncates it first
(`byteAt_put_outside`, `byteAt_put_truncates`).
-/

namespace Labios

/-- The files under one storage root, by normalized path. -/
abbrev FileSystem := List (List Char) → Option (List UInt8)

/-- `seekp(offset)` and `write(data)`: a gap is filled with zeros. -/
def writeAt (content : List UInt8) (offset : Nat) (data : List UInt8) : List UInt8 :=
  if data.isEmpty then content
  else
    content.take offset ++ List.replicate (offset - content.length) 0 ++ data ++
      content.drop (offset + data.length)

/-- `static_cast<std::streamoff>`: a position from `2 ^ 63` on is negative. -/
def seekable (offset : UInt64) : Bool := decide (offset.toNat < 2 ^ 63)

/-- The normalized path of a file, and whether it can be opened as one. -/
def resolvePath (path : String) : Option (List (List Char) × Bool) :=
  (sanitizeRelativePath path).map fun name => (name, namesFile path)

/-- The file a path names, when it names one. -/
def fileOf (path : String) : Option (List (List Char)) :=
  match resolvePath path with
  | some (name, true) => some name
  | _ => none

theorem resolvePath_of_fileOf {path : String} {name : List (List Char)} (h : fileOf path = some name) :
    resolvePath path = some (name, true) := by
  unfold fileOf at h
  split at h
  · next name' heq =>
      obtain rfl := Option.some.inj h
      exact heq
  · exact absurd h (by simp)

/-- The file and offset of a write: the URI's path from its start, else the
`FilePath`. -/
def resolveDest (label : LabelData) : Option ((List (List Char) × Bool) × UInt64) :=
  if label.destUri ≠ "" then
    (resolvePath (String.ofList (stripLeadingSlash (parseUri label.destUri).path.toList))).map
      fun file => (file, 0)
  else
    match label.destination with
    | .filePath fp => (resolvePath fp.path).map fun file => (file, fp.offset)
    | _ => none

def resolveSource (label : LabelData) : Option ((List (List Char) × Bool) × UInt64) :=
  if label.sourceUri ≠ "" then
    (resolvePath (String.ofList (stripLeadingSlash (parseUri label.sourceUri).path.toList))).map
      fun file => (file, 0)
  else
    match label.source with
    | .filePath fp => (resolvePath fp.path).map fun file => (file, fp.offset)
    | _ => none

/-- What `put` finds in the file it opened: without `std::ios::in` the open
truncates. -/
def openForPut (fs : FileSystem) (name : List (List Char)) (offset : UInt64) : List UInt8 :=
  match fs name with
  | some content => if 0 < offset then content else []
  | none => []

/-- The files after a `put` that succeeds. -/
def putFile (fs : FileSystem) (name : List (List Char)) (offset : UInt64) (data : List UInt8) :
    FileSystem :=
  Function.update fs name (some (writeAt (openForPut fs name offset) offset.toNat data))

def posixPut (root : String) (label : LabelData) (data : List UInt8) (fs : FileSystem) :
    Except String Unit × FileSystem :=
  match resolveDest label with
  | none => (.error "invalid destination path", fs)
  | some ((name, isFile), offset) =>
      if !isFile then (.error ("failed to open " ++ fullPath root name), fs)
      else if seekable offset then (.ok (), putFile fs name offset data)
      else
        (.error ("failed to write " ++ fullPath root name),
          Function.update fs name (some (openForPut fs name offset)))

def posixGet (root : String) (label : LabelData) (fs : FileSystem) :
    Except String (List UInt8) :=
  match resolveSource label with
  | none => .error "invalid source path"
  | some ((name, isFile), offset) =>
      match if isFile then fs name else none with
      | none => .error ("data not found: " ++ fullPath root name)
      | some content =>
          if !seekable offset then .error ("failed to seek " ++ fullPath root name)
          else if label.dataSize = 0 then
            -- the whole rest; the length wraps when the offset lies behind the end
            if content.length < offset.toNat then
              .error "cannot create std::vector larger than max_size()"
            else .ok (content.drop offset.toNat)
          else .ok ((content.drop offset.toNat).take label.dataSize.toNat)

/-! ## Bytes of a file -/

/-- Outside the data, bytes that the file had stay. -/
theorem writeAt_outside {content data : List UInt8} {offset p : Nat} {b : UInt8}
    (hb : content[p]? = some b) (h : p < offset ∨ offset + data.length ≤ p) :
    (writeAt content offset data)[p]? = some b := by
  obtain ⟨hp, -⟩ := List.getElem?_eq_some_iff.mp hb
  unfold writeAt
  split
  · exact hb
  · rcases h with h | h
    · rw [List.append_assoc, List.append_assoc, List.getElem?_append_left (by simp; omega),
        List.getElem?_take_of_lt h, hb]
    · have hfront : (content.take offset ++ List.replicate (offset - content.length) 0 ++
          data).length = offset + data.length := by
        simp
        omega
      rw [List.getElem?_append_right (by omega), hfront, List.getElem?_drop,
        Nat.add_sub_cancel' h, hb]

/-- Inside the data, the file has the data. -/
theorem writeAt_inside {content data : List UInt8} {offset p : Nat} (hlo : offset ≤ p)
    (hhi : p < offset + data.length) :
    (writeAt content offset data)[p]? = data[p - offset]? := by
  have hne : data.isEmpty = false := by
    cases data with
    | nil => simp at hhi; omega
    | cons _ _ => rfl
  have hfront : (content.take offset ++ List.replicate (offset - content.length) 0).length =
      offset := by
    simp
    omega
  unfold writeAt
  rw [if_neg (by simp [hne]), List.getElem?_append_left (by simp; omega),
    List.getElem?_append_right (by omega), hfront]

/-- A byte after a write comes from the data, from the file, or from a gap. -/
theorem writeAt_cases (content : List UInt8) (offset : Nat) (data : List UInt8) (p : Nat) :
    (writeAt content offset data)[p]? = content[p]? ∨
      (writeAt content offset data)[p]? = some 0 ∨
      ∃ b ∈ data, (writeAt content offset data)[p]? = some b := by
  by_cases hin : offset ≤ p ∧ p < offset + data.length
  · rw [writeAt_inside hin.1 hin.2]
    exact .inr (.inr ⟨_, List.getElem_mem (by omega), List.getElem?_eq_getElem (by omega)⟩)
  · cases hold : content[p]? with
    | some b => exact .inl (writeAt_outside hold (by omega))
    | none =>
        have hp := List.getElem?_eq_none_iff.mp hold
        unfold writeAt
        split
        · exact .inl hold
        · rcases Nat.lt_or_ge p offset with hlt | hge
          · right
            left
            rw [List.append_assoc, List.append_assoc, List.getElem?_append_right (by simp; omega),
              List.getElem?_append_left (by simp; omega), List.getElem?_replicate, if_pos]
            simp
            omega
          · left
            rw [List.getElem?_eq_none_iff]
            simp
            omega

/-- A gap in front of the data is filled with zeros. -/
theorem writeAt_gap {content data : List UInt8} {offset p : Nat} (hne : data ≠ [])
    (hlo : content.length ≤ p) (hhi : p < offset) : (writeAt content offset data)[p]? = some 0 := by
  unfold writeAt
  rw [if_neg (by simpa using hne), List.append_assoc, List.append_assoc,
    List.getElem?_append_right (by simp; omega), List.getElem?_append_left (by simp; omega),
    List.getElem?_replicate, if_pos]
  simp
  omega

/-- Behind the data and the old end there is nothing. -/
theorem writeAt_beyond {content data : List UInt8} {offset p : Nat} (hold : content.length ≤ p)
    (hp : data = [] ∨ offset + data.length ≤ p) : (writeAt content offset data)[p]? = none := by
  rw [List.getElem?_eq_none_iff]
  unfold writeAt
  split
  · exact hold
  · next hne =>
      rcases hp with rfl | hp
      · exact absurd rfl hne
      · simp
        omega

/-! ## Bytes of a file system -/

/-- Byte `p` of a file, if the file is that long. -/
def byteAt (fs : FileSystem) (name : List (List Char)) (p : Nat) : Option UInt8 :=
  (fs name).bind (·[p]?)

variable {fs : FileSystem} {name other : List (List Char)} {offset : UInt64} {data : List UInt8}
  {p : Nat}

/-- A `put` stores its data. -/
theorem byteAt_put_inside (hlo : offset.toNat ≤ p) (hhi : p < offset.toNat + data.length) :
    byteAt (putFile fs name offset data) name p = data[p - offset.toNat]? := by
  rw [byteAt, putFile, Function.update_self, Option.bind_some]
  exact writeAt_inside hlo hhi

/-- A `put` to another file, or above offset 0 and elsewhere in the file, leaves
a byte that is there. -/
theorem byteAt_put_outside {b : UInt8} (hb : byteAt fs other p = some b)
    (h : other = name → 0 < offset ∧ (p < offset.toNat ∨ offset.toNat + data.length ≤ p)) :
    byteAt (putFile fs name offset data) other p = some b := by
  by_cases hname : other = name
  · subst hname
    obtain ⟨hpos, hout⟩ := h rfl
    obtain ⟨content, hcontent, hbyte⟩ := Option.bind_eq_some_iff.mp hb
    rw [byteAt, putFile, Function.update_self, Option.bind_some, openForPut, hcontent]
    dsimp only
    rw [if_pos hpos]
    exact writeAt_outside hbyte hout
  · rw [byteAt, putFile, Function.update_of_ne hname]
    exact hb

/-- A `put` at offset 0 leaves nothing behind its data. -/
theorem byteAt_put_truncates (hp : data.length ≤ p) :
    byteAt (putFile fs name 0 data) name p = none := by
  have hopen : openForPut fs name 0 = [] := by
    unfold openForPut
    cases fs name with
    | none => rfl
    | some _ => rfl
  rw [byteAt, putFile, Function.update_self, Option.bind_some, hopen, List.getElem?_eq_none_iff]
  unfold writeAt
  split
  · simp
  · simp
    exact hp

theorem getElem?_openForPut {b : UInt8} (hb : (openForPut fs name offset)[p]? = some b) :
    byteAt fs name p = some b := by
  unfold openForPut at hb
  unfold byteAt
  cases hfs : fs name with
  | none =>
      rw [hfs] at hb
      exact absurd hb (by simp)
  | some content =>
      rw [hfs] at hb
      dsimp only at hb
      split at hb
      · exact hb
      · exact absurd hb (by simp)

/-- A byte after a `put` was there before, or fills a gap, or comes from the data. -/
theorem byteAt_put_cases {b : UInt8} (hb : byteAt (putFile fs name offset data) other p = some b) :
    byteAt fs other p = some b ∨ b = 0 ∨
      offset.toNat ≤ p ∧ p < offset.toNat + data.length ∧ data[p - offset.toNat]? = some b := by
  by_cases hname : other = name
  · subst hname
    by_cases hin : offset.toNat ≤ p ∧ p < offset.toNat + data.length
    · rw [byteAt_put_inside hin.1 hin.2] at hb
      exact .inr (.inr ⟨hin.1, hin.2, hb⟩)
    · rw [byteAt, putFile, Function.update_self, Option.bind_some] at hb
      cases hold : (openForPut fs other offset)[p]? with
      | some b' =>
          rw [writeAt_outside hold (by omega)] at hb
          exact .inl (getElem?_openForPut (hold.trans hb))
      | none =>
          have hp := List.getElem?_eq_none_iff.mp hold
          by_cases hne : data = []
          · rw [writeAt_beyond hp (.inl hne)] at hb
            cases hb
          · by_cases hlo : p < offset.toNat
            · rw [writeAt_gap hne hp hlo] at hb
              exact .inr (.inl (Option.some.inj hb).symm)
            · rw [writeAt_beyond hp (.inr (by omega))] at hb
              cases hb
  · rw [byteAt, putFile, Function.update_of_ne hname] at hb
    exact .inl hb

/-- A byte that is missing or zero stays so under a `put` of zeros. -/
theorem byteAt_put_zeros (hzero : ∀ b ∈ data, b = 0)
    (hbyte : byteAt fs other p = none ∨ byteAt fs other p = some 0) :
    byteAt (putFile fs name offset data) other p = none ∨
      byteAt (putFile fs name offset data) other p = some 0 := by
  by_cases hname : other = name
  · subst hname
    have hopened : (openForPut fs other offset)[p]? = none ∨
        (openForPut fs other offset)[p]? = some 0 := by
      unfold openForPut
      unfold byteAt at hbyte
      cases hfs : fs other with
      | none => simp
      | some content =>
          rw [hfs] at hbyte
          dsimp only
          split
          · exact hbyte
          · simp
    rw [byteAt, putFile, Function.update_self, Option.bind_some]
    rcases writeAt_cases (openForPut fs other offset) offset.toNat data p with h | h | ⟨b, hb, h⟩
    · rw [h]
      exact hopened
    · exact .inr h
    · rw [h, hzero b hb]
      exact .inr rfl
  · rw [byteAt, putFile, Function.update_of_ne hname]
    exact hbyte

end Labios
