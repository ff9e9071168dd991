import Labios.Foundation.ByteStore
import Labios.Storage.Posix

/-!
# The file backend as a byte array

A run of `put`s on one path against the byte array that overlays them one after
the other. A `put` at offset 0 opens the file for output alone, so it cuts off
what earlier `put`s stored behind its data; every other `put` is an overlay.

`posix_byte_array_iff`: the file is the byte array exactly when each `put` at
offset 0 is as long as everything before it reaches.
-/

namespace Labios

open Foundation

/-- A `put` on a legacy `FilePath` destination of `path`. -/
structure FilePut (path : String) where
  label : LabelData
  offset : UInt64
  length : UInt64
  data : List UInt8
  legacy : label.destUri = ""
  destination : label.destination = filePath path offset length

variable {path root : String} {name : List (List Char)}

def runPuts (root : String) (fs : FileSystem) (puts : List (FilePut path)) : FileSystem :=
  puts.foldl (fun fs q => (posixPut root q.label q.data fs).2) fs

/-! ## The byte array -/

/-- The `put`s that the stream can seek to; the others return an error. -/
def landed (puts : List (FilePut path)) : List (FilePut path) :=
  puts.filter fun q => seekable q.offset

/-- The byte array: each `put` that lands overlays its data, holes are zero. -/
def byteArray (puts : List (FilePut path)) : Nat → UInt8 :=
  ((landed puts).foldl (fun s q => overlay s path q.offset.toNat q.data) fun _ _ => 0) path

/-- The end of what a `put` stores; no data stores nothing. -/
def reach (q : FilePut path) : Nat :=
  if q.data = [] then 0 else q.offset.toNat + q.data.length

/-- The maximum end. -/
def extent (puts : List (FilePut path)) : Nat :=
  (landed puts).foldl (fun n q => max n (reach q)) 0

/-- A run of `put`s leaves the byte array in the file, and no `put` changes a byte
outside its range. -/
structure IsByteArray (root : String) (name : List (List Char)) (fs : FileSystem)
    (puts : List (FilePut path)) : Prop where
  range : ∀ label : LabelData, label.sourceUri = "" → ∀ offset length,
    label.source = filePath path offset length → 0 < label.dataSize →
    offset.toNat + label.dataSize.toNat ≤ extent puts → seekable offset = true →
    posixGet root label (runPuts root fs puts) =
      .ok ((List.range' offset.toNat label.dataSize.toNat).map (byteArray puts))
  rest : ∀ label : LabelData, label.sourceUri = "" → ∀ offset length,
    label.source = filePath path offset length → label.dataSize = 0 →
    offset.toNat < extent puts → seekable offset = true →
    posixGet root label (runPuts root fs puts) =
      .ok ((List.range' offset.toNat (extent puts - offset.toNat)).map (byteArray puts))
  outside : ∀ front q, front ++ [q] <+: puts → ∀ other p b,
    (other = name → p < q.offset.toNat ∨ q.offset.toNat + q.data.length ≤ p) →
    byteAt (runPuts root fs front) other p = some b →
    byteAt (runPuts root fs (front ++ [q])) other p = some b

/-- A `put` at offset 0 is as long as what was stored before it reaches. -/
def NothingCut (puts : List (FilePut path)) : Prop :=
  ∀ front q, front ++ [q] <+: puts → q.offset = 0 → extent front ≤ q.data.length

/-! ## One put -/

theorem runPuts_snoc (fs : FileSystem) (front : List (FilePut path)) (q : FilePut path) :
    runPuts root fs (front ++ [q]) = (posixPut root q.label q.data (runPuts root fs front)).2 := by
  rw [runPuts, List.foldl_append]
  rfl

theorem landed_snoc (front : List (FilePut path)) (q : FilePut path) :
    landed (front ++ [q]) = if seekable q.offset then landed front ++ [q] else landed front := by
  rw [landed, List.filter_append]
  by_cases hseek : seekable q.offset = true
  · simp [landed, hseek]
  · simp [landed, hseek]

theorem extent_snoc (front : List (FilePut path)) (q : FilePut path) :
    extent (front ++ [q]) =
      if seekable q.offset then max (extent front) (reach q) else extent front := by
  rw [extent, landed_snoc]
  by_cases hseek : seekable q.offset = true
  · rw [if_pos hseek, if_pos hseek, List.foldl_append]
    rfl
  · rw [if_neg hseek, if_neg hseek]
    rfl

theorem byteArray_snoc_inside {front : List (FilePut path)} {q : FilePut path} {p : Nat}
    (hseek : seekable q.offset = true) (hlo : q.offset.toNat ≤ p) {b : UInt8}
    (hb : q.data[p - q.offset.toNat]? = some b) : byteArray (front ++ [q]) p = b := by
  rw [byteArray, landed_snoc, if_pos hseek, List.foldl_append]
  exact overlay_inside _ _ hlo hb

theorem byteArray_snoc_outside {front : List (FilePut path)} {q : FilePut path} {p : Nat}
    (hout : p < q.offset.toNat ∨ q.offset.toNat + q.data.length ≤ p) :
    byteArray (front ++ [q]) p = byteArray front p := by
  rw [byteArray, landed_snoc]
  by_cases hseek : seekable q.offset = true
  · rw [if_pos hseek, List.foldl_append]
    exact overlay_outside _ (by omega)
  · rw [if_neg hseek]
    rfl

/-- Behind the maximum end the byte array is zero. -/
theorem byteArray_beyond (puts : List (FilePut path)) {p : Nat} (hp : extent puts ≤ p) :
    byteArray puts p = 0 := by
  induction puts using List.reverseRecOn with
  | nil => rfl
  | append_singleton front q ih =>
      rw [extent_snoc] at hp
      by_cases hseek : seekable q.offset = true
      · rw [if_pos hseek] at hp
        have hout : p < q.offset.toNat ∨ q.offset.toNat + q.data.length ≤ p := by
          by_cases hne : q.data = []
          · rw [hne, List.length_nil]
            omega
          · rw [reach, if_neg hne] at hp
            omega
        rw [byteArray_snoc_outside hout, ih (by omega)]
      · rw [if_neg hseek] at hp
        rw [byteArray, landed_snoc, if_neg hseek]
        exact ih hp

/-- What a `put` on the path does to the files. -/
theorem posixPut_file (hname : fileOf path = some name) (q : FilePut path) (fs : FileSystem) :
    (posixPut root q.label q.data fs).2 =
      if seekable q.offset then putFile fs name q.offset q.data
      else Function.update fs name (some (openForPut fs name q.offset)) := by
  have hresolve := resolvePath_of_fileOf hname
  unfold posixPut resolveDest
  rw [q.legacy, q.destination]
  simp only [ne_eq, not_true_eq_false, if_false, filePath, hresolve, Option.map_some,
    Bool.not_true, Bool.false_eq_true]
  by_cases hseek : seekable q.offset = true
  · simp only [hseek, if_true]
  · simp only [hseek]
    rfl

/-! ## The file of a run -/

/-- The file holds the byte array up to its maximum end, and nothing behind. -/
def HoldsArray (fs : FileSystem) (name : List (List Char)) (puts : List (FilePut path)) : Prop :=
  ∀ p, byteAt fs name p = if p < extent puts then some (byteArray puts p) else none

/-- A `put` that cuts nothing off adds its data to the byte array. -/
theorem holdsArray_snoc (hname : fileOf path = some name) {fs : FileSystem}
    {front : List (FilePut path)} (h : HoldsArray fs name front) (q : FilePut path)
    (hcut : q.offset = 0 → extent front ≤ q.data.length) :
    HoldsArray (posixPut root q.label q.data fs).2 name (front ++ [q]) := by
  intro p
  rw [posixPut_file hname, extent_snoc]
  -- what the open leaves in the file
  have hopened : q.offset ≠ 0 →
      ∀ p, (openForPut fs name q.offset)[p]? = byteAt fs name p := by
    intro hne p
    have hpos : 0 < q.offset := by
      rw [UInt64.lt_iff_toNat_lt, UInt64.toNat_zero]
      exact Nat.pos_of_ne_zero fun h0 => hne (UInt64.toNat_inj.mp h0)
    unfold openForPut byteAt
    cases fs name with
    | none => rfl
    | some content =>
        dsimp only
        rw [if_pos hpos]
        rfl
  by_cases hseek : seekable q.offset = true
  · rw [if_pos hseek, if_pos hseek, byteAt, putFile, Function.update_self, Option.bind_some]
    by_cases hin : q.offset.toNat ≤ p ∧ p < q.offset.toNat + q.data.length
    · have hget : q.data[p - q.offset.toNat]? = some q.data[p - q.offset.toNat] :=
        List.getElem?_eq_getElem (by omega)
      have hne : q.data ≠ [] := fun h0 => by
        rw [h0] at hin
        exact absurd hin.2 (by simpa using hin.1)
      rw [writeAt_inside hin.1 hin.2, byteArray_snoc_inside hseek hin.1 hget, hget, reach,
        if_neg hne, if_pos (by omega)]
    · rw [byteArray_snoc_outside (by omega)]
      by_cases hzero : q.offset = 0
      · -- the file was cut, but it was no longer than the data
        have hlen := hcut hzero
        have hoff : q.offset.toNat = 0 := by rw [hzero]; rfl
        have hopen : openForPut fs name q.offset = [] := by
          unfold openForPut
          rw [hzero]
          cases fs name with
          | none => rfl
          | some _ => rfl
        have hreach : reach q ≤ q.data.length := by
          unfold reach
          split
          · exact Nat.zero_le _
          · omega
        rw [hopen, writeAt_beyond (Nat.zero_le _) (.inr (by omega)), if_neg (by omega)]
      · by_cases hold : p < extent front
        · have hbyte := h p
          rw [if_pos hold] at hbyte
          rw [writeAt_outside ((hopened hzero p).trans hbyte) (by omega), if_pos (by omega)]
        · have hnone := h p
          rw [if_neg hold] at hnone
          have hend := List.getElem?_eq_none_iff.mp ((hopened hzero p).trans hnone)
          by_cases hgap : p < reach q
          · have hne : q.data ≠ [] := fun h0 => by simp [reach, h0] at hgap
            rw [reach, if_neg hne] at hgap
            rw [writeAt_gap hne hend (by omega), if_pos (by rw [reach, if_neg hne]; omega),
              byteArray_beyond _ (by omega)]
          · rw [if_neg (by omega), writeAt_beyond hend]
            by_cases hne : q.data = []
            · exact .inl hne
            · rw [reach, if_neg hne] at hgap
              exact .inr (by omega)
  · -- an offset the stream cannot seek to is not 0, and the file keeps its bytes
    have hzero : q.offset ≠ 0 := by
      intro h0
      rw [h0] at hseek
      exact hseek rfl
    rw [if_neg hseek, if_neg hseek, byteAt, Function.update_self, Option.bind_some, hopened hzero,
      h p, byteArray, byteArray, landed_snoc, if_neg hseek]

theorem NothingCut.snoc {front : List (FilePut path)} {q : FilePut path} :
    NothingCut (front ++ [q]) ↔
      NothingCut front ∧ (q.offset = 0 → extent front ≤ q.data.length) := by
  constructor
  · intro h
    exact ⟨fun front' q' hpre => h front' q' (hpre.trans (List.prefix_append _ _)),
      h front q (List.prefix_refl _)⟩
  · rintro ⟨hfront, hlast⟩ front' q' hpre
    rcases List.prefix_concat_iff.mp hpre with heq | hpre
    · obtain ⟨rfl, hq⟩ := List.append_inj' heq rfl
      obtain rfl := List.singleton_inj.mp hq
      exact hlast
    · exact hfront front' q' hpre

theorem runPuts_holdsArray (hname : fileOf path = some name) {fs : FileSystem}
    (habsent : fs name = none) {puts : List (FilePut path)} (hcut : NothingCut puts) :
    HoldsArray (runPuts root fs puts) name puts := by
  induction puts using List.reverseRecOn with
  | nil =>
      intro p
      show byteAt fs name p = none
      rw [byteAt, habsent]
      rfl
  | append_singleton front q ih =>
      obtain ⟨hfront, hlast⟩ := NothingCut.snoc.mp hcut
      rw [runPuts_snoc]
      exact holdsArray_snoc hname (ih hfront) q hlast

/-! ## Reads -/

/-- A range of the byte array is what the file has there. -/
theorem slice_holdsArray {fs : FileSystem} {puts : List (FilePut path)}
    (h : HoldsArray fs name puts) {content : List UInt8} (hcontent : fs name = some content)
    {offset len : Nat} (hend : offset + len ≤ extent puts) :
    (content.drop offset).take len = (List.range' offset len).map (byteArray puts) := by
  apply List.ext_getElem?
  intro i
  rw [List.getElem?_take, List.getElem?_drop, List.getElem?_map]
  by_cases hi : i < len
  · have hbyte : content[offset + i]? = some (byteArray puts (offset + i)) := by
      have hat := h (offset + i)
      rw [byteAt, hcontent, Option.bind_some, if_pos (by omega)] at hat
      exact hat
    rw [if_pos hi, hbyte, List.getElem?_range' (by omega)]
    simp
  · rw [if_neg hi, List.getElem?_eq_none (by simpa using hi)]
    rfl

theorem exists_content {fs : FileSystem} {puts : List (FilePut path)} (h : HoldsArray fs name puts)
    (hpos : 0 < extent puts) :
    ∃ content, fs name = some content ∧ content.length = extent puts := by
  have hfirst := h 0
  rw [if_pos hpos, byteAt] at hfirst
  obtain ⟨content, hcontent, _⟩ := Option.bind_eq_some_iff.mp hfirst
  have hat : ∀ p, content[p]? = if p < extent puts then some (byteArray puts p) else none := by
    intro p
    rw [← h p, byteAt, hcontent]
    rfl
  refine ⟨content, hcontent, Nat.le_antisymm ?_ ?_⟩
  · have hend := hat (extent puts)
    rw [if_neg (Nat.lt_irrefl _)] at hend
    exact List.getElem?_eq_none_iff.mp hend
  · have hlast := hat (extent puts - 1)
    rw [if_pos (by omega)] at hlast
    obtain ⟨hlt, _⟩ := List.getElem?_eq_some_iff.mp hlast
    omega

/-- What `get` does on a file of known content. -/
theorem posixGet_content (hname : fileOf path = some name) {fs : FileSystem}
    {content : List UInt8} (hcontent : fs name = some content) {label : LabelData}
    (huri : label.sourceUri = "") {offset length : UInt64}
    (hsource : label.source = filePath path offset length) (hseek : seekable offset = true)
    (hin : offset.toNat ≤ content.length) :
    posixGet root label fs =
      .ok (if label.dataSize = 0 then content.drop offset.toNat
        else (content.drop offset.toNat).take label.dataSize.toNat) := by
  have hresolve := resolvePath_of_fileOf hname
  unfold posixGet resolveSource
  rw [huri, hsource]
  simp only [ne_eq, not_true_eq_false, if_false, filePath, hresolve, Option.map_some, if_true,
    hcontent, hseek, Bool.not_true, Bool.false_eq_true]
  by_cases hsize : label.dataSize = 0
  · rw [if_pos hsize, if_pos hsize, if_neg (by omega)]
  · rw [if_neg hsize, if_neg hsize]

/-! ## The condition -/

/-- A `put` that cuts nothing off keeps every byte outside its range. -/
theorem put_keeps (hname : fileOf path = some name) {fs : FileSystem} {front : List (FilePut path)}
    (h : HoldsArray fs name front) {q : FilePut path}
    (hcut : q.offset = 0 → extent front ≤ q.data.length) {other : List (List Char)} {p : Nat}
    {b : UInt8}
    (hout : other = name → p < q.offset.toNat ∨ q.offset.toNat + q.data.length ≤ p)
    (hb : byteAt fs other p = some b) :
    byteAt (posixPut root q.label q.data fs).2 other p = some b := by
  by_cases hother : other = name
  · subst hother
    have hbyte := h p
    have hnew : byteAt (posixPut root q.label q.data fs).2 other p = _ :=
      holdsArray_snoc hname h q hcut p
    rw [hb] at hbyte
    have hp : p < extent front := by
      by_contra hp
      rw [if_neg hp] at hbyte
      exact absurd hbyte (by simp)
    rw [if_pos hp] at hbyte
    have hp' : p < extent (front ++ [q]) := by
      rw [extent_snoc]
      split
      · omega
      · exact hp
    rw [hnew, if_pos hp', byteArray_snoc_outside (hout rfl), hbyte]
  · rw [posixPut_file hname, byteAt]
    split
    · rw [putFile, Function.update_of_ne hother]
      exact hb
    · rw [Function.update_of_ne hother]
      exact hb

/-- When no `put` changes a byte outside its range, none cuts anything off. -/
theorem nothingCut_of_outside (hname : fileOf path = some name) {fs : FileSystem}
    (habsent : fs name = none) {puts : List (FilePut path)}
    (h : ∀ front q, front ++ [q] <+: puts → ∀ other p b,
      (other = name → p < q.offset.toNat ∨ q.offset.toNat + q.data.length ≤ p) →
      byteAt (runPuts root fs front) other p = some b →
      byteAt (runPuts root fs (front ++ [q])) other p = some b) : NothingCut puts := by
  induction puts using List.reverseRecOn with
  | nil =>
      intro front q hpre
      exact absurd (List.prefix_nil.mp hpre) (by simp)
  | append_singleton front q ih =>
      have hfront := ih fun front' q' hpre => h front' q' (hpre.trans (List.prefix_append _ _))
      refine NothingCut.snoc.mpr ⟨hfront, fun hzero => ?_⟩
      by_contra hlong
      have hoff : q.offset.toNat = 0 := by rw [hzero]; rfl
      -- the byte behind the data was there, and the `put` leaves none
      have hold : byteAt (runPuts root fs front) name q.data.length = _ :=
        runPuts_holdsArray hname habsent hfront q.data.length
      rw [if_pos (by omega)] at hold
      have hkept := h front q (List.prefix_refl _) name q.data.length _
        (fun _ => .inr (by omega)) hold
      have hseek : seekable q.offset = true := by rw [hzero]; rfl
      rw [runPuts_snoc, posixPut_file hname, if_pos hseek, hzero,
        byteAt_put_truncates (Nat.le_refl _)] at hkept
      exact absurd hkept (by simp)

/-- A run of `put`s on one path, the file absent at first, is the byte array exactly
when no `put` at offset 0 is shorter than what was stored before. -/
theorem posix_byte_array_iff (root : String) (hname : fileOf path = some name) (fs : FileSystem)
    (habsent : fs name = none) (puts : List (FilePut path)) :
    IsByteArray root name fs puts ↔ NothingCut puts := by
  constructor
  · exact fun h => nothingCut_of_outside hname habsent h.outside
  · intro hcut
    have hholds : HoldsArray (runPuts root fs puts) name puts :=
      runPuts_holdsArray hname habsent hcut
    refine ⟨?_, ?_, ?_⟩
    · intro label huri offset length hsource hsize hend hseek
      have hpos : 0 < label.dataSize.toNat := UInt64.lt_iff_toNat_lt.mp hsize
      obtain ⟨content, hcontent, hlen⟩ := exists_content hholds (by omega)
      have hne : label.dataSize ≠ 0 := fun h0 => by rw [h0] at hpos; exact absurd hpos (by decide)
      rw [posixGet_content hname hcontent huri hsource hseek (by omega), if_neg hne,
        slice_holdsArray hholds hcontent hend]
    · intro label huri offset length hsource hsize hend hseek
      obtain ⟨content, hcontent, hlen⟩ := exists_content hholds (by omega)
      have hrest : (content.drop offset.toNat).take (extent puts - offset.toNat) =
          content.drop offset.toNat := List.take_of_length_le (by simp; omega)
      rw [posixGet_content hname hcontent huri hsource hseek (by omega), if_pos hsize, ← hrest,
        slice_holdsArray hholds hcontent (by omega)]
    · intro front q hpre other p b hout hb
      obtain ⟨hfront, hlast⟩ := NothingCut.snoc.mp
        fun front' q' hpre' => hcut front' q' (hpre'.trans hpre)
      rw [runPuts_snoc]
      exact put_keeps hname (runPuts_holdsArray hname habsent hfront) hlast hout hb

/-! ## Runs -/

def putAt (offset : UInt64) (data : List UInt8) : FilePut "a" :=
  { label := { type := .write, destination := filePath "a" offset (UInt64.ofNat data.length) }
    offset
    length := UInt64.ofNat data.length
    data
    legacy := rfl
    destination := rfl }

theorem posix_byte_array_overlaid :
    IsByteArray "root" [['a']] (fun _ => none) [putAt 0 [65, 65, 65, 65], putAt 2 [66, 66]] ↔
      NothingCut [putAt 0 [65, 65, 65, 65], putAt 2 [66, 66]] :=
  posix_byte_array_iff "root" (by decide) _ rfl _

/-- The second `put` cuts off the byte that the first one stored. -/
theorem lowAfterHigh_not_byteArray :
    ¬IsByteArray "root" [['a']] (fun _ => none) [putAt 2 [66, 66], putAt 0 [65]] := by
  intro h
  have hkept := h.outside [putAt 2 [66, 66]] (putAt 0 [65]) (List.prefix_refl _) [['a']] 2 66
    (by decide) (by decide)
  exact absurd hkept (by decide)

end Labios
