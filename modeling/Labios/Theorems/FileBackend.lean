import Labios.Storage.Posix
import Labios.Storage.Tree
import Mathlib.Algebra.Group.Nat.Defs

/-!
# The file backend

How much a read asks for, and where in the file system a label reaches.
-/

/-!
## What a read computes and asks for

`PosixBackend::get` once more, with the difference that it forms and the buffer that it asks
for. Whatever it returns is the slice (`get_returns_slice`). The buffer has the size that the
label names, however short the file is; only without a size does it fit what is left of the
file.
-/

namespace Labios

/-- A run of `get`: the operands of its unsigned differences, the sizes of the buffers it asks
for, and what comes out. It forms no sum. -/
structure GetRun where
  differences : List (UInt64 × UInt64) := []
  buffers : List UInt64 := []
  result : Except String (List UInt8)

/-- `max_size()` of a vector of bytes. -/
def maxVectorSize : UInt64 := 9223372036854775807

/-- `get`; the memory for a buffer may be refused. -/
def getRun (granted : UInt64 → Bool) (root : String) (label : LabelData) (fs : FileSystem) :
    GetRun :=
  match resolveSource label with
  | none => { result := .error "invalid source path" }
  | some ((name, isFile), offset) =>
      match if isFile then fs name else none with
      | none => { result := .error ("data not found: " ++ fullPath root name) }
      | some content =>
          if !seekable offset then { result := .error ("failed to seek " ++ fullPath root name) }
          else
            let fileEnd := UInt64.ofNat content.length
            let length := if label.dataSize = 0 then fileEnd - offset else label.dataSize
            { differences := if label.dataSize = 0 then [(fileEnd, offset)] else []
              buffers := [length]
              result :=
                if maxVectorSize < length then
                  .error "cannot create std::vector larger than max_size()"
                else if !granted length then .error "std::bad_alloc"
                else .ok ((content.drop offset.toNat).take length.toNat) }

/-- The bytes from `offset` on, `dataSize` of them, or all if that is 0; as far as there are
any. -/
def slice (content : List UInt8) (offset dataSize : Nat) : List UInt8 :=
  let stop := if dataSize = 0 then content.length else min (offset + dataSize) content.length
  (content.take stop).drop (min offset content.length)

/-! ## Differences of positions -/

variable {content : List UInt8} {offset : UInt64}

theorem toNat_ofNat_length (hlength : content.length < 2 ^ 63) :
    (UInt64.ofNat content.length).toNat = content.length := by
  rw [UInt64.toNat_ofNat']
  omega

/-- In the file the difference is what is left of it. -/
theorem toNat_fileEnd_sub (hlength : content.length < 2 ^ 63)
    (h : offset.toNat ≤ content.length) :
    (UInt64.ofNat content.length - offset).toNat = content.length - offset.toNat := by
  have hle : offset ≤ UInt64.ofNat content.length := by
    rw [UInt64.le_iff_toNat_le, toNat_ofNat_length hlength]
    exact h
  rw [UInt64.toNat_sub_of_le _ _ hle, toNat_ofNat_length hlength]

/-- Behind the file it wraps to a number that no vector can have. -/
theorem fileEnd_sub_wraps (hlength : content.length < 2 ^ 63) (hseek : offset.toNat < 2 ^ 63)
    (h : content.length < offset.toNat) : maxVectorSize < UInt64.ofNat content.length - offset := by
  rw [UInt64.lt_iff_toNat_lt, UInt64.toNat_sub, toNat_ofNat_length hlength]
  show 9223372036854775807 < _
  omega

/-! ## The slice -/

theorem slice_eq (content : List UInt8) (offset dataSize : Nat) :
    slice content offset dataSize =
      if dataSize = 0 then content.drop offset else (content.drop offset).take dataSize := by
  have hmin : ∀ stop, (content.take stop).drop (min offset content.length) =
      (content.take stop).drop offset := by
    intro stop
    rcases Nat.le_total offset content.length with hle | hge
    · rw [Nat.min_eq_left hle]
    · have hshort : (content.take stop).length ≤ content.length := by
        rw [List.length_take]
        exact Nat.min_le_right _ _
      rw [Nat.min_eq_right hge, List.drop_eq_nil_of_le hshort,
        List.drop_eq_nil_of_le (hshort.trans hge)]
  unfold slice
  by_cases hsize : dataSize = 0
  · rw [if_pos hsize, if_pos hsize, hmin, List.take_length]
  · rw [if_neg hsize, if_neg hsize, hmin, List.take_drop]
    congr 1
    rcases Nat.le_total (offset + dataSize) content.length with hle | hge
    · rw [Nat.min_eq_left hle]
    · rw [Nat.min_eq_right hge, List.take_length, List.take_of_length_le hge]

/-! ## Runs -/

section Runs

variable {granted : UInt64 → Bool} {root : String} {label : LabelData} {fs : FileSystem}
  {name : List (List Char)}

/-- The run on a file that is there, from an offset that can be sought. -/
theorem getRun_of_content (hsource : resolveSource label = some ((name, true), offset))
    (hcontent : fs name = some content) (hseek : seekable offset = true) {length : UInt64}
    (hsize : length =
      if label.dataSize = 0 then UInt64.ofNat content.length - offset else label.dataSize) :
    getRun granted root label fs =
      { differences :=
          if label.dataSize = 0 then [(UInt64.ofNat content.length, offset)] else []
        buffers := [length]
        result :=
          if maxVectorSize < length then
            .error "cannot create std::vector larger than max_size()"
          else if !granted length then .error "std::bad_alloc"
          else .ok ((content.drop offset.toNat).take length.toNat) } := by
  subst hsize
  unfold getRun
  rw [hsource]
  simp only [if_true, hcontent, hseek, Bool.not_true, Bool.false_eq_true, if_false]

/-- An offset from 2^63 on is refused before anything is computed. -/
theorem getRun_not_seekable (hsource : resolveSource label = some ((name, true), offset))
    (hcontent : fs name = some content) (hseek : seekable offset = false) :
    getRun granted root label fs =
      { result := .error ("failed to seek " ++ fullPath root name) } := by
  unfold getRun
  rw [hsource]
  simp only [if_true, hcontent, hseek, Bool.not_false]

/-- Whatever comes out is the slice. -/
theorem get_returns_slice (hsource : resolveSource label = some ((name, true), offset))
    (hcontent : fs name = some content) (hlength : content.length < 2 ^ 63) {bytes : List UInt8}
    (h : (getRun granted root label fs).result = .ok bytes) :
    bytes = slice content offset.toNat label.dataSize.toNat := by
  cases hseek : seekable offset with
  | false =>
      rw [getRun_not_seekable hsource hcontent hseek] at h
      cases h
  | true =>
      obtain ⟨length, hlen⟩ : ∃ length, length =
          if label.dataSize = 0 then UInt64.ofNat content.length - offset else label.dataSize :=
        ⟨_, rfl⟩
      rw [getRun_of_content hsource hcontent hseek hlen] at h
      dsimp only at h
      split at h
      · cases h
      · next hmax =>
          split at h
          · cases h
          · obtain rfl := Except.ok.inj h
            rw [slice_eq]
            by_cases hsize : label.dataSize = 0
            · rw [if_pos hsize] at hlen
              -- behind the end the wrapped size is more than a vector can have
              have hin : offset.toNat ≤ content.length := by
                by_contra hbehind
                rw [hlen] at hmax
                exact hmax (fileEnd_sub_wraps hlength (of_decide_eq_true hseek) (by omega))
              have hzero : label.dataSize.toNat = 0 := by
                rw [hsize]
                rfl
              rw [if_pos hzero, hlen, toNat_fileEnd_sub hlength hin]
              exact List.take_of_length_le (by simp)
            · have hne : label.dataSize.toNat ≠ 0 := fun hzero =>
                hsize (UInt64.toNat_inj.mp hzero)
              rw [if_neg hne, hlen, if_neg hsize]

/-- With memory for every vector, and a size that a vector can have, the run gives what `get`
was said to return. -/
theorem getRun_result (hsource : resolveSource label = some ((name, true), offset))
    (hcontent : fs name = some content) (hlength : content.length < 2 ^ 63)
    (hgranted : ∀ n ≤ maxVectorSize, granted n = true)
    (hsize : label.dataSize ≤ maxVectorSize) :
    (getRun granted root label fs).result = posixGet root label fs := by
  unfold posixGet
  rw [hsource]
  dsimp only
  rw [if_pos rfl, hcontent]
  dsimp only
  cases hseek : seekable offset with
  | false => rw [getRun_not_seekable hsource hcontent hseek, Bool.not_false, if_pos rfl]
  | true =>
      rw [getRun_of_content hsource hcontent hseek rfl, Bool.not_true, if_neg Bool.false_ne_true]
      dsimp only
      by_cases hzero : label.dataSize = 0
      · rw [if_pos hzero, if_pos hzero]
        by_cases hin : content.length < offset.toNat
        · rw [if_pos (fileEnd_sub_wraps hlength (of_decide_eq_true hseek) hin), if_pos hin]
        · have hle : UInt64.ofNat content.length - offset ≤ maxVectorSize := by
            rw [UInt64.le_iff_toNat_le, toNat_fileEnd_sub hlength (by omega)]
            show _ ≤ 9223372036854775807
            omega
          rw [if_neg (UInt64.not_lt.mpr hle), hgranted _ hle, Bool.not_true,
            if_neg Bool.false_ne_true, if_neg hin, toNat_fileEnd_sub hlength (by omega)]
          exact congrArg _ (List.take_of_length_le (by simp))
      · rw [if_neg hzero, if_neg hzero, if_neg (UInt64.not_lt.mpr hsize), hgranted _ hsize,
          Bool.not_true, if_neg Bool.false_ne_true]

/-- **Bounded reads.** `get` fails or returns the slice. Unless the size is 0 and the offset
lies behind the end, no difference is negative, and the buffer has the size of the label, or
without one as many bytes as there are left. -/
theorem get_bounded_slice (granted : UInt64 → Bool) (root : String)
    (hsource : resolveSource label = some ((name, true), offset))
    (hcontent : fs name = some content) (hlength : content.length < 2 ^ 63) :
    (∀ bytes, (getRun granted root label fs).result = .ok bytes →
      bytes = slice content offset.toNat label.dataSize.toNat) ∧
    ((label.dataSize = 0 → offset.toNat ≤ content.length) →
      (∀ d ∈ (getRun granted root label fs).differences, d.2 ≤ d.1) ∧
      ∀ n ∈ (getRun granted root label fs).buffers,
        n.toNat = if label.dataSize = 0 then content.length - offset.toNat
          else label.dataSize.toNat) := by
  refine ⟨fun bytes h => get_returns_slice hsource hcontent hlength h, fun hin => ?_⟩
  cases hseek : seekable offset with
  | false =>
      rw [getRun_not_seekable hsource hcontent hseek]
      exact ⟨fun _ hd => absurd hd List.not_mem_nil, fun _ hn => absurd hn List.not_mem_nil⟩
  | true =>
      rw [getRun_of_content hsource hcontent hseek rfl]
      dsimp only
      by_cases hsize : label.dataSize = 0
      · simp only [if_pos hsize, List.mem_singleton, forall_eq]
        refine ⟨?_, toNat_fileEnd_sub hlength (hin hsize)⟩
        rw [UInt64.le_iff_toNat_le, toNat_ofNat_length hlength]
        exact hin hsize
      · simp only [if_neg hsize, List.mem_singleton, forall_eq]
        exact ⟨fun _ hd => absurd hd List.not_mem_nil, trivial⟩

end Runs

/-- Two bytes from offset 1 on. -/
def readTwo : LabelData :=
  { id := 1, type := .read, source := filePath "a" 1 0, dataSize := 2 }

/-- A file of three bytes. -/
def threeBytes : FileSystem := fun name => if name = ["a".toList] then some [1, 2, 3] else none

theorem get_bounded_slice_two :
    (getRun (fun _ => true) "/root" readTwo threeBytes).result = .ok [2, 3] ∧
      slice [1, 2, 3] 1 2 = [2, 3] ∧
      ∀ n ∈ (getRun (fun _ => true) "/root" readTwo threeBytes).buffers, n.toNat = 2 := by
  have hrun : (getRun (fun _ => true) "/root" readTwo threeBytes).result = .ok [2, 3] := by
    decide
  have hsource : resolveSource readTwo = some ((["a".toList], true), 1) := by decide
  have hcontent : threeBytes ["a".toList] = some [1, 2, 3] := by decide
  obtain ⟨hslice, hrest⟩ :=
    get_bounded_slice (fun _ => true) "/root" hsource hcontent (by decide)
  exact ⟨hrun, (hslice _ hrun).symm, (hrest (by decide)).2⟩

/-- Of a file of three bytes 1000 are asked for, and 1000 are allocated. From offset 4 on, -1
byte is left. -/
theorem get_oversized :
    (getRun (fun _ => true) "/root" { readTwo with dataSize := 1000 } threeBytes).buffers =
        [1000] ∧
      (getRun (fun _ => true) "/root" { readTwo with dataSize := 1000 } threeBytes).result =
        .ok [2, 3] ∧
      (getRun (fun _ => true) "/root" { readTwo with source := filePath "a" 4 0, dataSize := 0 }
        threeBytes).differences = [(3, 4)] := by
  decide

end Labios

/-!
## The storage sandbox

Whatever a label says, the file backend opens, creates and removes nothing outside its storage
root. The worker creates the root and the directories above it before it takes a label; from
then on none of those above is ever missing, so no `put` creates one of them (`Anchored`).
-/

namespace Labios

open Foundation LexPath

namespace PosixTree

/-! ## Operations -/

inductive FileOp
  | put (label : LabelData) (data : List UInt8)
  | get (label : LabelData)
  | del (label : LabelData)

def FileOp.run (os : OperatingSystem) (root : LexPath) (op : FileOp) (t : Tree) :
    Tree × List Touch :=
  match op with
  | .put label data =>
      ((PosixTree.put os root label data t).tree, (PosixTree.put os root label data t).touched)
  | .get label => ((PosixTree.get os root label t).tree, (PosixTree.get os root label t).touched)
  | .del label => ((PosixTree.del os root label t).tree, (PosixTree.del os root label t).touched)

/-- The operations of a worker one after the other; the operating system may answer each of them
differently. -/
def runOps (root : LexPath) : List (OperatingSystem × FileOp) → Tree → List Touch
  | [], _ => []
  | (os, op) :: ops, t => (op.run os root t).2 ++ runOps root ops (op.run os root t).1

/-- The directories above the root are there. -/
def Anchored (r : Root) (t : Tree) : Prop :=
  ∀ names, names <+: r.names → names ≠ [] → names ≠ r.names → t names = some .directory

variable {r : Root} {t : Tree}

/-- What is under the root is not above it. -/
theorem Anchored.update (h : Anchored r t) (q : LexPath) (node : Option Node) :
    Anchored r (Function.update t (r.under q).names node) := by
  intro names hbegins hne hroot
  rw [r.names_under, Function.update_of_ne]
  · exact h names hbegins hne hroot
  · rintro rfl
    exact hroot (hbegins.eq_of_length_le (List.length_append ▸ Nat.le_add_right _ _))

theorem Anchored.createDirectories (h : Anchored r t) (os : OperatingSystem) (path : LexPath) :
    Anchored r (createDirectories os path t).2.1 := by
  intro names hbegins hne hroot
  rcases makeDirectories_tree os [] path.names t names with hsame | ⟨hmissing, -⟩
  · exact hsame.trans (h names hbegins hne hroot)
  · rw [h names hbegins hne hroot] at hmissing
    cases hmissing

/-- No directory above the root is created: none is missing. -/
theorem Anchored.creates_under (h : Anchored r t) (os : OperatingSystem) (q : LexPath) {x : Touch}
    (hx : x ∈ (PosixTree.createDirectories os (r.under q).parentPath t).2.2) :
    r.Contains x.path := by
  obtain ⟨names, rfl, -, hne, hnames, hmissing⟩ := makeDirectories_touched hx
  rw [List.nil_append] at hnames
  obtain ⟨-, hroot, -⟩ := r.contains_parent q
  have hproper : ∀ n ∈ names, IsName n := fun n hn =>
    isName_of_mem_namesOf (hnames.subset hn)
  have hunder : r.names <+: names := by
    -- a missing directory on the way is under the root or above it, and above it none is missing
    rcases List.prefix_or_prefix_of_prefix hroot hnames with hunder | habove
    · exact hunder
    · by_cases hsame : names = r.names
      · exact hsame ▸ List.prefix_rfl
      · rw [h names habove hne hsame] at hmissing
        cases hmissing
  refine ⟨rfl, ?_, fun hmem => (hproper _ hmem).2.2 rfl⟩
  show r.names <+: namesOf names
  rw [namesOf_of_isName hproper]
  exact hunder

theorem Anchored.put (h : Anchored r t) (os : OperatingSystem) (label : LabelData)
    (data : List UInt8) :
    Anchored r (PosixTree.put os r.path label data t).tree ∧
      ∀ x ∈ (PosixTree.put os r.path label data t).touched, r.Contains x.path := by
  unfold PosixTree.put
  cases hresolve : resolveDest r.path label with
  | none => exact ⟨h, fun x hx => absurd hx List.not_mem_nil⟩
  | some resolved =>
      obtain ⟨path, offset⟩ := resolved
      obtain ⟨q, rfl⟩ := resolveDest_under hresolve
      have hcreated := h.createDirectories os (r.under q).parentPath
      have htouched : ∀ x ∈ (PosixTree.createDirectories os (r.under q).parentPath t).2.2,
          r.Contains x.path := fun _ hx => h.creates_under os q hx
      dsimp only
      generalize PosixTree.createDirectories os (r.under q).parentPath t = made
        at hcreated htouched ⊢
      obtain ⟨made, t', touched⟩ := made
      cases made with
      | false => exact ⟨hcreated, htouched⟩
      | true =>
          have hall : ∀ x ∈ touched ++ [.opens (r.under q)], r.Contains x.path := by
            intro x hx
            rcases List.mem_append.mp hx with hx | hx
            · exact htouched x hx
            · obtain rfl := List.mem_singleton.mp hx
              exact r.contains_under q
          dsimp only
          split
          · exact ⟨hcreated, hall⟩
          · split
            · exact ⟨hcreated.update q _, hall⟩
            · exact ⟨hcreated.update q _, hall⟩

theorem Anchored.get (h : Anchored r t) (os : OperatingSystem) (label : LabelData) :
    Anchored r (PosixTree.get os r.path label t).tree ∧
      ∀ x ∈ (PosixTree.get os r.path label t).touched, r.Contains x.path := by
  unfold PosixTree.get
  cases hresolve : resolveSource r.path label with
  | none => exact ⟨h, fun x hx => absurd hx List.not_mem_nil⟩
  | some resolved =>
      obtain ⟨path, offset⟩ := resolved
      obtain ⟨q, rfl⟩ := resolveSource_under hresolve
      refine ⟨h, fun x hx => ?_⟩
      obtain rfl := List.mem_singleton.mp hx
      exact r.contains_under q

theorem Anchored.del (h : Anchored r t) (os : OperatingSystem) (label : LabelData) :
    Anchored r (PosixTree.del os r.path label t).tree ∧
      ∀ x ∈ (PosixTree.del os r.path label t).touched, r.Contains x.path := by
  unfold PosixTree.del
  cases hresolve : resolveDest r.path label with
  | none => exact ⟨h, fun x hx => absurd hx List.not_mem_nil⟩
  | some resolved =>
      obtain ⟨path, offset⟩ := resolved
      obtain ⟨q, rfl⟩ := resolveDest_under hresolve
      have hall : ∀ x ∈ [Touch.removes (r.under q)], r.Contains x.path := by
        intro x hx
        obtain rfl := List.mem_singleton.mp hx
        exact r.contains_under q
      dsimp only
      cases t (r.under q).names with
      | none => exact ⟨h, hall⟩
      | some node =>
          dsimp only
          split
          · exact ⟨h.update q none, hall⟩
          · exact ⟨h, hall⟩

/-- One operation stays inside the root. -/
theorem Anchored.run (h : Anchored r t) (os : OperatingSystem) (op : FileOp) :
    Anchored r (op.run os r.path t).1 ∧ ∀ x ∈ (op.run os r.path t).2, r.Contains x.path := by
  cases op with
  | put label data => exact h.put os label data
  | get label => exact h.get os label
  | del label => exact h.del os label

theorem Anchored.runOps (h : Anchored r t) (ops : List (OperatingSystem × FileOp)) :
    ∀ x ∈ PosixTree.runOps r.path ops t, r.Contains x.path := by
  induction ops generalizing t with
  | nil => exact fun x hx => absurd hx List.not_mem_nil
  | cons head ops ih =>
      obtain ⟨os, op⟩ := head
      obtain ⟨hnext, htouched⟩ := h.run os op
      intro x hx
      rcases List.mem_append.mp hx with hx | hx
      · exact htouched x hx
      · exact ih hnext x hx

/-- **The sandbox.** Once the worker has created its storage root, whatever its operations open,
create or remove is the root or lies inside it. -/
theorem sandbox_holds (r : Root) (os : OperatingSystem) (start : Tree)
    (hstart : (createDirectories os r.path start).1 = true)
    (ops : List (OperatingSystem × FileOp)) :
    ∀ x ∈ runOps r.path ops (createDirectories os r.path start).2.1, r.Contains x.path := by
  refine Anchored.runOps (fun names hbegins hne _ => ?_) ops
  exact makeDirectories_made hstart List.nil_prefix hne hbegins

/-- An operating system that grants everything. -/
def granting : OperatingSystem where
  grants := fun _ => true
  message := fun _ => ""
  readDirectory := fun _ => .error "is a directory"

def dataRoot : Root where
  path := LexPath.ofText "/labios/data".toList
  rooted := by decide
  normal := by decide

/-- A path that climbs, and an absolute one. -/
def climbingOps : List (OperatingSystem × FileOp) :=
  [(granting, .put { destination := filePath "a/../../etc" 0 0 } [1]),
    (granting, .put { destUri := "file:////etc/./cron.d//x" } [1])]

theorem sandbox_holds_climbing :
    runOps dataRoot.path climbingOps
        (createDirectories granting dataRoot.path fun _ => none).2.1 =
      [.creates (LexPath.ofText "/labios/data/etc".toList),
        .creates (LexPath.ofText "/labios/data/etc/cron.d".toList),
        .opens (LexPath.ofText "/labios/data/etc/cron.d/x".toList)] ∧
      ∀ x ∈ runOps dataRoot.path climbingOps
        (createDirectories granting dataRoot.path fun _ => none).2.1, dataRoot.Contains x.path :=
  ⟨by decide, sandbox_holds dataRoot granting (fun _ => none) (by decide) climbingOps⟩

end PosixTree
end Labios
