import Labios.Storage.ByteFile
import Labios.Worker.Runs

/-!
# Every worker on its own files

`executeOne` for workers that have a storage root each, with a log of the writes
that succeeded. `Stored` is the invariant between the two: what the last write of
a byte put there, the worker that wrote it holds, as long as one worker writes each
file and no write cuts it (`Keeps`).
-/

namespace Labios

/-- A plain read or write through its pointer. -/
structure PointerIO (l : LabelData) : Prop where
  plain : PlainIO l
  sourceUri : l.sourceUri = ""
  destUri : l.destUri = ""
  pipeline : l.pipeline = {}
  children : l.children = []

theorem PointerIO.of_work {a b : LabelData} (h : work a = work b) (ha : PointerIO a) :
    PointerIO b := by
  have hwork : PointerIO (work a) :=
    ⟨⟨ha.plain.kind, ha.plain.address, ha.plain.nonempty, ha.plain.bounded⟩, ha.sourceUri,
      ha.destUri, ha.pipeline, ha.children⟩
  rw [h] at hwork
  exact ⟨⟨hwork.plain.kind, hwork.plain.address, hwork.plain.nonempty, hwork.plain.bounded⟩,
    hwork.sourceUri, hwork.destUri, hwork.pipeline, hwork.children⟩

/-- A write that succeeded, and the bytes that were staged for it. -/
structure Written where
  worker : Int
  label : LabelData
  data : List UInt8

def Written.region (x : Written) : Region := (start x.label, x.data)

/-- What was written to a file, oldest first. -/
def regionsOf (written : List Written) (k : String) : List Region :=
  (written.filter (·.label.fileKey = k)).map Written.region

structure OwnStorage where
  storage : Storage Unit
  written : List Written := []

section Execute

variable (roots : Int → String)

/-- One label on a worker with its own root. -/
def executeOwn (w : Int) (l : LabelData) (s : OwnStorage) : Option UInt64 × OwnStorage :=
  match executeOne (fun w => fileExecutor w (roots w)) (w, l) s.storage with
  | (.error _, storage) => (none, { s with storage })
  | (.ok result, storage) =>
      (some result.bytesTransferred,
        { storage
          written :=
            if l.type = .write then
              s.written ++
                [{ worker := w, label := l, data := s.storage.warehouse.retrieve l.id }]
            else s.written })

/-- Executing the label cuts no file, and spells its file as the writes so far did. -/
def Keeps (w : Int) (l : LabelData) (s : OwnStorage) : Prop :=
  l.type = .write →
    (start l = 0 → ∀ name ∈ fileOf l.fileKey, ∀ content ∈ s.storage.files (roots w) name,
      content.length ≤ (s.storage.warehouse.retrieve l.id).length) ∧
    ∀ x ∈ s.written, fileOf x.label.fileKey = fileOf l.fileKey → x.label.fileKey = l.fileKey

instance (w : Int) (l : LabelData) (s : OwnStorage) : Decidable (Keeps roots w l s) := by
  unfold Keeps
  infer_instance

/-- The last write of every byte is in the file of the worker that wrote it. -/
def Stored (s : OwnStorage) : Prop :=
  ∀ x ∈ s.written, ∃ name, fileOf x.label.fileKey = some name ∧
    ∀ p b, lastAt (regionsOf s.written x.label.fileKey) p = some b →
      byteAt (s.storage.files (roots x.worker)) name p = some b

/-! ## One label -/

variable {roots} {w : Int} {l : LabelData} {s : OwnStorage}

/-- No stored byte is lost. -/
def KeepsBytes (files files' : String → FileSystem) : Prop :=
  ∀ root name p b, byteAt (files root) name p = some b → byteAt (files' root) name p = some b

theorem executeRead_files {ω : Type} (e : Executor ω) (l : LabelData) (s : Storage ω) :
    (executeRead e l s).2.files = s.files := by
  unfold executeRead
  split
  · split
    · rfl
    · rfl
  · split
    · dsimp only
      split
      · rfl
      · rfl
    · rfl

/-- A put that fails loses nothing. -/
theorem posixPut_refused (h : PointerIO l) (hw : l.type = .write)
    (hno : fileOf l.fileKey = none ∨ 2 ^ 63 ≤ start l) (root : String) (data : List UInt8)
    (fs : FileSystem) :
    ∃ text fs', posixPut root l data fs = (.error text, fs') ∧
      ∀ name p b, byteAt fs name p = some b → byteAt fs' name p = some b := by
  have hdest : resolveDest l =
      (resolvePath l.fileKey).map fun file => (file, (labelRange l).offset) := by
    unfold resolveDest
    rw [if_neg (by simp [h.destUri]), h.plain.destination_eq hw]
    rfl
  unfold posixPut
  rw [hdest]
  rcases hpath : resolvePath l.fileKey with _ | ⟨name, isFile⟩
  · exact ⟨_, fs, rfl, fun _ _ _ hb => hb⟩
  · rw [Option.map_some]
    dsimp only
    cases isFile with
    | false => exact ⟨_, fs, rfl, fun _ _ _ hb => hb⟩
    | true =>
        have hfile : fileOf l.fileKey = some name := by rw [fileOf, hpath]
        have hbeyond : 2 ^ 63 ≤ (labelRange l).offset.toNat := by
          rcases hno with hno | hno
          · rw [hfile] at hno
            exact absurd hno (by simp)
          · exact hno
        have hseek : seekable (labelRange l).offset = false :=
          decide_eq_false (by omega)
        rw [hseek]
        refine ⟨_, _, rfl, fun other p b hb => ?_⟩
        by_cases hother : other = name
        · -- an open behind the start keeps what is there
          subst hother
          obtain ⟨content, hcontent, hbyte⟩ := Option.bind_eq_some_iff.mp hb
          have hpos : 0 < (labelRange l).offset := by
            rw [UInt64.lt_iff_toNat_lt, UInt64.toNat_zero]
            omega
          rw [byteAt, Function.update_self, openForPut, hcontent]
          dsimp only
          rw [if_pos hpos]
          exact hbyte
        · rw [byteAt, Function.update_of_ne hother]
          exact hb

/-- A plain write puts what is staged for it, or fails and loses nothing. -/
theorem executeWrite_pointer {ω : Type} (e : Executor ω) (h : PointerIO l) (hw : l.type = .write)
    (s : Storage ω) :
    (∃ r name, fileOf l.fileKey = some name ∧ executeWrite e l s = (.ok r, storedWrite e l name s)) ∨
      ∃ text s', executeWrite e l s = (.error text, s') ∧ KeepsBytes s.files s'.files := by
  by_cases hno : fileOf l.fileKey = none ∨ 2 ^ 63 ≤ start l
  · right
    obtain ⟨text, fs', hput, hkeep⟩ := posixPut_refused h hw hno e.root
      (s.warehouse.retrieve l.id) (s.files e.root)
    refine ⟨text, { s with files := Function.update s.files e.root fs' }, ?_, ?_⟩
    · unfold executeWrite
      simp only [h.pipeline, Pipeline.empty, List.isEmpty_nil, Bool.not_true, Bool.false_eq_true,
        false_and, if_false, if_true, h.destUri, ne_eq, not_true_eq_false,
        h.plain.destination_eq hw, filePath, storeBlob, resolvePut, hput]
    · intro root name p b hb
      show byteAt (Function.update s.files e.root fs' root) name p = some b
      by_cases hroot : root = e.root
      · subst hroot
        rw [Function.update_self]
        exact hkeep name p b hb
      · rw [Function.update_of_ne hroot]
        exact hb
  · left
    obtain ⟨hfile, hseek⟩ := not_or.mp hno
    obtain ⟨name, hname⟩ := Option.ne_none_iff_exists'.mp hfile
    have hio : FileIO l :=
      ⟨h.plain, h.sourceUri, h.destUri, h.pipeline, hfile, Nat.lt_of_not_le hseek⟩
    obtain ⟨r, hrun⟩ := executeWrite_plain e hio hw hname s
    exact ⟨r, name, hname, hrun⟩

/-- What executing a label does: a write puts its bytes and is logged, or nothing is
logged and nothing is lost. -/
theorem executeOwn_cases (roots : Int → String) (w : Int) (h : PointerIO l) (s : OwnStorage) :
    (∃ name, l.type = .write ∧ fileOf l.fileKey = some name ∧
        (executeOwn roots w l s).2 =
          { storage := storedWrite (fileExecutor w (roots w)) l name s.storage
            written := s.written ++
              [{ worker := w, label := l, data := s.storage.warehouse.retrieve l.id }] }) ∨
      (executeOwn roots w l s).2.written = s.written ∧
        KeepsBytes s.storage.files (executeOwn roots w l s).2.storage.files := by
  unfold executeOwn executeOne
  rcases h.plain.kind with hr | hw
  · right
    have hfiles := executeRead_files (fileExecutor w (roots w)) l s.storage
    dsimp only
    rw [hr]
    dsimp only
    rcases hrun : executeRead (fileExecutor w (roots w)) l s.storage with ⟨_ | result, storage⟩
    · rw [hrun] at hfiles
      exact ⟨rfl, fun _ _ _ _ hb => hfiles ▸ hb⟩
    · rw [hrun] at hfiles
      exact ⟨rfl, fun _ _ _ _ hb => hfiles ▸ hb⟩
  · dsimp only
    rw [hw]
    dsimp only
    rcases executeWrite_pointer (fileExecutor w (roots w)) h hw s.storage with
      ⟨r, name, hname, hrun⟩ | ⟨text, s', hrun, hkeep⟩
    · rw [hrun]
      exact .inl ⟨name, rfl, hname, by simp⟩
    · rw [hrun]
      exact .inr ⟨rfl, hkeep⟩

theorem regionsOf_concat (written : List Written) (x : Written) (k : String) :
    regionsOf (written ++ [x]) k =
      if x.label.fileKey = k then regionsOf written k ++ [x.region] else regionsOf written k := by
  unfold regionsOf
  rw [List.filter_append, List.map_append]
  by_cases hk : x.label.fileKey = k
  · simp [hk]
  · simp [hk]

/-- The bytes of a file behind a write by the worker that wrote it before. -/
theorem byteAt_storedWrite {name : List (List Char)} (hkeeps : Keeps roots w l s)
    (hw : l.type = .write) (hname : fileOf l.fileKey = some name) {p : Nat} {b : UInt8}
    (hold : ∀ b, lastAt (regionsOf s.written l.fileKey) p = some b →
      byteAt (s.storage.files (roots w)) name p = some b)
    (hlast : lastAt (regionsOf s.written l.fileKey ++
      [(start l, s.storage.warehouse.retrieve l.id)]) p = some b) :
    byteAt ((storedWrite (fileExecutor w (roots w)) l name s.storage).files (roots w)) name p =
      some b := by
  have hfiles : (storedWrite (fileExecutor w (roots w)) l name s.storage).files (roots w) =
      putFile (s.storage.files (roots w)) name (labelRange l).offset
        (s.storage.warehouse.retrieve l.id) := Function.update_self ..
  rw [hfiles]
  rw [lastAt_concat] at hlast
  split at hlast
  · next hcovers =>
      rw [byteAt_put_inside hcovers.1 hcovers.2]
      exact hlast
  · next hcovers =>
      have hbyte := hold b hlast
      refine byteAt_put_outside hbyte fun _ => ?_
      have hoff : (labelRange l).offset.toNat = start l := rfl
      have hout : ¬(start l ≤ p ∧ p < start l + (s.storage.warehouse.retrieve l.id).length) :=
        hcovers
      have hpos : start l ≠ 0 := by
        -- a write at the start is as long as the file
        intro hzero
        obtain ⟨content, hcontent, hp⟩ := Option.bind_eq_some_iff.mp hbyte
        have hlong := (hkeeps hw).1 hzero name hname content hcontent
        have hlt := (List.getElem?_eq_some_iff.mp hp).1
        omega
      refine ⟨?_, ?_⟩
      · rw [UInt64.lt_iff_toNat_lt, UInt64.toNat_zero]
        omega
      · show p < start l ∨ start l + _ ≤ p
        omega

/-- Executing a label keeps the invariant when one worker writes the file. -/
theorem Stored.execute (h : Stored roots s) (hl : PointerIO l)
    (hone : l.type = .write → ∀ x ∈ s.written, x.label.fileKey = l.fileKey → x.worker = w)
    (hkeeps : Keeps roots w l s) : Stored roots (executeOwn roots w l s).2 := by
  rcases executeOwn_cases roots w hl s with ⟨name, hw, hname, hrun⟩ | ⟨hwritten, hkeep⟩
  · rw [hrun]
    intro x hx
    dsimp only at hx ⊢
    rw [regionsOf_concat]
    dsimp only
    by_cases hkey : l.fileKey = x.label.fileKey
    · rw [if_pos hkey, ← hkey]
      refine ⟨name, hname, fun p b hlast => ?_⟩
      have hworker : x.worker = w := by
        rcases List.mem_append.mp hx with hx | hx
        · exact hone hw x hx hkey.symm
        · rw [List.mem_singleton.mp hx]
      rw [hworker]
      refine byteAt_storedWrite hkeeps hw hname (fun b hb => ?_) hlast
      have hsome : ¬lastAt (regionsOf s.written l.fileKey) p = none := by
        rw [hb]
        simp
      rw [lastAt_eq_none] at hsome
      push Not at hsome
      obtain ⟨r, hr, -⟩ := hsome
      obtain ⟨y, hy, -⟩ := List.mem_map.mp hr
      obtain ⟨hy, hykey⟩ := List.mem_filter.mp hy
      have hykey : y.label.fileKey = l.fileKey := of_decide_eq_true hykey
      obtain ⟨name', hname', hbytes⟩ := h y hy
      rw [hykey] at hname' hbytes
      obtain rfl := Option.some.inj (hname.symm.trans hname')
      rw [← hone hw y hy hykey]
      exact hbytes p b hb
    · rw [if_neg hkey]
      have hx : x ∈ s.written := by
        rcases List.mem_append.mp hx with hx | hx
        · exact hx
        · rw [List.mem_singleton.mp hx] at hkey
          exact absurd rfl hkey
      obtain ⟨name', hname', hbytes⟩ := h x hx
      refine ⟨name', hname', fun p b hlast => ?_⟩
      have hbyte := hbytes p b hlast
      show byteAt (Function.update s.storage.files (roots w) _ (roots x.worker)) name' p = some b
      by_cases hroot : roots x.worker = roots w
      · rw [hroot, Function.update_self]
        rw [hroot] at hbyte
        refine byteAt_put_outside hbyte fun hsame => ?_
        -- one file under two names
        subst hsame
        exact absurd ((hkeeps hw).2 x hx (hname'.trans hname.symm)).symm hkey
      · rw [Function.update_of_ne hroot]
        exact hbyte
  · intro x hx
    rw [hwritten] at hx ⊢
    obtain ⟨name, hname, hbytes⟩ := h x hx
    exact ⟨name, hname, fun p b hlast => hkeep _ _ _ _ (hbytes p b hlast)⟩

end Execute
end Labios
