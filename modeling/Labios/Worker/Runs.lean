import Labios.Worker.Execution

/-!
# Runs of executions

Labels executed one after another, each by the worker it was sent to:
`runLabels` is what the handler does to the storage (`runChildren_storage`), free of
the bookkeeping around it. A run of plain labels leaves staged data of other labels
alone and keeps a stored byte that no later write touches.

`work` of a label is all that its execution depends on.
-/

namespace Labios

/-- What of a label its execution on the file backend depends on. -/
def work (l : LabelData) : LabelData :=
  { id := l.id
    type := l.type
    source := l.source
    destination := l.destination
    dataSize := l.dataSize
    fileKey := l.fileKey
    children := l.children
    sourceUri := l.sourceUri
    destUri := l.destUri
    pipeline := l.pipeline }

@[simp] theorem work_request (l : LabelData) : work (request l) = work l := rfl

theorem work_of_request {a b : LabelData} (h : request a = request b) : work a = work b := by
  rw [← work_request, h, work_request]

section Fields

variable {a b : LabelData} (h : work a = work b)

include h

theorem id_of_work : a.id = b.id := by
  have hfield := congrArg LabelData.id h
  exact hfield

theorem type_of_work : a.type = b.type := by
  have hfield := congrArg LabelData.type h
  exact hfield

theorem fileKey_of_work : a.fileKey = b.fileKey := by
  have hfield := congrArg LabelData.fileKey h
  exact hfield

theorem dataSize_of_work : a.dataSize = b.dataSize := by
  have hfield := congrArg LabelData.dataSize h
  exact hfield

theorem children_of_work : a.children = b.children := by
  have hfield := congrArg LabelData.children h
  exact hfield

theorem start_of_work : start a = start b := by
  have hstart : ∀ l, start (work l) = start l := fun _ => rfl
  rw [← hstart, h, hstart]

theorem finish_of_work : finish a = finish b := by
  have hfinish : ∀ l, finish (work l) = finish l := fun _ => rfl
  rw [← hfinish, h, hfinish]

theorem FileIO.of_work (ha : FileIO a) : FileIO b := by
  have hwork : FileIO (work a) :=
    ⟨⟨ha.plain.kind, ha.plain.address, ha.plain.nonempty, ha.plain.bounded⟩, ha.sourceUri,
      ha.destUri, ha.pipeline, ha.file, ha.seekable⟩
  rw [h] at hwork
  exact ⟨⟨hwork.plain.kind, hwork.plain.address, hwork.plain.nonempty, hwork.plain.bounded⟩,
    hwork.sourceUri, hwork.destUri, hwork.pipeline, hwork.file, hwork.seekable⟩

end Fields

section Run

variable {ω : Type} (workers : Int → Executor ω)

/-- One label on the worker it was sent to. -/
def executeOne (m : Int × LabelData) (s : Storage ω) :
    Except String CompletionResult × Storage ω :=
  match m.2.type with
  | .write => executeWrite (workers m.1) m.2 s
  | .read => executeRead (workers m.1) m.2 s
  | t => (.error ("unsupported child label type: " ++ toString t.code), s)

def runLabels (order : List (Int × LabelData)) (s : Storage ω) : Storage ω :=
  order.foldl (fun s m => (executeOne workers m s).2) s

/-- Every execution of the run succeeds. -/
def AllExecuted : List (Int × LabelData) → Storage ω → Prop
  | [], _ => True
  | m :: rest, s =>
      (∃ r, (executeOne workers m s).1 = .ok r) ∧ AllExecuted rest (executeOne workers m s).2

theorem runLabels_append (front back : List (Int × LabelData)) (s : Storage ω) :
    runLabels workers (front ++ back) s = runLabels workers back (runLabels workers front s) :=
  List.foldl_append ..

theorem runLabels_cons (m : Int × LabelData) (rest : List (Int × LabelData)) (s : Storage ω) :
    runLabels workers (m :: rest) s = runLabels workers rest (executeOne workers m s).2 := rfl

/-! ## One plain label -/

variable {m : Int × LabelData} {name : List (List Char)}

theorem exists_file (h : FileIO m.2) : ∃ name, fileOf m.2.fileKey = some name :=
  Option.ne_none_iff_exists'.mp h.file

theorem executeOne_write (h : FileIO m.2) (hw : m.2.type = .write)
    (hname : fileOf m.2.fileKey = some name) (s : Storage ω) :
    ∃ r, executeOne workers m s = (.ok r, storedWrite (workers m.1) m.2 name s) := by
  unfold executeOne
  rw [hw]
  exact executeWrite_plain (workers m.1) h hw hname s

/-- A read stages bytes under its own id and does nothing else. -/
theorem executeOne_read (h : FileIO m.2) (hr : m.2.type = .read) (s : Storage ω) :
    (executeOne workers m s).2.files = s.files ∧
      (executeOne workers m s).2.locations = s.locations ∧
      ∀ id, id ≠ m.2.id →
        (executeOne workers m s).2.warehouse.retrieve id = s.warehouse.retrieve id := by
  obtain ⟨name, hname⟩ := exists_file h
  unfold executeOne
  rw [hr]
  dsimp only
  cases hfile : s.files (workers m.1).root name with
  | none =>
      obtain ⟨text, hrun⟩ := executeRead_missing (workers m.1) h hr hname hfile
      rw [hrun]
      exact ⟨rfl, rfl, fun _ _ => rfl⟩
  | some content =>
      obtain ⟨r, hrun⟩ := executeRead_found (workers m.1) h hr hname hfile
      rw [hrun]
      exact ⟨rfl, rfl, fun id hid => Warehouse.retrieve_stage_of_ne _ _ _ hid⟩

/-- Staged data of other labels stays. -/
theorem executeOne_retrieve (h : FileIO m.2) (s : Storage ω) {id : UInt64} (hid : id ≠ m.2.id) :
    (executeOne workers m s).2.warehouse.retrieve id = s.warehouse.retrieve id := by
  rcases h.plain.kind with hr | hw
  · exact (executeOne_read workers h hr s).2.2 id hid
  · obtain ⟨name, hname⟩ := exists_file h
    obtain ⟨r, hrun⟩ := executeOne_write workers h hw hname s
    rw [hrun]
    exact Warehouse.retrieve_remove_of_ne _ _ hid

theorem runLabels_retrieve {order : List (Int × LabelData)} (h : ∀ m ∈ order, FileIO m.2)
    {id : UInt64} (hid : ∀ m ∈ order, m.2.id ≠ id) (s : Storage ω) :
    (runLabels workers order s).warehouse.retrieve id = s.warehouse.retrieve id := by
  refine Foundation.foldl_untouched (fun s : Storage ω => s.warehouse.retrieve id) ?_ s
  intro m hm s
  exact executeOne_retrieve workers (h m hm) s (hid m hm).symm

/-- The label writes over byte `p` of a file under a root, or cuts the file. -/
structure Overwrites (m : Int × LabelData) (root : String) (name : List (List Char)) (p : Nat) :
    Prop where
  write : m.2.type = .write
  root : (workers m.1).root = root
  file : fileOf m.2.fileKey = some name
  touches : start m.2 = 0 ∨ (start m.2 ≤ p ∧ p < finish m.2)

/-- A stored byte stays when the label does not overwrite it. -/
theorem executeOne_keeps (h : FileIO m.2) {s : Storage ω}
    (hfits : m.2.type = .write → (s.warehouse.retrieve m.2.id).length = m.2.dataSize.toNat)
    {root : String} {p : Nat} {b : UInt8} (hb : byteAt (s.files root) name p = some b)
    (hno : ¬Overwrites workers m root name p) :
    byteAt ((executeOne workers m s).2.files root) name p = some b := by
  rcases h.plain.kind with hr | hw
  · rw [(executeOne_read workers h hr s).1]
    exact hb
  · obtain ⟨own, hown⟩ := exists_file h
    obtain ⟨r, hrun⟩ := executeOne_write workers h hw hown s
    rw [hrun]
    show byteAt (Function.update s.files _ _ root) name p = some b
    by_cases hroot : root = (workers m.1).root
    · subst hroot
      rw [Function.update_self]
      refine byteAt_put_outside hb fun hname => ?_
      subst hname
      have hoff : (labelRange m.2).offset.toNat = start m.2 := rfl
      have hend : finish m.2 = start m.2 + m.2.dataSize.toNat := rfl
      have hnot : ¬(start m.2 = 0 ∨ (start m.2 ≤ p ∧ p < finish m.2)) :=
        fun ht => hno ⟨hw, rfl, hown, ht⟩
      rw [hfits hw, UInt64.lt_iff_toNat_lt, UInt64.toNat_zero]
      omega
    · rw [Function.update_of_ne hroot]
      exact hb

/-- A write stores what is staged under its id. -/
theorem executeOne_stores (h : FileIO m.2) (hw : m.2.type = .write)
    (hname : fileOf m.2.fileKey = some name) (s : Storage ω) {p : Nat} (hlo : start m.2 ≤ p)
    (hhi : p < start m.2 + (s.warehouse.retrieve m.2.id).length) :
    byteAt ((executeOne workers m s).2.files (workers m.1).root) name p =
      (s.warehouse.retrieve m.2.id)[p - start m.2]? := by
  obtain ⟨r, hrun⟩ := executeOne_write workers h hw hname s
  rw [hrun]
  show byteAt (Function.update s.files _ _ (workers m.1).root) name p = _
  rw [Function.update_self]
  exact byteAt_put_inside hlo hhi

/-- A write of zeros leaves a byte zero or missing. -/
theorem executeOne_zeros (h : FileIO m.2) {s : Storage ω}
    (hzero : m.2.type = .write → ∀ b ∈ s.warehouse.retrieve m.2.id, b = 0) {root : String} {p : Nat}
    (hb : byteAt (s.files root) name p = none ∨ byteAt (s.files root) name p = some 0) :
    byteAt ((executeOne workers m s).2.files root) name p = none ∨
      byteAt ((executeOne workers m s).2.files root) name p = some 0 := by
  rcases h.plain.kind with hr | hw
  · rw [(executeOne_read workers h hr s).1]
    exact hb
  · obtain ⟨own, hown⟩ := exists_file h
    obtain ⟨r, hrun⟩ := executeOne_write workers h hw hown s
    rw [hrun]
    show byteAt (Function.update s.files _ _ root) name p = none ∨
      byteAt (Function.update s.files _ _ root) name p = some 0
    by_cases hroot : root = (workers m.1).root
    · subst hroot
      rw [Function.update_self]
      exact byteAt_put_zeros (hzero hw) hb
    · rw [Function.update_of_ne hroot]
      exact hb

/-! ## Runs -/

/-- Over a run of distinct labels each finds the data that was staged for it: what
every step preserves then, the run preserves. -/
theorem runLabels_invariant {P : Storage ω → Prop} {order : List (Int × LabelData)}
    (hio : ∀ m ∈ order, FileIO m.2) (hids : (order.map (·.2.id)).Nodup) {s : Storage ω}
    (hstep : ∀ m ∈ order, ∀ s', s'.warehouse.retrieve m.2.id = s.warehouse.retrieve m.2.id →
      P s' → P (executeOne workers m s').2) (hs : P s) : P (runLabels workers order s) := by
  induction order generalizing s with
  | nil => exact hs
  | cons m rest ih =>
      rw [List.map_cons, List.nodup_cons] at hids
      rw [runLabels_cons]
      refine ih (fun b hb => hio b (List.mem_cons_of_mem _ hb)) hids.2 ?_
        (hstep m List.mem_cons_self s rfl hs)
      intro b hb s' hdata
      refine hstep b (List.mem_cons_of_mem _ hb) s' ?_
      have hne : b.2.id ≠ m.2.id := fun heq => hids.1 (heq ▸ List.mem_map_of_mem hb)
      rw [hdata, executeOne_retrieve workers (hio m List.mem_cons_self) s hne]

/-- Where every file exists, every plain label succeeds. -/
theorem allExecuted_of_files {order : List (Int × LabelData)} (hio : ∀ m ∈ order, FileIO m.2)
    {s : Storage ω} (hfiles : ∀ root name, s.files root name ≠ none) :
    AllExecuted workers order s := by
  induction order generalizing s with
  | nil => trivial
  | cons m rest ih =>
      have hm := hio m List.mem_cons_self
      obtain ⟨name, hname⟩ := exists_file hm
      have hrest := fun b hb => hio b (List.mem_cons_of_mem m hb)
      rcases hm.plain.kind with hr | hw
      · have hsame := (executeOne_read workers hm hr s).1
        refine ⟨?_, ih hrest ?_⟩
        · obtain ⟨content, hcontent⟩ :=
            Option.ne_none_iff_exists'.mp (hfiles (workers m.1).root name)
          obtain ⟨r, hrun⟩ := executeRead_found (workers m.1) hm hr hname hcontent
          unfold executeOne
          rw [hr]
          exact ⟨r, congrArg Prod.fst hrun⟩
        · rw [hsame]
          exact hfiles
      · obtain ⟨r, hrun⟩ := executeOne_write workers hm hw hname s
        refine ⟨⟨r, congrArg Prod.fst hrun⟩, ih hrest ?_⟩
        rw [hrun]
        intro root other
        show Function.update s.files _ _ root other ≠ none
        by_cases hroot : root = (workers m.1).root
        · subst hroot
          rw [Function.update_self, putFile]
          by_cases hother : other = name
          · subst hother
            rw [Function.update_self]
            exact Option.some_ne_none _
          · rw [Function.update_of_ne hother]
            exact hfiles _ _
        · rw [Function.update_of_ne hroot]
          exact hfiles _ _

/-! ## The handler -/

theorem storedWrite_of_work (e : Executor ω) {a b : LabelData} (h : work a = work b)
    (name : List (List Char)) (s : Storage ω) : storedWrite e a name s = storedWrite e b name s := by
  have hwork : ∀ l, storedWrite e (work l) name s = storedWrite e l name s := fun _ => rfl
  rw [← hwork a, h, hwork]

/-- Labels of the same work have the same effect. -/
theorem executeOne_of_work (workerId : Int) {a b : LabelData} (h : work a = work b) (ha : FileIO a)
    (s : Storage ω) :
    (executeOne workers (workerId, a) s).2 = (executeOne workers (workerId, b) s).2 := by
  have hb : FileIO b := ha.of_work h
  have hkey := fileKey_of_work h
  obtain ⟨name, hname⟩ := exists_file (m := (workerId, a)) ha
  have hname' : fileOf b.fileKey = some name := hkey ▸ hname
  rcases ha.plain.kind with hr | hw
  · have hr' : b.type = .read := type_of_work h ▸ hr
    have hsize := dataSize_of_work h
    unfold executeOne
    rw [hr, hr']
    dsimp only
    cases hfile : s.files (workers workerId).root name with
    | none =>
        obtain ⟨_, hrun⟩ := executeRead_missing (workers workerId) ha hr hname hfile
        obtain ⟨_, hrun'⟩ := executeRead_missing (workers workerId) hb hr' hname' hfile
        rw [hrun, hrun']
    | some content =>
        obtain ⟨_, hrun⟩ := executeRead_found (workers workerId) ha hr hname hfile
        obtain ⟨_, hrun'⟩ := executeRead_found (workers workerId) hb hr' hname' hfile
        rw [hrun, hrun', id_of_work h, start_of_work h, hsize]
  · have hw' : b.type = .write := type_of_work h ▸ hw
    obtain ⟨_, hrun⟩ := executeOne_write workers (m := (workerId, a)) ha hw hname s
    obtain ⟨_, hrun'⟩ := executeOne_write workers (m := (workerId, b)) hb hw' hname' s
    rw [hrun, hrun']
    exact storedWrite_of_work (workers workerId) h name s

/-- The worker executes as executor `e` does. -/
structure ExecutesAs (w : Worker (Storage ω)) (e : Executor ω) : Prop where
  write : w.executeWrite = executeWrite e
  read : w.executeRead = executeRead e

theorem worker_executesAs (e : Executor ω) (name : String) (now : UInt64)
    (cont : LabelData → CompletionData → Storage ω → Storage ω) :
    ExecutesAs (e.worker name now cont) e :=
  ⟨rfl, rfl⟩

/-- Without a continuation, one turn of the child loop is one execution. -/
theorem runChild_storage {w : Worker (Storage ω)} {workerId : Int}
    (hw : ExecutesAs w (workers workerId)) {child : LabelData} (hio : FileIO child)
    (hcont : child.continuation.kind = .none) (st : WorkerState (Storage ω)) :
    (runChild w child st).2.storage = (executeOne workers (workerId, child) st.storage).2 := by
  have hmark : work (markLabelExecuting child w.name w.now) = work child :=
    work_of_request (request_markLabelExecuting child w.now w.name)
  have hexec : (executeChild w (markLabelExecuting child w.name w.now) st.storage).2 =
      (executeOne workers (workerId, child) st.storage).2 := by
    rw [← executeOne_of_work workers workerId hmark (hio.of_work hmark.symm)]
    unfold executeChild executeOne
    rcases hio.plain.kind with hk | hk
    · rw [markLabelExecuting_type, hk]
      dsimp only
      rw [hw.read]
    · rw [markLabelExecuting_type, hk]
      dsimp only
      rw [hw.write]
  have hnone : ∀ status location transferred text,
      (markLabelFinished (markLabelExecuting child w.name w.now) status location transferred
        text w.now).continuation.kind = .none := by
    intro status location transferred text
    have hreq : request (markLabelFinished (markLabelExecuting child w.name w.now) status
        location transferred text w.now) = request child :=
      (request_markLabelFinished _ w.now status location text transferred).trans
        (request_markLabelExecuting child w.now w.name)
    have hfield := congrArg (fun l => l.continuation.kind) hreq
    exact hfield.trans hcont
  rw [← hexec]
  simp only [runChild]
  rcases executeChild w (markLabelExecuting child w.name w.now) st.storage with ⟨outcome, s⟩
  cases outcome with
  | ok result => exact if_pos (hnone ..)
  | error text => exact if_pos (hnone ..)

/-- When it ends normally, the child loop does to the storage what executing the
children does. -/
theorem runChildren_storage {w : Worker (Storage ω)} {workerId : Int}
    (hw : ExecutesAs w (workers workerId)) (children : List LabelData)
    (hio : ∀ l ∈ children, FileIO l) (hcont : ∀ l ∈ children, l.continuation.kind = .none)
    (bytes : UInt64) (st : WorkerState (Storage ω)) {total : UInt64}
    (h : (runChildren w children bytes st).1 = .ok total) :
    (runChildren w children bytes st).2.storage =
      runLabels workers (children.map fun l => (workerId, l)) st.storage := by
  induction children generalizing bytes st with
  | nil => rfl
  | cons child rest ih =>
      have hone := runChild_storage workers hw (hio child List.mem_cons_self)
        (hcont child List.mem_cons_self) st
      rw [runChildren] at h ⊢
      rcases hrun : runChild w child st with ⟨outcome, st'⟩
      rw [hrun] at h hone
      cases outcome with
      | error text => exact absurd h (by simp)
      | ok transferred =>
          rw [List.map_cons, runLabels_cons, ← hone]
          exact ih (fun l hl => hio l (List.mem_cons_of_mem _ hl))
            (fun l hl => hcont l (List.mem_cons_of_mem _ hl)) (bytes + transferred) st' h

end Run
end Labios
