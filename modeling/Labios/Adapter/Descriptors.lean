import Labios.Adapter.Posix
import Labios.Foundation.Machine

/-!
# Descriptor numbers

Calls that open, duplicate, write and close descriptors, on any paths, with the
numbers that the operating system hands out. The cache knows a descriptor by its
number alone and keeps the path of the first write, while open files are shared
by counting their descriptors.

A `Trail` is an adapter with the small writes that it acknowledged and the
regions that left its cache, each with the write that put it there. `Recorded`
is what the calls keep, step by step.
-/

namespace Labios

open Foundation

/-- A call; `open`, `dup` and `dup2` come with the number that is handed out. -/
inductive DescriptorCall where
  | openFile (path : String) (flags : UInt32) (fd : Int)
  | dup (oldFd newFd : Int)
  | dup2 (oldFd target newFd : Int)
  | write (fd : Int) (data : List UInt8)
  | pwrite (fd : Int) (data : List UInt8) (offset : UInt64)
  | close (fd : Int)
  deriving DecidableEq, Repr

def Adapter.descriptorCall (session : Session) (s : Adapter) : DescriptorCall → CallReply × Adapter
  | .openFile path flags fd => s.openFile path flags fd
  | .dup oldFd newFd => s.dup oldFd newFd
  | .dup2 oldFd target newFd => s.dup2 session oldFd target newFd
  | .write fd data => s.write session fd data
  | .pwrite fd data offset => s.pwrite session fd data offset
  | .close fd => s.close session fd

/-! ## The record of a run -/

/-- A small write that was acknowledged: its descriptor, the open file and the
path behind that descriptor at the time, and its place among the writes. -/
structure SmallWrite where
  serial : Nat
  fd : Int
  address : Nat
  filepath : String
  offset : UInt64
  data : List UInt8
  deriving DecidableEq, Repr

def SmallWrite.region (w : SmallWrite) : Region := (w.offset.toNat, w.data)

/-- A region that left the cache, with the write that staged it. -/
structure Handout where
  fd : Int
  region : FlushRegion
  writer : Option SmallWrite
  deriving DecidableEq, Repr

/-- The write that put the region at an offset there; writes come newest first. -/
def writerOf (writes : List SmallWrite) (fd : Int) (offset : UInt64) : Option SmallWrite :=
  writes.find? fun w => w.fd = fd ∧ w.offset = offset

def handouts (writes : List SmallWrite) (fd : Int) (regions : List FlushRegion) : List Handout :=
  regions.map fun region => { fd, region, writer := writerOf writes fd region.offset }

structure Trail where
  adapter : Adapter
  writes : List SmallWrite := []
  flushed : List Handout := []

namespace Trail

def openFile (t : Trail) (path : String) (flags : UInt32) (fd : Int) : Trail :=
  { t with adapter := (t.adapter.openFile path flags fd).2 }

def dup (t : Trail) (oldFd newFd : Int) : Trail :=
  { t with adapter := (t.adapter.dup oldFd newFd).2 }

/-- The last descriptor of an open file takes its regions out of the cache. -/
def close (session : Session) (t : Trail) (fd : Int) : Trail :=
  { t with
    adapter := (t.adapter.close session fd).2
    flushed := t.flushed ++
      if (t.adapter.fds.release fd).1 then
        handouts t.writes fd (t.adapter.content.flush fd).1
      else [] }

def closeTarget (session : Session) (t : Trail) (target : Int) : Trail :=
  if t.adapter.fds.isLabiosFd target then t.close session target else t

def dup2 (session : Session) (t : Trail) (oldFd target newFd : Int) : Trail :=
  match t.adapter.fds.get oldFd with
  | none => t
  | some _ =>
      let t := t.closeTarget session target
      { t with adapter := { t.adapter with fds := (t.adapter.fds.duplicate oldFd newFd).2 } }

/-- A write through the open file at `address`; only a small one concerns the cache. -/
def doWrite (session : Session) (t : Trail) (fd : Int) (address : Nat) (data : List UInt8)
    (offset : UInt64) (updateOffset : Bool) : Trail :=
  let state := t.adapter.fds.states address
  let adapter := (t.adapter.doWrite session state fd data offset updateOffset).2
  if data ≠ [] ∧ UInt64.ofNat data.length < session.labelMinSize then
    let write : SmallWrite :=
      { serial := t.writes.length, fd, address, filepath := state.filepath, offset, data }
    { adapter
      writes := write :: t.writes
      flushed := t.flushed ++ handouts (write :: t.writes) fd
        (t.adapter.content.cacheWrite fd state.filepath offset data).1 }
  else { t with adapter }

def write (session : Session) (t : Trail) (fd : Int) (data : List UInt8) : Trail :=
  match t.adapter.fds.table.lookup fd with
  | none => t
  | some address => t.doWrite session fd address data (t.adapter.fds.states address).offset true

def pwrite (session : Session) (t : Trail) (fd : Int) (data : List UInt8) (offset : UInt64) :
    Trail :=
  match t.adapter.fds.table.lookup fd with
  | none => t
  | some address => t.doWrite session fd address data offset false

def call (session : Session) (t : Trail) : DescriptorCall → Trail
  | .openFile path flags fd => t.openFile path flags fd
  | .dup oldFd newFd => t.dup oldFd newFd
  | .dup2 oldFd target newFd => t.dup2 session oldFd target newFd
  | .write fd data => t.write session fd data
  | .pwrite fd data offset => t.pwrite session fd data offset
  | .close fd => t.close session fd

def run (session : Session) : Trail → List DescriptorCall → Trail
  | t, [] => t
  | t, c :: rest => run session (t.call session c) rest

variable {session : Session} {t : Trail}

@[simp] theorem doWrite_adapter (session : Session) (t : Trail) (fd : Int) (address : Nat)
    (data : List UInt8) (offset : UInt64) (updateOffset : Bool) :
    (t.doWrite session fd address data offset updateOffset).adapter =
      (t.adapter.doWrite session (t.adapter.fds.states address) fd data offset updateOffset).2 := by
  unfold doWrite
  dsimp only
  split
  · rfl
  · rfl

@[simp] theorem closeTarget_adapter (session : Session) (t : Trail) (target : Int) :
    (t.closeTarget session target).adapter = t.adapter.closeTarget session target := by
  unfold closeTarget Adapter.closeTarget
  split
  · rfl
  · rfl

/-- The record only watches: the adapter is the adapter's own. -/
theorem call_adapter (session : Session) (t : Trail) (c : DescriptorCall) :
    (t.call session c).adapter = (t.adapter.descriptorCall session c).2 := by
  cases c with
  | openFile path flags fd => rfl
  | dup oldFd newFd => rfl
  | close fd => rfl
  | dup2 oldFd target newFd =>
      show (t.dup2 session oldFd target newFd).adapter =
        (t.adapter.dup2 session oldFd target newFd).2
      unfold dup2 Adapter.dup2
      cases t.adapter.fds.get oldFd with
      | none => rfl
      | some state =>
          dsimp only
          rw [closeTarget_adapter]
  | write fd data =>
      show (t.write session fd data).adapter = (t.adapter.write session fd data).2
      unfold write Adapter.write FdTable.get
      cases t.adapter.fds.table.lookup fd with
      | none => rfl
      | some address => exact doWrite_adapter session t fd address data _ true
  | pwrite fd data offset =>
      show (t.pwrite session fd data offset).adapter = (t.adapter.pwrite session fd data offset).2
      unfold pwrite Adapter.pwrite FdTable.get
      cases t.adapter.fds.table.lookup fd with
      | none => rfl
      | some address => exact doWrite_adapter session t fd address data offset false

end Trail

/-! ## What a call may assume and what it must meet -/

/-- A duplicate gets a number that is in no use. -/
def Adapter.DupGranted (s : Adapter) (oldFd newFd : Int) : Prop :=
  (s.fds.get oldFd).isSome → s.fds.table.lookup newFd = none

/-- The operating system hands out numbers that are in no use. -/
def Adapter.Granted (session : Session) (s : Adapter) : DescriptorCall → Prop
  | .openFile _ _ fd => s.fds.table.lookup fd = none
  | .dup oldFd newFd => s.DupGranted oldFd newFd
  | .dup2 oldFd target newFd =>
      (s.fds.get oldFd).isSome → (s.closeTarget session target).DupGranted oldFd newFd
  | .write _ _ | .pwrite _ _ _ | .close _ => True

/-- No cache entry is left under the number that names another path. -/
def ContentManager.Unclaimed (content : ContentManager) (fd : Int) (path : String) : Prop :=
  ∀ cache ∈ content.caches.lookup fd, cache.filepath = "" ∨ cache.filepath = path

/-- A write is not shorter than the staged region that it replaces. -/
def ContentManager.Replaces (content : ContentManager) (fd : Int) (data : List UInt8)
    (offset : UInt64) : Prop :=
  data ≠ [] → ∀ r ∈ content.staged fd, r.1 = offset.toNat → r.2.length ≤ data.length

/-- A close that is not the last of its open file has nothing staged. -/
def Adapter.CloseTidy (s : Adapter) (fd : Int) : Prop :=
  ∀ state ∈ s.fds.get fd, state.refCount ≠ 1 → s.content.staged fd = []

def Adapter.DupTidy (s : Adapter) (oldFd newFd : Int) : Prop :=
  ∀ state ∈ s.fds.get oldFd, s.content.Unclaimed newFd state.filepath

/-- The condition on a call. -/
def Adapter.Tidy (session : Session) (s : Adapter) : DescriptorCall → Prop
  | .openFile path _ fd => s.content.Unclaimed fd path
  | .dup oldFd newFd => s.DupTidy oldFd newFd
  | .dup2 oldFd target newFd =>
      (s.fds.get oldFd).isSome →
        (s.fds.isLabiosFd target = true → s.CloseTidy target) ∧
          (s.closeTarget session target).DupTidy oldFd newFd
  | .write fd data => ∀ state ∈ s.fds.get fd, s.content.Replaces fd data state.offset
  | .pwrite fd data offset => (s.fds.get fd).isSome → s.content.Replaces fd data offset
  | .close fd => s.CloseTidy fd

/-- Calls always return. -/
def Adapter.descriptorStep (session : Session) (s : Adapter) (c : DescriptorCall) :
    Option Adapter :=
  some (s.descriptorCall session c).2

section Decidable

variable (session : Session) (s : Adapter)

instance Adapter.decidableGranted : (c : DescriptorCall) → Decidable (s.Granted session c)
  | .openFile _ _ fd => inferInstanceAs (Decidable (s.fds.table.lookup fd = none))
  | .dup oldFd newFd =>
      inferInstanceAs (Decidable ((s.fds.get oldFd).isSome → s.fds.table.lookup newFd = none))
  | .dup2 oldFd target newFd =>
      inferInstanceAs (Decidable ((s.fds.get oldFd).isSome →
        ((s.closeTarget session target).fds.get oldFd).isSome →
          (s.closeTarget session target).fds.table.lookup newFd = none))
  | .write _ _ | .pwrite _ _ _ | .close _ => inferInstanceAs (Decidable True)

instance ContentManager.decidableUnclaimed (content : ContentManager) (fd : Int) (path : String) :
    Decidable (content.Unclaimed fd path) :=
  inferInstanceAs (Decidable (∀ cache ∈ content.caches.lookup fd, _))

instance ContentManager.decidableReplaces (content : ContentManager) (fd : Int)
    (data : List UInt8) (offset : UInt64) : Decidable (content.Replaces fd data offset) :=
  inferInstanceAs (Decidable (data ≠ [] → ∀ r ∈ content.staged fd, _))

instance Adapter.decidableTidy : (c : DescriptorCall) → Decidable (s.Tidy session c)
  | .openFile path _ fd => inferInstanceAs (Decidable (s.content.Unclaimed fd path))
  | .dup oldFd newFd =>
      inferInstanceAs (Decidable (∀ state ∈ s.fds.get oldFd,
        s.content.Unclaimed newFd state.filepath))
  | .dup2 oldFd target newFd =>
      inferInstanceAs (Decidable ((s.fds.get oldFd).isSome →
        (s.fds.isLabiosFd target = true →
          ∀ state ∈ s.fds.get target, state.refCount ≠ 1 → s.content.staged target = []) ∧
        ∀ state ∈ (s.closeTarget session target).fds.get oldFd,
          (s.closeTarget session target).content.Unclaimed newFd state.filepath))
  | .write fd _ => inferInstanceAs (Decidable (∀ state ∈ s.fds.get fd, _))
  | .pwrite fd data offset =>
      inferInstanceAs (Decidable ((s.fds.get fd).isSome → s.content.Replaces fd data offset))
  | .close fd => inferInstanceAs (Decidable (∀ state ∈ s.fds.get fd, _))

end Decidable

/-! ## What the record says -/

/-- `later` holds the byte of `w` at `p`, or a newer one of the same open file. -/
structure SmallWrite.Supersedes (later w : SmallWrite) (p : Nat) : Prop where
  serial : w.serial ≤ later.serial
  address : later.address = w.address
  covers : later.region.Covers p

/-- The region of the write is in the cache. -/
def ContentManager.Retains (content : ContentManager) (writes : List SmallWrite)
    (w : SmallWrite) : Prop :=
  w.region ∈ content.staged w.fd ∧ writerOf writes w.fd w.offset = some w

structure Recorded (fds : FdTable) (content : ContentManager) (writes : List SmallWrite)
    (flushed : List Handout) : Prop where
  serials : ∀ w ∈ writes, w.serial < writes.length
  written : ∀ w ∈ writes, w.address < fds.next ∧ w.filepath = (fds.states w.address).filepath
  allocated : ∀ fd address, fds.table.lookup fd = some address → address < fds.next
  claimed : ∀ fd address, fds.table.lookup fd = some address →
    content.Unclaimed fd (fds.states address).filepath
  /-- Only an open descriptor has something staged, all of it for its open file. -/
  staged : ∀ fd, ∀ r ∈ content.staged fd, ∃ w, writerOf writes fd (UInt64.ofNat r.1) = some w ∧
    w.region = r ∧ fds.table.lookup fd = some w.address ∧
    ∀ cache ∈ content.caches.lookup fd, cache.filepath = w.filepath
  carried : ∀ f ∈ flushed, ∃ w ∈ writes, f.writer = some w ∧ f.fd = w.fd ∧
    f.region = toFlush w.filepath w.region
  accounted : ∀ w ∈ writes, ∀ p, w.region.Covers p → ∃ later, later.Supersedes w p ∧
    ((∃ f ∈ flushed, f.writer = some later) ∨ content.Retains writes later)

section WriterOf

variable {writes : List SmallWrite} {w : SmallWrite} {fd : Int} {offset : UInt64}

theorem writerOf_mem (h : writerOf writes fd offset = some w) : w ∈ writes :=
  List.mem_of_find?_eq_some h

theorem writerOf_spec (h : writerOf writes fd offset = some w) : w.fd = fd ∧ w.offset = offset := by
  have := List.find?_some h
  simpa using this

theorem writerOf_cons_self (writes : List SmallWrite) (w : SmallWrite) :
    writerOf (w :: writes) w.fd w.offset = some w := by
  unfold writerOf
  rw [List.find?_cons_of_pos]
  simp

theorem writerOf_cons_of_ne (h : ¬(w.fd = fd ∧ w.offset = offset)) :
    writerOf (w :: writes) fd offset = writerOf writes fd offset := by
  unfold writerOf
  rw [List.find?_cons_of_neg]
  simpa using h

/-- A region that is not replaced keeps its writer. -/
theorem writerOf_cons_of_stays {last : SmallWrite} (h : writerOf writes fd offset = some w)
    (hne : ¬(fd = last.fd ∧ offset = last.offset)) :
    writerOf (last :: writes) fd offset = some w := by
  rw [writerOf_cons_of_ne fun hc => hne ⟨hc.1.symm, hc.2.symm⟩, h]

theorem ofNat_region (w : SmallWrite) : UInt64.ofNat w.region.1 = w.offset := UInt64.ofNat_toNat

end WriterOf

namespace Recorded

variable {fds : FdTable} {content : ContentManager} {writes : List SmallWrite}
  {flushed : List Handout}

/-- A record over an empty table and an empty cache. -/
theorem fresh (fds : FdTable) (content : ContentManager) (hfds : fds.table = ∅)
    (hcontent : content.caches = ∅) : Recorded fds content [] [] where
  serials w hw := absurd hw List.not_mem_nil
  written w hw := absurd hw List.not_mem_nil
  allocated fd address h := by
    rw [hfds] at h
    simp at h
  claimed fd address h := by
    rw [hfds] at h
    simp at h
  staged fd r hr := by
    unfold ContentManager.staged at hr
    rw [hcontent] at hr
    simp at hr
  carried f hf := absurd hf List.not_mem_nil
  accounted w hw := absurd hw List.not_mem_nil

/-- Open files come and go around the descriptors that have something staged. -/
theorem withFds (h : Recorded fds content writes flushed) {fds' : FdTable}
    (hnext : fds.next ≤ fds'.next)
    (hpath : ∀ a < fds.next, (fds'.states a).filepath = (fds.states a).filepath)
    (htable : ∀ fd a, fds'.table.lookup fd = some a → fds.table.lookup fd = some a ∨
      a < fds'.next ∧ content.Unclaimed fd (fds'.states a).filepath)
    (hkeep : ∀ fd, content.staged fd ≠ [] → fds'.table.lookup fd = fds.table.lookup fd) :
    Recorded fds' content writes flushed where
  serials := h.serials
  written w hw := by
    obtain ⟨hlt, hfile⟩ := h.written w hw
    exact ⟨by omega, by rw [hpath _ hlt, hfile]⟩
  allocated fd a ha := by
    rcases htable fd a ha with hold | ⟨hlt, -⟩
    · have := h.allocated fd a hold
      omega
    · exact hlt
  claimed fd a ha := by
    rcases htable fd a ha with hold | ⟨-, hclaim⟩
    · rw [hpath a (h.allocated fd a hold)]
      exact h.claimed fd a hold
    · exact hclaim
  staged fd r hr := by
    rw [hkeep fd (List.ne_nil_of_mem hr)]
    exact h.staged fd r hr
  carried := h.carried
  accounted := h.accounted

/-- What is staged is staged under a descriptor in use. -/
theorem staged_of_free (h : Recorded fds content writes flushed) {fd : Int}
    (hfree : fds.table.lookup fd = none) : content.staged fd = [] := by
  refine List.eq_nil_iff_forall_not_mem.mpr fun r hr => ?_
  obtain ⟨w, -, -, hopen, -⟩ := h.staged fd r hr
  rw [hfree] at hopen
  cases hopen

theorem allocate (h : Recorded fds content writes flushed) {path : String} {fd : Int}
    (flags : UInt32) (hfree : fds.table.lookup fd = none) (hclaim : content.Unclaimed fd path) :
    Recorded (fds.allocate path flags fd).2 content writes flushed := by
  unfold FdTable.allocate
  split
  · exact h
  · refine h.withFds (Nat.le_succ _) (fun a ha => ?_) (fun fd' a ha => ?_) (fun fd' hne => ?_)
    · dsimp only
      rw [Function.update_of_ne (by omega)]
    · dsimp only at ha ⊢
      by_cases hfd : fd' = fd
      · subst hfd
        rw [AList.lookup_insert] at ha
        obtain rfl := Option.some.inj ha
        rw [Function.update_self]
        exact .inr ⟨by omega, hclaim⟩
      · rw [AList.lookup_insert_ne hfd] at ha
        exact .inl ha
    · have hfd : fd' ≠ fd := by
        rintro rfl
        exact hne (h.staged_of_free hfree)
      exact AList.lookup_insert_ne hfd

theorem duplicate (h : Recorded fds content writes flushed) {oldFd newFd : Int}
    (hfree : (fds.get oldFd).isSome → fds.table.lookup newFd = none)
    (hclaim : ∀ state ∈ fds.get oldFd, content.Unclaimed newFd state.filepath) :
    Recorded (fds.duplicate oldFd newFd).2 content writes flushed := by
  unfold FdTable.duplicate
  unfold FdTable.get at hfree hclaim
  cases hold : fds.table.lookup oldFd with
  | none => exact h
  | some address =>
      rw [hold] at hfree hclaim
      replace hfree := hfree rfl
      replace hclaim := hclaim (fds.states address) rfl
      dsimp only
      split
      · exact h
      · refine h.withFds le_rfl (fun a _ => ?_) (fun fd' a ha => ?_) (fun fd' hne => ?_)
        · dsimp only
          by_cases ha : a = address
          · rw [ha, Function.update_self]
          · rw [Function.update_of_ne ha]
        · dsimp only at ha ⊢
          by_cases hfd : fd' = newFd
          · subst hfd
            rw [AList.lookup_insert] at ha
            obtain rfl := Option.some.inj ha
            rw [Function.update_self]
            exact .inr ⟨h.allocated oldFd address hold, hclaim⟩
          · rw [AList.lookup_insert_ne hfd] at ha
            exact .inl ha
        · have hfd : fd' ≠ newFd := by
            rintro rfl
            exact hne (h.staged_of_free hfree)
          exact AList.lookup_insert_ne hfd

theorem release (h : Recorded fds content writes flushed) {fd : Int}
    (hnone : content.staged fd = []) : Recorded (fds.release fd).2 content writes flushed := by
  unfold FdTable.release
  cases hold : fds.table.lookup fd with
  | none => exact h
  | some address =>
      refine h.withFds le_rfl (fun a _ => ?_) (fun fd' a ha => ?_) (fun fd' hne => ?_)
      · dsimp only
        by_cases ha : a = address
        · rw [ha, Function.update_self]
        · rw [Function.update_of_ne ha]
      · dsimp only at ha
        by_cases hfd : fd' = fd
        · rw [hfd, AList.lookup_erase] at ha
          cases ha
        · rw [AList.lookup_erase_ne hfd] at ha
          exact .inl ha
      · have hfd : fd' ≠ fd := by
          rintro rfl
          exact hne hnone
        exact AList.lookup_erase_ne hfd

theorem setOffset (h : Recorded fds content writes flushed) (fd : Int) (offset : UInt64) :
    Recorded (fds.setOffset fd offset) content writes flushed := by
  unfold FdTable.setOffset
  cases hold : fds.table.lookup fd with
  | none => exact h
  | some address =>
      refine h.withFds le_rfl (fun a _ => ?_) (fun fd' a ha => .inl ha) (fun fd' _ => rfl)
      dsimp only
      by_cases ha : a = address
      · rw [ha, Function.update_self]
      · rw [Function.update_of_ne ha]

/-- The regions of a descriptor leave the cache under their writers. -/
theorem flush (h : Recorded fds content writes flushed) (fd : Int) :
    Recorded fds (content.flush fd).2 writes
      (flushed ++ handouts writes fd (content.flush fd).1) where
  serials := h.serials
  written := h.written
  allocated := h.allocated
  claimed fd' address hopen cache hcache := by
    obtain ⟨cache', hcache', hpath⟩ := ContentManager.lookup_flush hcache
    rw [hpath]
    exact h.claimed fd' address hopen cache' hcache'
  staged fd' r hr := by
    rw [ContentManager.staged_flush] at hr
    by_cases hfd : fd' = fd
    · rw [hfd, Function.update_self] at hr
      exact absurd hr List.not_mem_nil
    · rw [Function.update_of_ne hfd] at hr
      obtain ⟨w, hwriter, hregion, hopen, hpath⟩ := h.staged fd' r hr
      refine ⟨w, hwriter, hregion, hopen, fun cache hcache => ?_⟩
      obtain ⟨cache', hcache', heq⟩ := ContentManager.lookup_flush hcache
      rw [heq]
      exact hpath cache' hcache'
  carried f hf := by
    rcases List.mem_append.mp hf with hf | hf
    · exact h.carried f hf
    · obtain ⟨region, hregion, rfl⟩ := List.mem_map.mp hf
      obtain ⟨cache, hcache, r, hr, rfl⟩ := ContentManager.mem_flush.mp hregion
      obtain ⟨w, hwriter, rfl, -, hpath⟩ := h.staged fd r hr
      refine ⟨w, writerOf_mem hwriter, hwriter, (writerOf_spec hwriter).1.symm, ?_⟩
      rw [hpath cache hcache]
  accounted w hw p hp := by
    obtain ⟨later, hlater, ⟨f, hf, hwriter⟩ | ⟨hstaged, hwriter⟩⟩ := h.accounted w hw p hp
    · exact ⟨later, hlater, .inl ⟨f, List.mem_append_left _ hf, hwriter⟩⟩
    · refine ⟨later, hlater, ?_⟩
      by_cases hfd : later.fd = fd
      · -- the region goes out with this flush
        rw [hfd] at hstaged hwriter
        obtain ⟨cache, hcache⟩ := Option.ne_none_iff_exists'.mp
          fun hnone : content.caches.lookup fd = none => by
            rw [ContentManager.staged, hnone] at hstaged
            exact List.not_mem_nil hstaged
        have hkey : UInt64.ofNat later.region.1 = later.offset := UInt64.ofNat_toNat
        refine .inl ⟨_, List.mem_append_right _ (List.mem_map.mpr
          ⟨_, ContentManager.mem_flush.mpr ⟨cache, hcache, later.region, hstaged, rfl⟩, rfl⟩), ?_⟩
        show writerOf writes fd (UInt64.ofNat later.region.1) = some later
        rw [hkey, hwriter]
      · refine .inr ⟨?_, hwriter⟩
        rw [ContentManager.staged_flush, Function.update_of_ne hfd]
        exact hstaged

theorem evict (h : Recorded fds content writes flushed) {fd : Int}
    (hnone : content.staged fd = []) : Recorded fds (content.evict fd) writes flushed := by
  have hstaged : (content.evict fd).staged = content.staged := by
    rw [ContentManager.staged_evict, ← hnone, Function.update_eq_self]
  have hlookup : ∀ fd' cache, (content.evict fd).caches.lookup fd' = some cache →
      content.caches.lookup fd' = some cache := by
    intro fd' cache hcache
    unfold ContentManager.evict at hcache
    dsimp only at hcache
    by_cases hfd : fd' = fd
    · rw [hfd, AList.lookup_erase] at hcache
      cases hcache
    · rwa [AList.lookup_erase_ne hfd] at hcache
  refine ⟨h.serials, h.written, h.allocated, fun fd' address hopen cache hcache =>
    h.claimed fd' address hopen cache (hlookup fd' cache hcache), fun fd' r hr => ?_, h.carried,
    fun w hw p hp => ?_⟩
  · rw [hstaged] at hr
    obtain ⟨w, hwriter, hregion, hopen, hpath⟩ := h.staged fd' r hr
    exact ⟨w, hwriter, hregion, hopen, fun cache hcache =>
      hpath cache (hlookup fd' cache hcache)⟩
  · obtain ⟨later, hlater, hf | ⟨hretained, hwriter⟩⟩ := h.accounted w hw p hp
    · exact ⟨later, hlater, .inl hf⟩
    · exact ⟨later, hlater, .inr ⟨by rwa [hstaged], hwriter⟩⟩

/-- What is staged after a write is that write or was staged before. -/
theorem staged_stage (h : Recorded fds content writes flushed) (last : SmallWrite)
    (hopen : fds.table.lookup last.fd = some last.address)
    (hfile : last.filepath = (fds.states last.address).filepath) {fd : Int} {r : Region}
    (hr : r ∈ (content.stage last.fd last.filepath last.offset last.data).staged fd) :
    ∃ w, writerOf (last :: writes) fd (UInt64.ofNat r.1) = some w ∧ w.region = r ∧
      fds.table.lookup fd = some w.address ∧
      ∀ cache ∈ (content.stage last.fd last.filepath last.offset last.data).caches.lookup fd,
        cache.filepath = w.filepath := by
  have hclaim := h.claimed last.fd last.address hopen
  rw [← hfile] at hclaim
  have hpath := ContentManager.openCache_filepath hclaim
  rw [ContentManager.staged_stage] at hr
  by_cases hfd : fd = last.fd
  · subst hfd
    rw [Function.update_self, ContentManager.mem_afterWrite] at hr
    rw [ContentManager.lookup_stage_self]
    rcases hr with rfl | ⟨hr, hne⟩
    · refine ⟨last, ?_, rfl, hopen, fun cache hcache => ?_⟩
      · show writerOf (last :: writes) last.fd (UInt64.ofNat last.region.1) = some last
        rw [ofNat_region]
        exact writerOf_cons_self writes last
      · obtain rfl := Option.some.inj hcache
        exact hpath
    · obtain ⟨w, hw, rfl, hopen', -⟩ := h.staged last.fd r hr
      rw [ofNat_region] at hw ⊢
      refine ⟨w, writerOf_cons_of_stays hw fun hc => hne (congrArg UInt64.toNat hc.2), rfl, hopen',
        fun cache hcache => ?_⟩
      obtain rfl := Option.some.inj hcache
      rw [hopen] at hopen'
      rw [(h.written w (writerOf_mem hw)).2, ← Option.some.inj hopen', ← hfile]
      exact hpath
  · rw [Function.update_of_ne hfd] at hr
    rw [ContentManager.lookup_stage_of_ne hfd]
    obtain ⟨w, hw, rfl, hopen', hpath'⟩ := h.staged fd r hr
    rw [ofNat_region] at hw ⊢
    exact ⟨w, writerOf_cons_of_stays hw fun hc => hfd hc.1, rfl, hopen', hpath'⟩

/-- Every byte written is still somewhere, as long as the write replaces no longer region. -/
theorem accounted_stage (h : Recorded fds content writes flushed) (last : SmallWrite)
    (hopen : fds.table.lookup last.fd = some last.address) (hserial : last.serial = writes.length)
    (hreplaces : ∀ r ∈ content.staged last.fd, r.1 = last.offset.toNat →
      r.2.length ≤ last.data.length)
    {w : SmallWrite} (hw : w ∈ last :: writes) {p : Nat} (hp : w.region.Covers p) :
    ∃ later, later.Supersedes w p ∧ ((∃ f ∈ flushed, f.writer = some later) ∨
      (content.stage last.fd last.filepath last.offset last.data).Retains (last :: writes) later) := by
  have hretains : (content.stage last.fd last.filepath last.offset last.data).Retains
      (last :: writes) last := by
    refine ⟨?_, writerOf_cons_self writes last⟩
    rw [ContentManager.staged_stage, Function.update_self, ContentManager.mem_afterWrite]
    exact .inl rfl
  rcases List.mem_cons.mp hw with rfl | hw
  · exact ⟨w, ⟨le_rfl, rfl, hp⟩, .inr hretains⟩
  · obtain ⟨later, hlater, hf | ⟨hretained, hlast⟩⟩ := h.accounted w hw p hp
    · exact ⟨later, hlater, .inl hf⟩
    · by_cases hsame : later.fd = last.fd ∧ later.offset = last.offset
      · -- the region is replaced by one at least as long
        obtain ⟨hfd, hoff⟩ := hsame
        rw [hfd] at hretained
        have hlonger := hreplaces _ hretained (congrArg UInt64.toNat hoff)
        obtain ⟨w', hw', hregion, hopen', -⟩ := h.staged last.fd _ hretained
        have hsame : w' = later := by
          rw [ofNat_region, ← hfd, hlast] at hw'
          exact (Option.some.inj hw').symm
        rw [hsame, hopen] at hopen'
        obtain ⟨hlo, hhi⟩ := hlater.covers
        have hserials := h.serials w hw
        refine ⟨last, ⟨by omega, ?_, ?_⟩, .inr hretains⟩
        · exact (Option.some.inj hopen').trans hlater.address
        · have hstart : later.region.1 = last.offset.toNat := congrArg UInt64.toNat hoff
          rw [hstart] at hlo hhi
          exact ⟨hlo, show p < last.offset.toNat + last.data.length by omega⟩
      · refine ⟨later, hlater, .inr ⟨?_, writerOf_cons_of_stays hlast hsame⟩⟩
        rw [ContentManager.staged_stage]
        by_cases hfd : later.fd = last.fd
        · rw [hfd, Function.update_self, ContentManager.mem_afterWrite]
          rw [hfd] at hretained
          exact .inr ⟨hretained, fun hoff => hsame ⟨hfd, UInt64.toNat_inj.mp hoff⟩⟩
        · rw [Function.update_of_ne hfd]
          exact hretained

/-- A write through an open descriptor stages its region. -/
theorem stage (h : Recorded fds content writes flushed) {fd : Int} {address : Nat}
    (hopen : fds.table.lookup fd = some address) {offset : UInt64} {data : List UInt8}
    (hreplaces : ∀ r ∈ content.staged fd, r.1 = offset.toNat → r.2.length ≤ data.length) :
    Recorded fds (content.stage fd (fds.states address).filepath offset data)
      ({ serial := writes.length, fd, address, filepath := (fds.states address).filepath, offset,
         data } :: writes) flushed := by
  let last : SmallWrite :=
    { serial := writes.length, fd, address, filepath := (fds.states address).filepath, offset, data }
  constructor
  · intro w hw
    rw [List.length_cons]
    rcases List.mem_cons.mp hw with rfl | hw
    · exact Nat.lt_succ_self _
    · exact Nat.lt_succ_of_lt (h.serials w hw)
  · intro w hw
    rcases List.mem_cons.mp hw with rfl | hw
    · exact ⟨h.allocated fd address hopen, rfl⟩
    · exact h.written w hw
  · exact h.allocated
  · intro fd' a ha cache hcache
    by_cases hfd : fd' = fd
    · rw [hfd, ContentManager.lookup_stage_self] at hcache
      rw [hfd, hopen] at ha
      obtain rfl := Option.some.inj hcache
      obtain rfl := Option.some.inj ha
      exact .inr (ContentManager.openCache_filepath (h.claimed fd address hopen))
    · rw [ContentManager.lookup_stage_of_ne hfd] at hcache
      exact h.claimed fd' a ha cache hcache
  · exact fun fd' r hr => h.staged_stage last hopen rfl hr
  · intro f hf
    obtain ⟨w, hw, hrest⟩ := h.carried f hf
    exact ⟨w, List.mem_cons_of_mem _ hw, hrest⟩
  · exact fun w hw p hp => h.accounted_stage last hopen rfl hreplaces hw hp

end Recorded

/-! ## Calls -/

namespace Trail

variable {session : Session} {t : Trail}

def Accounts (t : Trail) : Prop :=
  Recorded t.adapter.fds t.adapter.content t.writes t.flushed

theorem Accounts.close (h : t.Accounts) {fd : Int} (htidy : t.adapter.CloseTidy fd) :
    (t.close session fd).Accounts := by
  unfold Accounts Trail.close
  dsimp only
  rw [Adapter.close_fds, Adapter.close_content]
  cases hlast : (t.adapter.fds.release fd).1 with
  | true =>
      rw [if_pos rfl, if_pos rfl]
      have hempty : (t.adapter.content.flush fd).2.staged fd = [] := by
        rw [ContentManager.staged_flush, Function.update_self]
      exact ((h.flush fd).release hempty).evict hempty
  | false =>
      rw [if_neg (by simp), if_neg (by simp), List.append_nil]
      cases hget : t.adapter.fds.get fd with
      | none =>
          -- the number is in no use, so nothing is staged under it
          exact h.release (h.staged_of_free (Option.map_eq_none_iff.mp hget))
      | some state =>
          refine h.release (htidy state hget fun hcount => ?_)
          rw [FdTable.release_last hget, hcount] at hlast
          exact absurd hlast (by decide)

theorem Accounts.closeTarget (h : t.Accounts) {target : Int}
    (htidy : t.adapter.fds.isLabiosFd target = true → t.adapter.CloseTidy target) :
    (t.closeTarget session target).Accounts := by
  unfold Trail.closeTarget
  by_cases hlabios : t.adapter.fds.isLabiosFd target = true
  · rw [if_pos hlabios]
    exact h.close (htidy hlabios)
  · rw [if_neg hlabios]
    exact h

theorem Accounts.doWrite (h : t.Accounts) {fd : Int} {address : Nat}
    (hopen : t.adapter.fds.table.lookup fd = some address) {data : List UInt8} {offset : UInt64}
    (hreplaces : t.adapter.content.Replaces fd data offset) (updateOffset : Bool) :
    (t.doWrite session fd address data offset updateOffset).Accounts := by
  have hmoved : ∀ {content writes flushed}, Recorded t.adapter.fds content writes flushed →
      Recorded (t.adapter.doWrite session (t.adapter.fds.states address) fd data offset
        updateOffset).2.fds content writes flushed := by
    intro content writes flushed hrec
    rw [Adapter.doWrite_fds]
    split
    · exact hrec.setOffset fd _
    · exact hrec
  unfold Accounts Trail.doWrite
  dsimp only
  by_cases hsmall : data ≠ [] ∧ UInt64.ofNat data.length < session.labelMinSize
  · rw [if_pos hsmall]
    refine hmoved ?_
    rw [Adapter.doWrite_content, if_pos hsmall, ContentManager.cacheWrite_eq]
    have hstaged := h.stage hopen (hreplaces hsmall.1)
    split
    · exact hstaged.flush fd
    · rw [show ∀ writes, handouts writes fd [] = [] from fun _ => rfl, List.append_nil]
      exact hstaged
  · rw [if_neg hsmall]
    refine hmoved ?_
    rw [Adapter.doWrite_content, if_neg hsmall]
    exact h

/-- Every call keeps the record. -/
theorem Accounts.call (h : t.Accounts) {c : DescriptorCall}
    (hgranted : t.adapter.Granted session c) (htidy : t.adapter.Tidy session c) :
    (t.call session c).Accounts := by
  cases c with
  | openFile path flags fd =>
      show (t.openFile path flags fd).Accounts
      have hrec := h.allocate flags hgranted htidy
      unfold Accounts Trail.openFile Adapter.openFile
      dsimp only
      split
      · exact h
      · exact hrec
  | dup oldFd newFd =>
      show (t.dup oldFd newFd).Accounts
      have hrec := h.duplicate hgranted htidy
      unfold Accounts Trail.dup Adapter.dup
      cases t.adapter.fds.get oldFd with
      | none => exact h
      | some state => exact hrec
  | dup2 oldFd target newFd =>
      show (t.dup2 session oldFd target newFd).Accounts
      unfold Trail.dup2
      cases hget : t.adapter.fds.get oldFd with
      | none => exact h
      | some state =>
          have hsome : (t.adapter.fds.get oldFd).isSome = true := by rw [hget]; rfl
          obtain ⟨htarget, hdup⟩ := htidy hsome
          have hgranted' := hgranted hsome
          have hclosed : (t.closeTarget session target).Accounts := h.closeTarget htarget
          rw [← closeTarget_adapter] at hdup hgranted'
          exact hclosed.duplicate hgranted' hdup
  | close fd => exact h.close htidy
  | write fd data =>
      show (t.write session fd data).Accounts
      unfold Trail.write
      cases hopen : t.adapter.fds.table.lookup fd with
      | none => exact h
      | some address =>
          exact h.doWrite hopen (htidy _ (by rw [FdTable.get, hopen]; rfl)) true
  | pwrite fd data offset =>
      show (t.pwrite session fd data offset).Accounts
      unfold Trail.pwrite
      cases hopen : t.adapter.fds.table.lookup fd with
      | none => exact h
      | some address =>
          exact h.doWrite hopen (htidy (by rw [FdTable.get, hopen]; rfl)) false

theorem Accounts.run (h : t.Accounts) {calls : List DescriptorCall}
    (hgranted : Along (Adapter.descriptorStep session) (Adapter.Granted session) t.adapter calls)
    (htidy : Along (Adapter.descriptorStep session) (Adapter.Tidy session) t.adapter calls) :
    (t.run session calls).Accounts := by
  induction calls generalizing t with
  | nil => exact h
  | cons c rest ih =>
      obtain ⟨hgranted, hgrantedRest⟩ := hgranted
      obtain ⟨hcall, hrest⟩ := htidy
      have hnext : (t.call session c).adapter ∈ t.adapter.descriptorStep session c := by
        rw [call_adapter]
        rfl
      exact ih (h.call hgranted hcall) (hgrantedRest _ hnext) (hrest _ hnext)

end Trail

end Labios
