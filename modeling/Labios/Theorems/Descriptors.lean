import Labios.Adapter.Descriptors
import Labios.Adapter.FdTable
import Labios.Foundation.Counts
import Labios.Foundation.Entries
import Labios.Foundation.Machine
import Labios.Theorems.AdapterCoherence

/-!
# Descriptors of the adapter

Numbers that are used again, and the states they stand for.
-/

/-!
## Descriptor numbers and the cache

Where the regions go that leave the cache, and what is published once the last
descriptor of an open file is closed, over runs of `open`, `dup`, `dup2`, small
writes and `close` on any paths.

Both hold in a run whose calls are tidy (`descriptors_keepApart`). A close that is
not the last leaves its descriptor's regions and path behind, and the next file
that gets the number writes under that path (`reusedNumber_misroutes`).
-/

namespace Labios

open Foundation

namespace Trail

/-- Every region that left the cache is the region of a write, under the path
that its descriptor referred to at that write. -/
def Routed (t : Trail) : Prop :=
  ∀ f ∈ t.flushed, ∃ w ∈ f.writer, f.fd = w.fd ∧ f.region = toFlush w.filepath w.region

instance (t : Trail) : Decidable t.Routed :=
  inferInstanceAs (Decidable (∀ f ∈ t.flushed, ∃ w ∈ f.writer, _))

/-- No descriptor refers to the open file any more. -/
def AllClosed (t : Trail) (address : Nat) : Prop :=
  ∀ fd, t.adapter.fds.table.lookup fd ≠ some address

/-- Of an open file without descriptors every acknowledged byte was published to
its path, unless a newer write of that open file was published there instead. -/
def Delivered (t : Trail) : Prop :=
  ∀ w ∈ t.writes, t.AllClosed w.address → ∀ p, w.region.Covers p →
    ∃ f ∈ t.flushed, ∃ later ∈ f.writer, later.Supersedes w p ∧
      f.region = toFlush w.filepath later.region

variable {t : Trail}

theorem Accounts.routed (h : t.Accounts) : t.Routed := by
  intro f hf
  obtain ⟨w, -, hwriter, hfd, hregion⟩ := h.carried f hf
  exact ⟨w, hwriter, hfd, hregion⟩

theorem Accounts.delivered (h : t.Accounts) : t.Delivered := by
  intro w hw hclosed p hp
  obtain ⟨later, hlater, ⟨f, hf, hwriter⟩ | ⟨hretained, hlast⟩⟩ := h.accounted w hw p hp
  · obtain ⟨w', hw', hwriter', -, hregion⟩ := h.carried f hf
    rw [hwriter] at hwriter'
    obtain rfl := Option.some.inj hwriter'
    refine ⟨f, hf, later, hwriter, hlater, ?_⟩
    rw [hregion, (h.written later hw').2, hlater.address, (h.written w hw).2]
  · -- a region in the cache belongs to an open descriptor
    obtain ⟨w', hw', -, hopen, -⟩ := h.staged later.fd _ hretained
    rw [show UInt64.ofNat later.region.1 = later.offset from UInt64.ofNat_toNat, hlast] at hw'
    obtain rfl := Option.some.inj hw'
    rw [hlater.address] at hopen
    exact absurd hopen (hclosed _)

end Trail

/-- **Descriptor reuse.** In a run of tidy calls, with the numbers as the operating
system hands them out, every region leaves the cache under the path of its write,
and nothing acknowledged through an open file is missing once it is closed. -/
theorem descriptors_keepApart (session : Session) (files : PathStore)
    (calls : List DescriptorCall)
    (hgranted : Along (Adapter.descriptorStep session) (Adapter.Granted session)
      (Adapter.fresh session files) calls)
    (htidy : Along (Adapter.descriptorStep session) (Adapter.Tidy session)
      (Adapter.fresh session files) calls) :
    (Trail.run session { adapter := Adapter.fresh session files } calls).Routed ∧
      (Trail.run session { adapter := Adapter.fresh session files } calls).Delivered := by
  have hfresh : Trail.Accounts { adapter := Adapter.fresh session files } :=
    Recorded.fresh _ _ rfl rfl
  have hrun := hfresh.run hgranted htidy
  exact ⟨hrun.routed, hrun.delivered⟩

/-- Three descriptors of one file, of which only the last one closed has something
staged; `dup2` and a later `open` hand out numbers of other files again. -/
def tidyReuse : List DescriptorCall :=
  [.openFile "/a" 0 3, .dup 3 4, .pwrite 3 [2, 7] 0, .pwrite 3 [8, 9] 4, .openFile "/b" 0 5,
    .write 5 [9], .dup2 4 5 5, .pwrite 5 [5] 0, .pwrite 5 [6, 1] 0, .close 3, .close 4, .close 5,
    .openFile "/c" 0 5, .write 5 [4], .close 5]

theorem descriptors_keepApart_tidyReuse :
    (Trail.run tinySession { adapter := Adapter.fresh tinySession fun _ => [] }
        tidyReuse).Routed ∧
      (Trail.run tinySession { adapter := Adapter.fresh tinySession fun _ => [] }
        tidyReuse).Delivered :=
  descriptors_keepApart tinySession (fun _ => []) tidyReuse (by decide) (by decide)

/-- A descriptor with a staged region is closed while another one is open, and its
number goes to a second file. -/
def reusedNumber : List DescriptorCall :=
  [.openFile "/a" 0 3, .dup 3 4, .pwrite 4 [1] 0, .close 4, .openFile "/b" 0 4, .pwrite 4 [2] 5,
    .close 4, .close 3]

/-- The second file's byte leaves under the first one's path: it is never
published, although both files are closed. -/
theorem reusedNumber_misroutes :
    Along (Adapter.descriptorStep tinySession) (Adapter.Granted tinySession)
        (Adapter.fresh tinySession fun _ => []) reusedNumber ∧
      ¬(Trail.run tinySession { adapter := Adapter.fresh tinySession fun _ => [] }
        reusedNumber).Routed ∧
      ¬(Trail.run tinySession { adapter := Adapter.fresh tinySession fun _ => [] }
        reusedNumber).Delivered := by
  refine ⟨by decide, by decide, fun hdelivered => ?_⟩
  have hclosed : (Trail.run tinySession { adapter := Adapter.fresh tinySession fun _ => [] }
      reusedNumber).AllClosed 1 := by
    intro fd hopen
    have hempty : (Trail.run tinySession { adapter := Adapter.fresh tinySession fun _ => [] }
        reusedNumber).adapter.fds.table = ∅ := rfl
    rw [hempty, AList.lookup_empty] at hopen
    cases hopen
  obtain ⟨f, hf, later, -, -, hregion⟩ := hdelivered
    { serial := 1, fd := 4, address := 1, filepath := "/b", offset := 5, data := [2] }
    (by decide) hclosed 5 ⟨by decide, by decide⟩
  -- no region carries the second path
  have hpath : f.region.filepath = "/b" := congrArg FlushRegion.filepath hregion
  have hother : ∀ f ∈ (Trail.run tinySession
      { adapter := Adapter.fresh tinySession fun _ => [] } reusedNumber).flushed,
      f.region.filepath ≠ "/b" := by
    decide
  exact hother f hf hpath

end Labios

/-!
## References to open files

Table, reference counts and bitset of `FdTable` change one after the other. Over any run of
`allocate`, `duplicate` and `release` they agree: a count is the number of descriptors of its
state, and the bitset marks the descriptors of the table (`references_counted`).
-/

namespace Labios

open Foundation

namespace FdTable

/-! ## Calls -/

/-- A call, with the descriptor number that the operating system returns. -/
inductive Call
  | allocate (filepath : String) (flags : UInt32) (fd : Int)
  | duplicate (oldFd newFd : Int)
  | release (fd : Int)

def call (t : FdTable) : Call → FdTable
  | .allocate filepath flags fd => (t.allocate filepath flags fd).2
  | .duplicate oldFd newFd => (t.duplicate oldFd newFd).2
  | .release fd => (t.release fd).2

/-- A number that the operating system may return: a failure, or one that is not open and has a
place in the bitset. -/
def Grants (t : FdTable) (fd : Int) : Prop := fd < 0 ∨ ¬t.Opened fd ∧ fd < bitsetSize

instance (t : FdTable) (fd : Int) : Decidable (t.Grants fd) := inferInstanceAs (Decidable (_ ∨ _))

def Granted (t : FdTable) : Call → Prop
  | .allocate _ _ fd => t.Grants fd
  | .duplicate oldFd newFd => t.Opened oldFd → t.Grants newFd
  | .release _ => True

instance (t : FdTable) : (c : Call) → Decidable (t.Granted c)
  | .allocate _ _ fd => inferInstanceAs (Decidable (t.Grants fd))
  | .duplicate oldFd newFd => inferInstanceAs (Decidable (t.Opened oldFd → t.Grants newFd))
  | .release _ => inferInstanceAs (Decidable True)

def step (t : FdTable) (c : Call) : Option FdTable := if t.Granted c then some (t.call c) else none

/-! ## What agrees -/

/-- How many descriptors have the state. -/
def sharers (t : FdTable) (address : Nat) : Nat := countOf t.table fun _ a => a = address

/-- The descriptor is open, and no other has its state. -/
def Last (t : FdTable) (fd : Int) : Prop :=
  ∃ address, t.table.lookup fd = some address ∧
    ∀ fd', t.table.lookup fd' = some address → fd' = fd

structure Counted (t : FdTable) : Prop where
  allocated : ∀ fd address, t.table.lookup fd = some address → address < t.next
  count : ∀ address < t.next, (t.states address).refCount = t.sharers address
  bits : ∀ fd, t.isLabiosFd fd = true ↔ t.Opened fd

variable {t : FdTable} {fd : Int}

theorem counted_empty : Counted {} where
  allocated := fun fd address h => by cases h
  count := fun address h => absurd h (Nat.not_lt_zero address)
  bits := by
    intro fd
    refine iff_of_false ?_ (fun h => h rfl)
    unfold isLabiosFd
    split
    · exact Bool.false_ne_true
    · exact Bool.false_ne_true

/-! ## The bitset -/

theorem isLabiosFd_iff (t : FdTable) (fd : Int) :
    t.isLabiosFd fd = true ↔ 0 ≤ fd ∧ fd < bitsetSize ∧ t.bitset fd = true := by
  unfold isLabiosFd
  by_cases hrange : 0 ≤ fd ∧ fd < bitsetSize
  · obtain ⟨hlow, hhigh⟩ := hrange
    simp [hlow, hhigh, Int.not_lt.mpr hlow, Int.not_le.mpr hhigh]
  · have hout : (decide (fd < 0) || decide (bitsetSize ≤ fd)) = true := by
      rw [Bool.or_eq_true, decide_eq_true_iff, decide_eq_true_iff]
      omega
    rw [if_pos hout]
    exact iff_of_false Bool.false_ne_true fun h => hrange ⟨h.1, h.2.1⟩

theorem isLabiosFd_setBit {t' : FdTable} {value : Bool}
    (h : t'.bitset = setBit t.bitset fd value) (hlow : 0 ≤ fd) (hhigh : fd < bitsetSize)
    (fd' : Int) : t'.isLabiosFd fd' = true ↔
      if fd' = fd then value = true else t.isLabiosFd fd' = true := by
  rw [isLabiosFd_iff, h]
  unfold setBit
  rw [if_pos ⟨hlow, hhigh⟩]
  split
  · next heq =>
      rw [heq, Function.update_self, and_iff_right hlow, and_iff_right hhigh]
  · next hne => rw [Function.update_of_ne hne, isLabiosFd_iff]

theorem opened_insert_iff (table : AList fun _ : Int => Nat) (fd fd' : Int) (address : Nat) :
    (table.insert fd address).lookup fd' ≠ none ↔ fd' = fd ∨ table.lookup fd' ≠ none := by
  by_cases heq : fd' = fd
  · rw [heq, AList.lookup_insert]
    simp
  · rw [AList.lookup_insert_ne heq]
    simp [heq]

/-! ## One call -/

/-- An open descriptor has a state, and a new one may get it, too. -/
theorem Counted.share (h : t.Counted) {address : Nat} (haddress : address < t.next)
    (hnew : t.table.lookup fd = none) (hlow : 0 ≤ fd) (hhigh : fd < bitsetSize)
    (state : FileState) (hstate : state.refCount = (t.states address).refCount + 1) :
    Counted
      { t with
        table := t.table.insert fd address
        states := Function.update t.states address state
        bitset := setBit t.bitset fd true } where
  allocated := by
    intro fd' address' hl
    dsimp only at hl ⊢
    rcases Foundation.lookup_insert_cases hl with ⟨-, rfl⟩ | ⟨-, hold⟩
    · exact haddress
    · exact h.allocated fd' address' hold
  count := by
    intro address' hlt
    unfold sharers
    dsimp only
    rw [countOf_insert_new hnew]
    -- the state gains a descriptor, any other has those it had
    by_cases heq : address' = address
    · rw [heq, Function.update_self, hstate, h.count address haddress]
      simp [sharers]
    · rw [Function.update_of_ne heq, h.count address' hlt]
      simp [sharers, Ne.symm heq]
  bits := by
    intro fd'
    rw [isLabiosFd_setBit (t := t) rfl hlow hhigh]
    unfold Opened
    rw [opened_insert_iff, h.bits fd']
    by_cases heq : fd' = fd
    · simp [heq]
    · rw [if_neg heq, or_iff_right heq]
      rfl

theorem Counted.allocate (h : t.Counted) (filepath : String) (flags : UInt32)
    (hgrants : t.Grants fd) : (t.allocate filepath flags fd).2.Counted := by
  unfold FdTable.allocate
  split
  · exact h
  · next hlow =>
      obtain ⟨hnew, hhigh⟩ := hgrants.resolve_left hlow
      rw [Opened, not_ne_iff] at hnew
      have hunused : t.sharers t.next = 0 := by
        refine countOf_eq_zero_iff.mpr fun fd' address hl => decide_eq_false ?_
        exact Nat.ne_of_lt (h.allocated fd' address hl)
      -- as if the new state had been there without a descriptor
      have hroom : Counted
          { t with
            next := t.next + 1
            states := Function.update t.states t.next
              { filepath := filepath, refCount := 0 } } := by
        refine ⟨fun fd' address hl => Nat.lt_succ_of_lt (h.allocated fd' address hl),
          fun address hlt => ?_, h.bits⟩
        dsimp only
        rcases Nat.lt_succ_iff_lt_or_eq.mp hlt with hlt | rfl
        · rw [Function.update_of_ne (Nat.ne_of_lt hlt)]
          exact h.count address hlt
        · rw [Function.update_self]
          exact congrArg Nat.cast hunused.symm
      have hshare := hroom.share (Nat.lt_succ_self t.next) hnew (Int.not_lt.mp hlow) hhigh
        { filepath
          openFlags := flags
          syncMode := flags &&& oSync != 0 || flags &&& oDsync != 0 }
        (by
          dsimp only
          rw [Function.update_self]
          rfl)
      dsimp only at hshare
      rwa [Function.update_idem] at hshare

theorem Counted.duplicate (h : t.Counted) (oldFd : Int)
    (hgrants : t.Opened oldFd → t.Grants fd) : (t.duplicate oldFd fd).2.Counted := by
  unfold FdTable.duplicate
  split
  · exact h
  · next address hold =>
      have hopen : t.Opened oldFd := by
        rw [Opened, hold]
        exact Option.some_ne_none address
      split
      · exact h
      · next hlow =>
          obtain ⟨hnew, hhigh⟩ := (hgrants hopen).resolve_left hlow
          rw [Opened, not_ne_iff] at hnew
          exact h.share (h.allocated oldFd address hold) hnew (Int.not_lt.mp hlow) hhigh _ rfl

theorem Counted.release (h : t.Counted) (fd : Int) : (t.release fd).2.Counted := by
  unfold FdTable.release
  split
  · exact h
  · next address hold =>
      have hbit : t.isLabiosFd fd = true := by
        rw [h.bits, Opened, hold]
        exact Option.some_ne_none address
      obtain ⟨hlow, hhigh, -⟩ := (isLabiosFd_iff t fd).mp hbit
      refine ⟨fun fd' address' hl => h.allocated fd' address' (Foundation.lookup_of_erase hl).2,
        fun address' hlt => ?_, fun fd' => ?_⟩
      · have hcount := h.count address' hlt
        unfold sharers at hcount ⊢
        dsimp only
        rw [countOf_of_lookup hold] at hcount
        -- the state loses a descriptor, and its count goes down with it
        by_cases heq : address' = address
        · subst heq
          rw [Function.update_self]
          dsimp only
          rw [hcount]
          simp
        · rw [Function.update_of_ne heq, hcount]
          simp [Ne.symm heq]
      · rw [isLabiosFd_setBit (t := t) rfl hlow hhigh]
        unfold Opened
        dsimp only
        by_cases heq : fd' = fd
        · rw [if_pos heq, heq, AList.lookup_erase]
          simp
        · rw [if_neg heq, AList.lookup_erase_ne heq]
          exact h.bits fd'

theorem Counted.step (h : t.Counted) {c : Call} {t' : FdTable} (hstep : t.step c = some t') :
    t'.Counted := by
  unfold FdTable.step at hstep
  split at hstep
  · next hgranted =>
      obtain rfl := Option.some.inj hstep
      cases c with
      | allocate filepath flags fd => exact h.allocate filepath flags hgranted
      | duplicate oldFd newFd => exact h.duplicate oldFd hgranted
      | release fd => exact h.release fd
  · cases hstep

/-- A release says that it is the last exactly if it is. -/
theorem Counted.release_iff (h : t.Counted) (fd : Int) :
    (t.release fd).1 = true ↔ t.Last fd := by
  unfold FdTable.release Last
  cases hold : t.table.lookup fd with
  | none => exact iff_of_false Bool.false_ne_true fun ⟨_, hnone, _⟩ => by cases hnone
  | some address =>
      have hcount := h.count address (h.allocated fd address hold)
      unfold sharers at hcount
      rw [countOf_of_lookup hold, decide_eq_true rfl, if_pos rfl] at hcount
      dsimp only
      rw [beq_iff_eq, hcount]
      -- the count was one if no other entry of the table has the state
      have hothers : countOf (t.table.erase fd) (fun _ a => decide (a = address)) = 0 ↔
          ∀ fd', t.table.lookup fd' = some address → fd' = fd := by
        rw [countOf_eq_zero_iff]
        constructor
        · intro hnone fd' hl
          by_contra hne
          have hfalse := hnone fd' address ((AList.lookup_erase_ne hne).trans hl)
          exact absurd rfl (of_decide_eq_false hfalse)
        · intro honly fd' address' hl
          refine decide_eq_false ?_
          rintro rfl
          obtain ⟨hne, hold⟩ := Foundation.lookup_of_erase hl
          exact hne (honly fd' hold)
      constructor
      · intro hone
        exact ⟨address, rfl, hothers.mp (by omega)⟩
      · rintro ⟨address', haddress, honly⟩
        obtain rfl := Option.some.inj haddress
        rw [hothers.mpr honly]
        rfl

/-- **Reference counts.** After any run of calls, a release is the last exactly if no other
descriptor has the state, every count is the number of descriptors of its state, and the bitset
marks the descriptors of the table. -/
theorem references_counted {calls : List Call} {t : FdTable}
    (hrun : exec step {} calls = some t) :
    (∀ fd, (t.release fd).1 = true ↔ t.Last fd) ∧
      (∀ address < t.next, (t.states address).refCount = t.sharers address) ∧
      ∀ fd, t.isLabiosFd fd = true ↔ t.Opened fd := by
  have h : t.Counted := exec_kept (fun h hstep => Counted.step h hstep) counted_empty hrun
  exact ⟨h.release_iff, h.count, h.bits⟩

/-- A file with two descriptors, the first of which is released and its number used again. -/
def reusedNumber : List Call :=
  [.allocate "/a" 2 3, .duplicate 3 4, .release 3, .allocate "/b" 2 3]

theorem references_counted_reused :
    ∃ t, exec step {} reusedNumber = some t ∧ t.Last 4 ∧ (t.release 4).1 = true := by
  have hsome : (exec step {} reusedNumber).isSome := by decide
  obtain ⟨t, ht⟩ := Option.isSome_iff_exists.mp hsome
  have hlast : ((exec step {} reusedNumber).map fun t => (t.release 4).1) = some true := by decide
  rw [ht] at hlast
  have hrelease := Option.some.inj hlast
  exact ⟨t, ht, ((references_counted ht).1 4).mp hrelease, hrelease⟩

end FdTable
end Labios
