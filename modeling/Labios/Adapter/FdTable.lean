import Mathlib.Data.List.AList

/-!
# Descriptor table

`FdTable` of `labios/adapter/fd_table.cpp`. Descriptors that were duplicated
share one `FileState`, named here by its address. The descriptor numbers that the
operating system hands out are parameters of `allocate` and `duplicate`.
-/

namespace Labios

structure FileState where
  filepath : String
  offset : UInt64 := 0
  openFlags : UInt32 := 0
  syncMode : Bool := false
  refCount : Int := 1
  deriving DecidableEq, Repr

structure FdTable where
  table : AList fun _ : Int => Nat := ∅
  states : Nat → FileState := fun _ => { filepath := "" }
  next : Nat := 0
  bitset : Int → Bool := fun _ => false

namespace FdTable

def bitsetSize : Int := 1048576

def oDsync : UInt32 := 0x1000

def oSync : UInt32 := 0x101000

/-- `bitset_[fd].store`, for the descriptors below its size. -/
def setBit (bitset : Int → Bool) (fd : Int) (value : Bool) : Int → Bool :=
  if 0 ≤ fd ∧ fd < bitsetSize then Function.update bitset fd value else bitset

def allocate (t : FdTable) (filepath : String) (flags : UInt32) (fd : Int) : Int × FdTable :=
  if fd < 0 then (-1, t)
  else
    let state : FileState :=
      { filepath
        openFlags := flags
        syncMode := flags &&& oSync != 0 || flags &&& oDsync != 0 }
    (fd,
      { table := t.table.insert fd t.next
        states := Function.update t.states t.next state
        next := t.next + 1
        bitset := setBit t.bitset fd true })

def get (t : FdTable) (fd : Int) : Option FileState := (t.table.lookup fd).map t.states

def isLabiosFd (t : FdTable) (fd : Int) : Bool :=
  if fd < 0 || bitsetSize ≤ fd then false else t.bitset fd

/-- The result says whether this was the last descriptor of its state. -/
def release (t : FdTable) (fd : Int) : Bool × FdTable :=
  match t.table.lookup fd with
  | none => (false, t)
  | some address =>
      let state := t.states address
      (state.refCount == 1,
        { t with
          table := t.table.erase fd
          states := Function.update t.states address { state with refCount := state.refCount - 1 }
          bitset := setBit t.bitset fd false })

def duplicate (t : FdTable) (oldFd newFd : Int) : Int × FdTable :=
  match t.table.lookup oldFd with
  | none => (-1, t)
  | some address =>
      if newFd < 0 then (-1, t)
      else
        let state := t.states address
        (newFd,
          { t with
            table := t.table.insert newFd address
            states := Function.update t.states address { state with refCount := state.refCount + 1 }
            bitset := setBit t.bitset newFd true })

/-- `state->offset = offset`. -/
def setOffset (t : FdTable) (fd : Int) (offset : UInt64) : FdTable :=
  match t.table.lookup fd with
  | none => t
  | some address =>
      { t with states := Function.update t.states address { t.states address with offset } }

/-! ## Open files -/

/-- The states of the open descriptors are all of one file. -/
def OnlyFile (t : FdTable) (filepath : String) : Prop :=
  ∀ fd address, t.table.lookup fd = some address → (t.states address).filepath = filepath

variable {t : FdTable} {filepath : String}

theorem OnlyFile.get (h : t.OnlyFile filepath) {fd : Int} {state : FileState}
    (hget : t.get fd = some state) : state.filepath = filepath := by
  obtain ⟨address, haddress, rfl⟩ := Option.map_eq_some_iff.mp hget
  exact h fd address haddress

/-- A state keeps its path while descriptors come and go. -/
theorem OnlyFile.update (h : t.OnlyFile filepath) {table : AList fun _ : Int => Nat}
    {address : Nat} {state : FileState} (hstate : state.filepath = (t.states address).filepath)
    (htable : ∀ fd a, table.lookup fd = some a → ∃ fd', t.table.lookup fd' = some a)
    (next : Nat) (bitset : Int → Bool) :
    OnlyFile { table, states := Function.update t.states address state, next, bitset } filepath := by
  intro fd a ha
  dsimp only at ha ⊢
  obtain ⟨fd', hfd'⟩ := htable fd a ha
  by_cases he : a = address
  · rw [he, Function.update_self, hstate, ← he]
    exact h fd' a hfd'
  · rw [Function.update_of_ne he]
    exact h fd' a hfd'

theorem OnlyFile.allocate (h : t.OnlyFile filepath) (flags : UInt32) (fd : Int) :
    OnlyFile (t.allocate filepath flags fd).2 filepath := by
  unfold FdTable.allocate
  split
  · exact h
  · intro fd' a ha
    dsimp only at ha ⊢
    by_cases ha' : a = t.next
    · rw [ha', Function.update_self]
    · rw [Function.update_of_ne ha']
      by_cases hfd : fd' = fd
      · rw [hfd, AList.lookup_insert] at ha
        exact absurd (Option.some.inj ha).symm ha'
      · rw [AList.lookup_insert_ne hfd] at ha
        exact h fd' a ha

theorem OnlyFile.release (h : t.OnlyFile filepath) (fd : Int) :
    OnlyFile (t.release fd).2 filepath := by
  unfold FdTable.release
  split
  · exact h
  · dsimp only
    refine h.update ?_ (fun fd' a ha => ⟨fd', ?_⟩) _ _
    · rfl
    · by_cases hfd : fd' = fd
      · rw [hfd, AList.lookup_erase] at ha
        exact absurd ha (by simp)
      · rwa [AList.lookup_erase_ne hfd] at ha

theorem OnlyFile.duplicate (h : t.OnlyFile filepath) (oldFd newFd : Int) :
    OnlyFile (t.duplicate oldFd newFd).2 filepath := by
  unfold FdTable.duplicate
  split
  · exact h
  · next address hold =>
      split
      · exact h
      · dsimp only
        refine h.update ?_ (fun fd' a ha => ?_) _ _
        · rfl
        · by_cases hfd : fd' = newFd
          · rw [hfd, AList.lookup_insert] at ha
            exact ⟨oldFd, hold.trans ha⟩
          · rw [AList.lookup_insert_ne hfd] at ha
            exact ⟨fd', ha⟩

theorem OnlyFile.setOffset (h : t.OnlyFile filepath) (fd : Int) (offset : UInt64) :
    OnlyFile (t.setOffset fd offset) filepath := by
  unfold FdTable.setOffset
  split
  · exact h
  · refine h.update ?_ (fun fd' a ha => ⟨fd', ha⟩) _ _
    rfl

/-! ## Open descriptors -/

def Opened (t : FdTable) (fd : Int) : Prop := t.table.lookup fd ≠ none

instance (t : FdTable) (fd : Int) : Decidable (t.Opened fd) := inferInstanceAs (Decidable (¬_))

@[simp] theorem setOffset_table (t : FdTable) (fd : Int) (offset : UInt64) :
    (t.setOffset fd offset).table = t.table := by
  unfold setOffset
  split
  · rfl
  · rfl

theorem opened_insert {table : AList fun _ : Int => Nat} {fd fd' : Int} {address : Nat}
    (h : table.lookup fd ≠ none) : (table.insert fd' address).lookup fd ≠ none := by
  by_cases he : fd = fd'
  · rw [he, AList.lookup_insert]
    simp
  · rwa [AList.lookup_insert_ne he]

theorem Opened.allocate {fd : Int} (h : t.Opened fd) (filepath : String) (flags : UInt32)
    (fd' : Int) : Opened (t.allocate filepath flags fd').2 fd := by
  unfold FdTable.allocate
  split
  · exact h
  · exact opened_insert h

theorem Opened.duplicate {fd : Int} (h : t.Opened fd) (oldFd newFd : Int) :
    Opened (t.duplicate oldFd newFd).2 fd := by
  unfold FdTable.duplicate
  split
  · exact h
  · split
    · exact h
    · exact opened_insert h

theorem Opened.release {fd fd' : Int} (h : t.Opened fd) (hne : fd ≠ fd') :
    Opened (t.release fd').2 fd := by
  unfold FdTable.release
  split
  · exact h
  · unfold Opened
    dsimp only
    rwa [AList.lookup_erase_ne hne]

theorem Opened.setOffset {fd : Int} (h : t.Opened fd) (fd' : Int) (offset : UInt64) :
    Opened (t.setOffset fd' offset) fd := by
  unfold Opened
  rwa [setOffset_table]

theorem get_setOffset_self (t : FdTable) (fd : Int) (offset : UInt64) :
    (t.setOffset fd offset).get fd = (t.get fd).map fun state => { state with offset } := by
  unfold setOffset get
  cases h : t.table.lookup fd with
  | none =>
      dsimp only
      rw [h]
      rfl
  | some address =>
      dsimp only
      rw [h, Option.map_some, Function.update_self]
      rfl

theorem opened_of_get {fd : Int} {state : FileState} (h : t.get fd = some state) :
    t.Opened fd := by
  intro hnone
  rw [get, hnone] at h
  exact absurd h (by simp)

/-- A release is the last one when the count stood at one. -/
theorem release_last {fd : Int} {state : FileState} (h : t.get fd = some state) :
    (t.release fd).1 = (state.refCount == 1) := by
  obtain ⟨address, haddress, rfl⟩ := Option.map_eq_some_iff.mp h
  unfold release
  rw [haddress]

/-! ## Descriptors without duplicates -/

/-- No state has two descriptors. -/
structure Unshared (t : FdTable) : Prop where
  allocated : ∀ fd address, t.table.lookup fd = some address → address < t.next
  own : ∀ fd fd' address, t.table.lookup fd = some address → t.table.lookup fd' = some address →
    fd = fd'
  single : ∀ fd address, t.table.lookup fd = some address → (t.states address).refCount = 1

theorem Unshared.get_allocate (h : t.Unshared) (filepath : String) (flags : UInt32) {fd : Int}
    (hfd : 0 ≤ fd) (fd' : Int) :
    ((t.allocate filepath flags fd).2.get fd').map (·.offset.toNat) =
      if fd' = fd then some 0 else (t.get fd').map (·.offset.toNat) := by
  unfold FdTable.allocate FdTable.get
  rw [if_neg (by omega)]
  dsimp only
  by_cases he : fd' = fd
  · rw [if_pos he, he, AList.lookup_insert, Option.map_some, Option.map_some, Function.update_self]
    rfl
  · rw [if_neg he, AList.lookup_insert_ne he]
    cases hl : t.table.lookup fd' with
    | none => rfl
    | some address =>
        have hne : address ≠ t.next := Nat.ne_of_lt (h.allocated fd' address hl)
        rw [Option.map_some, Option.map_some, Function.update_of_ne hne]
        rfl

theorem Unshared.get_setOffset (h : t.Unshared) {fd : Int} (hopen : t.Opened fd)
    (offset : UInt64) (fd' : Int) :
    ((t.setOffset fd offset).get fd').map (·.offset.toNat) =
      if fd' = fd then some offset.toNat else (t.get fd').map (·.offset.toNat) := by
  obtain ⟨address, haddress⟩ := Option.ne_none_iff_exists'.mp hopen
  by_cases he : fd' = fd
  · rw [if_pos he, he, get_setOffset_self, get, haddress]
    rfl
  · rw [if_neg he]
    unfold setOffset FdTable.get
    rw [haddress]
    dsimp only
    cases hl : t.table.lookup fd' with
    | none => rfl
    | some address' =>
        have hne : address' ≠ address := fun heq => he (h.own fd' fd address' hl (heq ▸ haddress))
        rw [Option.map_some, Function.update_of_ne hne]
        rfl

theorem Unshared.get_release (h : t.Unshared) (fd fd' : Int) :
    ((t.release fd).2.get fd').map (·.offset.toNat) =
      if fd' = fd then none else (t.get fd').map (·.offset.toNat) := by
  unfold FdTable.release FdTable.get
  cases haddress : t.table.lookup fd with
  | none =>
      dsimp only
      by_cases he : fd' = fd
      · rw [if_pos he, he, haddress]
        rfl
      · rw [if_neg he]
  | some address =>
      dsimp only
      by_cases he : fd' = fd
      · rw [if_pos he, he, AList.lookup_erase]
        rfl
      · rw [if_neg he, AList.lookup_erase_ne he]
        cases hl : t.table.lookup fd' with
        | none => rfl
        | some address' =>
            have hne : address' ≠ address :=
              fun heq => he (h.own fd' fd address' hl (heq ▸ haddress))
            rw [Option.map_some, Function.update_of_ne hne]
            rfl

/-- The only descriptor of a state is its last. -/
theorem Unshared.release_fst (h : t.Unshared) {fd : Int} (hopen : t.Opened fd) :
    (t.release fd).1 = true := by
  obtain ⟨address, haddress⟩ := Option.ne_none_iff_exists'.mp hopen
  unfold FdTable.release
  rw [haddress]
  dsimp only
  rw [h.single fd address haddress]
  rfl

theorem Unshared.allocate (h : t.Unshared) (filepath : String) (flags : UInt32) (fd : Int) :
    (t.allocate filepath flags fd).2.Unshared := by
  unfold FdTable.allocate
  split
  · exact h
  · have hold : ∀ {fd' address}, fd' ≠ fd →
        (t.table.insert fd t.next).lookup fd' = some address →
          t.table.lookup fd' = some address ∧ address < t.next := by
      intro fd' address hne hl
      rw [AList.lookup_insert_ne hne] at hl
      exact ⟨hl, h.allocated fd' address hl⟩
    have hnew : ∀ {address}, (t.table.insert fd t.next).lookup fd = some address →
        address = t.next := by
      intro address hl
      rw [AList.lookup_insert] at hl
      exact (Option.some.inj hl).symm
    refine ⟨fun fd' address hl => ?_, fun fd₁ fd₂ address h₁ h₂ => ?_, fun fd' address hl => ?_⟩
    · by_cases he : fd' = fd
      · rw [he] at hl
        rw [hnew hl]
        exact Nat.lt_succ_self _
      · exact Nat.lt_succ_of_lt (hold he hl).2
    · by_cases he₁ : fd₁ = fd
      · by_cases he₂ : fd₂ = fd
        · rw [he₁, he₂]
        · rw [he₁] at h₁
          have hlt := (hold he₂ h₂).2
          rw [hnew h₁] at hlt
          exact absurd hlt (Nat.lt_irrefl _)
      · by_cases he₂ : fd₂ = fd
        · rw [he₂] at h₂
          have hlt := (hold he₁ h₁).2
          rw [hnew h₂] at hlt
          exact absurd hlt (Nat.lt_irrefl _)
        · exact h.own fd₁ fd₂ address (hold he₁ h₁).1 (hold he₂ h₂).1
    · dsimp only
      by_cases he : fd' = fd
      · rw [he] at hl
        rw [hnew hl, Function.update_self]
      · obtain ⟨hl, hlt⟩ := hold he hl
        rw [Function.update_of_ne (Nat.ne_of_lt hlt)]
        exact h.single fd' address hl

theorem Unshared.setOffset (h : t.Unshared) (fd : Int) (offset : UInt64) :
    (t.setOffset fd offset).Unshared := by
  unfold FdTable.setOffset
  split
  · exact h
  next address haddress =>
    refine ⟨h.allocated, h.own, fun fd' address' hl => ?_⟩
    dsimp only
    by_cases he : address' = address
    · rw [he, Function.update_self]
      exact h.single fd address haddress
    · rw [Function.update_of_ne he]
      exact h.single fd' address' hl

theorem Unshared.release (h : t.Unshared) (fd : Int) : (t.release fd).2.Unshared := by
  unfold FdTable.release
  split
  · exact h
  next address haddress =>
    have hold : ∀ {fd' address'}, (t.table.erase fd).lookup fd' = some address' →
        fd' ≠ fd ∧ t.table.lookup fd' = some address' := by
      intro fd' address' hl
      have hne : fd' ≠ fd := by
        rintro rfl
        rw [AList.lookup_erase] at hl
        cases hl
      exact ⟨hne, by rwa [AList.lookup_erase_ne hne] at hl⟩
    refine ⟨fun fd' address' hl => h.allocated fd' address' (hold hl).2,
      fun fd₁ fd₂ address' h₁ h₂ => h.own fd₁ fd₂ address' (hold h₁).2 (hold h₂).2,
      fun fd' address' hl => ?_⟩
    dsimp only
    obtain ⟨hne, hl⟩ := hold hl
    have hother : address' ≠ address := fun heq => hne (h.own fd' fd address' hl (heq ▸ haddress))
    rw [Function.update_of_ne hother]
    exact h.single fd' address' hl

end FdTable

end Labios
