import Labios.Adapter.Rename
import Labios.Adapter.Tracked

/-!
# Files that are opened for appending

Opens of one path with `O_APPEND`, writes through them and closes, beside the log that POSIX
makes of them. `open` gives its flags to `FdTable::allocate` and to the catalog, and no write
looks at them again. `fopen` of `drivers/posix_intercept.cpp` with an append mode is an open
with `O_APPEND` (`fopenFlags_appends`).
-/

namespace Labios

open Foundation

def oRdonly : UInt32 := 0

def oRdwr : UInt32 := 2

def oAppend : UInt32 := 0x400

/-- The flags that `fopen` opens with. -/
def fopenFlags (mode : String) : UInt32 :=
  let flags :=
    if 'w' ∈ mode.toList then oWronly ||| oCreat ||| oTrunc
    else if 'a' ∈ mode.toList then oWronly ||| oCreat ||| oAppend
    else oRdonly
  if '+' ∈ mode.toList then (flags &&& ~~~(oRdonly ||| oWronly)) ||| oRdwr else flags

/-- Flags with `O_APPEND`. -/
structure AppendFlags where
  flags : UInt32
  appends : flags &&& oAppend ≠ 0

theorem fopenFlags_appends {mode : String} (ha : 'a' ∈ mode.toList) (hw : 'w' ∉ mode.toList) :
    fopenFlags mode &&& oAppend ≠ 0 := by
  unfold fopenFlags
  rw [if_neg hw, if_pos ha]
  split
  · decide
  · decide

/-- `fopen` with an append mode. -/
def AppendFlags.ofFopen (mode : String) (ha : 'a' ∈ mode.toList) (hw : 'w' ∉ mode.toList) :
    AppendFlags :=
  { flags := fopenFlags mode, appends := fopenFlags_appends ha hw }

/-- A call; `open` comes with the number that is handed out. -/
inductive AppendCall where
  | openFile (flags : AppendFlags) (fd : Int)
  | write (fd : Int) (data : List UInt8)
  | close (fd : Int)

/-! ## The log -/

/-- What POSIX makes of the calls: every write goes to the end of the file, unless it would end
where `off_t` does not reach. -/
structure AppendLog where
  size : Nat
  /-- The open descriptors, and how many bytes were written through each. -/
  through : AList fun _ : Int => Nat := ∅
  /-- Where the bytes of the writes are, in the order of the calls. -/
  writes : List Region := []

namespace AppendLog

def openFile (log : AppendLog) (flags : UInt32) (fd : Int) : AppendLog :=
  if fd < 0 then log
  else
    { log with
      size := if flags &&& oTrunc != 0 then 0 else log.size
      through := log.through.insert fd 0 }

def write (log : AppendLog) (fd : Int) (data : List UInt8) : AppendLog :=
  match log.through.lookup fd with
  | none => log
  | some count =>
      if data ≠ [] ∧ log.size + data.length < 2 ^ 63 then
        { size := log.size + data.length
          through := log.through.insert fd (count + data.length)
          writes := log.writes ++ [(log.size, data)] }
      else log

def close (log : AppendLog) (fd : Int) : AppendLog :=
  { log with through := log.through.erase fd }

end AppendLog

/-! ## Runs -/

structure AppendRun where
  adapter : TrackedAdapter
  log : AppendLog

namespace AppendRun

/-- A call. The operating system hands out no number that is in use. -/
def step (session : Session) (outcomes : Outcomes) (path : String) (s : AppendRun) :
    AppendCall → Option AppendRun
  | .openFile flags fd =>
      if s.log.through.lookup fd = none then
        some
          { adapter := (s.adapter.openFile path flags.flags fd).2
            log := s.log.openFile flags.flags fd }
      else none
  | .write fd data =>
      some
        { adapter := (s.adapter.write session outcomes fd data).2, log := s.log.write fd data }
  | .close fd =>
      some { adapter := (s.adapter.close session outcomes fd).2, log := s.log.close fd }

def start (session : Session) (metadata : String → FileMeta) (path : String) : AppendRun :=
  { adapter := .fresh session metadata, log := { size := (metadata path).bytes } }

/-- What was published, and what the open descriptors have in the cache. -/
def held (s : AppendRun) : List Region :=
  s.adapter.writes.map FlushRegion.region ++
    s.log.through.keys.flatMap s.adapter.content.staged

/-- Every write is published, or cached to be published, where the log has it; and there is
nothing else. -/
def Placed (s : AppendRun) : Prop := s.held.Perm s.log.writes

instance Placed.decidable (s : AppendRun) : Decidable s.Placed :=
  inferInstanceAs (Decidable (s.held.Perm s.log.writes))

/-- A write that is not empty goes through an open through which all bytes of the file were
written, and does not end where `off_t` does not reach. -/
def GoesToEnd (s : AppendRun) : AppendCall → Prop
  | .write fd data => ∀ count ∈ s.log.through.lookup fd, data ≠ [] →
      count = s.log.size ∧ s.log.size + data.length < 2 ^ 63
  | _ => True

instance GoesToEnd.decidable (s : AppendRun) : (c : AppendCall) → Decidable (s.GoesToEnd c)
  | .openFile _ _ => inferInstanceAs (Decidable True)
  | .write fd _ => inferInstanceAs (Decidable (∀ count ∈ s.log.through.lookup fd, _))
  | .close _ => inferInstanceAs (Decidable True)

end AppendRun

/-! ## What is held -/

theorem AppendLog.mem_keys {log : AppendLog} {fd : Int} {count : Nat}
    (h : log.through.lookup fd = some count) : fd ∈ log.through.keys :=
  AList.mem_keys.mp (AList.lookup_isSome.mp (by rw [h]; rfl))

section Held

variable {published : List Region} {keys : List Int} {fd : Int}

/-- The regions of the other descriptors. -/
theorem flatMap_erase_update (staged : Int → List Region) (hnodup : keys.Nodup)
    (kept : List Region) :
    (keys.erase fd).flatMap (Function.update staged fd kept) =
      (keys.erase fd).flatMap staged := by
  refine List.flatMap_congr fun fd' hfd' => ?_
  have hne : fd' ≠ fd := fun he => hnodup.not_mem_erase (he ▸ hfd')
  rw [Function.update_of_ne hne]

/-- The regions of one descriptor, apart from those of all others. -/
theorem flatMap_update_perm (staged : Int → List Region) (hnodup : keys.Nodup) (hmem : fd ∈ keys)
    (kept : List Region) :
    (keys.flatMap (Function.update staged fd kept)).Perm
      (kept ++ (keys.erase fd).flatMap staged) := by
  have hperm := (List.perm_cons_erase hmem).flatMap_right (Function.update staged fd kept)
  rwa [List.flatMap_cons, Function.update_self, flatMap_erase_update staged hnodup] at hperm

/-- A write adds its region to what is held, wherever the regions of its descriptor go. -/
theorem held_write_perm {staged : Int → List Region} (hnodup : keys.Nodup) (hmem : fd ∈ keys)
    {gone kept : List Region} {own : Region}
    (hown : (gone ++ kept).Perm (own :: staged fd)) :
    (published ++ gone ++ keys.flatMap (Function.update staged fd kept)).Perm
      (own :: (published ++ keys.flatMap staged)) := by
  have hafter := flatMap_update_perm staged hnodup hmem kept
  have hbefore := flatMap_update_perm staged hnodup hmem (staged fd)
  rw [Function.update_eq_self] at hbefore
  calc (published ++ gone ++ keys.flatMap (Function.update staged fd kept)).Perm
        (published ++ gone ++ (kept ++ (keys.erase fd).flatMap staged)) := hafter.append_left _
    _ = published ++ ((gone ++ kept) ++ (keys.erase fd).flatMap staged) := by
        rw [List.append_assoc, List.append_assoc]
    List.Perm _ (published ++ (own :: staged fd ++ (keys.erase fd).flatMap staged)) :=
        (hown.append_right _).append_left _
    List.Perm _ (own :: (published ++ (staged fd ++ (keys.erase fd).flatMap staged))) :=
        List.perm_middle
    List.Perm _ (own :: (published ++ keys.flatMap staged)) :=
        ((hbefore.symm).append_left _).cons own

end Held

/-- Two lists that differ in one element are no permutations of each other. -/
theorem cons_perm_cons_iff {a b : Region} {regions : List Region} :
    (a :: regions).Perm (b :: regions) ↔ a = b := by
  constructor
  · intro hperm
    by_contra hne
    have hcount := hperm.count_eq a
    rw [List.count_cons_self, List.count_cons_of_ne (Ne.symm hne)] at hcount
    omega
  · rintro rfl
    exact List.Perm.refl _

end Labios
