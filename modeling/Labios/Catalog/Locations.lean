import Mathlib.Algebra.Group.Nat.Defs
import Mathlib.Data.List.Basic
import Mathlib.Data.List.TakeWhile
import Mathlib.Logic.Function.Basic

/-!
# Catalog: file locations

`set_location` and `get_location` of `labios/catalog_manager.cpp`. A file has one whole-file
entry, the latest writer, and a sorted set of ranged entries: the score is the
start offset as a double, the member `"worker:end"`. Nothing ever removes a
ranged entry; an entry of the same worker and end moves to its new score.

`PlacedAt` is the invariant of a file all of whose entries name one worker; `Names`
is that of a catalog in which every file has one.
-/

namespace Labios

/-! ## The sorted set -/

/-- `static_cast<double>` of an unsigned integer: 53 significant bits, ties to
even. -/
def toDouble (n : Nat) : Nat :=
  if n < 2 ^ 53 then n
  else
    let ulp := 2 ^ (n.log2 - 52)
    let half := n % ulp * 2
    if half > ulp ∨ (half = ulp ∧ n / ulp % 2 = 1) then (n / ulp + 1) * ulp else n / ulp * ulp

/-- The member `"worker:end"`. -/
structure LocationMember where
  workerId : Int
  rangeEnd : UInt64
  deriving DecidableEq, Repr

def LocationMember.text (m : LocationMember) : List Char :=
  (toString m.workerId).toList ++ ':' :: (toString m.rangeEnd).toList

structure LocationEntry where
  score : Nat
  member : LocationMember
  deriving DecidableEq, Repr

/-- Order of a sorted set: by score, equal scores by the bytes of the member. -/
def LocationEntry.before (a b : LocationEntry) : Bool :=
  decide (a.score < b.score) ||
    (a.score == b.score && decide (a.member.text.map Char.toNat < b.member.text.map Char.toNat))

/-- `ZADD`: a member that is there already gets the new score. -/
def zadd (entries : List LocationEntry) (e : LocationEntry) : List LocationEntry :=
  let others := entries.filter (fun o => o.member ≠ e.member)
  others.takeWhile (·.before e) ++ e :: others.dropWhile (·.before e)

/-- `ZRANGEBYSCORE 0 max`. -/
def zrangebyscore (entries : List LocationEntry) (max : Nat) : List LocationEntry :=
  entries.filter (fun e => e.score ≤ max)

theorem mem_zadd {entries : List LocationEntry} {e o : LocationEntry} (h : o ∈ zadd entries e) :
    o = e ∨ o ∈ entries := by
  unfold zadd at h
  rcases List.mem_append.mp h with h | h
  · exact .inr (List.mem_of_mem_filter ((List.takeWhile_prefix _).subset h))
  · rcases List.mem_cons.mp h with rfl | h
    · exact .inl rfl
    · exact .inr (List.mem_of_mem_filter ((List.dropWhile_suffix _).subset h))

/-! ## The catalog -/

structure LocationCatalog where
  /-- `labios:location:<path>`. -/
  whole : String → Option Int
  /-- `labios:olocation:<path>`. -/
  ranged : String → List LocationEntry

namespace LocationCatalog

def setLocation (catalog : LocationCatalog) (path : String) (offset length : UInt64)
    (workerId : Int) : LocationCatalog :=
  { whole := Function.update catalog.whole path (some workerId)
    ranged := Function.update catalog.ranged path
      (zadd (catalog.ranged path)
        { score := toDouble offset.toNat, member := { workerId, rangeEnd := offset + length } }) }

/-- The first entry that starts at or below the offset and ends at or behind the
range, else the latest writer of the file. -/
def getLocation (catalog : LocationCatalog) (path : String) (offset length : UInt64) :
    Option Int :=
  if offset = 0 ∧ length = 0 then catalog.whole path
  else
    match (zrangebyscore (catalog.ranged path) (toDouble offset.toNat)).find?
        (fun e => offset + length ≤ e.member.rangeEnd) with
    | some e => some e.member.workerId
    | none => catalog.whole path

/-- Every entry of the file names worker `w`, and there is one. -/
structure PlacedAt (catalog : LocationCatalog) (path : String) (w : Int) : Prop where
  whole : catalog.whole path = some w
  ranged : ∀ e ∈ catalog.ranged path, e.member.workerId = w

/-- No entry of the file. -/
structure Unplaced (catalog : LocationCatalog) (path : String) : Prop where
  whole : catalog.whole path = none
  ranged : catalog.ranged path = []

variable {catalog : LocationCatalog} {path other : String} {offset length : UInt64} {w : Int}

theorem getLocation_of_placedAt (h : catalog.PlacedAt path w) (offset length : UInt64) :
    catalog.getLocation path offset length = some w := by
  unfold getLocation
  split
  · exact h.whole
  · split
    · next e he =>
        have hmem := List.mem_of_find?_eq_some he
        rw [h.ranged e (List.mem_of_mem_filter hmem)]
    · exact h.whole

theorem getLocation_of_unplaced (h : catalog.Unplaced path) (offset length : UInt64) :
    catalog.getLocation path offset length = none := by
  unfold getLocation
  rw [h.ranged]
  simp [zrangebyscore, h.whole]

theorem setLocation_of_ne (h : other ≠ path) :
    (catalog.setLocation path offset length w).whole other = catalog.whole other ∧
      (catalog.setLocation path offset length w).ranged other = catalog.ranged other :=
  ⟨Function.update_of_ne h _ _, Function.update_of_ne h _ _⟩

/-- A location of the same worker keeps a file in its place. -/
theorem placedAt_setLocation (h : catalog.PlacedAt path w ∨ catalog.Unplaced path) :
    (catalog.setLocation path offset length w).PlacedAt path w := by
  refine ⟨Function.update_self .., ?_⟩
  intro e he
  simp only [setLocation, Function.update_self] at he
  rcases mem_zadd he with rfl | he
  · rfl
  · rcases h with h | h
    · exact h.ranged e he
    · rw [h.ranged] at he
      exact absurd he List.not_mem_nil

/-- The part of `get_location` that looks at the ranged entries. -/
def findRanged (catalog : LocationCatalog) (path : String) (offset length : UInt64) :
    Option Int :=
  if offset = 0 ∧ length = 0 then none
  else
    ((zrangebyscore (catalog.ranged path) (toDouble offset.toNat)).find?
      (fun e => offset + length ≤ e.member.rangeEnd)).map (·.member.workerId)

theorem getLocation_eq (catalog : LocationCatalog) (path : String) (offset length : UInt64) :
    catalog.getLocation path offset length =
      (catalog.findRanged path offset length).or (catalog.whole path) := by
  unfold getLocation findRanged
  split
  · rfl
  · split
    · next e he =>
        rw [he]
        rfl
    · next he =>
        rw [he]
        rfl

end LocationCatalog

/-! ## Redis commands -/

/-- The commands that `set_location` sends, one after the other. -/
inductive LocationCommand
  | zadd (path : String) (entry : LocationEntry)
  | set (path : String) (workerId : Int)
  deriving DecidableEq, Repr

namespace LocationCommand

def apply (c : LocationCommand) (catalog : LocationCatalog) : LocationCatalog :=
  match c with
  | zadd path entry =>
      { catalog with
        ranged := Function.update catalog.ranged path (Labios.zadd (catalog.ranged path) entry) }
  | set path workerId =>
      { catalog with whole := Function.update catalog.whole path (some workerId) }

def applyAll (commands : List LocationCommand) (catalog : LocationCatalog) :
    LocationCatalog :=
  commands.foldl (fun catalog c => c.apply catalog) catalog

def settingLocation (path : String) (offset length : UInt64) (workerId : Int) :
    List LocationCommand :=
  [.zadd path
      { score := toDouble offset.toNat, member := { workerId, rangeEnd := offset + length } },
    .set path workerId]

theorem applyAll_settingLocation (path : String) (offset length : UInt64) (workerId : Int)
    (catalog : LocationCatalog) :
    applyAll (settingLocation path offset length workerId) catalog =
      catalog.setLocation path offset length workerId := rfl

theorem applyAll_append (front back : List LocationCommand) (catalog : LocationCatalog) :
    applyAll (front ++ back) catalog = applyAll back (applyAll front catalog) :=
  List.foldl_append ..

end LocationCommand

/-! ## One worker for each file -/

/-- The command names the worker that is home to its file. -/
def LocationCommand.Names (home : String → Option Int) : LocationCommand → Prop
  | zadd path entry => home path = some entry.member.workerId
  | set path workerId => home path = some workerId

/-- Every entry names the worker that is home to its file. -/
structure LocationCatalog.Names (catalog : LocationCatalog) (home : String → Option Int) :
    Prop where
  whole : ∀ path w, catalog.whole path = some w → home path = some w
  ranged : ∀ path, ∀ e ∈ catalog.ranged path, home path = some e.member.workerId

namespace LocationCatalog.Names

variable {catalog : LocationCatalog} {home more : String → Option Int} {path : String} {w : Int}

theorem mono (h : catalog.Names home) (hmore : ∀ path w, home path = some w → more path = some w) :
    catalog.Names more :=
  ⟨fun path w hw => hmore path w (h.whole path w hw),
    fun path e he => hmore path _ (h.ranged path e he)⟩

theorem apply (h : catalog.Names home) {c : LocationCommand} (hc : c.Names home) :
    (c.apply catalog).Names home := by
  cases c with
  | zadd file entry =>
      refine ⟨h.whole, fun path e he => ?_⟩
      change e ∈ Function.update catalog.ranged file _ path at he
      by_cases hpath : path = file
      · subst hpath
        rw [Function.update_self] at he
        rcases mem_zadd he with rfl | he
        · exact hc
        · exact h.ranged path e he
      · rw [Function.update_of_ne hpath] at he
        exact h.ranged path e he
  | set file worker =>
      refine ⟨fun path w hw => ?_, h.ranged⟩
      change Function.update catalog.whole file _ path = some w at hw
      by_cases hpath : path = file
      · subst hpath
        rw [Function.update_self] at hw
        obtain rfl := Option.some.inj hw
        exact hc
      · rw [Function.update_of_ne hpath] at hw
        exact h.whole path w hw

/-- A command leaves the entry of a file that has one. -/
theorem whole_apply (h : catalog.Names home) (hw : catalog.whole path = some w)
    {c : LocationCommand} (hc : c.Names home) : (c.apply catalog).whole path = some w := by
  cases c with
  | zadd file entry => exact hw
  | set file worker =>
      show Function.update catalog.whole file _ path = some w
      by_cases hpath : path = file
      · subst hpath
        rw [Function.update_self, ← hc, h.whole path w hw]
      · rw [Function.update_of_ne hpath, hw]

theorem findRanged (h : catalog.Names home) {offset length : UInt64}
    (hw : catalog.findRanged path offset length = some w) : home path = some w := by
  unfold LocationCatalog.findRanged at hw
  split at hw
  · exact absurd hw (by simp)
  · obtain ⟨e, he, rfl⟩ := Option.map_eq_some_iff.mp hw
    exact h.ranged path e (List.mem_of_mem_filter (List.mem_of_find?_eq_some he))

end LocationCatalog.Names
end Labios
