import Labios.Catalog.Locations
import Labios.Foundation.Decimal
import Labios.Foundation.Separators
import Mathlib.Data.List.Induction
import Mathlib.Data.List.Lex

/-!
# The ranged entries of a file

A sequence of ranged `set_location` calls on one file, and the sorted set that it leaves:
the entries are those of the calls whose worker and end no later call has, in the order of
`LocationEntry.before`, in which no two members are equal.
-/

namespace Foundation

theorem toString_int_inj {x y : Int} (h : (toString x).toList = (toString y).toList) : x = y := by
  have hsign : ∀ n m : Nat, '-' :: Nat.toDigits 10 n ≠ Nat.toDigits 10 m := by
    intro n m heq
    exact notMem_toDigits (show ('-' : Char).isDigit = false by decide) m
      (heq ▸ List.mem_cons_self)
  rw [toList_toString_int, toList_toString_int] at h
  by_cases hx : x < 0
  · by_cases hy : y < 0
    · rw [if_pos hx, if_pos hy] at h
      have := toDigits_inj (List.cons.inj h).2
      omega
    · rw [if_pos hx, if_neg hy] at h
      exact absurd h (hsign _ _)
  · by_cases hy : y < 0
    · rw [if_neg hx, if_pos hy] at h
      exact absurd h.symm (hsign _ _)
    · rw [if_neg hx, if_neg hy] at h
      have := toDigits_inj h
      omega

/-- No digit and no sign is a colon. -/
theorem colon_notMem_int (z : Int) : ':' ∉ (toString z).toList := by
  rw [toList_toString_int]
  have hdigits := notMem_toDigits (show (':' : Char).isDigit = false by decide) z.natAbs
  split
  · intro h
    rcases List.mem_cons.mp h with h | h
    · exact absurd h (by decide)
    · exact hdigits h
  · exact hdigits

end Foundation

namespace Labios

open Foundation

/-! ## The order of a sorted set -/

/-- The bytes by which equal scores are ordered. -/
def LocationMember.codes (m : LocationMember) : List Nat := m.text.map Char.toNat

/-- A member's text names its worker. -/
theorem LocationMember.workerId_of_codes {m n : LocationMember} (h : m.codes = n.codes) :
    m.workerId = n.workerId := by
  have htext : m.text = n.text :=
    List.map_injective_iff.mpr (fun c d hcd => Char.toNat_inj.mp hcd) h
  exact toString_int_inj
    (append_separator_inj (colon_notMem_int _) (colon_notMem_int _) htext).1

namespace LocationEntry

variable {a b c : LocationEntry}

theorem not_before_iff :
    a.before b = false ↔
      b.score < a.score ∨ b.score = a.score ∧ b.member.codes ≤ a.member.codes := by
  have hcodes : ¬a.member.codes < b.member.codes ↔ b.member.codes ≤ a.member.codes := not_lt
  rw [← hcodes]
  unfold before LocationMember.codes
  rw [Bool.or_eq_false_iff, Bool.and_eq_false_imp, beq_iff_eq, decide_eq_false_iff_not,
    decide_eq_false_iff_not]
  constructor
  · rintro ⟨hlt, heq⟩
    rcases Nat.lt_or_ge b.score a.score with h | h
    · exact .inl h
    · have hscore : a.score = b.score := by omega
      exact .inr ⟨hscore.symm, heq hscore⟩
  · rintro (h | ⟨h, hle⟩)
    · exact ⟨by omega, fun heq => by omega⟩
    · exact ⟨by omega, fun _ => hle⟩

theorem not_before_self (a : LocationEntry) : a.before a = false :=
  not_before_iff.mpr (.inr ⟨rfl, le_refl _⟩)

theorem not_before_trans (hba : b.before a = false) (hcb : c.before b = false) :
    c.before a = false := by
  rw [not_before_iff] at hba hcb ⊢
  rcases hba with h1 | ⟨h1, hle1⟩
  · rcases hcb with h2 | ⟨h2, -⟩
    · exact .inl (h1.trans h2)
    · exact .inl (h2 ▸ h1)
  · rcases hcb with h2 | ⟨h2, hle2⟩
    · exact .inl (h1 ▸ h2)
    · exact .inr ⟨h1.trans h2, hle1.trans hle2⟩

theorem not_before_of_before (h : a.before b = true) : b.before a = false := by
  by_contra hba
  rw [Bool.not_eq_false] at hba
  unfold before at h hba
  simp only [Bool.or_eq_true, decide_eq_true_eq, Bool.and_eq_true, beq_iff_eq] at h hba
  rcases h with h | ⟨h, hlt⟩
  · rcases hba with h' | ⟨h', -⟩ <;> omega
  · rcases hba with h' | ⟨-, hlt'⟩
    · omega
    · exact lt_asymm hlt hlt'

/-- Neither of two entries is before the other only if they name one worker. -/
theorem workerId_of_not_before (hab : a.before b = false) (hba : b.before a = false) :
    a.member.workerId = b.member.workerId := by
  rw [not_before_iff] at hab hba
  rcases hab with h | ⟨h, hle⟩
  · rcases hba with h' | ⟨h', -⟩ <;> omega
  · rcases hba with h' | ⟨-, hle'⟩
    · omega
    · exact LocationMember.workerId_of_codes (le_antisymm hle' hle)

end LocationEntry

/-- No entry stands behind one that it is before. -/
def RangedInOrder (entries : List LocationEntry) : Prop :=
  entries.Pairwise fun a b => b.before a = false

theorem RangedInOrder.zadd {entries : List LocationEntry} (h : RangedInOrder entries)
    (e : LocationEntry) : RangedInOrder (zadd entries e) := by
  unfold Labios.zadd
  dsimp only
  let others := entries.filter fun o => o.member ≠ e.member
  have hothers : RangedInOrder others := List.Pairwise.filter _ h
  have hsplit : others.takeWhile (·.before e) ++ others.dropWhile (·.before e) = others :=
    List.takeWhile_append_dropWhile
  unfold RangedInOrder at hothers ⊢
  rw [← hsplit] at hothers
  obtain ⟨hfront, hback, hcross⟩ := List.pairwise_append.mp hothers
  have hlow : ∀ a ∈ others.takeWhile (·.before e), a.before e = true := fun a ha =>
    List.mem_takeWhile_imp (p := fun a : LocationEntry => a.before e) ha
  have hhigh : ∀ b ∈ others.dropWhile (·.before e), b.before e = false := by
    intro b hb
    cases hdrop : others.dropWhile (·.before e) with
    | nil =>
        rw [hdrop] at hb
        cases hb
    | cons first rest =>
        -- the first one is not before `e`, and the rest is not before the first
        have hfirst : first.before e = false := by
          have := List.head?_dropWhile_not (·.before e) others
          rw [hdrop] at this
          simpa using this
        rw [hdrop] at hb hback
        rcases List.mem_cons.mp hb with rfl | hb
        · exact hfirst
        · exact LocationEntry.not_before_trans hfirst ((List.pairwise_cons.mp hback).1 b hb)
  refine List.pairwise_append.mpr ⟨hfront, List.pairwise_cons.mpr ⟨hhigh, hback⟩, ?_⟩
  intro a ha b hb
  rcases List.mem_cons.mp hb with rfl | hb
  · exact LocationEntry.not_before_of_before (hlow a ha)
  · exact hcross a ha b hb

theorem mem_zadd_iff {entries : List LocationEntry} {e o : LocationEntry} :
    o ∈ zadd entries e ↔ o = e ∨ o ∈ entries ∧ o.member ≠ e.member := by
  have hothers : ∀ o, o ∈ (entries.filter fun o => o.member ≠ e.member) ↔
      o ∈ entries ∧ o.member ≠ e.member := by
    intro o
    rw [List.mem_filter, decide_eq_true_iff]
  rw [← hothers o, zadd]
  conv => rhs; rw [← List.takeWhile_append_dropWhile (p := (·.before e)) (l := entries.filter _)]
  rw [List.mem_append, List.mem_cons, List.mem_append]
  exact or_left_comm

/-- What is found first is before everything else that would do. -/
theorem find_ranged {entries : List LocationEntry} (h : RangedInOrder entries)
    {p : LocationEntry → Bool} {e : LocationEntry} (hfind : entries.find? p = some e) :
    e ∈ entries ∧ p e = true ∧ ∀ o ∈ entries, p o = true → o.before e = false := by
  refine ⟨List.mem_of_find?_eq_some hfind, List.find?_some hfind, fun o ho hpo => ?_⟩
  obtain ⟨-, front, back, rfl, hfront⟩ := List.find?_eq_some_iff_append.mp hfind
  rcases List.mem_append.mp ho with ho | ho
  · have := hfront o ho
    rw [hpo] at this
    cases this
  · rcases List.mem_cons.mp ho with rfl | ho
    · exact LocationEntry.not_before_self o
    · exact (List.pairwise_cons.mp (List.pairwise_append.mp h).2.1).1 o ho

/-! ## Calls -/

/-- A ranged `set_location` on the file. -/
structure RangedCall where
  offset : UInt64
  length : UInt64
  workerId : Int
  deriving DecidableEq, Repr

namespace RangedCall

def member (c : RangedCall) : LocationMember :=
  { workerId := c.workerId, rangeEnd := c.offset + c.length }

def entry (c : RangedCall) : LocationEntry :=
  { score := toDouble c.offset.toNat, member := c.member }

def stop (c : RangedCall) : Nat := c.offset.toNat + c.length.toNat

def Contains (c : RangedCall) (offset count : Nat) : Prop :=
  c.offset.toNat ≤ offset ∧ offset + count ≤ c.stop

def Meets (c : RangedCall) (offset count : Nat) : Prop :=
  c.offset.toNat < offset + count ∧ offset < c.stop

instance (c : RangedCall) (offset count : Nat) : Decidable (c.Contains offset count) :=
  inferInstanceAs (Decidable (_ ∧ _))

instance (c : RangedCall) (offset count : Nat) : Decidable (c.Meets offset count) :=
  inferInstanceAs (Decidable (_ ∧ _))

/-- The domain: the range is not empty and its end is exact as a double. -/
def Sized (c : RangedCall) : Prop := 0 < c.length.toNat ∧ c.stop < 2 ^ 53

instance (c : RangedCall) : Decidable c.Sized := inferInstanceAs (Decidable (_ ∧ _))

end RangedCall

def LocationCatalog.setLocations (catalog : LocationCatalog) (path : String)
    (calls : List RangedCall) : LocationCatalog :=
  calls.foldl (fun catalog c => catalog.setLocation path c.offset c.length c.workerId) catalog

/-- No later call has the worker and the end of this one. -/
def Standing (calls : List RangedCall) (d : RangedCall) : Prop :=
  ∃ front back, calls = front ++ d :: back ∧ ∀ c ∈ back, c.member ≠ d.member

theorem standing_concat {calls : List RangedCall} {c d : RangedCall} :
    Standing (calls ++ [c]) d ↔ d = c ∨ Standing calls d ∧ d.member ≠ c.member := by
  constructor
  · rintro ⟨front, back, heq, hback⟩
    rcases List.eq_nil_or_concat back with rfl | ⟨back, last, rfl⟩
    · obtain ⟨-, hlast⟩ := List.append_inj' heq rfl
      exact .inl (List.cons.inj hlast).1.symm
    · -- the new call is one of the later ones
      rw [List.concat_eq_append, ← List.cons_append, ← List.append_assoc] at heq
      obtain ⟨hfront, hlast⟩ := List.append_inj' heq rfl
      obtain rfl := (List.cons.inj hlast).1
      refine .inr ⟨⟨front, back, hfront, fun e he => hback e ?_⟩, fun h => hback c ?_ h.symm⟩
      · rw [List.concat_eq_append]
        exact List.mem_append_left _ he
      · rw [List.concat_eq_append]
        exact List.mem_append_right _ List.mem_cons_self
  · rintro (rfl | ⟨⟨front, back, rfl, hback⟩, hne⟩)
    · exact ⟨calls, [], rfl, fun e he => absurd he List.not_mem_nil⟩
    · refine ⟨front, back ++ [c], by simp, fun e he => ?_⟩
      rcases List.mem_append.mp he with he | he
      · exact hback e he
      · rw [List.mem_singleton.mp he]
        exact hne.symm

namespace LocationCatalog

variable {catalog : LocationCatalog} {path : String} {calls : List RangedCall}

theorem setLocations_concat (c : RangedCall) :
    catalog.setLocations path (calls ++ [c]) =
      (catalog.setLocations path calls).setLocation path c.offset c.length c.workerId := by
  unfold setLocations
  rw [List.foldl_append]
  rfl

theorem ranged_concat (c : RangedCall) :
    (catalog.setLocations path (calls ++ [c])).ranged path =
      zadd ((catalog.setLocations path calls).ranged path) c.entry := by
  rw [setLocations_concat]
  exact Function.update_self ..

/-- The entries are those of the standing calls. -/
theorem mem_ranged_iff (h : catalog.ranged path = []) {e : LocationEntry} :
    e ∈ (catalog.setLocations path calls).ranged path ↔
      ∃ d, Standing calls d ∧ d.entry = e := by
  induction calls using List.reverseRecOn generalizing e with
  | nil =>
      show e ∈ catalog.ranged path ↔ _
      rw [h]
      refine iff_of_false List.not_mem_nil ?_
      rintro ⟨d, ⟨front, back, heq, -⟩, -⟩
      simp at heq
  | append_singleton calls c ih =>
      rw [ranged_concat, mem_zadd_iff, ih]
      constructor
      · rintro (rfl | ⟨⟨d, hd, rfl⟩, hne⟩)
        · exact ⟨c, standing_concat.mpr (.inl rfl), rfl⟩
        · exact ⟨d, standing_concat.mpr (.inr ⟨hd, hne⟩), rfl⟩
      · rintro ⟨d, hd, rfl⟩
        rcases standing_concat.mp hd with rfl | ⟨hd, hne⟩
        · exact .inl rfl
        · exact .inr ⟨⟨d, hd, rfl⟩, hne⟩

theorem ranged_inOrder (h : catalog.ranged path = []) :
    RangedInOrder ((catalog.setLocations path calls).ranged path) := by
  induction calls using List.reverseRecOn with
  | nil =>
      show RangedInOrder (catalog.ranged path)
      rw [h]
      exact List.Pairwise.nil
  | append_singleton calls c ih =>
      rw [ranged_concat]
      exact ih.zadd c.entry

theorem whole_concat (c : RangedCall) :
    (catalog.setLocations path (calls ++ [c])).whole path = some c.workerId := by
  rw [setLocations_concat]
  exact Function.update_self ..

end LocationCatalog
end Labios

/-!
## Who wrote a range last

`get_location` answers with the first entry that contains the range, in the order of the
start offsets. The set does not record when an entry was made: an older entry that begins
in front of a newer one hides it, and a call of the same worker with the same end takes the
entry away from where it was.
-/

namespace Labios

/-- The last call whose range meets the one asked for. -/
def MostRecent (calls : List RangedCall) (offset count : Nat) (c : RangedCall) : Prop :=
  ∃ front back, calls = front ++ c :: back ∧ c.Meets offset count ∧
    ∀ d ∈ back, ¬d.Meets offset count

/-- Of the standing calls that contain the range none comes before this one. -/
structure Foremost (calls : List RangedCall) (offset count : Nat) (d : RangedCall) : Prop where
  standing : Standing calls d
  contains : d.Contains offset count
  first : ∀ e, Standing calls e → e.Contains offset count → e.entry.before d.entry = false

/-- The foremost call names the worker; if no standing call contains the range, the last
call of all does. -/
structure NamesWriter (calls : List RangedCall) (offset count : Nat) (w : Int) : Prop where
  foremost : ∀ d, Foremost calls offset count d → d.workerId = w
  fallback : (∀ d, Standing calls d → ¬d.Contains offset count) →
    ∀ d ∈ calls.getLast?, d.workerId = w

namespace LocationCatalog

variable {catalog : LocationCatalog} {path : String} {calls : List RangedCall}
  {offset length : UInt64}

theorem standing_mem {d : RangedCall} (h : Standing calls d) : d ∈ calls := by
  obtain ⟨front, back, rfl, -⟩ := h
  exact List.mem_append_right _ List.mem_cons_self

/-- What the loop of `get_location` tests, for the entry of a call. -/
theorem contains_iff {d : RangedCall} (hd : d.Sized)
    (hquery : offset.toNat + length.toNat < 2 ^ 53) :
    d.entry.score ≤ toDouble offset.toNat ∧ offset + length ≤ d.entry.member.rangeEnd ↔
      d.Contains offset.toNat length.toNat := by
  obtain ⟨hpos, hstop⟩ := hd
  unfold RangedCall.stop at hstop
  have hscore : d.entry.score = d.offset.toNat := if_pos (by omega)
  have hoffset : toDouble offset.toNat = offset.toNat := if_pos (by omega)
  have hend : d.entry.member.rangeEnd.toNat = d.stop := by
    show (d.offset + d.length).toNat = _
    rw [UInt64.toNat_add, Nat.mod_eq_of_lt (by omega)]
    rfl
  have hsum : (offset + length).toNat = offset.toNat + length.toNat := by
    rw [UInt64.toNat_add, Nat.mod_eq_of_lt (by omega)]
  rw [hscore, hoffset, UInt64.le_iff_toNat_le, hend, hsum]
  rfl

/-- The answer of `get_location` is the foremost call's worker, or the last writer. -/
theorem lookup_cases (hnone : catalog.ranged path = []) (hsized : ∀ d ∈ calls, d.Sized)
    (hcalls : calls ≠ []) (hpos : 0 < length.toNat)
    (hquery : offset.toNat + length.toNat < 2 ^ 53) :
    (∃ d, Foremost calls offset.toNat length.toNat d ∧
      (catalog.setLocations path calls).getLocation path offset length = some d.workerId) ∨
    ((∀ d, Standing calls d → ¬d.Contains offset.toNat length.toNat) ∧
      (catalog.setLocations path calls).getLocation path offset length =
        calls.getLast?.map (·.workerId)) := by
  have hwhole : (catalog.setLocations path calls).whole path =
      calls.getLast?.map (·.workerId) := by
    rcases List.eq_nil_or_concat calls with rfl | ⟨front, c, rfl⟩
    · exact absurd rfl hcalls
    · rw [List.concat_eq_append, whole_concat]
      simp
  have hdomain : ∀ d, Standing calls d →
      (d.entry.score ≤ toDouble offset.toNat ∧ offset + length ≤ d.entry.member.rangeEnd ↔
        d.Contains offset.toNat length.toNat) := fun d hd =>
    contains_iff (hsized d (standing_mem hd)) hquery
  rw [getLocation_eq]
  unfold findRanged
  rw [if_neg fun h => absurd hpos (by simp [h.2]), zrangebyscore, List.find?_filter]
  simp only [decide_eq_true_eq]
  cases hfind : ((catalog.setLocations path calls).ranged path).find? fun e =>
      decide (e.score ≤ toDouble offset.toNat ∧ offset + length ≤ e.member.rangeEnd) with
  | some e =>
      left
      obtain ⟨hmem, htest, hfirst⟩ := find_ranged (ranged_inOrder hnone) hfind
      obtain ⟨d, hd, rfl⟩ := (mem_ranged_iff hnone).mp hmem
      rw [decide_eq_true_eq] at htest
      refine ⟨d, ⟨hd, (hdomain d hd).mp htest, fun e he hcontains => ?_⟩, rfl⟩
      refine hfirst e.entry ((mem_ranged_iff hnone).mpr ⟨e, he, rfl⟩) ?_
      rw [decide_eq_true_eq]
      exact (hdomain e he).mpr hcontains
  | none =>
      right
      refine ⟨fun d hd hcontains => ?_, hwhole⟩
      have htest := List.find?_eq_none.mp hfind d.entry ((mem_ranged_iff hnone).mpr ⟨d, hd, rfl⟩)
      rw [decide_eq_true_eq] at htest
      exact htest ((hdomain d hd).mpr hcontains)

/-- The foremost calls name one worker. -/
theorem Foremost.workerId_eq {count start : Nat} {d e : RangedCall}
    (hd : Foremost calls start count d) (he : Foremost calls start count e) :
    d.workerId = e.workerId :=
  LocationEntry.workerId_of_not_before (he.first d hd.standing hd.contains)
    (hd.first e he.standing he.contains)

/-- The most recent call that meets the range contains it: its worker is the answer exactly
when the foremost standing call that contains the range is one of this worker as well. -/
theorem lookup_lastWriter_iff (hnone : catalog.ranged path = []) (hsized : ∀ d ∈ calls, d.Sized)
    (hpos : 0 < length.toNat) (c : RangedCall)
    (hrecent : MostRecent calls offset.toNat length.toNat c)
    (hcontains : c.Contains offset.toNat length.toNat) :
    (catalog.setLocations path calls).getLocation path offset length = some c.workerId ↔
      NamesWriter calls offset.toNat length.toNat c.workerId := by
  obtain ⟨front, back, rfl, -, -⟩ := hrecent
  have hquery : offset.toNat + length.toNat < 2 ^ 53 :=
    Nat.lt_of_le_of_lt hcontains.2 (hsized c (by simp)).2
  rcases lookup_cases hnone hsized (by simp) hpos hquery with ⟨d, hd, hlookup⟩ | ⟨hmiss, hlookup⟩
  · rw [hlookup, Option.some.injEq]
    constructor
    · intro hw
      refine ⟨fun e he => (Foremost.workerId_eq he hd).trans hw, fun hmiss => ?_⟩
      exact absurd hd.contains (hmiss d hd.standing)
    · exact fun h => h.foremost d hd
  · rw [hlookup]
    constructor
    · intro hw
      refine ⟨fun d hd => absurd hd.contains (hmiss d hd.standing), fun _ d hd => ?_⟩
      rw [Option.mem_def.mp hd] at hw
      exact Option.some.inj hw
    · intro h
      obtain ⟨d, hd⟩ := Option.isSome_iff_exists.mp
        (show (front ++ c :: back).getLast?.isSome = true by simp)
      rw [hd, Option.map_some, h.fallback hmiss d hd]

def noLocations : LocationCatalog := { whole := fun _ => none, ranged := fun _ => [] }

/-- Two workers, each with its own chunk. -/
theorem lookup_lastWriter_chunks :
    (noLocations.setLocations "/f" [⟨0, 10, 1⟩, ⟨10, 10, 2⟩]).getLocation "/f" 10 10 = some 2 := by
  refine (lookup_lastWriter_iff rfl ?_ (by decide) ⟨10, 10, 2⟩
    ⟨[⟨0, 10, 1⟩], [], rfl, by decide, nofun⟩ (by decide)).mpr ⟨fun d hd => ?_, fun _ d hd => ?_⟩
  · decide
  · have hmem := standing_mem hd.standing
    rcases List.mem_cons.mp hmem with rfl | hmem
    · exact absurd hd.contains (by decide)
    · rw [List.mem_singleton.mp hmem]
  · obtain rfl := Option.some.inj hd
    rfl

/-- The second worker wrote into the first one's range, and the first one is named. -/
theorem lookup_hidden :
    MostRecent [⟨0, 100, 1⟩, ⟨50, 10, 2⟩] 50 10 ⟨50, 10, 2⟩ ∧
      RangedCall.Contains ⟨50, 10, 2⟩ 50 10 ∧
      (noLocations.setLocations "/f" [⟨0, 100, 1⟩, ⟨50, 10, 2⟩]).getLocation "/f" 50 10 =
        some 1 := by
  refine ⟨⟨[⟨0, 100, 1⟩], [], rfl, by decide, nofun⟩, by decide, ?_⟩
  decide +kernel

end LocationCatalog
end Labios
