import Labios.Foundation.Machine
import Mathlib.Algebra.Group.Nat.Defs
import Mathlib.Data.List.Basic

/-!
# Label ids

`generate_label_id` of `labios/label.cpp`. An id is a timestamp in milliseconds, the
node of the process and a number of the sequence. Timestamp and sequence are two
atomics; every access to one of them, and every reading of the clock, is a step of its
own, and the steps of all calls interleave.
-/

namespace Labios

open Foundation

/-! ## Layout -/

def kTimestampBits : UInt64 := 41
def kNodeBits : UInt64 := 10
def kSequenceBits : UInt64 := 12
def kMaxSequence : UInt32 := 4096
def kTimestampMask : UInt64 := (1 <<< kTimestampBits) - 1
def kNodeMask : UInt32 := 1023
def kSequenceMask : UInt32 := kMaxSequence - 1

def labelId (node : UInt16) (ms : UInt64) (sequence : UInt32) : UInt64 :=
  ((ms &&& kTimestampMask) <<< (kNodeBits + kSequenceBits)) |||
    ((node.toUInt32 &&& kNodeMask).toUInt64 <<< kSequenceBits) |||
    (sequence &&& kSequenceMask).toUInt64

theorem toNat_labelId (node : UInt16) (ms : UInt64) (sequence : UInt32) :
    (labelId node ms sequence).toNat =
      (ms.toNat % 2 ^ 41) * 2 ^ 22 + (node.toNat % 2 ^ 10) * 2 ^ 12 + sequence.toNat % 2 ^ 12 := by
  have htime : (ms &&& kTimestampMask).toNat = ms.toNat % 2 ^ 41 :=
    Nat.and_two_pow_sub_one_eq_mod ms.toNat 41
  have hnode : (node.toUInt32 &&& kNodeMask).toNat = node.toNat % 2 ^ 10 :=
    Nat.and_two_pow_sub_one_eq_mod node.toNat 10
  have hsequence : (sequence &&& kSequenceMask).toNat = sequence.toNat % 2 ^ 12 :=
    Nat.and_two_pow_sub_one_eq_mod sequence.toNat 12
  have htime_lt := Nat.mod_lt ms.toNat (Nat.two_pow_pos 41)
  have hnode_lt := Nat.mod_lt node.toNat (Nat.two_pow_pos 10)
  have hsequence_lt := Nat.mod_lt sequence.toNat (Nat.two_pow_pos 12)
  have hhigh : ((ms &&& kTimestampMask) <<< (kNodeBits + kSequenceBits)).toNat =
      (ms.toNat % 2 ^ 41) <<< 22 := by
    rw [UInt64.toNat_shiftLeft, htime]
    show _ <<< 22 % 2 ^ 64 = _
    rw [Nat.shiftLeft_eq]
    exact Nat.mod_eq_of_lt (by omega)
  have hmiddle : ((node.toUInt32 &&& kNodeMask).toUInt64 <<< kSequenceBits).toNat =
      (node.toNat % 2 ^ 10) <<< 12 := by
    rw [UInt64.toNat_shiftLeft, UInt32.toNat_toUInt64, hnode]
    show _ <<< 12 % 2 ^ 64 = _
    rw [Nat.shiftLeft_eq]
    exact Nat.mod_eq_of_lt (by omega)
  have hmiddle_lt : (node.toNat % 2 ^ 10) <<< 12 < 2 ^ 22 := by
    rw [Nat.shiftLeft_eq]
    omega
  unfold labelId
  rw [UInt64.toNat_or, UInt64.toNat_or, hhigh, hmiddle, UInt32.toNat_toUInt64, hsequence,
    ← Nat.shiftLeft_add_eq_or_of_lt hmiddle_lt, Nat.shiftLeft_eq, Nat.shiftLeft_eq]
  have hjoin : ms.toNat % 2 ^ 41 * 2 ^ 22 + node.toNat % 2 ^ 10 * 2 ^ 12 =
      (ms.toNat % 2 ^ 41 * 2 ^ 10 + node.toNat % 2 ^ 10) <<< 12 := by
    rw [Nat.shiftLeft_eq]
    omega
  rw [hjoin, ← Nat.shiftLeft_add_eq_or_of_lt hsequence_lt]

/-- An id tells its timestamp and its number. -/
theorem labelId_inj {node : UInt16} {ms ms' : UInt64} {seq seq' : UInt32}
    (hms : ms.toNat < 2 ^ 41) (hms' : ms'.toNat < 2 ^ 41) (hseq : seq.toNat < 2 ^ 12)
    (hseq' : seq'.toNat < 2 ^ 12) (h : labelId node ms seq = labelId node ms' seq') :
    ms = ms' ∧ seq = seq' := by
  have hnat := congrArg UInt64.toNat h
  rw [toNat_labelId, toNat_labelId, Nat.mod_eq_of_lt hms, Nat.mod_eq_of_lt hms',
    Nat.mod_eq_of_lt hseq, Nat.mod_eq_of_lt hseq'] at hnat
  have hnode := Nat.mod_lt node.toNat (Nat.two_pow_pos 10)
  exact ⟨UInt64.toNat_inj.mp (by omega), UInt32.toNat_inj.mp (by omega)⟩

/-! ## Steps -/

/-- Where a call stands. -/
inductive IdCall
  /-- About to read the clock, at the start or after the sequence was exhausted. -/
  | clock
  /-- About to load `last_ms`. -/
  | load (nowMs : UInt64)
  /-- At the comparison in the loop. -/
  | loop (nowMs prevMs : UInt64)
  /-- The exchange failed: about to read the clock again. -/
  | retry (prevMs : UInt64)
  /-- The exchange succeeded: about to reset the sequence. -/
  | claimed (nowMs : UInt64)
  | returned (ms : UInt64) (sequence : UInt32)
  deriving DecidableEq

structure SnowflakeState where
  lastMs : UInt64 := 0
  sequence : UInt32 := 0
  node : UInt16
  nowMs : UInt64 := 0
  calls : List IdCall := []
  deriving DecidableEq

inductive IdAction
  /-- The clock goes on; it never goes back. -/
  | ticks (nowMs : UInt64)
  | begins
  | advances (i : Nat)
  deriving DecidableEq

namespace SnowflakeState

/-- One step of a call, and what it makes of the two atomics. -/
def callStep (s : SnowflakeState) : IdCall → Option (UInt64 × UInt32 × IdCall)
  | .clock => some (s.lastMs, s.sequence, .load s.nowMs)
  | .load nowMs => some (s.lastMs, s.sequence, .loop nowMs s.lastMs)
  | .loop nowMs prevMs =>
      if prevMs < nowMs then
        if s.lastMs = prevMs then some (nowMs, s.sequence, .claimed nowMs)
        else some (s.lastMs, s.sequence, .retry s.lastMs)
      else if s.sequence < kMaxSequence then
        some (s.lastMs, s.sequence + 1, .returned prevMs s.sequence)
      else some (s.lastMs, s.sequence + 1, .clock)
  | .retry prevMs => some (s.lastMs, s.sequence, .loop s.nowMs prevMs)
  | .claimed nowMs => some (s.lastMs, 1, .returned nowMs 0)
  | .returned _ _ => none

def step (s : SnowflakeState) : IdAction → Option SnowflakeState
  | .ticks nowMs => if s.nowMs ≤ nowMs then some { s with nowMs } else none
  | .begins => some { s with calls := s.calls ++ [.clock] }
  | .advances i =>
      s.calls[i]?.bind fun call =>
        (s.callStep call).map fun (lastMs, sequence, call) =>
          { s with lastMs, sequence, calls := s.calls.set i call }

/-- The id that a call has returned. -/
def result (s : SnowflakeState) (i : Nat) : Option UInt64 :=
  match s.calls[i]? with
  | some (.returned ms sequence) => some (labelId s.node ms sequence)
  | _ => none

end SnowflakeState
end Labios

/-!
## Label ids of one call after the other

`generate_label_id` of `labios/label.cpp` where no other call is under way: the exchange of
`last_ms` then always succeeds, and what is left of a call is one loop over the readings of
the clock. It is what the interleaved model does when a call runs alone (`reaches_alone`).

A call that finds the sequence used up increments it once per reading until the clock has
advanced. As long as the increments do not wrap around (`call_spin`), every id lies behind
all ids before it (`call_spec`).
-/

namespace Labios

open Foundation

/-- The two atomics and the node of the process, between two calls. -/
structure IdGenerator where
  lastMs : UInt64 := 0
  sequence : UInt32 := 0
  node : UInt16
  deriving DecidableEq, Repr

namespace IdGenerator

/-- One call. The list holds what the clock reads from now on, one reading a turn; the id
comes with the generator and the readings that are left. -/
def call : IdGenerator → List UInt64 → Option (UInt64 × IdGenerator × List UInt64)
  | _, [] => none
  | g, nowMs :: rest =>
      if g.lastMs < nowMs then
        some (labelId g.node nowMs 0, { g with lastMs := nowMs, sequence := 1 }, rest)
      else if g.sequence < kMaxSequence then
        some (labelId g.node g.lastMs g.sequence, { g with sequence := g.sequence + 1 }, rest)
      else call { g with sequence := g.sequence + 1 } rest

/-- Calls made one after the other, and the ids they return. -/
def calls : Nat → IdGenerator → List UInt64 → Option (List UInt64)
  | 0, _, _ => some []
  | n + 1, g, readings =>
      (g.call readings).bind fun r => (calls n r.2.1 r.2.2).map (r.1 :: ·)

/-- Whenever a call finds the sequence used up, the clock advances within `limit` retries:
the first reading or one of the `limit` after it is past the last timestamp. -/
def AdvancesWithin (limit : Nat) : Nat → IdGenerator → List UInt64 → Prop
  | 0, _, _ => True
  | n + 1, g, readings =>
      (kMaxSequence ≤ g.sequence → ∃ nowMs ∈ readings.take (limit + 1), g.lastMs < nowMs) ∧
        ∀ id g' rest, g.call readings = some (id, g', rest) → AdvancesWithin limit n g' rest

/-! ## One turn -/

section Turn

variable {g : IdGenerator} {nowMs : UInt64} {rest : List UInt64}

theorem call_advance (h : g.lastMs < nowMs) :
    g.call (nowMs :: rest) =
      some (labelId g.node nowMs 0, { g with lastMs := nowMs, sequence := 1 }, rest) := by
  rw [call, if_pos h]

theorem call_same (h : ¬g.lastMs < nowMs) (hseq : g.sequence < kMaxSequence) :
    g.call (nowMs :: rest) =
      some (labelId g.node g.lastMs g.sequence, { g with sequence := g.sequence + 1 }, rest) := by
  rw [call, if_neg h, if_pos hseq]

theorem call_retry (h : ¬g.lastMs < nowMs) (hseq : kMaxSequence ≤ g.sequence) :
    g.call (nowMs :: rest) = call { g with sequence := g.sequence + 1 } rest := by
  rw [call, if_neg h, if_neg (UInt32.not_lt.mpr hseq)]

end Turn

/-! ## Retries -/

/-- The sequence after `count` increments from zero. -/
theorem ofNat_succ (count : Nat) : UInt32.ofNat count + 1 = UInt32.ofNat (count + 1) := by
  apply UInt32.toNat_inj.mp
  rw [UInt32.toNat_add, UInt32.toNat_ofNat', UInt32.toNat_ofNat']
  show (count % 2 ^ 32 + 1) % 2 ^ 32 = (count + 1) % 2 ^ 32
  omega

theorem kMaxSequence_le {count : Nat} (hlow : 4096 ≤ count) (hhigh : count < 2 ^ 32) :
    kMaxSequence ≤ UInt32.ofNat count := by
  rw [UInt32.le_iff_toNat_le, UInt32.toNat_ofNat', Nat.mod_eq_of_lt hhigh]
  exact hlow

/-- A sequence that is used up and does not wrap before the clock advances: the call
returns the first number of the new timestamp. -/
theorem call_spin {g : IdGenerator} {readings rest : List UInt64} {id : UInt64} {g' : IdGenerator}
    {count limit : Nat} (hcount : 4096 ≤ count) (hlimit : count + limit ≤ 2 ^ 32)
    (hadvance : ∃ nowMs ∈ readings.take (limit + 1), g.lastMs < nowMs)
    (h : call { g with sequence := UInt32.ofNat count } readings = some (id, g', rest)) :
    ∃ nowMs ∈ readings, g.lastMs < nowMs ∧ id = labelId g.node nowMs 0 ∧
      g' = { g with lastMs := nowMs, sequence := 1 } ∧ rest <:+ readings := by
  induction readings generalizing count limit with
  | nil => cases h
  | cons now readings ih =>
      by_cases hnow : g.lastMs < now
      · rw [call_advance (g := { g with sequence := UInt32.ofNat count }) hnow] at h
        obtain ⟨rfl, rfl, rfl⟩ : _ ∧ _ ∧ _ := by simpa using h
        exact ⟨now, List.mem_cons_self, hnow, rfl, rfl, List.suffix_cons _ _⟩
      · -- a stale reading, so the clock advances among the retries that are left
        obtain ⟨nowMs, hmem, hlt⟩ := hadvance
        rw [List.take_succ_cons] at hmem
        rcases List.mem_cons.mp hmem with rfl | hmem
        · exact absurd hlt hnow
        · cases limit with
          | zero => cases hmem
          | succ limit =>
              rw [call_retry (g := { g with sequence := UInt32.ofNat count }) hnow
                (kMaxSequence_le hcount (by omega))] at h
              dsimp only at h
              rw [ofNat_succ] at h
              obtain ⟨found, hfound, hrest⟩ :=
                ih (show 4096 ≤ count + 1 by omega) (by omega) ⟨nowMs, hmem, hlt⟩ h
              refine ⟨found, List.mem_cons_of_mem _ hfound, hrest.1, hrest.2.1, hrest.2.2.1, ?_⟩
              exact hrest.2.2.2.trans (List.suffix_cons _ _)

/-! ## One call -/

/-- All ids given out so far are below this number. -/
def frontier (g : IdGenerator) : Nat :=
  g.lastMs.toNat * 2 ^ 22 + g.node.toNat % 2 ^ 10 * 2 ^ 12 + g.sequence.toNat

/-- Between two calls: a timestamp that fits, and a sequence that is at most used up. -/
structure Ready (g : IdGenerator) : Prop where
  fits : g.lastMs.toNat < 2 ^ 41
  bounded : g.sequence.toNat ≤ 4096

theorem ready_fresh (node : UInt16) : Ready { node } :=
  ⟨Nat.two_pow_pos 41, Nat.zero_le _⟩

/-- The first number of a later timestamp lies behind everything given out before. -/
theorem frontier_le_advance {g : IdGenerator} (hg : g.Ready) {nowMs : UInt64}
    (hnow : nowMs.toNat < 2 ^ 41) (hlt : g.lastMs < nowMs) :
    g.frontier ≤ (labelId g.node nowMs 0).toNat ∧
      (labelId g.node nowMs 0).toNat <
        frontier { g with lastMs := nowMs, sequence := 1 } ∧
      Ready { g with lastMs := nowMs, sequence := 1 } := by
  have hlt' := UInt64.lt_iff_toNat_lt.mp hlt
  have hnode := Nat.mod_lt g.node.toNat (Nat.two_pow_pos 10)
  have hbounded := hg.bounded
  rw [toNat_labelId, Nat.mod_eq_of_lt hnow]
  refine ⟨?_, ?_, hnow, by show (1 : Nat) ≤ 4096; omega⟩
  · show g.lastMs.toNat * 2 ^ 22 + _ + _ ≤ nowMs.toNat * 2 ^ 22 + _ + 0
    omega
  · show _ + 0 < nowMs.toNat * 2 ^ 22 + g.node.toNat % 2 ^ 10 * 2 ^ 12 + 1
    omega

/-- **One call.** Its id is behind all ids before it, and in front of all later ones. -/
theorem call_spec {g g' : IdGenerator} {readings rest : List UInt64} {id : UInt64} (hg : g.Ready)
    (hshort : ∀ nowMs ∈ readings, nowMs.toNat < 2 ^ 41)
    (hadvance : kMaxSequence ≤ g.sequence →
      ∃ nowMs ∈ readings.take (2 ^ 32 - 4096 + 1), g.lastMs < nowMs)
    (h : g.call readings = some (id, g', rest)) :
    g.frontier ≤ id.toNat ∧ id.toNat < g'.frontier ∧ g'.Ready ∧ rest <:+ readings := by
  cases readings with
  | nil => cases h
  | cons now readings =>
      by_cases hnow : g.lastMs < now
      · rw [call_advance hnow] at h
        obtain ⟨rfl, rfl, rfl⟩ : _ ∧ _ ∧ _ := by simpa using h
        obtain ⟨h1, h2, h3⟩ := frontier_le_advance hg (hshort now List.mem_cons_self) hnow
        exact ⟨h1, h2, h3, List.suffix_cons _ _⟩
      · by_cases hseq : g.sequence < kMaxSequence
        · rw [call_same hnow hseq] at h
          obtain ⟨rfl, rfl, rfl⟩ : _ ∧ _ ∧ _ := by simpa using h
          have hfits := hg.fits
          have hseq' : g.sequence.toNat < 4096 := UInt32.lt_iff_toNat_lt.mp hseq
          have hnext : (g.sequence + 1).toNat = g.sequence.toNat + 1 := by
            rw [UInt32.toNat_add]
            exact Nat.mod_eq_of_lt (by show g.sequence.toNat + 1 < 2 ^ 32; omega)
          rw [toNat_labelId, Nat.mod_eq_of_lt hfits,
            Nat.mod_eq_of_lt (show g.sequence.toNat < 2 ^ 12 by omega)]
          refine ⟨Nat.le_refl _, ?_, ⟨hfits, ?_⟩, List.suffix_cons _ _⟩
          · show _ < g.lastMs.toNat * 2 ^ 22 + g.node.toNat % 2 ^ 10 * 2 ^ 12 +
              (g.sequence + 1).toNat
            omega
          · show (g.sequence + 1).toNat ≤ 4096
            omega
        · have hused : kMaxSequence ≤ g.sequence := UInt32.not_lt.mp hseq
          have hcount : g.sequence.toNat = 4096 :=
            Nat.le_antisymm hg.bounded (UInt32.le_iff_toNat_le.mp hused)
          have hsame : g = { g with sequence := UInt32.ofNat 4096 } := by
            have : g.sequence = UInt32.ofNat 4096 := UInt32.toNat_inj.mp hcount
            rw [← this]
          rw [hsame] at h
          obtain ⟨found, hfound, hlt, rfl, rfl, hrest⟩ :=
            call_spin (Nat.le_refl 4096) (by decide) (hadvance hused) h
          obtain ⟨h1, h2, h3⟩ := frontier_le_advance hg (hshort found hfound) hlt
          exact ⟨h1, h2, h3, hrest⟩

end IdGenerator

/-! ## A call that runs alone -/

namespace SnowflakeState

/-- What the calls of a run leave to the next one. -/
def generator (s : SnowflakeState) : IdGenerator :=
  { lastMs := s.lastMs, sequence := s.sequence, node := s.node }

/-- The machine gets from the first state to the second. -/
def Reaches (s s' : SnowflakeState) : Prop := ∃ actions, exec step s actions = some s'

theorem Reaches.refl (s : SnowflakeState) : Reaches s s := ⟨[], rfl⟩

theorem Reaches.head {s s₁ s' : SnowflakeState} {a : IdAction} (h : s.step a = some s₁)
    (hrest : Reaches s₁ s') : Reaches s s' := by
  obtain ⟨actions, hactions⟩ := hrest
  exact ⟨a :: actions, by rw [exec, h, Option.bind_some, hactions]⟩

/-- The last call of the run takes a step. -/
theorem step_last {s : SnowflakeState} {before : List IdCall} {call call' : IdCall}
    {lastMs : UInt64} {sequence : UInt32} (hcalls : s.calls = before ++ [call])
    (hstep : s.callStep call = some (lastMs, sequence, call')) :
    s.step (.advances before.length) =
      some { s with lastMs, sequence, calls := before ++ [call'] } := by
  have hget : s.calls[before.length]? = some call := by
    rw [hcalls, List.getElem?_append_right (Nat.le_refl _), Nat.sub_self]
    rfl
  have hset : s.calls.set before.length call' = before ++ [call'] := by
    rw [hcalls, List.set_append_right _ _ (Nat.le_refl _), Nat.sub_self]
    rfl
  show (s.calls[before.length]?.bind _) = _
  rw [hget, Option.bind_some, hstep, Option.map_some, ← hset]

/-- One reading of the clock, up to the comparison. -/
theorem Reaches.read {s s' : SnowflakeState} {before : List IdCall} {nowMs : UInt64}
    (hcalls : s.calls = before ++ [.clock]) (hle : s.nowMs ≤ nowMs)
    (h : Reaches { s with nowMs, calls := before ++ [.loop nowMs s.lastMs] } s') :
    Reaches s s' := by
  have hticks : s.step (.ticks nowMs) = some { s with nowMs } := if_pos hle
  have hclock : step { s with nowMs } (.advances before.length) =
      some { s with nowMs, calls := before ++ [.load nowMs] } := step_last hcalls rfl
  have hload : step { s with nowMs, calls := before ++ [.load nowMs] } (.advances before.length) =
      some { s with nowMs, calls := before ++ [.loop nowMs s.lastMs] } := step_last rfl rfl
  exact .head hticks (.head hclock (.head hload h))

/-- The turns of a call that has been begun. -/
theorem reaches_call {s : SnowflakeState} {before : List IdCall} {readings rest : List UInt64}
    {id : UInt64} {g' : IdGenerator} (hcalls : s.calls = before ++ [.clock])
    (hclock : (s.nowMs :: readings).Pairwise (· ≤ ·))
    (h : s.generator.call readings = some (id, g', rest)) :
    ∃ s' ms sequence, Reaches s s' ∧ s'.generator = g' ∧
      s'.calls = before ++ [.returned ms sequence] ∧ labelId s'.node ms sequence = id ∧
      (s'.nowMs :: rest).Pairwise (· ≤ ·) := by
  induction readings generalizing s with
  | nil => cases h
  | cons nowMs readings ih =>
      obtain ⟨hnow, hlater⟩ := List.pairwise_cons.mp hclock
      have hread : ∀ s', Reaches { s with nowMs, calls := before ++ [.loop nowMs s.lastMs] } s' →
          Reaches s s' := fun s' => Reaches.read hcalls (hnow nowMs List.mem_cons_self)
      by_cases hlt : s.lastMs < nowMs
      · -- the exchange succeeds and the sequence is reset
        rw [IdGenerator.call_advance (g := s.generator) hlt] at h
        obtain ⟨rfl, rfl, rfl⟩ : _ ∧ _ ∧ _ := by simpa using h
        have hexchange : step { s with nowMs, calls := before ++ [.loop nowMs s.lastMs] }
            (.advances before.length) =
              some { s with lastMs := nowMs, nowMs, calls := before ++ [.claimed nowMs] } :=
          step_last rfl (by rw [callStep, if_pos hlt, if_pos rfl])
        have hreset : step { s with lastMs := nowMs, nowMs, calls := before ++ [.claimed nowMs] }
            (.advances before.length) =
              some { s with
                lastMs := nowMs, sequence := 1, nowMs, calls := before ++ [.returned nowMs 0] } :=
          step_last rfl rfl
        exact ⟨_, nowMs, 0, hread _ (.head hexchange (.head hreset (.refl _))), rfl, rfl, rfl,
          hlater⟩
      · by_cases hseq : s.sequence < kMaxSequence
        · rw [IdGenerator.call_same (g := s.generator) hlt hseq] at h
          obtain ⟨rfl, rfl, rfl⟩ : _ ∧ _ ∧ _ := by simpa using h
          have htake : step { s with nowMs, calls := before ++ [.loop nowMs s.lastMs] }
              (.advances before.length) =
                some { s with
                  sequence := s.sequence + 1
                  nowMs
                  calls := before ++ [.returned s.lastMs s.sequence] } :=
            step_last rfl (by rw [callStep, if_neg hlt, if_pos hseq])
          exact ⟨_, s.lastMs, s.sequence, hread _ (.head htake (.refl _)), rfl, rfl, rfl, hlater⟩
        · rw [IdGenerator.call_retry (g := s.generator) hlt (UInt32.not_lt.mp hseq)] at h
          have hretry : step { s with nowMs, calls := before ++ [.loop nowMs s.lastMs] }
              (.advances before.length) =
                some { s with sequence := s.sequence + 1, nowMs, calls := before ++ [.clock] } :=
            step_last rfl (by rw [callStep, if_neg hlt, if_neg hseq])
          obtain ⟨s', ms, sequence, hreach, hrest⟩ := ih
            (s := { s with sequence := s.sequence + 1, nowMs, calls := before ++ [.clock] })
            rfl hlater h
          exact ⟨s', ms, sequence, hread _ (.head hretry hreach), hrest⟩

/-- **A call alone.** After any calls that have returned or stand still, the interleaved
model can let one call run to its end, and then it returns what `IdGenerator.call` does. -/
theorem reaches_alone {s : SnowflakeState} {readings rest : List UInt64} {id : UInt64}
    {g' : IdGenerator} (hclock : (s.nowMs :: readings).Pairwise (· ≤ ·))
    (h : s.generator.call readings = some (id, g', rest)) :
    ∃ s', Reaches s s' ∧ s'.generator = g' ∧ s'.result s.calls.length = some id ∧
      s'.calls.take s.calls.length = s.calls ∧ (s'.nowMs :: rest).Pairwise (· ≤ ·) := by
  have hbegins : s.step .begins = some { s with calls := s.calls ++ [.clock] } := rfl
  obtain ⟨s', ms, sequence, hreach, hgenerator, hcalls, hid, hlater⟩ :=
    reaches_call (s := { s with calls := s.calls ++ [.clock] }) rfl hclock h
  refine ⟨s', .head hbegins hreach, hgenerator, ?_, ?_, hlater⟩
  · have hlast : s'.calls[s.calls.length]? = some (.returned ms sequence) := by
      rw [hcalls, List.getElem?_append_right (Nat.le_refl _), Nat.sub_self]
      rfl
    rw [result, hlast]
    exact congrArg some hid
  · rw [hcalls, List.take_left]

end SnowflakeState
end Labios
