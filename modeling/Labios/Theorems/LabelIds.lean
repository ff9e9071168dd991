import Labios.Foundation.Entries
import Labios.Label.Ids

/-!
# Label ids increase

Is every id greater than the one before it, when the calls are made one after the other?
A call that finds the sequence used up goes on incrementing it until the clock advances,
and the sequence has 32 bits. After `2 ^ 32 - 4096` retries on one reading of the clock it is
zero again, and the numbers of that millisecond are given out once more (`ids_repeat`). A
clock that advances within that many retries is in time, and the ids increase
(`label_ids_increase`).
-/

namespace Labios

open Foundation

namespace IdGenerator

variable {g : IdGenerator} {ms : UInt64} {rest readings : List UInt64}

/-- All ids of a run lie behind those before it, in the order of the calls. -/
theorem calls_spec {n : Nat} {ids : List UInt64} (hg : g.Ready)
    (hshort : ∀ nowMs ∈ readings, nowMs.toNat < 2 ^ 41)
    (hadvance : AdvancesWithin (2 ^ 32 - 4096) n g readings)
    (h : calls n g readings = some ids) :
    (∀ id ∈ ids, g.frontier ≤ id.toNat) ∧ ids.Pairwise (· < ·) := by
  induction n generalizing g readings ids with
  | zero =>
      obtain rfl := Option.some.inj h
      exact ⟨fun id hid => (by cases hid), .nil⟩
  | succ n ih =>
      obtain ⟨⟨id, g', rest⟩, hcall, hrest⟩ := Option.bind_eq_some_iff.mp h
      obtain ⟨later, hlater, rfl⟩ := Option.map_eq_some_iff.mp hrest
      obtain ⟨hfirst, hnext⟩ := hadvance
      obtain ⟨hlow, hhigh, hready, hsuffix⟩ := call_spec hg hshort hfirst hcall
      obtain ⟨hbehind, hpairwise⟩ :=
        ih hready (fun nowMs hmem => hshort nowMs (hsuffix.subset hmem)) (hnext _ _ _ hcall) hlater
      refine ⟨fun other hother => ?_, List.pairwise_cons.mpr ⟨fun other hother => ?_, hpairwise⟩⟩
      · rcases List.mem_cons.mp hother with rfl | hother
        · exact hlow
        · have := hbehind other hother
          omega
      · exact UInt64.lt_iff_toNat_lt.mpr (Nat.lt_of_lt_of_le hhigh (hbehind other hother))

/-! ## A clock that stands still -/

/-- The sequence counted, with the timestamp claimed. -/
def counted (node : UInt16) (ms : UInt64) (count : Nat) : IdGenerator :=
  { lastMs := ms, sequence := UInt32.ofNat count, node }

/-- Retries on a clock that stands still only count. -/
theorem call_still (node : UInt16) {count k : Nat} (hcount : 4096 ≤ count)
    (hk : count + k ≤ 2 ^ 32) :
    (counted node ms count).call (List.replicate k ms ++ rest) =
      (counted node ms (count + k)).call rest := by
  induction k generalizing count with
  | zero => rfl
  | succ k ih =>
      have hnot : ¬(counted node ms count).lastMs < ms := UInt64.lt_irrefl ms
      rw [List.replicate_succ, List.cons_append, call_retry hnot (kMaxSequence_le hcount (by omega))]
      show call { lastMs := ms, sequence := UInt32.ofNat count + 1, node } _ = _
      rw [ofNat_succ, ← counted, ih (by omega) (by omega), Nat.add_right_comm, Nat.add_assoc]

theorem call_number (node : UInt16) {count : Nat} (hcount : UInt32.ofNat count < kMaxSequence) :
    (counted node ms count).call (ms :: rest) =
      some (labelId node ms (UInt32.ofNat count), counted node ms (count + 1), rest) := by
  have hnot : ¬(counted node ms count).lastMs < ms := UInt64.lt_irrefl ms
  rw [call_same hnot hcount, counted, counted, ← ofNat_succ]

theorem ofNat_lt_kMaxSequence {count : Nat} (h : count < 4096) :
    UInt32.ofNat count < kMaxSequence := by
  rw [UInt32.lt_iff_toNat_lt, UInt32.toNat_ofNat', Nat.mod_eq_of_lt (by omega)]
  exact h

/-- The numbers of one millisecond are given out in order, without a retry. -/
theorem calls_still (node : UInt16) (n : Nat) {count k : Nat} (hk : count + k ≤ 4096) :
    calls (k + n) (counted node ms count) (List.replicate k ms ++ rest) =
      (calls n (counted node ms (count + k)) rest).map
        ((List.range' count k).map (fun i => labelId node ms (UInt32.ofNat i)) ++ ·) := by
  induction k generalizing count with
  | zero =>
      rw [Nat.zero_add]
      exact Option.map_id'.symm
  | succ k ih =>
      rw [Nat.add_right_comm, List.replicate_succ, List.cons_append, calls,
        call_number node (ofNat_lt_kMaxSequence (by omega)), Option.bind_some, ih (by omega),
        Option.map_map, Nat.add_right_comm, Nat.add_assoc]
      rfl

theorem advancesWithin_still (node : UInt16) (limit n : Nat) {count k : Nat}
    (hk : count + k ≤ 4096)
    (h : AdvancesWithin limit n (counted node ms (count + k)) rest) :
    AdvancesWithin limit (k + n) (counted node ms count) (List.replicate k ms ++ rest) := by
  induction k generalizing count with
  | zero => rwa [Nat.zero_add]
  | succ k ih =>
      rw [Nat.add_right_comm, List.replicate_succ, List.cons_append]
      have hlt := ofNat_lt_kMaxSequence (show count < 4096 by omega)
      refine ⟨fun hused => absurd hlt (UInt32.not_lt.mpr hused), fun id g' rest' hcall => ?_⟩
      rw [call_number node hlt] at hcall
      obtain ⟨-, rfl, rfl⟩ : _ ∧ _ ∧ _ := by simpa using hcall
      exact ih (by omega) (by rwa [Nat.add_right_comm, Nat.add_assoc])

/-- The first call of a process claims the time it reads. -/
theorem call_first (node : UInt16) (hms : 0 < ms) :
    call { node } (ms :: rest) = some (labelId node ms 0, counted node ms 1, rest) :=
  call_advance hms

theorem calls_first (node : UInt16) (n : Nat) (hms : 0 < ms) :
    calls (n + 1) { node } (ms :: rest) =
      (calls n (counted node ms 1) rest).map (labelId node ms 0 :: ·) := by
  rw [calls, call_first node hms, Option.bind_some]

theorem advancesWithin_first (node : UInt16) (limit n : Nat) (hms : 0 < ms)
    (h : AdvancesWithin limit n (counted node ms 1) rest) :
    AdvancesWithin limit (n + 1) { node } (ms :: rest) := by
  refine ⟨fun hused => absurd hused (UInt32.not_le.mpr (ofNat_lt_kMaxSequence (by decide))),
    fun id g' rest' hcall => ?_⟩
  rw [call_first node hms] at hcall
  obtain ⟨-, rfl, rfl⟩ : _ ∧ _ ∧ _ := by simpa using hcall
  exact h

end IdGenerator

open IdGenerator

/-- **Increasing ids.** However many calls are made one after the other, and however many
of them in one millisecond: each id is greater than all before it, if the clock stays below
`2 ^ 41` milliseconds and, whenever the sequence is used up, advances within `2 ^ 32 - 4096`
retries. -/
theorem label_ids_increase (node : UInt16) {n : Nat} {readings ids : List UInt64}
    (hshort : ∀ nowMs ∈ readings, nowMs.toNat < 2 ^ 41)
    (hadvance : AdvancesWithin (2 ^ 32 - 4096) n { node } readings)
    (h : calls n { node } readings = some ids) : ids.Pairwise (· < ·) :=
  (calls_spec (ready_fresh node) hshort hadvance h).2

/-- Two ids of one millisecond. -/
theorem two_ids_increase : [labelId 5 7 0, labelId 5 7 1].Pairwise (· < ·) := by
  have hshort : ∀ nowMs ∈ [(7 : UInt64), 7], nowMs.toNat < 2 ^ 41 := by
    intro nowMs hmem
    rw [List.eq_of_mem_replicate (n := 2) hmem]
    decide
  exact label_ids_increase 5 (n := 2) hshort
    (advancesWithin_first 5 _ 1 (by decide)
      (advancesWithin_still 5 _ 0 (k := 1) (by decide) True.intro)) rfl

/-- The clock reads the same millisecond `2 ^ 32 + 1` times, and then the next one. -/
def stuckClock : List UInt64 := List.replicate (2 ^ 32 + 1) 1 ++ [2]

/-- The readings of the first call, of the 4095 after it, and of the one that retries. -/
theorem stuckClock_eq :
    stuckClock = 1 :: (List.replicate 4095 1 ++ (List.replicate (2 ^ 32 - 4096) 1 ++ [1, 2])) := by
  have hlength : 2 ^ 32 + 1 = (4095 + (2 ^ 32 - 4096 + 1)) + 1 := by omega
  rw [stuckClock, hlength, List.replicate_succ, List.replicate_add, List.replicate_add,
    List.cons_append, List.append_assoc, List.append_assoc]
  rfl

/-- The sequence of one millisecond is used up after 4096 calls; the next call retries
`2 ^ 32 - 4096` times, which brings the sequence back to zero, and returns the first id of
the millisecond again. -/
theorem ids_repeat :
    stuckClock.Pairwise (· ≤ ·) ∧ (∀ nowMs ∈ stuckClock, nowMs.toNat < 2 ^ 41) ∧
      AdvancesWithin (2 ^ 32 - 2) 4097 { node := 0 } stuckClock ∧
      ∃ ids, calls 4097 { node := 0 } stuckClock = some ids ∧ ¬ids.Pairwise (· < ·) := by
  have hmem : ∀ nowMs ∈ stuckClock, nowMs = 1 ∨ nowMs = 2 := by
    intro nowMs hmem
    rcases List.mem_append.mp hmem with hone | htwo
    · exact .inl (List.eq_of_mem_replicate hone)
    · exact .inr (List.mem_singleton.mp htwo)
  refine ⟨?_, fun nowMs h => ?_, ?_, ?_⟩
  · refine List.pairwise_append.mpr ⟨List.pairwise_replicate.mpr (.inr (UInt64.le_refl 1)),
      List.pairwise_singleton _ _, fun a ha b hb => ?_⟩
    rw [List.eq_of_mem_replicate ha, List.mem_singleton.mp hb]
    decide
  · rcases hmem nowMs h with rfl | rfl
    · decide
    · decide
  · rw [stuckClock_eq]
    refine advancesWithin_first 0 _ 4096 (by decide)
      (advancesWithin_still 0 _ 1 (k := 4095) (by decide) ⟨fun _ => ⟨2, ?_, by decide⟩,
        fun _ _ _ _ => True.intro⟩)
    rw [List.take_of_length_le (by rw [List.length_append, List.length_replicate]; decide)]
    exact List.mem_append_right _ (by decide)
  · refine ⟨labelId 0 1 0 :: ((List.range' 1 4095).map (fun i => labelId 0 1 (UInt32.ofNat i)) ++
      [labelId 0 1 0]), ?_, ?_⟩
    · have hlast : calls 1 (counted 0 1 4096) (List.replicate (2 ^ 32 - 4096) 1 ++ [1, 2]) =
          some [labelId 0 1 0] := by
        rw [calls, call_still 0 (by decide) (by decide), call_number 0 (by decide)]
        rfl
      rw [stuckClock_eq, calls_first 0 4096 (by decide), calls_still 0 1 (k := 4095) (by decide),
        hlast]
      rfl
    · intro hpairwise
      have hlt := (List.pairwise_cons.mp hpairwise).1 (labelId 0 1 0)
        (List.mem_append_right _ List.mem_cons_self)
      exact absurd hlt (UInt64.lt_irrefl _)

end Labios

/-!
## Uniqueness of label ids

Do two calls of `generate_label_id` ever return the same id? The timestamp is claimed
and the sequence reset in two steps, and a call increments the sequence long after it
has read the timestamp. A call that takes a number in between takes one of the old
sequence for the new timestamp, or one of the new sequence for an old timestamp, and
the number is given out again (`ids_collide`). If nobody takes a number at such a
moment, and neither the timestamps nor the sequence run out of bits, all ids of a run
are different (`labelIds_unique`).
-/

namespace Labios

open Foundation

/-! ## The condition -/

/-- Some call has claimed a timestamp and not yet reset the sequence. -/
def Resetting (calls : List IdCall) : Prop := ∃ call ∈ calls, ∃ ms, call = .claimed ms

def IdCall.isClaimed : IdCall → Bool
  | .claimed _ => true
  | _ => false

instance resetting_decidable (calls : List IdCall) : Decidable (Resetting calls) :=
  decidable_of_iff (∃ call ∈ calls, call.isClaimed = true) (by
    refine exists_congr fun call => and_congr_right fun _ => ?_
    cases call with
    | claimed ms => exact ⟨fun _ => ⟨ms, rfl⟩, fun _ => rfl⟩
    | _ => exact ⟨fun h => (by cases h), fun ⟨_, h⟩ => (by cases h)⟩)

/-- A call claims a timestamp of at most 41 bits. It increments a sequence that does not
wrap, and takes a number from it only while its timestamp is still the last one and no
call is about to reset the sequence. -/
def SnowflakeState.InTime (s : SnowflakeState) : IdAction → Prop
  | .advances i =>
      match s.calls[i]? with
      | some (.loop nowMs prevMs) =>
          if prevMs < nowMs then nowMs.toNat < 2 ^ 41
          else s.sequence.toNat + 1 < 2 ^ 32 ∧
            (s.sequence < kMaxSequence → prevMs = s.lastMs ∧ ¬Resetting s.calls)
      | _ => True
  | _ => True

instance SnowflakeState.inTime_decidable (s : SnowflakeState) (a : IdAction) :
    Decidable (s.InTime a) := by
  unfold SnowflakeState.InTime
  split
  · split
    · exact inferInstance
    · exact inferInstance
  · exact inferInstance

/-! ## What the calls own -/

/-- The timestamp and the number that a call has for itself. -/
def IdCall.owns : IdCall → Option (UInt64 × UInt32)
  | .claimed ms => some (ms, 0)
  | .returned ms sequence => some (ms, sequence)
  | _ => none

/-- Nobody owns a timestamp that is still to come, or a number that is still to be given
out. While a call is about to reset the sequence, nobody has taken a number of it. -/
structure Allotted (s : SnowflakeState) : Prop where
  distinct : ∀ (i j : Nat) (call call' : IdCall) (own : UInt64 × UInt32), s.calls[i]? = some call →
    s.calls[j]? = some call' → call.owns = some own → call'.owns = some own → i = j
  fits : ∀ call ∈ s.calls, ∀ own ∈ call.owns, own.1.toNat < 2 ^ 41 ∧ own.2.toNat < 2 ^ 12
  past : ∀ call ∈ s.calls, ∀ own ∈ call.owns, own.1 ≤ s.lastMs
  first : Resetting s.calls → ∀ call ∈ s.calls, ∀ own ∈ call.owns, own.1 = s.lastMs → own.2 = 0
  given : ¬Resetting s.calls → ∀ call ∈ s.calls, ∀ own ∈ call.owns, own.1 = s.lastMs →
    own.2 < s.sequence
  short : s.lastMs.toNat < 2 ^ 41

theorem allotted_fresh (node : UInt16) : Allotted { node } where
  distinct := fun i j call call' own h => by cases h
  fits := fun call h => by cases h
  past := fun call h => by cases h
  first := fun _ call h => by cases h
  given := fun _ call h => by cases h
  short := by
    show (0 : UInt64).toNat < _
    decide

section Steps

variable {s : SnowflakeState} {i : Nat} {call call' : IdCall} {lastMs : UInt64} {sequence : UInt32}

theorem resetting_set (hi : s.calls[i]? = some call) (hcall : call.owns = none)
    (hcall' : ∀ ms, call' ≠ .claimed ms) :
    Resetting (s.calls.set i call') ↔ Resetting s.calls := by
  constructor
  · rintro ⟨u, hu, ms, rfl⟩
    rcases List.mem_or_eq_of_mem_set hu with hold | heq
    · exact ⟨_, hold, ms, rfl⟩
    · exact absurd heq.symm (hcall' ms)
  · intro hsome
    rcases exists_set (i := i) (a := call') hi hsome with ⟨ms, rfl⟩ | hkept
    · cases hcall
    · exact hkept

/-- A call goes on and owns what it owned, or what nobody owns. -/
theorem Allotted.changed (h : Allotted s) (hi : s.calls[i]? = some call) (hle : s.lastMs ≤ lastMs)
    (hshort : lastMs.toNat < 2 ^ 41)
    (hown : ∀ own ∈ call'.owns, (call.owns = some own ∨ ∀ u ∈ s.calls, u.owns ≠ some own) ∧
      (own.1.toNat < 2 ^ 41 ∧ own.2.toNat < 2 ^ 12) ∧ own.1 ≤ lastMs)
    (hfirst : Resetting (s.calls.set i call') → ∀ u ∈ s.calls.set i call', ∀ own ∈ u.owns,
      own.1 = lastMs → own.2 = 0)
    (hgiven : ¬Resetting (s.calls.set i call') → ∀ u ∈ s.calls.set i call', ∀ own ∈ u.owns,
      own.1 = lastMs → own.2 < sequence) :
    Allotted { s with lastMs, sequence, calls := s.calls.set i call' } where
  distinct := by
    have hother : ∀ (k : Nat) (v : IdCall) (own : UInt64 × UInt32), k ≠ i →
        s.calls[k]? = some v → call'.owns = some own → v.owns ≠ some own := by
      intro k v own hk hv hnew howns
      rcases (hown own hnew).1 with hsame | hfresh
      · exact hk (h.distinct k i v call own hv hi howns hsame)
      · exact hfresh v (List.mem_of_getElem? hv) howns
    intro j k u v own hu hv hu' hv'
    rcases getElem?_set_cases hu with ⟨rfl, rfl⟩ | ⟨hj, hold⟩
    · rcases getElem?_set_cases hv with ⟨rfl, rfl⟩ | ⟨hk, hold'⟩
      · rfl
      · exact absurd hv' (hother k v own hk hold' hu')
    · rcases getElem?_set_cases hv with ⟨rfl, rfl⟩ | ⟨hk, hold'⟩
      · exact absurd hu' (hother j u own hj hold hv')
      · exact h.distinct j k u v own hold hold' hu' hv'
  fits := forall_set h.fits fun own hnew => (hown own hnew).2.1
  past := forall_set (fun u hu own howns => UInt64.le_trans (h.past u hu own howns) hle)
    fun own hnew => (hown own hnew).2.2
  first := hfirst
  given := hgiven
  short := hshort

/-- A call that owns nothing goes on to something that owns nothing; the sequence may
be exhausted meanwhile. -/
theorem Allotted.idle (h : Allotted s) (hi : s.calls[i]? = some call) (hcall : call.owns = none)
    (hcall' : call'.owns = none) (hle : s.sequence ≤ sequence) :
    Allotted { s with sequence, calls := s.calls.set i call' } := by
  have hnotClaimed : ∀ ms, call' ≠ .claimed ms := by
    rintro ms rfl
    cases hcall'
  have hnone : ∀ {P : UInt64 × UInt32 → Prop}, ∀ own ∈ call'.owns, P own := by
    intro P own hown
    rw [hcall'] at hown
    cases hown
  have hresetting := resetting_set hi hcall hnotClaimed
  refine h.changed hi (UInt64.le_refl _) h.short hnone (fun hreset => ?_) fun hreset => ?_
  · exact forall_set (h.first (hresetting.mp hreset)) hnone
  · refine forall_set (fun u hu own hown hlast => ?_) hnone
    exact UInt32.lt_of_lt_of_le (h.given (fun hr => hreset (hresetting.mpr hr)) u hu own hown hlast)
      hle

/-- A call claims a timestamp that is later than the last one. -/
theorem Allotted.claim (h : Allotted s) (hi : s.calls[i]? = some call) (hlt : s.lastMs < lastMs)
    (hshort : lastMs.toNat < 2 ^ 41) :
    Allotted { s with lastMs, calls := s.calls.set i (.claimed lastMs) } := by
  have hlater : ∀ u ∈ s.calls, ∀ own ∈ u.owns, own.1 ≠ lastMs := by
    rintro u hu own hown rfl
    exact UInt64.not_lt.mpr (h.past u hu own hown) hlt
  refine h.changed hi (UInt64.le_of_lt hlt) hshort (fun own hown => ?_) (fun _ => ?_) fun hnot => ?_
  · obtain rfl := Option.some.inj hown
    have hzero : (0 : UInt32).toNat < 2 ^ 12 := by decide
    exact ⟨.inr fun u hu howns => hlater u hu _ howns rfl, ⟨hshort, hzero⟩, UInt64.le_refl _⟩
  · refine forall_set (fun u hu own hown hlast => absurd hlast (hlater u hu own hown)) ?_
    rintro own hown -
    obtain rfl := Option.some.inj hown
    rfl
  · exact absurd ⟨_, mem_set_self hi, lastMs, rfl⟩ hnot

/-- A call takes the next number of the sequence for the last timestamp. -/
theorem Allotted.take (h : Allotted s) (hi : s.calls[i]? = some call) (hcall : call.owns = none)
    (hlt : s.sequence < kMaxSequence) (hreset : ¬Resetting s.calls) :
    Allotted { s with
      sequence := s.sequence + 1
      calls := s.calls.set i (.returned s.lastMs s.sequence) } := by
  have hnat : s.sequence.toNat < 2 ^ 12 := hlt
  have hsucc : (s.sequence + 1).toNat = s.sequence.toNat + 1 := by
    rw [UInt32.toNat_add]
    exact Nat.mod_eq_of_lt (by
      show s.sequence.toNat + 1 < 2 ^ 32
      omega)
  have hlt' : s.sequence < s.sequence + 1 := by
    rw [UInt32.lt_iff_toNat_lt, hsucc]
    omega
  have hreturned : ∀ ms, IdCall.returned s.lastMs s.sequence ≠ .claimed ms :=
    fun ms heq => by cases heq
  have hresetting := resetting_set hi hcall hreturned
  refine h.changed hi (UInt64.le_refl _) h.short (fun own hown => ?_) (fun hr => ?_) fun _ => ?_
  · obtain rfl := Option.some.inj hown
    refine ⟨.inr fun u hu howns => ?_, ⟨h.short, hnat⟩, UInt64.le_refl _⟩
    exact UInt32.lt_irrefl _ (h.given hreset u hu _ howns rfl)
  · exact absurd (hresetting.mp hr) hreset
  · refine forall_set (fun u hu own hown hlast => ?_) fun own hown _ => ?_
    · exact UInt32.lt_trans (h.given hreset u hu own hown hlast) hlt'
    · obtain rfl := Option.some.inj hown
      exact hlt'

/-- The sequence is reset by a call that has claimed a timestamp. -/
theorem Allotted.reset (h : Allotted s) {ms : UInt64} (hi : s.calls[i]? = some (.claimed ms)) :
    Allotted { s with
      sequence := 1
      calls := s.calls.set i (.returned ms 0) } := by
  have hmem := List.mem_of_getElem? hi
  have hfirst : ∀ u ∈ s.calls.set i (.returned ms 0), ∀ own ∈ u.owns,
      own.1 = s.lastMs → own.2 = 0 := by
    refine forall_set (h.first ⟨_, hmem, ms, rfl⟩) ?_
    rintro own hown -
    obtain rfl := Option.some.inj hown
    rfl
  refine h.changed hi (UInt64.le_refl _) h.short (fun own hown => ?_) (fun _ => hfirst) fun _ => ?_
  · obtain rfl := Option.some.inj hown
    exact ⟨.inl rfl, h.fits _ hmem _ rfl, h.past _ hmem _ rfl⟩
  · intro u hu own hown hlast
    rw [hfirst u hu own hown hlast]
    decide

/-- A call that begins owns nothing. -/
theorem Allotted.begin (h : Allotted s) : Allotted { s with calls := s.calls ++ [.clock] } := by
  have hnone : ∀ {P : UInt64 × UInt32 → Prop}, ∀ own ∈ IdCall.clock.owns, P own :=
    fun own hown => by cases hown
  have hresetting : Resetting (s.calls ++ [.clock]) ↔ Resetting s.calls := by
    constructor
    · rintro ⟨u, hu, ms, rfl⟩
      rcases List.mem_append.mp hu with hold | hlast
      · exact ⟨_, hold, ms, rfl⟩
      · cases List.mem_singleton.mp hlast
    · rintro ⟨u, hu, hms⟩
      exact ⟨u, List.mem_append_left _ hu, hms⟩
  constructor
  · intro j k u v own hu hv hu' hv'
    rcases getElem?_snoc_cases hu with hold | ⟨-, rfl⟩
    · rcases getElem?_snoc_cases hv with hold' | ⟨-, rfl⟩
      · exact h.distinct j k u v own hold hold' hu' hv'
      · cases hv'
    · cases hu'
  · exact forall_snoc h.fits hnone
  · exact forall_snoc h.past hnone
  · exact fun hreset => forall_snoc (h.first (hresetting.mp hreset)) hnone
  · exact fun hreset => forall_snoc (h.given fun hr => hreset (hresetting.mpr hr)) hnone
  · exact h.short

/-- One step at a moment that the condition admits. -/
theorem Allotted.step (h : Allotted s) {a : IdAction} (htime : s.InTime a)
    {s' : SnowflakeState} (hstep : s.step a = some s') : Allotted s' := by
  cases a with
  | ticks nowMs =>
      have hstep : (if s.nowMs ≤ nowMs then some { s with nowMs } else none) = some s' := hstep
      split at hstep
      · obtain rfl := Option.some.inj hstep
        exact ⟨h.distinct, h.fits, h.past, h.first, h.given, h.short⟩
      · cases hstep
  | begins =>
      obtain rfl := Option.some.inj hstep
      exact h.begin
  | advances i =>
      obtain ⟨call, hi, hstep⟩ := Option.bind_eq_some_iff.mp hstep
      obtain ⟨⟨lastMs, sequence, call'⟩, hcall, rfl⟩ := Option.map_eq_some_iff.mp hstep
      cases call with
      | clock =>
          cases hcall
          exact h.idle hi rfl rfl (UInt32.le_refl _)
      | load nowMs =>
          cases hcall
          exact h.idle hi rfl rfl (UInt32.le_refl _)
      | retry prevMs =>
          cases hcall
          exact h.idle hi rfl rfl (UInt32.le_refl _)
      | claimed nowMs =>
          cases hcall
          exact h.reset hi
      | returned ms sequence => cases hcall
      | loop nowMs prevMs =>
          simp only [SnowflakeState.callStep] at hcall
          unfold SnowflakeState.InTime at htime
          simp only [hi] at htime
          split at hcall
          · next hlt =>
              rw [if_pos hlt] at htime
              split at hcall
              · next hlast =>
                  cases hcall
                  exact h.claim hi (hlast ▸ hlt) htime
              · cases hcall
                exact h.idle hi rfl rfl (UInt32.le_refl _)
          · next hnot =>
              rw [if_neg hnot] at htime
              obtain ⟨hroom, hintime⟩ := htime
              split at hcall
              · next hlt =>
                  cases hcall
                  obtain ⟨rfl, hreset⟩ := hintime hlt
                  exact h.take hi rfl hlt hreset
              · cases hcall
                refine h.idle hi rfl rfl ?_
                rw [UInt32.le_iff_toNat_le, UInt32.toNat_add]
                exact Nat.le_of_lt (Nat.lt_of_lt_of_eq (Nat.lt_succ_self _)
                  (Nat.mod_eq_of_lt hroom).symm)

end Steps

/-- Every id that was returned is owned by its call. -/
theorem owns_of_result {s : SnowflakeState} {i : Nat} {id : UInt64} (h : s.result i = some id) :
    ∃ ms sequence, s.calls[i]? = some (.returned ms sequence) ∧ id = labelId s.node ms sequence := by
  unfold SnowflakeState.result at h
  split at h
  · next ms sequence hi => exact ⟨ms, sequence, hi, (Option.some.inj h).symm⟩
  · cases h

/-- **Uniqueness.** In a run of any number of calls, whose steps all come at moments that
the condition admits, no two calls return the same id. -/
theorem labelIds_unique (node : UInt16) (actions : List IdAction) (s : SnowflakeState)
    (hexec : exec SnowflakeState.step { node } actions = some s)
    (htime : Along SnowflakeState.step SnowflakeState.InTime { node } actions)
    (i j : Nat) (id : UInt64) (hi : s.result i = some id) (hj : s.result j = some id) : i = j := by
  have h : Allotted s := exec_invariant (fun h htime hstep => h.step htime hstep)
    (allotted_fresh node) hexec htime
  obtain ⟨ms, sequence, hcall, rfl⟩ := owns_of_result hi
  obtain ⟨ms', sequence', hcall', hsame⟩ := owns_of_result hj
  obtain ⟨hms, hsequence⟩ := h.fits _ (List.mem_of_getElem? hcall) _ rfl
  obtain ⟨hms', hsequence'⟩ := h.fits _ (List.mem_of_getElem? hcall') _ rfl
  obtain ⟨rfl, rfl⟩ := labelId_inj hms hms' hsequence hsequence' hsame
  exact h.distinct i j _ _ _ hcall hcall' rfl rfl

/-- Three calls, one after the other; the last one claims a new timestamp. -/
def oneByOne : List IdAction :=
  [.ticks 5, .begins, .advances 0, .advances 0, .advances 0, .advances 0, .begins, .advances 1,
    .advances 1, .advances 1, .ticks 7, .begins, .advances 2, .advances 2, .advances 2, .advances 2]

theorem labelIds_unique_oneByOne :
    ∃ s, exec SnowflakeState.step { node := 3 } oneByOne = some s ∧
      s.result 0 ≠ none ∧ s.result 0 ≠ s.result 1 := by
  obtain ⟨s, hexec⟩ := Option.isSome_iff_exists.mp
    (show (exec SnowflakeState.step { node := 3 } oneByOne).isSome = true by decide +kernel)
  have hreturned : ∀ s ∈ exec SnowflakeState.step { node := 3 } oneByOne, s.result 0 ≠ none := by
    decide +kernel
  obtain ⟨id, hid⟩ := Option.ne_none_iff_exists'.mp (hreturned s hexec)
  refine ⟨s, hexec, hreturned s hexec, fun heq => ?_⟩
  exact absurd (labelIds_unique 3 oneByOne s hexec (by decide +kernel) 0 1 id hid (heq ▸ hid))
    (by decide)

/-- Call 2 takes a number between the claim and the reset of call 1: the number 1, of the
sequence before. Then call 3 takes the number 1 of the new sequence. -/
def beforeReset : List IdAction :=
  [.begins, .advances 0, .advances 0, .advances 0,
    .ticks 5, .begins, .advances 1, .advances 1, .advances 1,
    .begins, .advances 2, .advances 2, .advances 2, .advances 1,
    .begins, .advances 3, .advances 3, .advances 3]

/-- Call 2 has read the timestamp 0 when call 3 claims a later one and resets the
sequence; the number 1 that it then takes was given to call 1 with the same timestamp. -/
def afterReset : List IdAction :=
  [.begins, .advances 0, .advances 0, .advances 0, .begins, .advances 1, .advances 1, .advances 1,
    .begins, .advances 2, .advances 2,
    .ticks 5, .begins, .advances 3, .advances 3, .advances 3, .advances 3, .advances 2]

theorem ids_collide :
    (∃ s id, exec SnowflakeState.step { node := 3 } beforeReset = some s ∧
      s.result 2 = some id ∧ s.result 3 = some id) ∧
    ∃ s id, exec SnowflakeState.step { node := 3 } afterReset = some s ∧
      s.result 1 = some id ∧ s.result 2 = some id := by
  exact ⟨⟨_, _, rfl, rfl, by decide +kernel⟩, ⟨_, _, rfl, rfl, by decide +kernel⟩⟩

end Labios
