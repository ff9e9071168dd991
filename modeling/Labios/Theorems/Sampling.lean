import Labios.Sds.Numeric
import Mathlib.Data.Finset.Sort
import Mathlib.Data.List.GetD
import Mathlib.Data.List.TakeWhile

/-!
# Samples

`fn_sample` keeps the first entries of a partial shuffle of the positions, in
order. `sample_subsequences`: whatever the draws, it takes the bytes of distinct
positions in their order, and each set of that many positions is taken for some
draws.
-/

namespace Labios

open Foundation

variable {S : StdSort} {draw : Nat → Nat} {n : Nat} {input : List UInt8}

/-- Draws that the distribution can give: round `i` stays in `[i, length - 1]`. -/
def ValidDraws (draw : Nat → Nat) (rounds length : Nat) : Prop :=
  ∀ i < rounds, i ≤ draw i ∧ draw i < length

/-- The positions that the sample is taken from. -/
def samplePositions (S : StdSort) (draw : Nat → Nat) (n length : Nat) : List Nat :=
  if n ≥ length then List.range length
  else S.sortBy id ((partialShuffle draw n (Array.range length)).toList.take n)

theorem map_getD_range (input : List UInt8) :
    (List.range input.length).map (fun p => input.getD p 0) = input := by
  apply List.ext_getElem
  · rw [List.length_map, List.length_range]
  · intro i hi hi'
    rw [List.getElem_map, List.getElem_range, List.getD_eq_getElem _ _ hi']

theorem sampleBytes_eq (S : StdSort) (draw : Nat → Nat) (n : Nat) (input : List UInt8) :
    sampleBytes S draw n input =
      (samplePositions S draw n input.length).map fun p => input.getD p 0 := by
  unfold sampleBytes samplePositions
  by_cases hall : n ≥ input.length
  · rw [if_pos hall, if_pos hall, map_getD_range]
  · rw [if_neg hall, if_neg hall]

/-- The shuffled positions are those of the input. -/
theorem shuffled_perm (draw : Nat → Nat) (n length : Nat) :
    (partialShuffle draw n (Array.range length)).toList.Perm (List.range length) := by
  have hperm := (partialShuffle_perm draw n (Array.range length)).toList
  rwa [Array.toList_range] at hperm

theorem samplePositions_increasing (S : StdSort) (draw : Nat → Nat) (n length : Nat) :
    (samplePositions S draw n length).Pairwise (· < ·) := by
  unfold samplePositions
  split
  · exact List.pairwise_lt_range
  · have hnodup := (shuffled_perm draw n length).nodup_iff.mpr List.nodup_range
    refine S.sorted_lt id ?_
    rw [List.map_id]
    exact hnodup.sublist (List.take_sublist _ _)

theorem lt_of_mem_samplePositions {length p : Nat} (hp : p ∈ samplePositions S draw n length) :
    p < length := by
  unfold samplePositions at hp
  split at hp
  · exact List.mem_range.mp hp
  · have hin := List.mem_of_mem_take ((S.mem_sortBy id _ p).mp hp)
    exact List.mem_range.mp ((shuffled_perm draw n length).mem_iff.mp hin)

theorem length_samplePositions (S : StdSort) (draw : Nat → Nat) (n length : Nat) :
    (samplePositions S draw n length).length = min n length := by
  unfold samplePositions
  split
  · rw [List.length_range]
    omega
  · rw [(S.perm id _).length_eq, List.length_take, (shuffled_perm draw n length).length_eq,
      List.length_range]

/-- Draws for the positions of a set. -/
theorem exists_samplePositions (S : StdSort) {length : Nat} (positions : Finset Nat)
    (hrange : ∀ p ∈ positions, p < length) (hcard : positions.card = min n length) :
    ∃ draw, ValidDraws draw (min n length) length ∧
      samplePositions S draw n length = positions.sort (· ≤ ·) := by
  by_cases hall : n ≥ length
  · -- every position is taken, whatever the draws
    have hsub : positions ⊆ Finset.range length := fun p hp => Finset.mem_range.mpr (hrange p hp)
    have hrangeEq : positions = Finset.range length := by
      apply Finset.eq_of_subset_of_card_le hsub
      rw [Finset.card_range]
      omega
    refine ⟨id, fun i hi => ⟨Nat.le_refl i, by simp only [id]; omega⟩, ?_⟩
    rw [samplePositions, if_pos hall, hrangeEq, Finset.sort_range]
  · have hlength : (positions.sort (· ≤ ·)).length = n := by
      rw [Finset.length_sort]
      omega
    have hmem : ∀ p ∈ positions.sort (· ≤ ·), p ∈ Array.range length := by
      intro p hp
      rw [Array.mem_range]
      exact hrange p ((Finset.mem_sort _).mp hp)
    -- draws that bring the positions to the front in their order; sorting keeps it
    obtain ⟨draw, hdraws, htake⟩ := exists_draws (Finset.sort_nodup positions (· ≤ ·)) hmem
    rw [hlength] at hdraws htake
    refine ⟨draw, ?_, ?_⟩
    · intro i hi
      have := hdraws i (by omega)
      rwa [Array.size_range] at this
    · rw [samplePositions, if_neg hall, htake]
      exact S.sortBy_eq_of_perm id (List.Perm.refl _) (Finset.sortedLT_sort positions).pairwise

/-- `fromCharsSize` reads the text of a number. -/
theorem fromCharsSize_toString {n : Nat} (h : n < 2 ^ 64) :
    fromCharsSize (toString n).toList = some n := by
  have htake : (Nat.toDigits 10 n).takeWhile Char.isDigit = Nat.toDigits 10 n :=
    List.takeWhile_eq_self_iff.mpr fun c hc => isDigit_of_mem hc
  rw [toList_toString, fromCharsSize, htake, Nat.ofDigitChars_ten_toDigits]
  refine if_neg fun hbad => ?_
  rcases hbad with hbad | hbad
  · exact Nat.toDigits_ne_nil hbad
  · omega

/-- The sample of any draws is taken from increasing positions of the input, as
many as were asked for or as there are, and every such set of positions is the
sample of some draws. -/
theorem sample_subsequences (S : StdSort) (input : List UInt8) (n : Nat) (args : String)
    (hargs : fromCharsSize args.toList = some n) :
    (∀ draw, ValidDraws draw (min n input.length) input.length →
      ∃ positions : List Nat, positions.Pairwise (· < ·) ∧
        (∀ p ∈ positions, p < input.length) ∧ positions.length = min n input.length ∧
        fnSample S draw input args = .ok (positions.map fun p => input.getD p 0)) ∧
    ∀ positions : Finset Nat, (∀ p ∈ positions, p < input.length) →
      positions.card = min n input.length →
      ∃ draw, ValidDraws draw (min n input.length) input.length ∧
        fnSample S draw input args =
          .ok ((positions.sort (· ≤ ·)).map fun p => input.getD p 0) := by
  constructor
  · intro draw _
    refine ⟨samplePositions S draw n input.length, samplePositions_increasing S draw n _,
      fun p hp => lt_of_mem_samplePositions hp, length_samplePositions S draw n _, ?_⟩
    rw [fnSample_eq S draw input hargs, sampleBytes_eq]
  · intro positions hrange hcard
    obtain ⟨draw, hdraws, hpositions⟩ := exists_samplePositions S positions hrange hcard
    refine ⟨draw, hdraws, ?_⟩
    rw [fnSample_eq S draw input hargs, sampleBytes_eq, hpositions]

/-- Two of three bytes. -/
theorem sample_subsequences_two :
    ∃ draw, ValidDraws draw 2 3 ∧
      fnSample StdSort.insertion draw [10, 20, 30] (toString 2) = .ok [10, 30] := by
  obtain ⟨draw, hdraws, hsample⟩ :=
    (sample_subsequences StdSort.insertion [10, 20, 30] 2 (toString 2)
      (fromCharsSize_toString (by decide))).2 {0, 2} (by simp) (by decide)
  have hsort : ({0, 2} : Finset Nat).sort (· ≤ ·) = [0, 2] := by
    have hinsert := Finset.sort_insert (· ≤ ·) (s := {2}) (a := 0) (by simp) (by simp)
    rwa [Finset.sort_singleton] at hinsert
  rw [hsort] at hsample
  exact ⟨draw, hdraws, hsample⟩

end Labios
