import Labios.Dispatcher.Telemetry
import Mathlib.Tactic.FieldSimp

/-!
# The latency percentiles

`percentiles_ordered`: in every window of every run `p50`, `p95` and `p99` are latencies of the
window, none of the three indices leaves the samples however their products are rounded, and
`p50 ≤ p95 ≤ p99`. Up to `2 ^ 53` samples, `p50` has at most half of them on either side.
-/

namespace Labios

open Foundation

/-! ## Indices -/

/-- The index that `percentile` reads. -/
def percentileIndex (n : Nat) (p : ℚ) : Nat :=
  ⌊roundBinary64 (p * roundBinary64 (n - 1 : ℕ))⌋.toNat

variable {n : Nat} {p q : ℚ}

theorem percentileIndex_mono (hp : 0 ≤ p) (hpq : p ≤ q) :
    percentileIndex n p ≤ percentileIndex n q := by
  have hlast : 0 ≤ roundBinary64 ((n - 1 : ℕ) : ℚ) := roundBinary64_nonneg (Nat.cast_nonneg _)
  refine Int.toNat_le_toNat (Int.floor_le_floor (roundBinary64_mono (mul_nonneg hp hlast) ?_))
  exact mul_le_mul_of_nonneg_right hpq hlast

/-- Both roundings go up by less than what `p` leaves to the last index. -/
theorem percentileIndex_lt (hn : 0 < n) (hp : 1 / 2 ≤ p) (hp' : p ≤ 1023 / 1024) :
    percentileIndex n p < n := by
  have hnormal : ∀ x : ℚ, 1 / 2 ≤ x → (2 : ℚ) ^ (-1022 : ℤ) ≤ x := by
    intro x hx
    have hhalf : (2 : ℚ) ^ (-1 : ℤ) = 1 / 2 := by norm_num
    exact ((two_zpow_le (by norm_num)).trans_eq hhalf).trans hx
  rcases Nat.eq_zero_or_pos (n - 1) with hzero | hpos
  · unfold percentileIndex
    rw [hzero, Nat.cast_zero, roundBinary64_zero, mul_zero, roundBinary64_zero]
    exact hn
  · have hone : (1 : ℚ) ≤ (n - 1 : ℕ) := by exact_mod_cast hpos
    set last := roundBinary64 ((n - 1 : ℕ) : ℚ) with hlast
    have hlow : 1 ≤ last := by
      rw [← roundBinary64_one]
      exact roundBinary64_mono zero_le_one hone
    have hhigh : last ≤ (n - 1 : ℕ) * (1 + 1 / 2 ^ 53) :=
      roundBinary64_le_mul (hnormal _ (by linarith))
    have hproduct : 1 / 2 ≤ p * last := by nlinarith only [hp, hlow]
    have hround : roundBinary64 (p * last) ≤ (n - 1 : ℕ) := by
      calc roundBinary64 (p * last)
          ≤ p * last * (1 + 1 / 2 ^ 53) := roundBinary64_le_mul (hnormal _ hproduct)
        _ ≤ 1023 / 1024 * ((n - 1 : ℕ) * (1 + 1 / 2 ^ 53)) * (1 + 1 / 2 ^ 53) := by gcongr
        _ = (n - 1 : ℕ) * (1023 / 1024 * (1 + 1 / 2 ^ 53) * (1 + 1 / 2 ^ 53)) := by ring
        _ ≤ (n - 1 : ℕ) * 1 := mul_le_mul_of_nonneg_left (by norm_num) (Nat.cast_nonneg _)
        _ = (n - 1 : ℕ) := mul_one _
    have hfloor : ⌊roundBinary64 (p * last)⌋ ≤ (n - 1 : ℕ) := by
      have hle := Int.floor_le_floor hround
      rwa [Int.floor_natCast] at hle
    unfold percentileIndex
    rw [← hlast]
    omega

/-- Below `2 ^ 53` nothing is rounded at the middle. -/
theorem percentileIndex_half (hn : n ≤ 2 ^ 53) : percentileIndex n (1 / 2) = (n - 1) / 2 := by
  have hfloor : ⌊1 / 2 * ((n - 1 : ℕ) : ℚ)⌋ = (((n - 1) / 2 : ℕ) : ℤ) := by
    rw [one_div, inv_mul_eq_div]
    exact_mod_cast Rat.floor_natCast_div_natCast (n - 1) 2
  unfold percentileIndex
  rw [roundBinary64_natCast (by omega), roundBinary64_half (by omega), hfloor, Int.toNat_natCast]

theorem percentile_eq {sorted : List UInt64} (hne : sorted ≠ []) :
    percentile sorted p = sorted[percentileIndex sorted.length p]? := by
  unfold percentile
  rw [if_neg (by simpa using hne)]
  rfl

/-! ## Ranks -/

section Ranks

variable {sorted : List UInt64}

theorem getElem_le_getElem (hsorted : sorted.Pairwise (· ≤ ·)) {i j : Nat} (hij : i ≤ j)
    (hj : j < sorted.length) : sorted[i] ≤ sorted[j] := by
  rcases hij.eq_or_lt with rfl | hlt
  · exact UInt64.le_refl _
  · exact List.pairwise_iff_getElem.mp hsorted i j (by omega) hj hlt

/-- Before an element of a sorted list there are all that are less. -/
theorem countP_lt_le (hsorted : sorted.Pairwise (· ≤ ·)) {i : Nat} (hi : i < sorted.length) :
    sorted.countP (· < sorted[i]) ≤ i := by
  have hnone : (sorted.drop i).countP (· < sorted[i]) = 0 := by
    rw [List.countP_eq_zero]
    intro x hx
    obtain ⟨k, hk, rfl⟩ := List.getElem_of_mem hx
    rw [List.getElem_drop, decide_eq_true_eq, UInt64.not_lt]
    exact getElem_le_getElem hsorted (Nat.le_add_right ..) _
  have hsplit : sorted.countP (· < sorted[i]) =
      (sorted.take i).countP (· < sorted[i]) + (sorted.drop i).countP (· < sorted[i]) := by
    rw [← List.countP_append, List.take_append_drop]
  rw [hsplit, hnone, Nat.add_zero]
  exact List.countP_le_length.trans (by rw [List.length_take]; omega)

theorem countP_gt_le (hsorted : sorted.Pairwise (· ≤ ·)) {i : Nat} (hi : i < sorted.length) :
    sorted.countP (sorted[i] < ·) ≤ sorted.length - (i + 1) := by
  have hnone : (sorted.take (i + 1)).countP (sorted[i] < ·) = 0 := by
    rw [List.countP_eq_zero]
    intro x hx
    obtain ⟨k, hk, rfl⟩ := List.getElem_of_mem hx
    rw [List.length_take] at hk
    rw [List.getElem_take, decide_eq_true_eq, UInt64.not_lt]
    exact getElem_le_getElem hsorted (by omega) hi
  have hsplit : sorted.countP (sorted[i] < ·) =
      (sorted.take (i + 1)).countP (sorted[i] < ·) +
        (sorted.drop (i + 1)).countP (sorted[i] < ·) := by
    rw [← List.countP_append, List.take_append_drop]
  rw [hsplit, hnone, Nat.zero_add]
  exact List.countP_le_length.trans_eq (List.length_drop ..)

end Ranks

/-! ## Every window -/

theorem sorted_windows {actions : List TelemetryAction} {s : Telemetry}
    (hexec : exec Telemetry.step {} actions = some s) :
    ∀ w ∈ s.windows, w.samples.Pairwise (· ≤ ·) := by
  refine exec_kept (I := fun s : Telemetry => ∀ w ∈ s.windows, w.samples.Pairwise (· ≤ ·))
    ?_ (fun w hw => by cases hw) hexec
  intro s a s' hI hstep
  cases a with
  | call t c =>
      dsimp only [Telemetry.step] at hstep
      split at hstep
      · obtain rfl := Option.some.inj hstep
        exact hI
      · cases hstep
  | record t =>
      dsimp only [Telemetry.step] at hstep
      split at hstep
      · cases hstep
      · next a rest _ =>
          obtain rfl := Option.some.inj hstep
          cases a <;> exact hI
  | drain =>
      dsimp only [Telemetry.step] at hstep
      split at hstep
      · cases hstep
      · next d rest _ =>
          obtain rfl := Option.some.inj hstep
          cases d <;> exact hI
  | publish =>
      dsimp only [Telemetry.step] at hstep
      split at hstep
      · obtain rfl := Option.some.inj hstep
        intro w hw
        rcases List.mem_append.mp hw with hold | hnew
        · exact hI w hold
        · obtain rfl := List.mem_singleton.mp hnew
          have : Std.Total fun a b : UInt64 => a ≤ b := ⟨UInt64.le_total⟩
          have : IsTrans UInt64 fun a b => a ≤ b := ⟨fun _ _ _ => UInt64.le_trans⟩
          exact List.pairwise_insertionSort ..
      · cases hstep

/-- `0.50`, `0.95` and `0.99` as doubles. -/
def p50 (w : Window) : Option UInt64 := percentile w.samples (1 / 2)
def p95 (w : Window) : Option UInt64 := percentile w.samples (roundBinary64 (95 / 100))
def p99 (w : Window) : Option UInt64 := percentile w.samples (roundBinary64 (99 / 100))

/-- The weights lie between the middle and the last index. -/
theorem weight_bounds {x : ℚ} (hlow : 1 / 2 ≤ x) (hhigh : x ≤ 99 / 100) :
    1 / 2 ≤ roundBinary64 x ∧ roundBinary64 x ≤ 1023 / 1024 := by
  have hhalf : (2 : ℚ) ^ (-1 : ℤ) = 1 / 2 := by norm_num
  constructor
  · calc (1 : ℚ) / 2 = roundBinary64 (1 / 2) := by
          rw [← hhalf, roundBinary64_two_zpow (by norm_num)]
      _ ≤ roundBinary64 x := roundBinary64_mono (by norm_num) hlow
  · have hnormal : (2 : ℚ) ^ (-1022 : ℤ) ≤ x :=
      ((two_zpow_le (by norm_num)).trans_eq hhalf).trans hlow
    calc roundBinary64 x ≤ x * (1 + 1 / 2 ^ 53) := roundBinary64_le_mul hnormal
      _ ≤ 99 / 100 * (1 + 1 / 2 ^ 53) := by gcongr
      _ ≤ 1023 / 1024 := by norm_num

theorem percentiles_ordered {actions : List TelemetryAction} {s : Telemetry}
    (hexec : exec Telemetry.step {} actions = some s) {w : Window} (hw : w ∈ s.windows) :
    ∃ a b c, p50 w = some a ∧ p95 w = some b ∧ p99 w = some c ∧ a ≤ b ∧ b ≤ c ∧
      (w.samples = [] → c = 0) ∧ (w.samples ≠ [] → ∀ x ∈ [a, b, c], x ∈ w.samples) ∧
      (w.samples.length ≤ 2 ^ 53 → 2 * w.samples.countP (· < a) ≤ w.samples.length ∧
        2 * w.samples.countP (a < ·) ≤ w.samples.length) := by
  have hsorted := sorted_windows hexec w hw
  by_cases hempty : w.samples = []
  · have hzero : ∀ p, percentile w.samples p = some 0 := fun p => by
      unfold percentile
      rw [hempty]
      rfl
    refine ⟨0, 0, 0, hzero _, hzero _, hzero _, UInt64.le_refl _, UInt64.le_refl _, fun _ => rfl,
      fun hne => absurd hempty hne, fun _ => ?_⟩
    rw [hempty]
    exact ⟨Nat.le_refl _, Nat.le_refl _⟩
  · obtain ⟨hlow95, hhigh95⟩ := weight_bounds (x := 95 / 100) (by norm_num) (by norm_num)
    obtain ⟨hlow99, hhigh99⟩ := weight_bounds (x := 99 / 100) (by norm_num) (by norm_num)
    have hpos : 0 < w.samples.length := List.length_pos_iff.mpr hempty
    have hlt50 : percentileIndex w.samples.length (1 / 2) < w.samples.length :=
      percentileIndex_lt hpos (by norm_num) (by norm_num)
    have hlt95 := percentileIndex_lt hpos hlow95 hhigh95
    have hlt99 := percentileIndex_lt hpos hlow99 hhigh99
    have hread : ∀ {p}, (hlt : percentileIndex w.samples.length p < w.samples.length) →
        percentile w.samples p = some w.samples[percentileIndex w.samples.length p] :=
      fun hlt => (percentile_eq hempty).trans (List.getElem?_eq_getElem hlt)
    refine ⟨_, _, _, hread hlt50, hread hlt95, hread hlt99, ?_, ?_, fun h => absurd h hempty,
      fun _ x hx => ?_, fun hlength => ⟨?_, ?_⟩⟩
    · exact getElem_le_getElem hsorted (percentileIndex_mono (by norm_num) hlow95) _
    · refine getElem_le_getElem hsorted (percentileIndex_mono (by linarith) ?_) _
      exact roundBinary64_mono (by norm_num) (by norm_num)
    · simp only [List.mem_cons, List.not_mem_nil, or_false] at hx
      rcases hx with rfl | rfl | rfl <;> exact List.getElem_mem _
    · have hmiddle := percentileIndex_half hlength
      exact (Nat.mul_le_mul_left 2 (countP_lt_le hsorted hlt50)).trans (by omega)
    · have hmiddle := percentileIndex_half hlength
      exact (Nat.mul_le_mul_left 2 (countP_gt_le hsorted hlt50)).trans (by omega)

/-- A slow label, then a fast one. -/
def slowThenFast : List TelemetryAction :=
  [.call 0 (.labelCompleted 90 10)] ++ List.replicate 4 (.record 0) ++
    [.call 0 (.labelCompleted 40 10)] ++ List.replicate 4 (.record 0) ++
    List.replicate 11 .drain ++ [.publish]

theorem percentiles_ordered_slowThenFast :
    ∃ w : Window, w.samples = [40, 90] ∧ ∃ a b c, p50 w = some a ∧ p95 w = some b ∧
      p99 w = some c ∧ a ≤ b ∧ b ≤ c ∧ (w.samples ≠ [] → ∀ x ∈ [a, b, c], x ∈ w.samples) := by
  have hrun : (exec Telemetry.step {} slowThenFast).map (fun s => s.windows.map (·.samples)) =
      some [[40, 90]] := by decide +kernel
  obtain ⟨s, hs, hsamples⟩ := Option.map_eq_some_iff.mp hrun
  obtain ⟨w, hw, hpair⟩ := List.mem_map.mp (hsamples ▸ List.mem_singleton_self [40, 90])
  obtain ⟨a, b, c, ha, hb, hc, hab, hbc, -, hmem, -⟩ := percentiles_ordered hs hw
  exact ⟨w, hpair, a, b, c, ha, hb, hc, hab, hbc, hmem⟩

end Labios
