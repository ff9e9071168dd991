import Mathlib.Data.List.Chain

/-!
# Runs of equal elements

A list cut into runs, each the longest one up to a cap: the length of the run that
starts a list, the runs of a whole list, and what a list of runs stands for. The cut is
exact (`expand_runs`), no run is empty or longer than the cap, and two neighbours carry the
same element only where the first one filled the cap.
-/

namespace Foundation

variable {α : Type}

/-- What a list of runs stands for. -/
def expand (tokens : List (α × Nat)) : List α :=
  tokens.flatMap fun t => List.replicate t.2 t.1

@[simp] theorem expand_nil : expand ([] : List (α × Nat)) = [] := rfl

@[simp] theorem expand_cons (t : α × Nat) (tokens : List (α × Nat)) :
    expand (t :: tokens) = List.replicate t.2 t.1 ++ expand tokens := rfl

variable [DecidableEq α] {cap : Nat} {a : α}

/-- The scan for the end of a run of `a`: `run` elements are in it, the list is what
follows them. -/
def scanRun (cap : Nat) (a : α) : Nat → List α → Nat
  | run, [] => run
  | run, b :: rest => if b = a ∧ run < cap then scanRun cap a (run + 1) rest else run

/-! ## The scan of one run -/

theorem le_scanRun (run : Nat) (rest : List α) : run ≤ scanRun cap a run rest := by
  induction rest generalizing run with
  | nil => exact Nat.le_refl run
  | cons b rest ih =>
      rw [scanRun]
      split
      · exact Nat.le_of_succ_le (ih (run + 1))
      · exact Nat.le_refl run

theorem scanRun_le_cap {run : Nat} (h : run ≤ cap) (rest : List α) :
    scanRun cap a run rest ≤ cap := by
  induction rest generalizing run with
  | nil => exact h
  | cons b rest ih =>
      rw [scanRun]
      split
      next hb => exact ih hb.2
      next => exact h

theorem scanRun_sub_succ (run : Nat) (rest : List α) :
    scanRun cap a (run + 1) rest - run = scanRun cap a (run + 1) rest - (run + 1) + 1 := by
  have hle : run + 1 ≤ scanRun cap a (run + 1) rest := le_scanRun (run + 1) rest
  omega

/-- What the scan passed over is the run. -/
theorem take_scanRun (run : Nat) (rest : List α) :
    rest.take (scanRun cap a run rest - run) =
      List.replicate (scanRun cap a run rest - run) a := by
  induction rest generalizing run with
  | nil => simp [scanRun]
  | cons b rest ih =>
      rw [scanRun]
      split
      next hb =>
          rw [scanRun_sub_succ, List.take_succ_cons, ih (run + 1), hb.1]
          rfl
      next => simp

/-- The scan stops at another element, at the end of the list, or at the cap. -/
theorem scanRun_stop {run : Nat} (h : run ≤ cap) (rest : List α) :
    scanRun cap a run rest = cap ∨
      (rest.drop (scanRun cap a run rest - run)).head? ≠ some a := by
  induction rest generalizing run with
  | nil => exact .inr (by simp)
  | cons b rest ih =>
      rw [scanRun]
      split
      next hb =>
          rw [scanRun_sub_succ, List.drop_succ_cons]
          exact ih hb.2
      next hb =>
          by_cases hrun : run < cap
          · have hne : b ≠ a := fun he => hb ⟨he, hrun⟩
            exact .inr (by simpa using hne)
          · exact .inl (by omega)

/-! ## The runs of a list -/

/-- The runs of a list, each cut at `cap`. -/
def runs (cap : Nat) : List α → List (α × Nat)
  | [] => []
  | a :: rest => (a, scanRun cap a 1 rest) :: runs cap (rest.drop (scanRun cap a 1 rest - 1))
termination_by l => l.length
decreasing_by
  simp only [List.length_drop, List.length_cons]
  omega

/-- Nothing is lost and nothing reordered. -/
theorem expand_runs (cap : Nat) (l : List α) : expand (runs cap l) = l := by
  fun_induction runs cap l with
  | case1 => rfl
  | case2 a rest ih =>
      have hpos : 1 ≤ scanRun cap a 1 rest := le_scanRun 1 rest
      obtain ⟨n, hn⟩ := Nat.exists_eq_add_of_le hpos
      have htake : rest.take (scanRun cap a 1 rest - 1) = _ := take_scanRun 1 rest
      rw [expand_cons, ih]
      rw [hn, Nat.add_sub_cancel_left] at htake ⊢
      rw [Nat.add_comm 1 n, List.replicate_succ, List.cons_append, ← htake,
        List.take_append_drop]

theorem runs_bounds (h : 0 < cap) (l : List α) :
    ∀ t ∈ runs cap l, 1 ≤ t.2 ∧ t.2 ≤ cap := by
  fun_induction runs cap l with
  | case1 => intro t ht; cases ht
  | case2 a rest ih =>
      intro t ht
      rcases List.mem_cons.mp ht with rfl | ht
      · exact ⟨le_scanRun 1 rest, scanRun_le_cap h rest⟩
      · exact ih t ht

theorem length_runs (cap : Nat) (l : List α) : (runs cap l).length ≤ l.length := by
  fun_induction runs cap l with
  | case1 => exact Nat.le_refl 0
  | case2 a rest ih =>
      rw [List.length_drop] at ih
      rw [List.length_cons, List.length_cons]
      omega

theorem runs_head? (cap : Nat) (l : List α) : (runs cap l).head?.map (·.1) = l.head? := by
  cases l with
  | nil => simp [runs]
  | cons a rest => simp [runs]

/-- Equal neighbours are split only where the first run filled the cap. -/
theorem runs_split (h : 0 < cap) (l : List α) :
    (runs cap l).IsChain fun s t => s.1 = t.1 → s.2 = cap := by
  fun_induction runs cap l with
  | case1 => exact .nil
  | case2 a rest ih =>
      refine List.isChain_cons.mpr ⟨?_, ih⟩
      intro t ht hat
      have hnext := runs_head? cap (rest.drop (scanRun cap a 1 rest - 1))
      rw [ht] at hnext
      rcases scanRun_stop (a := a) h rest with hcap | hother
      · exact hcap
      · exact absurd (hnext.symm.trans (congrArg some hat.symm)) hother

end Foundation
