import Mathlib.Algebra.BigOperators.Finprod
import Mathlib.Algebra.Order.Group.Multiset
import Mathlib.Logic.Function.Basic

/-!
# Lines of work

Workers stand at lines of messages, each a list of steps. A worker runs the steps
of its line in order; one log records what was run, across all workers. A step
may demand that others were run before it.

`InOrder` is the invariant: for every worker, the log and behind it the worker's
line meet all demands. A worker that moves keeps it whatever the others do; who
adds a message has to look at one line only (`InOrder.push`).

`Waits` collects what waits, whoever it waits for: a message adds its steps to it,
and a step that is run leaves it once.
-/

/-!
## Totals

The total of a family that is zero almost everywhere, such as what lies on the
accounts of a ledger. A change to one account changes the total by as much
(`HasTotal.split`).
-/

namespace Foundation

variable {ι M : Type} [AddCommMonoid M]

structure HasTotal (f : ι → M) (total : M) : Prop where
  finite : (Function.support f).Finite
  sum : ∑ᶠ i, f i = total

variable {f : ι → M} {total : M}

theorem hasTotal_zero : HasTotal (fun _ : ι => (0 : M)) 0 := by
  refine ⟨?_, finsum_zero⟩
  rw [Function.support_fun_zero]
  exact Set.finite_empty

/-- One account may change; the others add up to what they did. -/
theorem HasTotal.split [DecidableEq ι] (h : HasTotal f total) (i : ι) :
    ∃ rest, total = f i + rest ∧
      ∀ g : ι → M, (∀ j, j ≠ i → g j = f j) → HasTotal g (g i + rest) := by
  obtain ⟨hfinite, rfl⟩ := h
  set accounts := insert i hfinite.toFinset with haccounts
  have hsum : ∀ g : ι → M, (∀ j, j ≠ i → g j = f j) →
      (Function.support g).Finite ∧ ∑ᶠ j, g j = g i + ∑ j ∈ accounts.erase i, f j := by
    intro g hg
    have hsub : Function.support g ⊆ accounts := by
      intro j hj
      by_cases hji : j = i
      · exact hji ▸ Finset.mem_coe.mpr (Finset.mem_insert_self ..)
      · rw [Function.mem_support, hg j hji] at hj
        exact Finset.mem_coe.mpr (Finset.mem_insert_of_mem (hfinite.mem_toFinset.mpr hj))
    refine ⟨accounts.finite_toSet.subset hsub, ?_⟩
    rw [finsum_eq_sum_of_support_subset g hsub,
      ← Finset.add_sum_erase _ g (Finset.mem_insert_self i hfinite.toFinset)]
    congr 1
    exact Finset.sum_congr rfl fun j hj => hg j (Finset.ne_of_mem_erase hj)
  exact ⟨_, (hsum f fun _ _ => rfl).2, fun g hg => ⟨(hsum g hg).1, (hsum g hg).2⟩⟩

theorem HasTotal.congr {g : ι → M} (h : HasTotal f total) (heq : ∀ i, g i = f i) :
    HasTotal g total := (funext heq : g = f) ▸ h

theorem HasTotal.eq_zero (h : HasTotal f total) (hzero : ∀ i, f i = 0) : total = 0 := by
  rw [← h.sum, finsum_congr hzero, finsum_zero]

end Foundation

namespace Foundation

variable {α ι : Type}

/-- What a step demands to be run before it, and what it delivers. -/
structure Demand (α ι : Type) where
  needs : α → ι → Prop
  serves : α → ι → Prop

namespace Demand

variable (D : Demand α ι)

/-- One of the steps delivers the key. -/
def Provided (steps : List α) (k : ι) : Prop := ∃ x ∈ steps, D.serves x k

/-- Every step finds what it needs in front of it. -/
def Ordered (steps : List α) : Prop :=
  ∀ front y back, steps = front ++ y :: back → ∀ k, D.needs y k → D.Provided front k

variable {D}

theorem Provided.mono {steps more : List α} (hsub : steps ⊆ more) {k : ι}
    (h : D.Provided steps k) : D.Provided more k := by
  obtain ⟨x, hx, hserves⟩ := h
  exact ⟨x, hsub hx, hserves⟩

theorem ordered_nil : D.Ordered [] := fun _ _ _ h => absurd h (by simp)

/-- Order of a concatenation: what the second part lacks, the first provides. -/
theorem ordered_append_iff {front back : List α} :
    D.Ordered (front ++ back) ↔ D.Ordered front ∧
      ∀ before y after, back = before ++ y :: after →
        ∀ k, D.needs y k → D.Provided (front ++ before) k := by
  constructor
  · intro h
    refine ⟨fun before y after heq => h before y (after ++ back) ?_,
      fun before y after heq => h (front ++ before) y after ?_⟩
    · rw [heq, List.append_assoc, List.cons_append]
    · rw [heq, List.append_assoc]
  · rintro ⟨hfront, hback⟩ before y after heq k hneeds
    rcases List.append_eq_append_iff.mp heq with ⟨between, rfl, hrest⟩ | ⟨between, hrest, hback'⟩
    · exact hback between y after hrest k hneeds
    · cases between with
      | nil =>
          rw [List.append_nil] at hrest
          subst hrest
          have hprovided := hback [] y after hback'.symm k hneeds
          rwa [List.append_nil] at hprovided
      | cons z between =>
          rw [List.cons_append] at hback'
          obtain ⟨rfl, -⟩ := List.cons.inj hback'
          exact hfront before y between hrest k hneeds

theorem Ordered.of_append_left {front back : List α} (h : D.Ordered (front ++ back)) :
    D.Ordered front :=
  (ordered_append_iff.mp h).1

/-- A step that fits behind the first part may be run before the second. -/
theorem Ordered.insert {front back : List α} {x : α} (h : D.Ordered (front ++ back))
    (hx : D.Ordered (front ++ [x])) : D.Ordered (front ++ [x] ++ back) := by
  refine ordered_append_iff.mpr ⟨hx, fun before y after heq k hneeds => ?_⟩
  refine ((ordered_append_iff.mp h).2 before y after heq k hneeds).mono ?_
  intro z hz
  rcases List.mem_append.mp hz with hz | hz
  · exact List.mem_append_left _ (List.mem_append_left _ hz)
  · exact List.mem_append_right _ hz

end Demand

/-! ## Lines -/

structure Lines (α : Type) where
  executed : List α := []
  /-- The messages that wait for a worker, oldest first. -/
  waiting : Int → List (List α) := fun _ => []

namespace Lines

/-- The steps that wait for a worker. -/
def line (s : Lines α) (w : Int) : List α := (s.waiting w).flatten

/-- A message for a worker. -/
def push (s : Lines α) (w : Int) (message : List α) : Lines α :=
  { s with waiting := Function.update s.waiting w (s.waiting w ++ [message]) }

/-- A worker runs a step; `messages` is left of its line. -/
def run (s : Lines α) (w : Int) (x : α) (messages : List (List α)) : Lines α :=
  { executed := s.executed ++ [x], waiting := Function.update s.waiting w messages }

/-- A worker puts an empty message away. -/
def finish (s : Lines α) (w : Int) (messages : List (List α)) : Lines α :=
  { s with waiting := Function.update s.waiting w messages }

@[simp] theorem push_executed (s : Lines α) (w : Int) (message : List α) :
    (s.push w message).executed = s.executed := rfl

@[simp] theorem run_executed (s : Lines α) (w : Int) (x : α) (messages : List (List α)) :
    (s.run w x messages).executed = s.executed ++ [x] := rfl

@[simp] theorem finish_executed (s : Lines α) (w : Int) (messages : List (List α)) :
    (s.finish w messages).executed = s.executed := rfl

theorem push_line (s : Lines α) (w : Int) (message : List α) :
    (s.push w message).line w = s.line w ++ message := by
  unfold line push
  dsimp only
  rw [Function.update_self, List.flatten_append, List.flatten_singleton]

theorem push_line_of_ne (s : Lines α) {w other : Int} (message : List α) (h : other ≠ w) :
    (s.push w message).line other = s.line other := by
  unfold line push
  dsimp only
  rw [Function.update_of_ne h]

theorem run_line (s : Lines α) (w : Int) (x : α) (messages : List (List α)) :
    (s.run w x messages).line w = messages.flatten := by
  unfold line run
  dsimp only
  rw [Function.update_self]

theorem run_line_of_ne (s : Lines α) {w other : Int} (x : α) (messages : List (List α))
    (h : other ≠ w) : (s.run w x messages).line other = s.line other := by
  unfold line run
  dsimp only
  rw [Function.update_of_ne h]

/-- Putting an empty message away changes no line. -/
theorem finish_line {s : Lines α} {w : Int} {messages : List (List α)}
    (h : s.waiting w = [] :: messages) (other : Int) :
    (s.finish w messages).line other = s.line other := by
  unfold line finish
  dsimp only
  by_cases ho : other = w
  · subst ho
    rw [Function.update_self, h]
    rfl
  · rw [Function.update_of_ne ho]

/-! ## The invariant -/

variable (D : Demand α ι)

/-- For every worker, the log and its line meet all demands. -/
def InOrder (s : Lines α) : Prop := ∀ w, D.Ordered (s.executed ++ s.line w)

variable {D} {s : Lines α} {w : Int}

theorem InOrder.executed (h : s.InOrder D) : D.Ordered s.executed :=
  (h 0).of_append_left

/-- A message may join a line that provides what it needs. -/
theorem InOrder.push (h : s.InOrder D) {message : List α}
    (hmessage : ∀ y ∈ message, ∀ k, D.needs y k → D.Provided (s.executed ++ s.line w) k) :
    (s.push w message).InOrder D := by
  intro other
  by_cases ho : other = w
  · subst ho
    rw [push_executed, push_line, ← List.append_assoc]
    refine Demand.ordered_append_iff.mpr ⟨h other, fun before y after heq k hneeds => ?_⟩
    have hy : y ∈ message := heq ▸ List.mem_append_right _ List.mem_cons_self
    exact (hmessage y hy k hneeds).mono (List.subset_append_left _ _)
  · rw [push_executed, push_line_of_ne s message ho]
    exact h other

/-- The first step of a line can be run. -/
theorem InOrder.ordered_next (h : s.InOrder D) {x : α} {rest : List α}
    {messages : List (List α)} (hw : s.waiting w = (x :: rest) :: messages) :
    D.Ordered (s.executed ++ [x]) := by
  have hline := h w
  have hsplit : s.executed ++ s.line w = (s.executed ++ [x]) ++ (rest ++ messages.flatten) := by
    unfold line
    rw [hw]
    simp
  rw [hsplit] at hline
  exact hline.of_append_left

theorem InOrder.run (h : s.InOrder D) {x : α} {rest : List α} {messages : List (List α)}
    (hw : s.waiting w = (x :: rest) :: messages) : (s.run w x (rest :: messages)).InOrder D := by
  intro other
  by_cases ho : other = w
  · subst ho
    have hline := h other
    rw [run_executed, run_line]
    unfold line at hline
    rw [hw] at hline
    simpa using hline
  · rw [run_executed, run_line_of_ne s x _ ho]
    exact (h other).insert (h.ordered_next hw)

/-- A step that fails takes the rest of its message with it. Nobody behind may
have needed that rest. -/
theorem InOrder.abandon (h : s.InOrder D) {x : α} {rest : List α} {messages : List (List α)}
    (hw : s.waiting w = (x :: rest) :: messages)
    (hkeep : ∀ y ∈ messages.flatten, ∀ k, D.needs y k → ¬D.Provided rest k) :
    (s.run w x messages).InOrder D := by
  intro other
  by_cases ho : other = w
  · subst ho
    rw [run_executed, run_line]
    refine Demand.ordered_append_iff.mpr ⟨h.ordered_next hw, fun before y after heq k hneeds => ?_⟩
    have hline := h other
    unfold line at hline
    rw [hw, List.flatten_cons, heq] at hline
    have hprovided := hline (s.executed ++ (x :: rest ++ before)) y after (by simp) k hneeds
    have hy : y ∈ messages.flatten := heq ▸ List.mem_append_right _ List.mem_cons_self
    obtain ⟨z, hz, hserves⟩ := hprovided
    have hrest : z ∉ rest := fun hz => hkeep y hy k hneeds ⟨z, hz, hserves⟩
    refine ⟨z, ?_, hserves⟩
    simp only [List.mem_append, List.mem_cons, List.not_mem_nil, or_false] at hz ⊢
    rcases hz with hz | (rfl | hz) | hz
    · exact .inl (.inl hz)
    · exact .inl (.inr rfl)
    · exact absurd hz hrest
    · exact .inr hz
  · rw [run_executed, run_line_of_ne s x _ ho]
    exact (h other).insert (h.ordered_next hw)

theorem InOrder.finish (h : s.InOrder D) {messages : List (List α)}
    (hw : s.waiting w = [] :: messages) : (s.finish w messages).InOrder D := by
  intro other
  rw [finish_executed, finish_line hw]
  exact h other

/-! ## What waits -/

/-- The steps in all the lines together. -/
abbrev Waits (s : Lines α) (items : Multiset α) : Prop :=
  HasTotal (fun w => (s.line w : Multiset α)) items

theorem waits_empty : Waits ({} : Lines α) 0 := hasTotal_zero

variable {items : Multiset α}

theorem Waits.push (h : s.Waits items) (w : Int) (message : List α) :
    (s.push w message).Waits (items + message) := by
  obtain ⟨rest, rfl, hchange⟩ := h.split w
  have hwaits := hchange (fun v => ((s.push w message).line v : Multiset α)) fun other ho => by
    rw [push_line_of_ne s message ho]
  rw [push_line, ← Multiset.coe_add] at hwaits
  rwa [add_right_comm]

/-- A step that is run waits no longer; `gone` leaves the line with it. -/
theorem Waits.run (h : s.Waits items) (x : α) (gone : List α) (messages : List (List α))
    (hw : s.line w = x :: (gone ++ messages.flatten)) :
    ∃ left, items = x ::ₘ (gone + left) ∧ (s.run w x messages).Waits left := by
  obtain ⟨rest, rfl, hchange⟩ := h.split w
  have hwaits := hchange (fun v => ((s.run w x messages).line v : Multiset α)) fun other ho => by
    rw [run_line_of_ne s x messages ho]
  rw [run_line] at hwaits
  refine ⟨_, ?_, hwaits⟩
  rw [hw, ← Multiset.cons_coe, ← Multiset.coe_add, Multiset.cons_add, add_assoc]

theorem Waits.finish (h : s.Waits items) {messages : List (List α)}
    (hw : s.waiting w = [] :: messages) : (s.finish w messages).Waits items :=
  h.congr fun v => by rw [finish_line hw]

end Lines
end Foundation
