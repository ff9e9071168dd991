import Mathlib.Algebra.Group.Int.Defs
import Mathlib.Algebra.Group.Nat.Defs
import Mathlib.Data.Option.Basic
import Mathlib.Logic.Basic

/-!
# Machines with partial steps

A machine is a step function on its states; an action that is not enabled in a
state has no successor. `exec` takes actions one after the other, and `Along` says
that each of them meets a condition where it is taken. What holds at the start and
is kept by every step that meets the condition holds at the end of every such run
(`exec_invariant`).
-/

namespace Foundation

variable {σ α : Type} {step : σ → α → Option σ} {ok : σ → α → Prop}

/-- The state after all actions, if each of them is enabled. -/
def exec (step : σ → α → Option σ) : σ → List α → Option σ
  | s, [] => some s
  | s, a :: rest => (step s a).bind fun s' => exec step s' rest

/-- Every action meets the condition in the state where it is taken. -/
def Along (step : σ → α → Option σ) (ok : σ → α → Prop) : σ → List α → Prop
  | _, [] => True
  | s, a :: rest => ok s a ∧ ∀ s' ∈ step s a, Along step ok s' rest

instance Along.decidable (step : σ → α → Option σ) (ok : σ → α → Prop)
    [∀ s a, Decidable (ok s a)] : (s : σ) → (actions : List α) → Decidable (Along step ok s actions)
  | _, [] => inferInstanceAs (Decidable True)
  | s, a :: rest =>
      let _ := fun s' => Along.decidable step ok s' rest
      inferInstanceAs (Decidable (ok s a ∧ ∀ s' ∈ step s a, _))

theorem exec_cons {s t : σ} {a : α} {rest : List α} (h : exec step s (a :: rest) = some t) :
    ∃ s', step s a = some s' ∧ exec step s' rest = some t :=
  Option.bind_eq_some_iff.mp h

/-- A machine whose steps are all enabled. -/
theorem exec_some (next : σ → α → σ) (s : σ) (actions : List α) :
    exec (fun s a => some (next s a)) s actions = some (actions.foldl next s) := by
  induction actions generalizing s with
  | nil => rfl
  | cons a rest ih => exact ih (next s a)

theorem exec_append {s t : σ} {front back : List α} (h : exec step s (front ++ back) = some t) :
    ∃ s', exec step s front = some s' ∧ exec step s' back = some t := by
  induction front generalizing s with
  | nil => exact ⟨s, rfl, h⟩
  | cons a front ih =>
      obtain ⟨s₁, hstep, hrest⟩ := exec_cons h
      obtain ⟨s', hfront, hback⟩ := ih hrest
      refine ⟨s', ?_, hback⟩
      rw [exec, hstep]
      exact hfront

theorem Along.append {s s' : σ} {front back : List α} (h : Along step ok s (front ++ back))
    (hexec : exec step s front = some s') : Along step ok s front ∧ Along step ok s' back := by
  induction front generalizing s with
  | nil =>
      obtain rfl := Option.some.inj hexec
      exact ⟨trivial, h⟩
  | cons a front ih =>
      obtain ⟨s₁, hstep, hrest⟩ := exec_cons hexec
      obtain ⟨hok, hnext⟩ := h
      obtain ⟨-, hback⟩ := ih (hnext s₁ hstep) hrest
      refine ⟨⟨hok, fun s₂ hs₂ => ?_⟩, hback⟩
      exact (ih (hnext s₂ hs₂) (by
        obtain rfl := Option.some.inj (hstep.symm.trans hs₂)
        exact hrest)).1

theorem Along.trivial (s : σ) (actions : List α) : Along step (fun _ _ => True) s actions := by
  induction actions generalizing s with
  | nil => exact True.intro
  | cons a rest ih => exact ⟨True.intro, fun s' _ => ih s'⟩

theorem Along.and {P Q : σ → α → Prop} {s : σ} {actions : List α} (hP : Along step P s actions)
    (hQ : Along step Q s actions) : Along step (fun s a => P s a ∧ Q s a) s actions := by
  induction actions generalizing s with
  | nil => trivial
  | cons a rest ih =>
      exact ⟨⟨hP.1, hQ.1⟩, fun s' hstep => ih (hP.2 s' hstep) (hQ.2 s' hstep)⟩

/-- What every step that meets the condition keeps holds at the end of a run. -/
theorem exec_invariant {I : σ → Prop} (hkept : ∀ {s a s'}, I s → ok s a → step s a = some s' → I s')
    {s t : σ} {actions : List α} (hstart : I s) (hexec : exec step s actions = some t)
    (halong : Along step ok s actions) : I t := by
  induction actions generalizing s with
  | nil =>
      obtain rfl := Option.some.inj hexec
      exact hstart
  | cons a rest ih =>
      obtain ⟨s', hstep, hrest⟩ := exec_cons hexec
      obtain ⟨hok, hnext⟩ := halong
      exact ih (hkept hstart hok hstep) hrest (hnext s' hstep)

/-- A condition that follows, in every state of a run, from the one that is met along it. -/
theorem Along.of_invariant {I : σ → Prop} {Q : σ → α → Prop}
    (hkept : ∀ {s a s'}, I s → ok s a → step s a = some s' → I s')
    (himp : ∀ {s a}, I s → ok s a → Q s a) {s : σ} {actions : List α} (hstart : I s)
    (halong : Along step ok s actions) : Along step Q s actions := by
  induction actions generalizing s with
  | nil => exact True.intro
  | cons a rest ih =>
      obtain ⟨hok, hnext⟩ := halong
      exact ⟨himp hstart hok, fun s' hstep => ih (hkept hstart hok hstep) (hnext s' hstep)⟩

/-- What every step keeps, whatever the run. -/
theorem exec_kept {I : σ → Prop} (hkept : ∀ {s a s'}, I s → step s a = some s' → I s')
    {s t : σ} {actions : List α} (hstart : I s) (hexec : exec step s actions = some t) : I t := by
  induction actions generalizing s with
  | nil =>
      obtain rfl := Option.some.inj hexec
      exact hstart
  | cons a rest ih =>
      obtain ⟨s', hstep, hrest⟩ := exec_cons hexec
      exact ih (hkept hstart hstep) hrest

/-- An action that is repeated until it is no longer enabled ends in one state. -/
theorem exec_replicate_unique {s t t' : σ} {a : α} {n m : Nat}
    (hexec : exec step s (List.replicate n a) = some t) (hend : step t a = none)
    (hexec' : exec step s (List.replicate m a) = some t') (hend' : step t' a = none) : t = t' := by
  induction n generalizing s m with
  | zero =>
      obtain rfl := Option.some.inj hexec
      cases m with
      | zero => exact Option.some.inj hexec'
      | succ m =>
          obtain ⟨s', hstep, -⟩ := exec_cons hexec'
          rw [hend] at hstep
          cases hstep
  | succ n ih =>
      obtain ⟨s', hstep, hrest⟩ := exec_cons hexec
      cases m with
      | zero =>
          obtain rfl := Option.some.inj hexec'
          rw [hend'] at hstep
          cases hstep
      | succ m =>
          obtain ⟨s'', hstep', hrest'⟩ := exec_cons hexec'
          obtain rfl := Option.some.inj (hstep.symm.trans hstep')
          exact ih hrest hrest'

/-- Two conditions that agree in every state of a run are met alike along it. -/
theorem Along.iff {I : σ → Prop} {P Q : σ → α → Prop}
    (hkept : ∀ {s a s'}, I s → ok s a → step s a = some s' → I s')
    (hiff : ∀ {s a}, I s → (P s a ↔ Q s a)) {s : σ} {actions : List α} (hstart : I s)
    (halong : Along step ok s actions) : Along step P s actions ↔ Along step Q s actions := by
  induction actions generalizing s with
  | nil => exact Iff.rfl
  | cons a rest ih =>
      obtain ⟨hok, hnext⟩ := halong
      refine and_congr (hiff hstart) (forall₂_congr fun s' hstep => ?_)
      exact ih (hkept hstart hok hstep) (hnext s' hstep)

/-- As above, for conditions that keep what they need to agree. -/
theorem Along.iff_exec (I : σ → Prop) {P Q : σ → α → Prop}
    (hkept : ∀ {s a s'}, I s → ok s a → Q s a → step s a = some s' → I s')
    (hiff : ∀ {s a s'}, I s → ok s a → step s a = some s' → (P s a ↔ Q s a))
    {s t : σ} {actions : List α} (hstart : I s) (hexec : exec step s actions = some t)
    (halong : Along step ok s actions) : Along step P s actions ↔ Along step Q s actions := by
  induction actions generalizing s with
  | nil => exact Iff.rfl
  | cons a rest ih =>
      obtain ⟨s', hstep, hrest⟩ := exec_cons hexec
      obtain ⟨hok, hnext⟩ := halong
      refine and_congr_right_iff.mpr (fun hP => ?_) |>.trans (and_congr_left' (hiff hstart hok hstep))
      have hQ := (hiff hstart hok hstep).mp hP
      refine forall₂_congr fun s'' hstep' => ?_
      obtain rfl := Option.some.inj (hstep.symm.trans hstep')
      exact ih (hkept hstart hok hQ hstep) hrest (hnext s' hstep)

/-- Where a step keeps a property exactly when it meets a condition, the property holds in
every state of a run exactly when all steps meet it. `I` is what such steps keep besides. -/
theorem Along.iff_observed {I P : σ → Prop} {Q : σ → α → Prop}
    (hkept : ∀ {s a s'}, I s → Q s a → step s a = some s' → I s')
    (hstep : ∀ {s a s'}, I s → P s → step s a = some s' → (P s' ↔ Q s a))
    {s t : σ} {actions : List α} (hstart : I s) (hnow : P s)
    (hexec : exec step s actions = some t) :
    (∀ front s', front <+: actions → exec step s front = some s' → P s') ↔
      Along step Q s actions := by
  induction actions generalizing s with
  | nil =>
      refine iff_of_true (fun front s' hfront hs' => ?_) True.intro
      rw [List.prefix_nil.mp hfront] at hs'
      obtain rfl := Option.some.inj hs'
      exact hnow
  | cons a rest ih =>
      obtain ⟨s₁, hs₁, hrest⟩ := exec_cons hexec
      constructor
      · intro hall
        have hnext : P s₁ := by
          refine hall [a] s₁ (List.cons_prefix_cons.mpr ⟨rfl, List.nil_prefix⟩) ?_
          rw [exec, hs₁]
          rfl
        have hQ := (hstep hstart hnow hs₁).mp hnext
        refine ⟨hQ, fun s₂ hs₂ => ?_⟩
        obtain rfl := Option.some.inj (hs₁.symm.trans hs₂)
        refine (ih (hkept hstart hQ hs₁) hnext hrest).mp fun front s' hfront hs' => ?_
        refine hall (a :: front) s' (List.cons_prefix_cons.mpr ⟨rfl, hfront⟩) ?_
        rw [exec, hs₁]
        exact hs'
      · rintro ⟨hQ, halong⟩ front s' hfront hs'
        have hnext := (hstep hstart hnow hs₁).mpr hQ
        cases front with
        | nil =>
            obtain rfl := Option.some.inj hs'
            exact hnow
        | cons b front =>
            obtain ⟨rfl, hback⟩ := List.cons_prefix_cons.mp hfront
            obtain ⟨s₂, hs₂, hs'⟩ := exec_cons hs'
            obtain rfl := Option.some.inj (hs₁.symm.trans hs₂)
            exact (ih (hkept hstart hQ hs₁) hnext hrest).mpr (halong s₁ hs₁) front s' hback hs'

/-- As above, where nothing else is needed. -/
theorem Along.iff_reached {I : σ → Prop} {Q : σ → α → Prop}
    (hstep : ∀ {s a s'}, I s → step s a = some s' → (I s' ↔ Q s a))
    {s t : σ} {actions : List α} (hstart : I s) (hexec : exec step s actions = some t) :
    (∀ front s', front <+: actions → exec step s front = some s' → I s') ↔
      Along step Q s actions :=
  Along.iff_observed (fun hI hQ hs' => (hstep hI hs').mpr hQ)
    (fun hI _ hs' => hstep hI hs') hstart hstart hexec

end Foundation

/-!
## Signed 64-bit numbers beside unsigned ones

A `UInt64` and an `Int64` of the same bits are the same number below `2 ^ 63`
(`toInt_toInt64`, `toNat_toUInt64`); from there on the signed one is negative
(`toInt64_nonneg_iff`). A signed sum has a value only where it does not overflow
(`checkedAdd`).
-/

namespace Foundation

/-- The sum, unless it overflows. -/
def checkedAdd (a b : Int64) : Option Int64 :=
  if -2 ^ 63 ≤ a.toInt + b.toInt ∧ a.toInt + b.toInt < 2 ^ 63 then some (a + b) else none

/-- The bits of an unsigned number, read as a signed one. -/
theorem toInt_toInt64_cases (x : UInt64) :
    x.toInt64.toInt = if x.toNat < 2 ^ 63 then (x.toNat : Int) else x.toNat - 2 ^ 64 := by
  show x.toBitVec.toInt = _
  rw [BitVec.toInt_eq_toNat_cond]
  show (if 2 * x.toNat < 2 ^ 64 then (x.toNat : Int) else x.toNat - 2 ^ 64) = _
  by_cases h : x.toNat < 2 ^ 63
  · rw [if_pos h, if_pos (by omega)]
  · rw [if_neg h, if_neg (by omega)]

theorem toInt_toInt64 {x : UInt64} (h : x.toNat < 2 ^ 63) : x.toInt64.toInt = x.toNat := by
  rw [toInt_toInt64_cases, if_pos h]

theorem toInt64_nonneg_iff {x : UInt64} : 0 ≤ x.toInt64.toInt ↔ x.toNat < 2 ^ 63 := by
  have hlt := x.toNat_lt
  rw [toInt_toInt64_cases]
  split
  · omega
  · omega

/-- A number that is not negative keeps its value as an unsigned one. -/
theorem toNat_toUInt64 {x : Int64} (h : 0 ≤ x.toInt) : (x.toUInt64.toNat : Int) = x.toInt := by
  have hbits : x.toUInt64.toInt64.toInt = x.toInt := by rw [Int64.toInt64_toUInt64]
  rw [← hbits] at h ⊢
  exact (toInt_toInt64 (toInt64_nonneg_iff.mp h)).symm

theorem toNat_toUInt64_lt {x : Int64} (h : 0 ≤ x.toInt) : x.toUInt64.toNat < 2 ^ 63 := by
  have hlt := x.toInt_lt
  have hvalue := toNat_toUInt64 h
  omega

theorem toInt_add_of_fits {a b : Int64} (hlow : -2 ^ 63 ≤ a.toInt + b.toInt)
    (hhigh : a.toInt + b.toInt < 2 ^ 63) : (a + b).toInt = a.toInt + b.toInt := by
  rw [Int64.toInt_add]
  exact Int.bmod_eq_of_le (by omega) (by omega)

theorem checkedAdd_of_fits {a b : Int64} (hlow : -2 ^ 63 ≤ a.toInt + b.toInt)
    (hhigh : a.toInt + b.toInt < 2 ^ 63) : checkedAdd a b = some (a + b) :=
  if_pos ⟨hlow, hhigh⟩

end Foundation
