import Mathlib.Data.List.AList
import Mathlib.Logic.Function.Basic

/-!
# Key spaces with expiry

Every key holds a value and possibly a deadline, from which on the value is no longer
there. `modify` changes what a key holds by a function of it and keeps the deadline,
`store` puts a new value without one, and `expire` sets a deadline.

An operation on one key leaves all other keys alone (`value_modify_ne` and the like).
`view_modify` is the rule for the key itself: an update that a view of the value does
not show stays unseen through that view at every later time.
-/

namespace Foundation

structure Held (V : Type) where
  value : V
  deadline : Option Nat := none

def Held.alive {V : Type} (h : Held V) (now : Nat) : Bool := h.deadline.all (now < ·)

abbrev Keyspace (κ V : Type) := AList fun _ : κ => Held V

namespace Keyspace

variable {κ V : Type} [DecidableEq κ]

/-- What the key holds at a time. -/
def held (r : Keyspace κ V) (now : Nat) (key : κ) : Option (Held V) :=
  (r.lookup key).filter (·.alive now)

def value (r : Keyspace κ V) (now : Nat) (key : κ) : Option V := (r.held now key).map Held.value

def store (r : Keyspace κ V) (key : κ) (v : V) : Keyspace κ V := r.insert key { value := v }

/-- The value becomes what the function makes of it; it may create or remove one. -/
def modify (r : Keyspace κ V) (now : Nat) (key : κ) (f : Option V → Option V) : Keyspace κ V :=
  match r.held now key with
  | none =>
      match f none with
      | none => r
      | some v => r.store key v
  | some h =>
      match f (some h.value) with
      | none => r.erase key
      | some v => r.insert key { h with value := v }

/-- What is there gets a deadline. -/
def expire (r : Keyspace κ V) (now : Nat) (key : κ) (deadline : Nat) : Keyspace κ V :=
  match r.held now key with
  | none => r
  | some h => r.insert key { h with deadline := some deadline }

/-! ## Reading -/

section Reading

variable {r r' : Keyspace κ V} {now later : Nat} {key x : κ} {h : Held V}

theorem value_congr (hlookup : r.lookup x = r'.lookup x) : r.value now x = r'.value now x := by
  unfold value held
  rw [hlookup]

theorem Held.alive_mono {V : Type} {h : Held V} (hle : now ≤ later) (halive : h.alive later) :
    h.alive now := by
  unfold Held.alive at halive ⊢
  cases hdeadline : h.deadline with
  | none => rfl
  | some deadline =>
      rw [hdeadline] at halive
      have hlt : later < deadline := of_decide_eq_true halive
      exact decide_eq_true (Nat.lt_of_le_of_lt hle hlt)

/-- Nothing comes back by itself. -/
theorem held_later (hle : now ≤ later) :
    r.held later x = r.held now x ∨ r.held later x = none := by
  unfold held
  cases r.lookup x with
  | none => exact .inr rfl
  | some h =>
      cases hlater : h.alive later with
      | false =>
          right
          rw [Option.filter_some, hlater]
          rfl
      | true =>
          left
          rw [Option.filter_some, Option.filter_some, hlater, Held.alive_mono hle hlater]

theorem value_later (hle : now ≤ later) :
    r.value later x = r.value now x ∨ r.value later x = none := by
  unfold value
  rcases held_later (r := r) (x := x) hle with heq | hnone
  · rw [heq]
    exact .inl rfl
  · rw [hnone]
    exact .inr rfl

theorem value_insert_self (r : Keyspace κ V) (now : Nat) (key : κ) (h : Held V) :
    value (r.insert key h) now key = if h.alive now then some h.value else none := by
  unfold value held
  rw [AList.lookup_insert, Option.filter_some]
  cases h.alive now with
  | _ => rfl

theorem value_erase_self (r : Keyspace κ V) (now : Nat) (key : κ) :
    value (r.erase key) now key = none := by
  unfold value held
  rw [AList.lookup_erase]
  rfl

theorem held_eq_some (hheld : r.held now x = some h) :
    r.lookup x = some h ∧ h.alive now := by
  obtain ⟨hlookup, halive⟩ := Option.filter_eq_some_iff.mp hheld
  exact ⟨hlookup, halive⟩

theorem mem_of_value {v : V} (h : r.value now x = some v) : x ∈ r.keys := by
  obtain ⟨held, hheld, -⟩ := Option.map_eq_some_iff.mp h
  exact AList.lookup_isSome.mp (Option.isSome_of_eq_some (held_eq_some hheld).1)

/-- A key that holds something at one time holds it later until its deadline. -/
theorem value_of_held (hheld : r.held now x = some h) (later : Nat) :
    r.value later x = if h.alive later then some h.value else none := by
  unfold value held
  rw [(held_eq_some hheld).1, Option.filter_some]
  cases h.alive later with
  | _ => rfl

end Reading

/-! ## Other keys -/

section Others

variable {r : Keyspace κ V} {now : Nat} {key x : κ}

theorem value_store_ne (hne : x ≠ key) (v : V) (later : Nat) :
    (r.store key v).value later x = r.value later x :=
  value_congr (AList.lookup_insert_ne hne)

theorem value_erase_ne (hne : x ≠ key) (later : Nat) :
    value (r.erase key) later x = r.value later x :=
  value_congr (AList.lookup_erase_ne hne)

theorem value_modify_ne (hne : x ≠ key) (f : Option V → Option V) (later : Nat) :
    (r.modify now key f).value later x = r.value later x := by
  unfold modify
  split
  · split
    · rfl
    · exact value_store_ne hne _ later
  · split
    · exact value_erase_ne hne later
    · exact value_congr (AList.lookup_insert_ne hne)

theorem value_expire_ne (hne : x ≠ key) (deadline later : Nat) :
    (r.expire now key deadline).value later x = r.value later x := by
  unfold expire
  split
  · rfl
  · exact value_congr (AList.lookup_insert_ne hne)

end Others

/-! ## The key itself -/

section Self

variable {β : Type} {r : Keyspace κ V} {now later : Nat} {key x : κ}

theorem value_store_self (v : V) : (r.store key v).value now key = some v :=
  value_insert_self r now key _

/-- A view that does not show an update never shows it. -/
theorem view_modify (p : Option V → β) {f : Option V → Option V} (hp : ∀ o, p (f o) = p o)
    (hle : now ≤ later) : p ((r.modify now key f).value later x) = p (r.value later x) := by
  by_cases hx : x = key
  · subst hx
    unfold modify
    cases hheld : r.held now x with
    | none =>
        have hnone : r.value later x = none := by
          unfold value
          rcases held_later (r := r) (x := x) hle with heq | hnone
          · rw [heq, hheld]
            rfl
          · rw [hnone]
            rfl
        dsimp only
        split
        · rfl
        · next v hf => rw [value_store_self, hnone, ← hp none, hf]
    | some h =>
        rw [value_of_held hheld]
        dsimp only
        split
        · next hf =>
            rw [value_erase_self]
            split
            · rw [← hp (some h.value), hf]
            · rfl
        · next v hf =>
            rw [value_insert_self]
            show p (if h.alive later then some v else none) = _
            split
            · rw [← hp (some h.value), hf]
            · rfl
  · rw [value_modify_ne hx]

theorem value_expire_now {deadline : Nat} (hlt : now < deadline) :
    (r.expire now key deadline).value now x = r.value now x := by
  by_cases hx : x = key
  · subst hx
    unfold expire
    cases hheld : r.held now x with
    | none => rfl
    | some h =>
        rw [value_of_held hheld, if_pos (held_eq_some hheld).2]
        dsimp only
        rw [value_insert_self]
        exact if_pos (decide_eq_true hlt)
  · exact value_expire_ne hx deadline now

theorem value_expire_after {deadline : Nat} (hle : now ≤ later) (hdeadline : deadline ≤ later) :
    (r.expire now key deadline).value later key = none := by
  unfold expire
  cases hheld : r.held now key with
  | none =>
      unfold value
      rcases held_later (r := r) (x := key) hle with heq | hnone
      · rw [heq, hheld]
        rfl
      · rw [hnone]
        rfl
  | some h =>
      dsimp only
      rw [value_insert_self]
      refine if_neg fun halive => ?_
      have hlt : later < deadline := of_decide_eq_true halive
      omega

end Self

/-! ## Regardless of time -/

/-- What was last written, whether or not its deadline has passed. -/
def written (r : Keyspace κ V) (key : κ) : Option V := (r.lookup key).map Held.value

/-- What was written is still there. -/
def Current (r : Keyspace κ V) (now : Nat) (key : κ) : Prop := ∀ h ∈ r.lookup key, h.alive now

instance Current.decidable (r : Keyspace κ V) (now : Nat) (key : κ) :
    Decidable (r.Current now key) := Option.decidableForallMem _

/-- What was written has no deadline. -/
def Lasting (r : Keyspace κ V) (key : κ) : Prop := ∀ h ∈ r.lookup key, h.deadline = none

section Written

variable {r : Keyspace κ V} {now : Nat} {key x : κ} {v : V}

theorem held_of_current (h : r.Current now x) : r.held now x = r.lookup x := by
  unfold held
  cases hlookup : r.lookup x with
  | none => rfl
  | some held =>
      rw [Option.filter_some, h held hlookup]
      rfl

theorem value_of_current (h : r.Current now x) : r.value now x = r.written x := by
  unfold value written
  rw [held_of_current h]

theorem value_cases (r : Keyspace κ V) (now : Nat) (x : κ) :
    r.value now x = r.written x ∨ r.value now x = none := by
  unfold value written held
  cases r.lookup x with
  | none => exact .inl rfl
  | some held =>
      rw [Option.filter_some]
      split
      · exact .inl rfl
      · exact .inr rfl

theorem written_congr {r' : Keyspace κ V} (h : r.lookup x = r'.lookup x) :
    r.written x = r'.written x := congrArg (Option.map Held.value) h

theorem written_insert_self (r : Keyspace κ V) (key : κ) (held : Held V) :
    written (r.insert key held) key = some held.value :=
  congrArg (Option.map Held.value) (AList.lookup_insert r)

theorem written_store_self (r : Keyspace κ V) (key : κ) (v : V) :
    (r.store key v).written key = some v := written_insert_self r key _

theorem written_store_ne (hne : x ≠ key) : (r.store key v).written x = r.written x :=
  written_congr (AList.lookup_insert_ne hne)

theorem written_erase_self (r : Keyspace κ V) (key : κ) : written (r.erase key) key = none :=
  congrArg (Option.map Held.value) (AList.lookup_erase key r)

theorem written_erase_ne (hne : x ≠ key) : written (r.erase key) x = r.written x :=
  written_congr (AList.lookup_erase_ne hne)

theorem written_modify_ne (hne : x ≠ key) (f : Option V → Option V) :
    (r.modify now key f).written x = r.written x := by
  unfold modify
  split
  · split
    · rfl
    · exact written_store_ne hne
  · split
    · exact written_erase_ne hne
    · exact written_congr (AList.lookup_insert_ne hne)

/-- What holds of nothing, and is kept by the update, holds of the key whatever its
deadline. -/
theorem written_modify {P : Option V → Prop} {f : Option V → Option V} (hnone : P none)
    (hf : ∀ o, P o → P (f o)) (h : P (r.written x)) : P ((r.modify now key f).written x) := by
  by_cases hx : x = key
  · subst hx
    unfold modify
    cases hheld : r.held now x with
    | none =>
        dsimp only
        split
        · exact h
        · next v hv =>
            rw [written_store_self, ← hv]
            exact hf none hnone
    | some held =>
        have hwritten : r.written x = some held.value :=
          congrArg (Option.map Held.value) (held_eq_some hheld).1
        rw [hwritten] at h
        dsimp only
        split
        · rw [written_erase_self]
          exact hnone
        · next v hv =>
            rw [written_insert_self]
            show P (some v)
            rw [← hv]
            exact hf _ h
  · rw [written_modify_ne hx]
    exact h

theorem written_modify_self (h : r.Current now key) (f : Option V → Option V) :
    (r.modify now key f).written key = f (r.written key) := by
  unfold modify
  rw [held_of_current h]
  cases hlookup : r.lookup key with
  | none =>
      have hwritten : r.written key = none := congrArg (Option.map Held.value) hlookup
      rw [hwritten]
      dsimp only
      split
      · next hf => rw [hf, hwritten]
      · next v hf => rw [hf, written_store_self]
  | some held =>
      have hwritten : r.written key = some held.value := congrArg (Option.map Held.value) hlookup
      rw [hwritten]
      dsimp only
      split
      · next hf => rw [hf, written_erase_self]
      · next v hf =>
          rw [hf]
          exact written_insert_self r key _

theorem written_expire (r : Keyspace κ V) (now : Nat) (key : κ) (deadline : Nat) (x : κ) :
    (r.expire now key deadline).written x = r.written x := by
  unfold expire
  cases hheld : r.held now key with
  | none => rfl
  | some held =>
      by_cases hx : x = key
      · subst hx
        have hwritten : r.written x = some held.value :=
          congrArg (Option.map Held.value) (held_eq_some hheld).1
        rw [hwritten]
        exact written_insert_self r x _
      · exact written_congr (AList.lookup_insert_ne hx)

theorem Lasting.current (h : r.Lasting x) (now : Nat) : r.Current now x := by
  intro held hheld
  unfold Held.alive
  rw [h held hheld]
  rfl

/-- New values have no deadline, and changed ones keep theirs. -/
theorem deadline_insert {P : Option Nat → Prop} (h : ∀ held ∈ r.lookup x, P held.deadline)
    {held : Held V} (hheld : P held.deadline) :
    ∀ held' ∈ AList.lookup x (r.insert key held), P held'.deadline := by
  intro held' hheld'
  by_cases hx : x = key
  · subst hx
    rw [AList.lookup_insert, Option.mem_some_iff] at hheld'
    subst hheld'
    exact hheld
  · rw [AList.lookup_insert_ne hx] at hheld'
    exact h held' hheld'

theorem deadline_erase {P : Option Nat → Prop} (h : ∀ held ∈ r.lookup x, P held.deadline) :
    ∀ held ∈ AList.lookup x (r.erase key), P held.deadline := by
  intro held hheld
  by_cases hx : x = key
  · subst hx
    rw [AList.lookup_erase] at hheld
    cases hheld
  · rw [AList.lookup_erase_ne hx] at hheld
    exact h held hheld

theorem deadline_modify {P : Option Nat → Prop} (hnone : P none)
    (h : ∀ held ∈ r.lookup x, P held.deadline) (f : Option V → Option V) :
    ∀ held ∈ (r.modify now key f).lookup x, P held.deadline := by
  unfold modify
  cases hheld : r.held now key with
  | none =>
      dsimp only
      split
      · exact h
      · exact deadline_insert h hnone
  | some held =>
      dsimp only
      split
      · exact deadline_erase h
      · by_cases hx : x = key
        · subst hx
          exact deadline_insert h (h held (held_eq_some hheld).1)
        · intro held' hheld'
          rw [AList.lookup_insert_ne hx] at hheld'
          exact h held' hheld'

theorem Lasting.store (h : r.Lasting x) (key : κ) (v : V) : (r.store key v).Lasting x :=
  deadline_insert (P := (· = none)) h rfl

theorem lasting_store_self (r : Keyspace κ V) (key : κ) (v : V) : (r.store key v).Lasting key := by
  intro held hheld
  rw [store, AList.lookup_insert, Option.mem_some_iff] at hheld
  subst hheld
  rfl

theorem Lasting.erase (h : r.Lasting x) (key : κ) : Lasting (r.erase key) x :=
  deadline_erase (P := (· = none)) h

theorem Lasting.modify (h : r.Lasting x) (now : Nat) (key : κ) (f : Option V → Option V) :
    (r.modify now key f).Lasting x := deadline_modify (P := (· = none)) rfl h f

theorem Current.store (h : r.Current now x) (key : κ) (v : V) : (r.store key v).Current now x :=
  deadline_insert (P := fun deadline => deadline.all (now < ·)) h rfl

theorem Current.modify (h : r.Current now x) (later : Nat) (key : κ) (f : Option V → Option V) :
    (r.modify later key f).Current now x :=
  deadline_modify (P := fun deadline => deadline.all (now < ·)) rfl h f

end Written

/-! ## Deadlines -/

/-- The deadline of what the key holds at a time. -/
def deadline (r : Keyspace κ V) (now : Nat) (key : κ) : Option Nat :=
  (r.held now key).bind Held.deadline

section Deadlines

variable {r : Keyspace κ V} {now later : Nat} {key x : κ} {v : V} {d : Option Nat}

theorem lookup_modify_ne (hne : x ≠ key) (f : Option V → Option V) :
    (r.modify now key f).lookup x = r.lookup x := by
  unfold modify
  split
  · split
    · rfl
    · exact AList.lookup_insert_ne hne
  · split
    · exact AList.lookup_erase_ne hne
    · exact AList.lookup_insert_ne hne

theorem deadline_congr {r' : Keyspace κ V} (h : r.lookup x = r'.lookup x) :
    r.deadline now x = r'.deadline now x := by
  unfold deadline held
  rw [h]

/-- The deadline of what is there has not passed. -/
theorem filter_deadline (r : Keyspace κ V) (now : Nat) (x : κ) :
    (r.deadline now x).filter (now < ·) = r.deadline now x := by
  unfold deadline
  cases hheld : r.held now x with
  | none => rfl
  | some h =>
      have halive : h.deadline.all (now < ·) := (held_eq_some hheld).2
      rw [Option.bind_some]
      cases hdeadline : h.deadline with
      | none => rfl
      | some t =>
          rw [hdeadline] at halive
          exact if_pos halive

/-- An update that removes nothing keeps the deadline. -/
theorem lookup_modify_self (r : Keyspace κ V) (now : Nat) (key : κ) {f : Option V → Option V}
    (hf : ∀ o, (f o).isSome) :
    ∃ v, (r.modify now key f).lookup key =
      some { value := v, deadline := r.deadline now key } := by
  unfold modify deadline
  cases r.held now key with
  | none =>
      obtain ⟨v, hv⟩ := Option.isSome_iff_exists.mp (hf none)
      dsimp only
      rw [hv]
      exact ⟨v, AList.lookup_insert r⟩
  | some held =>
      obtain ⟨v, hv⟩ := Option.isSome_iff_exists.mp (hf (some held.value))
      dsimp only
      rw [hv]
      exact ⟨v, AList.lookup_insert r⟩

theorem lookup_expire_ne (hne : x ≠ key) (t : Nat) :
    (r.expire now key t).lookup x = r.lookup x := by
  unfold expire
  split
  · rfl
  · exact AList.lookup_insert_ne hne

theorem all_filter_deadline (d : Option Nat) (now : Nat) :
    (d.filter (now < ·)).all (now < ·) := by
  cases d with
  | none => rfl
  | some t =>
      rw [Option.filter_some]
      split
      · next hlt => exact hlt
      · rfl

theorem lookup_expire_self (now : Nat) (h : r.lookup key = some { value := v, deadline := d })
    (halive : d.all (now < ·)) (t : Nat) :
    (r.expire now key t).lookup key = some { value := v, deadline := some t } := by
  unfold expire held
  have hfilter : (some { value := v, deadline := d } : Option (Held V)).filter (·.alive now) =
      some { value := v, deadline := d } := by
    rw [Option.filter_some]
    exact if_pos halive
  rw [h, hfilter]
  exact AList.lookup_insert r

theorem isSome_value_of_lookup (h : r.lookup x = some { value := v, deadline := d }) :
    (r.value now x).isSome = d.all (now < ·) := by
  unfold value held
  rw [h, Option.filter_some]
  show (Option.map _ (if d.all (now < ·) = true then _ else _)).isSome = _
  cases d.all (now < ·) with
  | _ => rfl

theorem deadline_of_lookup (h : r.lookup x = some { value := v, deadline := d }) :
    r.deadline now x = d.filter (now < ·) := by
  unfold deadline held
  rw [h, Option.filter_some]
  show ((if d.all (now < ·) = true then _ else _) : Option (Held V)).bind _ = _
  cases d with
  | none => rfl
  | some t =>
      rw [Option.filter_some, Option.all_some]
      split
      · rfl
      · rfl

end Deadlines

end Keyspace
end Foundation

/-!
## Named keys

Some of the keys of a key space have names, each its own, and none of them expires. What
they hold is then a function of the name, and every operation on a named key updates
that function at one name.
-/

namespace Foundation
namespace Keyspace

variable {κ V ι : Type} [DecidableEq κ] [DecidableEq ι]

/-- The keys hold what the function says, for good. -/
def Holds (r : Keyspace κ V) (name : ι → κ) (f : ι → Option V) : Prop :=
  ∀ i, r.lookup (name i) = (f i).map fun v => { value := v }

variable {r : Keyspace κ V} {name : ι → κ} {f : ι → Option V} {now : Nat}

omit [DecidableEq ι] in
theorem Holds.held (h : r.Holds name f) (now : Nat) (i : ι) :
    r.held now (name i) = (f i).map fun v => { value := v } := by
  unfold Keyspace.held
  rw [h i]
  cases f i with
  | _ => rfl

omit [DecidableEq ι] in
theorem Holds.value (h : r.Holds name f) (now : Nat) (i : ι) : r.value now (name i) = f i := by
  unfold Keyspace.value
  rw [h.held now i]
  cases f i with
  | _ => rfl

theorem Holds.insert (hname : Function.Injective name) (h : r.Holds name f) (i : ι) (v : V) :
    Holds (AList.insert (name i) { value := v } r) name (Function.update f i (some v)) := by
  intro j
  by_cases hj : j = i
  · subst hj
    rw [AList.lookup_insert, Function.update_self]
    rfl
  · rw [AList.lookup_insert_ne (hname.ne hj), Function.update_of_ne hj]
    exact h j

theorem Holds.store (hname : Function.Injective name) (h : r.Holds name f) (i : ι) (v : V) :
    (r.store (name i) v).Holds name (Function.update f i (some v)) := h.insert hname i v

theorem Holds.erase (hname : Function.Injective name) (h : r.Holds name f) (i : ι) :
    Holds (AList.erase (name i) r) name (Function.update f i none) := by
  intro j
  by_cases hj : j = i
  · subst hj
    rw [AList.lookup_erase, Function.update_self]
    rfl
  · rw [AList.lookup_erase_ne (hname.ne hj), Function.update_of_ne hj]
    exact h j

theorem Holds.modify (hname : Function.Injective name) (h : r.Holds name f) (now : Nat) (i : ι)
    (g : Option V → Option V) :
    (r.modify now (name i) g).Holds name (Function.update f i (g (f i))) := by
  unfold Keyspace.modify
  rw [h.held now i]
  cases hf : f i with
  | none =>
      dsimp only [Option.map_none]
      cases hg : g none with
      | none =>
          have hsame : Function.update f i none = f := by
            rw [← hf]
            exact Function.update_eq_self i f
          rw [hsame]
          exact h
      | some v => exact h.store hname i v
  | some old =>
      dsimp only [Option.map_some]
      cases hg : g (some old) with
      | none => exact h.erase hname i
      | some v => exact h.insert hname i v

end Keyspace
end Foundation
