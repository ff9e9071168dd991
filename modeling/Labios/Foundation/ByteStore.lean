import Mathlib.Data.List.Basic
import Mathlib.Data.List.Infix

/-!
# Byte-array stores

One unbounded array of cells per key. `overlay` writes a list of cells at an
offset, `slice` reads a range. The rules: an overlay changes the cells of its
range and no other (`overlay_inside`, `overlay_outside`), consecutive overlays
are one (`overlay_append`), and overlays of ranges that do not meet commute
(`overlay_comm`).

`foldl_of_last` is the rule for a whole run: what is observed at the end is what
the last step that touches the observation put there.
-/

namespace Foundation

variable {κ β : Type} [DecidableEq κ]

abbrev Store (κ β : Type) := κ → Nat → β

/-- The cells `[off, off + data.length)` of array `k` become `data`. -/
def overlay (s : Store κ β) (k : κ) (off : Nat) (data : List β) : Store κ β :=
  fun k' p => if k' = k ∧ off ≤ p then (data[p - off]?).getD (s k' p) else s k' p

/-- The cells `[off, off + len)` of array `k`. -/
def slice (s : Store κ β) (k : κ) (off len : Nat) : List β :=
  (List.range' off len).map (s k)

theorem overlay_inside (s : Store κ β) (k : κ) {off p : Nat} {data : List β} {b : β}
    (hlo : off ≤ p) (hb : data[p - off]? = some b) : overlay s k off data k p = b := by
  simp [overlay, hlo, hb]

theorem overlay_outside (s : Store κ β) {k k' : κ} {off p : Nat} {data : List β}
    (h : ¬(k' = k ∧ off ≤ p ∧ p < off + data.length)) : overlay s k off data k' p = s k' p := by
  unfold overlay
  by_cases hc : k' = k ∧ off ≤ p
  · have hlen : data.length ≤ p - off := by
      have : ¬p < off + data.length := fun hp => h ⟨hc.1, hc.2, hp⟩
      omega
    rw [if_pos hc, List.getElem?_eq_none hlen]
    rfl
  · rw [if_neg hc]

@[simp] theorem overlay_nil (s : Store κ β) (k : κ) (off : Nat) : overlay s k off [] = s := by
  funext k' p
  exact overlay_outside s (by simp)

/-- Two consecutive overlays are one overlay of the concatenation. -/
theorem overlay_append (s : Store κ β) (k : κ) (off : Nat) (front back : List β) :
    overlay (overlay s k off front) k (off + front.length) back =
      overlay s k off (front ++ back) := by
  funext k' p
  by_cases hk : k' = k
  · subst hk
    by_cases hlo : off ≤ p
    · by_cases hfront : p < off + front.length
      · -- in front: the second overlay starts above
        have hget : (front ++ back)[p - off]? = front[p - off]? :=
          List.getElem?_append_left (by omega)
        rw [overlay_outside _ (by omega)]
        simp only [overlay, hlo, and_true, if_true, hget]
      · have hget : (front ++ back)[p - off]? = back[p - off - front.length]? :=
          List.getElem?_append_right (by omega)
        have hidx : p - (off + front.length) = p - off - front.length := by omega
        have hold : overlay s k' off front k' p = s k' p := overlay_outside _ (by omega)
        have hlo2 : off + front.length ≤ p := by omega
        rw [overlay, if_pos ⟨rfl, hlo2⟩, hold, overlay, if_pos ⟨rfl, hlo⟩, hget, hidx]
    · rw [overlay_outside _ (by omega), overlay_outside _ (by omega),
        overlay_outside _ (by omega)]
  · rw [overlay_outside _ (by simp [hk]), overlay_outside _ (by simp [hk]),
      overlay_outside _ (by simp [hk])]

/-- Overlays of ranges that do not meet commute. -/
theorem overlay_comm (s : Store κ β) {k k' : κ} {off off' : Nat} {data data' : List β}
    (h : k = k' → off + data.length ≤ off' ∨ off' + data'.length ≤ off) :
    overlay (overlay s k off data) k' off' data' =
      overlay (overlay s k' off' data') k off data := by
  funext i p
  by_cases h1 : i = k ∧ off ≤ p ∧ p < off + data.length
  · have h2 : ¬(i = k' ∧ off' ≤ p ∧ p < off' + data'.length) := by
      rintro ⟨rfl, hlo, hhi⟩
      have := h h1.1.symm
      omega
    obtain ⟨rfl, hlo, hhi⟩ := h1
    have hget : data[p - off]? = some data[p - off] := List.getElem?_eq_getElem (by omega)
    rw [overlay_outside _ h2, overlay_inside _ _ hlo hget, overlay_inside _ _ hlo hget]
  · have hold : ∀ s' : Store κ β, overlay s' k off data i p = s' i p :=
      fun s' => overlay_outside s' h1
    rw [hold]
    by_cases h2 : i = k' ∧ off' ≤ p ∧ p < off' + data'.length
    · obtain ⟨rfl, hlo, hhi⟩ := h2
      have hget : data'[p - off']? = some data'[p - off'] := List.getElem?_eq_getElem (by omega)
      rw [overlay_inside _ _ hlo hget, overlay_inside _ _ hlo hget]
    · rw [overlay_outside _ h2, overlay_outside _ h2, hold]

/-- A slice does not see an overlay of a range it does not meet. -/
theorem slice_overlay (s : Store κ β) {k k' : κ} {off len off' : Nat} {data : List β}
    (h : k = k' → off + len ≤ off' ∨ off' + data.length ≤ off) :
    slice (overlay s k' off' data) k off len = slice s k off len := by
  unfold slice
  apply List.map_congr_left
  intro p hp
  rw [List.mem_range'_1] at hp
  apply overlay_outside
  rintro ⟨hk, hlo, hhi⟩
  have := h hk
  omega

omit [DecidableEq κ] in
/-- Slices agree when the cells they read agree. -/
theorem slice_congr {s s' : Store κ β} {k : κ} {off len : Nat} :
    slice s k off len = slice s' k off len ↔ ∀ p, off ≤ p → p < off + len → s k p = s' k p := by
  unfold slice
  rw [List.map_inj_left]
  constructor
  · intro h p hlo hhi
    exact h p (List.mem_range'_1.mpr ⟨hlo, hhi⟩)
  · intro h p hp
    obtain ⟨hlo, hhi⟩ := List.mem_range'_1.mp hp
    exact h p hlo hhi

/-! ## The last step that touches an observation -/

variable {σ α γ : Type}

/-- Steps that leave an observation alone leave it alone over a run. -/
theorem foldl_untouched {run : σ → α → σ} (obs : σ → γ) {l : List α}
    (hskip : ∀ a ∈ l, ∀ s, obs (run s a) = obs s) (s : σ) : obs (l.foldl run s) = obs s := by
  induction l generalizing s with
  | nil => rfl
  | cons a l ih =>
      rw [List.foldl_cons, ih (fun b hb => hskip b (List.mem_cons_of_mem _ hb)),
        hskip a List.mem_cons_self s]

/-- After a run, the observation is what the last step touching it put there. -/
theorem foldl_of_last {run : σ → α → σ} (obs : σ → γ) {front back : List α} {a : α} {v : γ}
    (hset : ∀ s, obs (run s a) = v) (hskip : ∀ b ∈ back, ∀ s, obs (run s b) = obs s) (s : σ) :
    obs ((front ++ a :: back).foldl run s) = v := by
  rw [List.foldl_append, List.foldl_cons, foldl_untouched obs hskip, hset]

/-- Of the steps that touch an observation, one is the last. -/
theorem exists_last (touches : α → Prop) [DecidablePred touches] {l : List α}
    (h : ∃ a ∈ l, touches a) :
    ∃ front a back, l = front ++ a :: back ∧ touches a ∧ ∀ b ∈ back, ¬touches b := by
  induction l with
  | nil =>
      obtain ⟨a, ha, _⟩ := h
      exact absurd ha List.not_mem_nil
  | cons x l ih =>
      by_cases hl : ∃ a ∈ l, touches a
      · obtain ⟨front, a, back, rfl, ha, hback⟩ := ih hl
        exact ⟨x :: front, a, back, rfl, ha, hback⟩
      · obtain ⟨a, ha, hta⟩ := h
        rcases List.mem_cons.mp ha with rfl | ha
        · exact ⟨[], a, l, rfl, hta, fun b hb htb => hl ⟨b, hb, htb⟩⟩
        · exact absurd ⟨a, ha, hta⟩ hl

end Foundation
