import Labios.Storage.ByteFile

/-!
# Staged writes

A file of which several writers hold back regions: what it should contain, the
bytes in the store, and per writer the regions that will be written later, in
order (`Represents`). Draining a writer changes nothing about the file; a write
may go straight to the store when no staged region meets it, and may be staged
when the only regions it meets are the writer's own and come before it.
-/

namespace Labios

/-- A region shares a byte with the range from `first` up to `stop`. -/
def Region.Meets (r : Region) (first stop : Nat) : Prop := r.1 < stop ∧ first < r.1 + r.2.length

instance Region.decidableMeets (r : Region) (first stop : Nat) : Decidable (r.Meets first stop) :=
  inferInstanceAs (Decidable (_ ∧ _))

theorem Region.Covers.meets {r : Region} {p first stop : Nat} (h : r.Covers p) (hlo : first ≤ p)
    (hhi : p < stop) : r.Meets first stop := by
  obtain ⟨h1, h2⟩ := h
  exact ⟨by omega, by omega⟩

/-- A region takes the place of those within its range, before others that it does
not meet: to the reader it comes last. -/
theorem lastAt_restage {front mid back : List Region} {offset : Nat} {data : List UInt8}
    (hmid : ∀ r ∈ mid, offset ≤ r.1 ∧ r.1 + r.2.length ≤ offset + data.length)
    (hback : ∀ r ∈ back, ¬r.Meets offset (offset + data.length)) (p : Nat) :
    lastAt (front ++ (offset, data) :: back) p =
      lastAt (front ++ (mid ++ back) ++ [(offset, data)]) p := by
  rw [lastAt_concat, show front ++ (offset, data) :: back = front ++ [(offset, data)] ++ back by simp,
    lastAt_append, lastAt_concat]
  by_cases hin : Region.Covers (offset, data) p
  · rw [if_pos hin, if_pos hin,
      lastAt_eq_none.mpr fun r hr hc => hback r hr (hc.meets hin.1 hin.2)]
    rfl
  · have hnone : lastAt mid p = none := by
      refine lastAt_eq_none.mpr fun r hr hc => hin ?_
      obtain ⟨h1, h2⟩ := hmid r hr
      obtain ⟨h3, h4⟩ := hc
      exact ⟨h1.trans h3, by dsimp only; omega⟩
    rw [if_neg hin, if_neg hin, lastAt_append, lastAt_append, hnone, Option.or_none]

/-- The store and what is staged make up the file. -/
structure Represents {ι : Type} (content store : List UInt8) (staged : ι → List Region) :
    Prop where
  nonempty : ∀ i, ∀ r ∈ staged i, r.2 ≠ []
  /-- What is staged is the file's data, whoever holds it. -/
  agrees : ∀ i p b, lastAt (staged i) p = some b → byteIn content p = b
  stored : ∀ p, (∀ i, lastAt (staged i) p = none) → byteIn content p = byteIn store p
  length : ∀ p, p < content.length ↔
    p < store.length ∨ ∃ i, ∃ r ∈ staged i, p < r.1 + r.2.length

namespace Represents

variable {ι : Type} [DecidableEq ι] {content store data : List UInt8} {staged : ι → List Region}
  {offset count : Nat} {i : ι}

omit [DecidableEq ι] in
/-- With nothing staged the store is the file. -/
theorem store_eq (h : Represents content store staged) (hnone : ∀ i, staged i = []) :
    store = content := by
  refine content_ext (fun p => ?_) (fun p => ?_)
  · rw [h.length]
    simp [hnone]
  · refine (h.stored p fun i => ?_).symm
    rw [hnone]
    rfl

/-- A writer's regions are written to the store. -/
theorem drain (h : Represents content store staged) (i : ι) :
    Represents content (writeAll store (staged i)) (Function.update staged i []) := by
  refine ⟨fun j r hr => ?_, fun j p b hb => ?_, fun p hp => ?_, fun p => ?_⟩
  · by_cases hj : j = i
    · subst hj
      rw [Function.update_self] at hr
      exact absurd hr List.not_mem_nil
    · rw [Function.update_of_ne hj] at hr
      exact h.nonempty j r hr
  · by_cases hj : j = i
    · subst hj
      rw [Function.update_self] at hb
      exact absurd hb (by simp [lastAt])
    · rw [Function.update_of_ne hj] at hb
      exact h.agrees j p b hb
  · rw [byteIn_writeAll]
    cases hi : lastAt (staged i) p with
    | some b => exact h.agrees i p b hi
    | none =>
        refine h.stored p fun j => ?_
        by_cases hj : j = i
        · rw [hj, hi]
        · have := hp j
          rwa [Function.update_of_ne hj] at this
  · rw [h.length, lt_length_writeAll (h.nonempty i)]
    constructor
    · rintro (hp | ⟨j, r, hr, hp⟩)
      · exact .inl (.inl hp)
      · by_cases hj : j = i
        · subst hj
          exact .inl (.inr ⟨r, hr, hp⟩)
        · exact .inr ⟨j, r, by rwa [Function.update_of_ne hj], hp⟩
    · rintro ((hp | ⟨r, hr, hp⟩) | ⟨j, r, hr, hp⟩)
      · exact .inl hp
      · exact .inr ⟨i, r, hr, hp⟩
      · by_cases hj : j = i
        · subst hj
          rw [Function.update_self] at hr
          exact absurd hr List.not_mem_nil
        · rw [Function.update_of_ne hj] at hr
          exact .inr ⟨j, r, hr, hp⟩

omit [DecidableEq ι] in
/-- A write that no staged region meets goes to the store. -/
theorem direct (h : Represents content store staged) (hne : data ≠ [])
    (hfree : ∀ i, ∀ r ∈ staged i, ¬r.Meets offset (offset + data.length)) :
    Represents (writeAt content offset data) (writeAt store offset data) staged := by
  refine ⟨h.nonempty, fun i p b hb => ?_, fun p hp => ?_, fun p => ?_⟩
  · -- a staged byte lies outside the range
    obtain ⟨r, hr, hcover⟩ : ∃ r ∈ staged i, r.Covers p := by
      by_contra hnone
      have := lastAt_eq_none.mpr fun r hr hc => hnone ⟨r, hr, hc⟩
      rw [this] at hb
      exact absurd hb (by simp)
    have hout : p < offset ∨ offset + data.length ≤ p := by
      by_contra hin
      exact hfree i r hr (hcover.meets (by omega) (by omega))
    rw [byteIn_writeAt_outside hout]
    exact h.agrees i p b hb
  · by_cases hin : offset ≤ p ∧ p < offset + data.length
    · rw [byteIn_writeAt_inside hin.1 hin.2, byteIn_writeAt_inside hin.1 hin.2]
    · rw [byteIn_writeAt_outside (by omega), byteIn_writeAt_outside (by omega)]
      exact h.stored p hp
  · rw [lt_length_writeAt hne, lt_length_writeAt hne, h.length, or_right_comm]

/-- A write is staged behind the writer's regions that it meets; those it
replaces lie within it. -/
theorem stage (h : Represents content store staged) (hne : data ≠ []) {front mid back : List Region}
    (hsplit : staged i = front ++ (mid ++ back))
    (hmid : ∀ r ∈ mid, offset ≤ r.1 ∧ r.1 + r.2.length ≤ offset + data.length)
    (hback : ∀ r ∈ back, ¬r.Meets offset (offset + data.length))
    (hother : ∀ j, j ≠ i → ∀ r ∈ staged j, ¬r.Meets offset (offset + data.length)) :
    Represents (writeAt content offset data) store
      (Function.update staged i (front ++ (offset, data) :: back)) := by
  have hself : ∀ {p}, Region.Covers (offset, data) p ↔
      offset ≤ p ∧ p < offset + data.length := Iff.rfl
  -- outside the range the writer's last region is the one it was
  have hlast : ∀ p, ¬(offset ≤ p ∧ p < offset + data.length) →
      lastAt (front ++ (offset, data) :: back) p = lastAt (staged i) p := by
    intro p hp
    rw [hsplit, lastAt_restage hmid hback, lastAt_concat, if_neg fun hc => hp (hself.mp hc)]
  have hinside : ∀ p, offset ≤ p → p < offset + data.length →
      lastAt (front ++ (offset, data) :: back) p = some (byteIn data (p - offset)) := by
    intro p hlo hhi
    rw [lastAt_restage hmid hback, lastAt_concat, if_pos (hself.mpr ⟨hlo, hhi⟩)]
    exact getElem?_of_covers (r := (offset, data)) ⟨hlo, hhi⟩
  refine ⟨fun j r hr => ?_, fun j p b hb => ?_, fun p hp => ?_, fun p => ?_⟩
  · by_cases hj : j = i
    · subst hj
      rw [Function.update_self] at hr
      rcases List.mem_append.mp hr with hr | hr
      · exact h.nonempty j r (by simp [hsplit, hr])
      · rcases List.mem_cons.mp hr with rfl | hr
        · exact hne
        · exact h.nonempty j r (by simp [hsplit, hr])
    · rw [Function.update_of_ne hj] at hr
      exact h.nonempty j r hr
  · by_cases hin : offset ≤ p ∧ p < offset + data.length
    · rw [byteIn_writeAt_inside hin.1 hin.2]
      by_cases hj : j = i
      · subst hj
        rw [Function.update_self, hinside p hin.1 hin.2] at hb
        exact Option.some.inj hb
      · rw [Function.update_of_ne hj,
          lastAt_eq_none.mpr fun r hr hc => hother j hj r hr (hc.meets hin.1 hin.2)] at hb
        exact absurd hb (by simp)
    · rw [byteIn_writeAt_outside (by omega)]
      by_cases hj : j = i
      · subst hj
        rw [Function.update_self, hlast p hin] at hb
        exact h.agrees j p b hb
      · rw [Function.update_of_ne hj] at hb
        exact h.agrees j p b hb
  · have hi := hp i
    rw [Function.update_self] at hi
    by_cases hin : offset ≤ p ∧ p < offset + data.length
    · rw [hinside p hin.1 hin.2] at hi
      exact absurd hi (by simp)
    · rw [byteIn_writeAt_outside (by omega)]
      refine h.stored p fun j => ?_
      by_cases hj : j = i
      · subst hj
        rw [← hlast p hin, hi]
      · have := hp j
        rwa [Function.update_of_ne hj] at this
  · rw [lt_length_writeAt hne, h.length]
    constructor
    · rintro ((hp | ⟨j, r, hr, hp⟩) | hp)
      · exact .inl hp
      · by_cases hj : j = i
        · subst hj
          rw [hsplit, List.mem_append, List.mem_append] at hr
          rcases hr with hr | hr | hr
          · exact .inr ⟨j, r, by simp [hr], hp⟩
          · have := hmid r hr
            exact .inr ⟨j, (offset, data), by simp, by dsimp only; omega⟩
          · exact .inr ⟨j, r, by simp [hr], hp⟩
        · exact .inr ⟨j, r, by rwa [Function.update_of_ne hj], hp⟩
      · exact .inr ⟨i, (offset, data), by simp, hp⟩
    · rintro (hp | ⟨j, r, hr, hp⟩)
      · exact .inl (.inl hp)
      · by_cases hj : j = i
        · subst hj
          rw [Function.update_self, List.mem_append, List.mem_cons] at hr
          rcases hr with hr | rfl | hr
          · exact .inl (.inr ⟨j, r, by simp [hsplit, hr], hp⟩)
          · exact .inr hp
          · exact .inl (.inr ⟨j, r, by simp [hsplit, hr], hp⟩)
        · rw [Function.update_of_ne hj] at hr
          exact .inl (.inr ⟨j, r, hr, hp⟩)

omit [DecidableEq ι] in
/-- A read that one writer's regions cover sees the file. -/
theorem readAt_covered (h : Represents content store staged)
    (hcover : ∀ p, offset ≤ p → p < offset + count → ∃ b, lastAt (staged i) p = some b) :
    readAt content offset count =
      (List.range' offset count).map fun p => (lastAt (staged i) p).getD 0 := by
  apply List.ext_getElem?
  intro k
  rw [getElem?_readAt, List.getElem?_map]
  by_cases hk : k < count
  · obtain ⟨b, hb⟩ := hcover (offset + k) (by omega) (by omega)
    have hlength : offset + k < content.length := by
      refine (h.length _).mpr (.inr ⟨i, ?_⟩)
      by_contra hnone
      have := lastAt_eq_none.mpr fun r hr hc => hnone ⟨r, hr, hc.2⟩
      rw [this] at hb
      exact absurd hb (by simp)
    rw [if_pos hk, getElem?_eq_byteIn hlength, h.agrees i _ b hb,
      List.getElem?_range' hk]
    simp [hb]
  · rw [if_neg hk, List.getElem?_eq_none (by simp; omega)]
    rfl

omit [DecidableEq ι] in
/-- A read of the store sees the file when no staged region meets it, or lies
behind it while the store ends before it does. -/
theorem readAt_store (h : Represents content store staged)
    (hfree : ∀ i, ∀ r ∈ staged i, r.1 + r.2.length ≤ offset ∨
      offset + count ≤ r.1 ∧ offset + count ≤ store.length) :
    readAt store offset count = readAt content offset count := by
  refine readAt_congr fun p hlo hhi => ⟨?_, ?_⟩
  · rw [h.length]
    constructor
    · exact .inl
    · rintro (hp | ⟨i, r, hr, hp⟩)
      · exact hp
      · rcases hfree i r hr with hend | ⟨-, hstore⟩
        · omega
        · omega
  · refine (h.stored p fun i => lastAt_eq_none.mpr fun r hr hc => ?_).symm
    unfold Region.Covers at hc
    rcases hfree i r hr with hend | ⟨hstart, -⟩
    · omega
    · omega

end Represents

end Labios
