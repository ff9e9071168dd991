import Labios.Foundation.ByteStore
import Labios.Storage.Posix

/-!
# One file as bytes

Contents compared byte by byte, where a file that is too short has zeros
(`byteIn`), and the writes of several regions one after the other (`writeAll`):
a byte is what the last region that covers it has there (`lastAt`), else what it
was before.
-/

namespace Labios

open Foundation

/-! ## Contents -/

def byteIn (content : List UInt8) (p : Nat) : UInt8 := (content[p]?).getD 0

/-- A read, up to the end of the data. -/
def readAt (content : List UInt8) (offset count : Nat) : List UInt8 :=
  (content.drop offset).take count

variable {content other data : List UInt8} {offset count p : Nat}

theorem getElem?_eq_byteIn (h : p < content.length) : content[p]? = some (byteIn content p) := by
  rw [byteIn, List.getElem?_eq_getElem h]
  rfl

theorem byteIn_beyond (h : content.length ≤ p) : byteIn content p = 0 := by
  rw [byteIn, List.getElem?_eq_none h]
  rfl

theorem getElem?_congr_byteIn (hlength : p < content.length ↔ p < other.length)
    (hbyte : byteIn content p = byteIn other p) : content[p]? = other[p]? := by
  by_cases hp : p < content.length
  · rw [getElem?_eq_byteIn hp, getElem?_eq_byteIn (hlength.mp hp), hbyte]
  · have hp' : ¬p < other.length := fun h => hp (hlength.mpr h)
    rw [List.getElem?_eq_none (Nat.le_of_not_lt hp), List.getElem?_eq_none (Nat.le_of_not_lt hp')]

theorem content_ext (hlength : ∀ p, p < content.length ↔ p < other.length)
    (hbyte : ∀ p, byteIn content p = byteIn other p) : content = other :=
  List.ext_getElem? fun p => getElem?_congr_byteIn (hlength p) (hbyte p)

theorem getElem?_readAt (content : List UInt8) (offset count i : Nat) :
    (readAt content offset count)[i]? = if i < count then content[offset + i]? else none := by
  rw [readAt, List.getElem?_take]
  split
  · rw [List.getElem?_drop]
  · rfl

/-- Reads agree where the contents do. -/
theorem readAt_congr (h : ∀ p, offset ≤ p → p < offset + count →
    (p < content.length ↔ p < other.length) ∧ byteIn content p = byteIn other p) :
    readAt content offset count = readAt other offset count := by
  apply List.ext_getElem?
  intro i
  rw [getElem?_readAt, getElem?_readAt]
  by_cases hi : i < count
  · obtain ⟨hlength, hbyte⟩ := h (offset + i) (by omega) (by omega)
    rw [if_pos hi, if_pos hi, getElem?_congr_byteIn hlength hbyte]
  · rw [if_neg hi, if_neg hi]

theorem readAt_add (content : List UInt8) (offset front back : Nat) :
    readAt content offset (front + back) =
      readAt content offset front ++ readAt content (offset + front) back := by
  unfold readAt
  rw [List.take_add, List.drop_drop]

/-! ## Writes -/

theorem lt_length_writeAt (hne : data ≠ []) :
    p < (writeAt content offset data).length ↔ p < content.length ∨ p < offset + data.length := by
  unfold writeAt
  rw [if_neg (by simpa using hne)]
  simp
  omega

theorem byteIn_writeAt_inside (hlo : offset ≤ p) (hhi : p < offset + data.length) :
    byteIn (writeAt content offset data) p = byteIn data (p - offset) := by
  rw [byteIn, writeAt_inside hlo hhi]
  rfl

theorem byteIn_writeAt_outside (h : p < offset ∨ offset + data.length ≤ p) :
    byteIn (writeAt content offset data) p = byteIn content p := by
  by_cases hp : p < content.length
  · rw [byteIn, writeAt_outside (getElem?_eq_byteIn hp) h]
    rfl
  · rw [byteIn_beyond (Nat.le_of_not_lt hp)]
    by_cases hne : data = []
    · rw [byteIn, writeAt_beyond (Nat.le_of_not_lt hp) (.inl hne)]
      rfl
    · rcases h with h | h
      · rw [byteIn, writeAt_gap hne (Nat.le_of_not_lt hp) h]
        rfl
      · rw [byteIn, writeAt_beyond (Nat.le_of_not_lt hp) (.inr h)]
        rfl

/-- A write within the content keeps its length. -/
theorem length_writeAt_of_le (h : offset + data.length ≤ content.length) :
    (writeAt content offset data).length = content.length := by
  unfold writeAt
  split
  · rfl
  · simp
    omega

@[simp] theorem writeAt_nil (content : List UInt8) (offset : Nat) :
    writeAt content offset [] = content := rfl

/-- Two consecutive writes are one. -/
theorem writeAt_append (content : List UInt8) (offset : Nat) (front back : List UInt8) :
    writeAt (writeAt content offset front) (offset + front.length) back =
      writeAt content offset (front ++ back) := by
  by_cases hfront : front = []
  · subst hfront
    rfl
  by_cases hback : back = []
  · subst hback
    rw [List.append_nil, writeAt_nil]
  refine content_ext (fun p => ?_) (fun p => ?_)
  · rw [lt_length_writeAt hback, lt_length_writeAt hfront,
      lt_length_writeAt (by simp [hfront]), List.length_append]
    omega
  · by_cases hin : offset ≤ p ∧ p < offset + (front ++ back).length
    · rw [byteIn_writeAt_inside hin.1 hin.2]
      have hlength : (front ++ back).length = front.length + back.length := List.length_append
      by_cases hp : p < offset + front.length
      · rw [byteIn_writeAt_outside (.inl hp), byteIn_writeAt_inside hin.1 hp, byteIn, byteIn,
          List.getElem?_append_left (by omega)]
      · rw [byteIn_writeAt_inside (by omega) (by omega), byteIn, byteIn,
          List.getElem?_append_right (by omega), Nat.sub_sub]
    · have hlength : (front ++ back).length = front.length + back.length := List.length_append
      rw [byteIn_writeAt_outside (by omega), byteIn_writeAt_outside (by omega),
        byteIn_writeAt_outside (by omega)]

/-! ## Regions -/

/-- Bytes at an offset. -/
abbrev Region := Nat × List UInt8

def Region.Covers (r : Region) (p : Nat) : Prop := r.1 ≤ p ∧ p < r.1 + r.2.length

instance Region.decidableCovers (r : Region) (p : Nat) : Decidable (r.Covers p) := inferInstanceAs (Decidable (_ ∧ _))

/-- The byte that the last region covering a position has there. -/
def lastAt (regions : List Region) (p : Nat) : Option UInt8 :=
  regions.foldl (fun found r => if r.Covers p then r.2[p - r.1]? else found) none

/-- The regions are written one after the other. -/
def writeAll (content : List UInt8) (regions : List Region) : List UInt8 :=
  regions.foldl (fun content r => writeAt content r.1 r.2) content

@[simp] theorem lastAt_nil (p : Nat) : lastAt [] p = none := rfl

theorem lastAt_concat (regions : List Region) (r : Region) (p : Nat) :
    lastAt (regions ++ [r]) p = if r.Covers p then r.2[p - r.1]? else lastAt regions p := by
  unfold lastAt
  rw [List.foldl_append]
  rfl

theorem writeAll_concat (content : List UInt8) (regions : List Region) (r : Region) :
    writeAll content (regions ++ [r]) = writeAt (writeAll content regions) r.1 r.2 := by
  unfold writeAll
  rw [List.foldl_append]
  rfl

theorem getElem?_of_covers {r : Region} (h : r.Covers p) :
    r.2[p - r.1]? = some (byteIn r.2 (p - r.1)) := by
  obtain ⟨hlo, hhi⟩ := h
  exact getElem?_eq_byteIn (by omega)

theorem lastAt_eq_none {regions : List Region} :
    lastAt regions p = none ↔ ∀ r ∈ regions, ¬r.Covers p := by
  induction regions using List.reverseRecOn with
  | nil => simp [lastAt]
  | append_singleton regions r ih =>
      rw [lastAt_concat]
      by_cases hr : r.Covers p
      · rw [if_pos hr, getElem?_of_covers hr]
        constructor
        · exact fun h => absurd h (by simp)
        · exact fun h => absurd hr (h r (by simp))
      · rw [if_neg hr, ih]
        simp [or_imp, forall_and, hr]

/-- The byte that is found stands in one of the regions. -/
theorem exists_of_lastAt {regions : List Region} {b : UInt8} (h : lastAt regions p = some b) :
    ∃ r ∈ regions, r.Covers p ∧ r.2[p - r.1]? = some b := by
  induction regions using List.reverseRecOn with
  | nil => cases h
  | append_singleton regions r ih =>
      rw [lastAt_concat] at h
      by_cases hr : r.Covers p
      · rw [if_pos hr] at h
        exact ⟨r, by simp, hr, h⟩
      · rw [if_neg hr] at h
        obtain ⟨r', hr', hc, hb⟩ := ih h
        exact ⟨r', List.mem_append_left _ hr', hc, hb⟩

/-- Regions that do not cover a position do not matter for it. -/
theorem lastAt_append_of_not_covers {f back : List Region} (h : ∀ r ∈ back, ¬r.Covers p) :
    lastAt (f ++ back) p = lastAt f p := by
  induction back using List.reverseRecOn with
  | nil => rw [List.append_nil]
  | append_singleton back r ih =>
      rw [← List.append_assoc, lastAt_concat, if_neg (h r (by simp)),
        ih fun r' hr' => h r' (by simp [hr'])]

/-- Behind a region that covers a position, nothing before matters for it. -/
theorem lastAt_append_of_covers {front back : List Region} (h : ∃ r ∈ back, r.Covers p) :
    lastAt (front ++ back) p = lastAt back p := by
  induction back using List.reverseRecOn with
  | nil => exact absurd h (by simp)
  | append_singleton back r ih =>
      rw [← List.append_assoc, lastAt_concat, lastAt_concat]
      by_cases hr : r.Covers p
      · rw [if_pos hr, if_pos hr]
      · rw [if_neg hr, if_neg hr]
        obtain ⟨r', hr', hcover⟩ := h
        rcases List.mem_append.mp hr' with hr' | hr'
        · exact ih ⟨r', hr', hcover⟩
        · rw [List.mem_singleton.mp hr'] at hcover
          exact absurd hcover hr

theorem lastAt_append (front back : List Region) (p : Nat) :
    lastAt (front ++ back) p = (lastAt back p).or (lastAt front p) := by
  by_cases hcover : ∃ r ∈ back, r.Covers p
  · rw [lastAt_append_of_covers hcover]
    cases hlast : lastAt back p with
    | some b => rfl
    | none =>
        obtain ⟨r, hr, hc⟩ := hcover
        exact absurd hc (lastAt_eq_none.mp hlast r hr)
  · have hnone : ∀ r ∈ back, ¬r.Covers p := fun r hr hc => hcover ⟨r, hr, hc⟩
    rw [lastAt_append_of_not_covers hnone, lastAt_eq_none.mpr hnone]
    rfl

theorem lastAt_cons (r : Region) (regions : List Region) (p : Nat) :
    lastAt (r :: regions) p =
      (lastAt regions p).or (if r.Covers p then r.2[p - r.1]? else none) := by
  rw [show r :: regions = [r] ++ regions from rfl, lastAt_append]
  rfl

theorem byteIn_writeAll (content : List UInt8) (regions : List Region) (p : Nat) :
    byteIn (writeAll content regions) p = (lastAt regions p).getD (byteIn content p) := by
  induction regions using List.reverseRecOn with
  | nil => rfl
  | append_singleton regions r ih =>
      rw [writeAll_concat, lastAt_concat]
      by_cases hr : r.Covers p
      · rw [if_pos hr, getElem?_of_covers hr]
        exact byteIn_writeAt_inside hr.1 hr.2
      · rw [if_neg hr, ← ih]
        refine byteIn_writeAt_outside ?_
        unfold Region.Covers at hr
        omega

theorem lt_length_writeAll {regions : List Region} (hne : ∀ r ∈ regions, r.2 ≠ []) :
    p < (writeAll content regions).length ↔
      p < content.length ∨ ∃ r ∈ regions, p < r.1 + r.2.length := by
  induction regions using List.reverseRecOn with
  | nil => simp [writeAll]
  | append_singleton regions r ih =>
      rw [writeAll_concat, lt_length_writeAt (hne r (by simp)),
        ih fun r' hr' => hne r' (by simp [hr']), or_assoc]
      refine or_congr_right ?_
      constructor
      · rintro (⟨r', hr', hlt⟩ | hlt)
        · exact ⟨r', List.mem_append_left _ hr', hlt⟩
        · exact ⟨r, by simp, hlt⟩
      · rintro ⟨r', hr', hlt⟩
        rcases List.mem_append.mp hr' with hr' | hr'
        · exact .inl ⟨r', hr', hlt⟩
        · rw [List.mem_singleton.mp hr'] at hlt
          exact .inr hlt

/-- A content reaches as far as it did and as far as the regions do. -/
theorem lt_length_writeAll_iff (content : List UInt8) (regions : List Region) (p : Nat) :
    p < (writeAll content regions).length ↔
      p < content.length ∨ ∃ q, p ≤ q ∧ (lastAt regions q).isSome = true := by
  induction regions using List.reverseRecOn with
  | nil => simp [writeAll]
  | append_singleton regions r ih =>
      rw [writeAll_concat]
      by_cases hne : r.2 = []
      · have hcovers : ∀ q, ¬r.Covers q := by
          intro q hq
          unfold Region.Covers at hq
          rw [hne, List.length_nil] at hq
          omega
        rw [hne, writeAt_nil, ih]
        simp only [lastAt_concat, hcovers, if_false]
      · rw [lt_length_writeAt hne, ih]
        have hpos := List.length_pos_iff.mpr hne
        constructor
        · rintro ((hlt | ⟨q, hq, hsome⟩) | hlt)
          · exact .inl hlt
          · refine .inr ⟨q, hq, ?_⟩
            rw [lastAt_concat]
            split
            · next hc => rw [getElem?_of_covers hc]; rfl
            · exact hsome
          · have hc : r.Covers (max p r.1) := ⟨by omega, by omega⟩
            refine .inr ⟨max p r.1, by omega, ?_⟩
            rw [lastAt_concat, if_pos hc, getElem?_of_covers hc]
            rfl
        · rintro (hlt | ⟨q, hq, hsome⟩)
          · exact .inl (.inl hlt)
          · rw [lastAt_concat] at hsome
            by_cases hc : r.Covers q
            · obtain ⟨-, hhi⟩ := hc
              exact .inr (by omega)
            · rw [if_neg hc] at hsome
              exact .inl (.inr ⟨q, hq, hsome⟩)

/-- Two lists of regions make the same file of every file exactly when they agree on the
last region of every byte. -/
theorem writeAll_congr_iff {regions others : List Region} :
    (∀ content, writeAll content regions = writeAll content others) ↔
      ∀ p, lastAt regions p = lastAt others p := by
  constructor
  · intro h p
    -- the byte at `p` before the writes tells whether a region covers it
    have hbyte : ∀ b : UInt8, (lastAt regions p).getD b = (lastAt others p).getD b := by
      intro b
      have hcontent : byteIn (List.replicate (p + 1) b) p = b := by
        rw [byteIn, List.getElem?_replicate_of_lt (Nat.lt_succ_self p)]
        rfl
      have hsame := congrArg (byteIn · p) (h (List.replicate (p + 1) b))
      simp only [byteIn_writeAll, hcontent] at hsame
      exact hsame
    have h0 := hbyte 0
    have h1 := hbyte 1
    cases hr : lastAt regions p with
    | none =>
        cases ho : lastAt others p with
        | none => rfl
        | some b =>
            rw [hr, ho, Option.getD_none, Option.getD_some] at h0 h1
            rw [← h0] at h1
            exact absurd h1 (by decide)
    | some b =>
        cases ho : lastAt others p with
        | none =>
            rw [hr, ho, Option.getD_none, Option.getD_some] at h0 h1
            rw [h0] at h1
            exact absurd h1 (by decide)
        | some b' =>
            rw [hr, ho, Option.getD_some, Option.getD_some] at h0
            rw [h0]
  · intro h content
    refine content_ext (fun p => ?_) fun p => ?_
    · simp only [lt_length_writeAll_iff, h]
    · rw [byteIn_writeAll, byteIn_writeAll, h]

end Labios
