import Labios.Label.Continuation

/-!
# Chains of continuations

Can a label chain itself forever? The chained label is read from a buffer whose bytes
are written with two characters each in `chain_params`. A string that lies inside the
buffer has at most half as many characters, and so has the `chain_params` of the
chained label. On its way to the next worker the label is written, read and marked, which
keeps its continuation. So every chain ends (`continuations_finite`).
-/

namespace Labios

namespace FlatBuffers

/-- What the code relies on: a buffer that was written reads as what was stored, strings
lie inside the buffer they are read from, and an empty buffer, a null pointer, has no
root table. -/
structure Sound (fb : FlatBuffers) : Prop where
  stored : ∀ t t', fb.getRoot (fb.finish t) = .ok t' → t' = t
  inside : ∀ buf t, fb.getRoot buf = .ok t → ∀ c ∈ t.continuation, ∀ s ∈ c.chainParams,
    s.length ≤ buf.length
  nonempty : ∀ t, fb.getRoot [] ≠ .ok t

end FlatBuffers

variable {fb : FlatBuffers} {l l' : LabelData}

/-- From the worker that publishes a label to the worker that executes it: written and
read any number of times, and changed by the dispatcher, which keeps the continuation
of a label or merges it into one with the default continuation. -/
inductive Travels (fb : FlatBuffers) (l : LabelData) : LabelData → Prop
  | published : Travels fb l l
  | read {l' l'' : LabelData} : Travels fb l l' →
      fb.deserializeLabel (fb.serializeLabel l') = .ok l'' → Travels fb l l''
  | dispatched {l' l'' : LabelData} : Travels fb l l' →
      l''.continuation = l'.continuation ∨ l''.continuation = {} → Travels fb l l''

/-- The marks of the dispatcher and the worker are such changes. -/
theorem Travels.marked {l'' : LabelData} (h : Travels fb l l') (hmark : request l'' = request l') :
    Travels fb l l'' := by
  have hfield := congrArg LabelData.continuation hmark
  exact h.dispatched (.inl hfield)

/-- The first label is executed, and the second one is what the next worker gets of the
label that is chained to it. -/
def Continues (fb : FlatBuffers) (l l' : LabelData) : Prop :=
  ∃ newId completion chained, fb.maybeProcessContinuation newId l completion = some chained ∧
    Travels fb chained l'

/-! ## Lengths -/

def chainLength (l : LabelData) : Nat := l.continuation.chainParams.length

theorem continuation_deserializeLabel {t : Schema.Label} (h : deserializeLabel t = .ok l) :
    l.continuation = deserializeContinuation t.continuation := by
  unfold deserializeLabel at h
  cases hpipeline : deserializePipelineData t.pipelineData with
  | error text =>
      rw [hpipeline] at h
      cases h
  | ok pipeline =>
      rw [hpipeline] at h
      obtain rfl := Except.ok.inj h
      rfl

/-- A label is not longer than the buffer it was read from. -/
theorem chainLength_le_of_read (hfb : fb.Sound) {buf : List UInt8}
    (h : fb.deserializeLabel buf = .ok l) : 0 < buf.length ∧ chainLength l ≤ buf.length := by
  unfold FlatBuffers.deserializeLabel at h
  cases hroot : fb.getRoot buf with
  | error text =>
      rw [hroot] at h
      cases h
  | ok t =>
      rw [hroot] at h
      have hcontinuation := continuation_deserializeLabel h
      constructor
      · cases buf with
        | nil => exact absurd hroot (hfb.nonempty t)
        | cons b rest => exact Nat.succ_pos _
      · unfold chainLength
        rw [hcontinuation]
        cases htable : t.continuation with
        | none => exact Nat.zero_le _
        | some c =>
            show (fbReadString c.chainParams).length ≤ _
            cases hparams : c.chainParams with
            | none => exact Nat.zero_le _
            | some s => exact hfb.inside buf t hroot c htable s hparams

/-- The chained label is at most half as long. -/
theorem chainLength_chainedLabel (hfb : fb.Sound) {newId : UInt64} {chained : LabelData}
    (h : chainedLabel fb newId l = .ok chained) : chainLength chained < chainLength l := by
  unfold chainedLabel FlatBuffers.decodeChainParams at h
  cases hhex : fromHex l.continuation.chainParams.toList with
  | error text =>
      rw [hhex] at h
      cases h
  | ok buf =>
      rw [hhex] at h
      cases hread : fb.deserializeLabel buf with
      | error text =>
          have h : (fb.deserializeLabel buf).map _ = _ := h
          rw [hread] at h
          cases h
      | ok decoded =>
          have h : (fb.deserializeLabel buf).map _ = _ := h
          rw [hread] at h
          obtain rfl := Except.ok.inj h
          obtain ⟨hpos, hle⟩ := chainLength_le_of_read hfb hread
          have hhalf : 2 * buf.length ≤ chainLength l := length_fromHex hhex
          have hle : chainLength decoded ≤ buf.length := hle
          show chainLength decoded < chainLength l
          omega

theorem chainLength_maybeProcessContinuation (hfb : fb.Sound) {newId : UInt64}
    {completion : CompletionData} {chained : LabelData}
    (h : fb.maybeProcessContinuation newId l completion = some chained) :
    chainLength chained < chainLength l := by
  have hchained : chainedLabel fb newId l = .ok chained := by
    have hmap : ∀ x : Except String LabelData, x.map some = .ok (some chained) → x = .ok chained := by
      intro x hx
      cases x with
      | error text => cases hx
      | ok y => exact congrArg Except.ok (Option.some.inj (Except.ok.inj hx))
    unfold FlatBuffers.maybeProcessContinuation at h
    split at h
    · cases h
    · split at h
      · next reply hprocess =>
          subst h
          unfold processContinuation at hprocess
          split at hprocess
          · cases hprocess
          · cases hprocess
          · exact hmap _ hprocess
          · split at hprocess
            · cases hprocess
            · cases hprocess
            · exact hmap _ hprocess
      · cases h
  exact chainLength_chainedLabel hfb hchained

theorem chainLength_default : ({} : Continuation).chainParams.length = 0 := rfl

theorem Travels.chainLength_le (hfb : fb.Sound) (h : Travels fb l l') :
    chainLength l' ≤ chainLength l := by
  induction h with
  | published => exact Nat.le_refl _
  | @read mid last _ hread ih =>
      refine Nat.le_trans ?_ ih
      unfold FlatBuffers.deserializeLabel FlatBuffers.serializeLabel at hread
      cases hroot : fb.getRoot (fb.finish (serializeLabel mid)) with
      | error text =>
          rw [hroot] at hread
          cases hread
      | ok t =>
          rw [hroot] at hread
          obtain rfl := hfb.stored _ _ hroot
          have hcontinuation : last.continuation =
              deserializeContinuation (serializeContinuation mid.continuation) :=
            continuation_deserializeLabel hread
          unfold chainLength
          rw [hcontinuation, deserializeContinuation_serializeContinuation]
          split
          · rw [chainLength_default]
            exact Nat.zero_le _
          · exact Nat.le_refl _
  | dispatched _ hchange ih =>
      refine Nat.le_trans ?_ ih
      unfold chainLength
      rcases hchange with hsame | hdefault
      · rw [hsame]
      · rw [hdefault, chainLength_default]
        exact Nat.zero_le _

theorem Continues.chainLength_lt (hfb : fb.Sound) (h : Continues fb l l') :
    chainLength l' < chainLength l := by
  obtain ⟨newId, completion, chained, hprocess, htravels⟩ := h
  exact Nat.lt_of_le_of_lt (htravels.chainLength_le hfb)
    (chainLength_maybeProcessContinuation hfb hprocess)

/-- **Finite chains.** Whatever the continuations, the completions and the ids: the chained
label has shorter `chain_params`, also where it is executed, and a chain has at most as
many steps as the first `chain_params` has characters. -/
theorem continuations_finite (fb : FlatBuffers) (hfb : fb.Sound) :
    (∀ newId l completion chained, fb.maybeProcessContinuation newId l completion = some chained →
      chainLength chained < chainLength l) ∧
    (∀ l l', Continues fb l l' → chainLength l' < chainLength l) ∧
    (∀ (n : Nat) (labels : Nat → LabelData),
      (∀ i < n, Continues fb (labels i) (labels (i + 1))) → n ≤ chainLength (labels 0)) ∧
    ¬∃ labels : Nat → LabelData, ∀ i, Continues fb (labels i) (labels (i + 1)) := by
  have hbound : ∀ (n : Nat) (labels : Nat → LabelData),
      (∀ i < n, Continues fb (labels i) (labels (i + 1))) →
        chainLength (labels n) + n ≤ chainLength (labels 0) := by
    intro n labels
    induction n with
    | zero => exact fun _ => Nat.le_refl _
    | succ n ih =>
        intro h
        have hlast := (h n (Nat.lt_succ_self n)).chainLength_lt hfb
        have hfront := ih fun i hi => h i (Nat.lt_succ_of_lt hi)
        omega
  refine ⟨fun _ _ _ _ h => chainLength_maybeProcessContinuation hfb h,
    fun _ _ h => h.chainLength_lt hfb, fun n labels h => ?_, fun ⟨labels, h⟩ => ?_⟩
  · have := hbound n labels h
    omega
  · have := hbound (chainLength (labels 0) + 1) labels fun i _ => h i
    omega

/-! ## A chain of two labels -/

/-- The table of the shortest buffer: nothing was added to it. -/
def emptyTable : Schema.Label where
  id := none
  type := none
  source := none
  destination := none
  operation := none
  flags := none
  priority := none
  appId := none
  dataSize := none
  intent := none
  ttlSeconds := none
  isolation := none
  replyTo := none
  fileKey := none
  version := none
  durability := none
  continuation := none
  sourceUri := none
  destUri := none
  pipelineData := none
  dependencies := none
  children := none
  routing := none
  supertaskId := none
  aggregation := none
  scoreSnapshot := none
  hops := none
  status := none
  createdUs := none
  queuedUs := none
  dispatchedUs := none
  startedUs := none
  completedUs := none
  result := none

/-- The offset of the root table, a vtable without fields, and the offset of the vtable. -/
def shortestBuffer : List UInt8 := [8, 0, 0, 0, 4, 0, 4, 0, 4, 0, 0, 0]

/-- Reads this one buffer. -/
def shortestOnly : FlatBuffers where
  finish := fun _ => []
  getRoot := fun buf => if buf = shortestBuffer then .ok emptyTable else .error "no label"

theorem shortestOnly_sound : shortestOnly.Sound where
  stored := fun t t' h => by cases h
  inside := fun buf t h c hc => by
    have h : (if buf = shortestBuffer then Except.ok emptyTable else Except.error "no label" :
        Except String Schema.Label) = .ok t := h
    split at h
    · obtain rfl := Except.ok.inj h
      cases hc
    · cases h
  nonempty := fun t h => by cases h

def chaining : LabelData where
  id := 4
  appId := 2
  continuation := { kind := .conditional, condition := "status == Complete",
                    chainParams := "080000000400040004000000" }

theorem continuations_finite_shortest :
    ∃ chained, shortestOnly.maybeProcessContinuation 5 chaining {} = some chained ∧
      chained.appId = 2 ∧ chainLength chained < chainLength chaining := by
  have hsome : (shortestOnly.maybeProcessContinuation 5 chaining {}).map LabelData.appId =
      some 2 := by decide +kernel
  obtain ⟨chained, hchained, happ⟩ := Option.map_eq_some_iff.mp hsome
  exact ⟨chained, hchained, happ,
    (continuations_finite shortestOnly shortestOnly_sound).1 5 chaining {} chained hchained⟩

end Labios
