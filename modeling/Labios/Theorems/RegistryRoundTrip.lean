import Labios.Solver.RegistryProtocol

/-!
# Rows do not affect each other

A row of the registry is decoded or counted as malformed, whatever stands in the other rows
(`rows_isolated`). The conversions that throw only end their own row.
-/

namespace Labios

open Foundation

variable {tiny : ℚ → Bool}

/-- A line that is not empty is a worker or a malformed row. -/
theorem length_workers_add_malformedRows (tiny : ℚ → Bool) (payload : List Char) :
    (decodeWorkerRegistry tiny payload).workers.length +
        (decodeWorkerRegistry tiny payload).malformedRows = (registryRows payload).length := by
  rw [decodeWorkerRegistry_eq, List.length_filterMap_eq_countP]
  have hsplit := List.length_eq_countP_add_countP
    (fun line => (decodeWorkerRow tiny line).isSome) (l := registryRows payload)
  simpa only [Bool.not_eq_true, Option.isSome_eq_false_iff, decide_eq_true_eq,
    Bool.decide_eq_true] using hsplit.symm

/-- **Isolated rows.** Every payload is decoded, its rows are the workers and the malformed rows,
and what stands on both sides of a line break is decoded as if it stood alone. -/
theorem rows_isolated (tiny : ℚ → Bool) :
    (∀ payload, (decodeWorkerRegistry tiny payload).workers.length +
        (decodeWorkerRegistry tiny payload).malformedRows = (registryRows payload).length) ∧
      ∀ p q, decodeWorkerRegistry tiny (p ++ '\n' :: q) =
        { workers := (decodeWorkerRegistry tiny p).workers ++ (decodeWorkerRegistry tiny q).workers
          malformedRows := (decodeWorkerRegistry tiny p).malformedRows +
            (decodeWorkerRegistry tiny q).malformedRows } :=
  ⟨length_workers_add_malformedRows tiny, decodeWorkerRegistry_append tiny⟩

end Labios

/-!
## What of a worker travels

The dispatcher gets the workers back that the manager encodes, in their order, with the fields of
the wire format (`registry_roundTrip`). The extension variables are not in it: a worker comes back
with their defaults, so a profile that weighs them may score it differently.
-/

namespace Labios

open Foundation Elastic

/-! ## A worker and its row -/

namespace WorkerInfo

def row (w : WorkerInfo) : WorkerRow where
  id := w.id
  available := w.available
  capacity := .finite w.capacity
  load := .finite w.load
  speed := w.speed
  energy := w.energy
  tier := w.tier
  skills := w.skills
  compute := w.compute
  reasoning := w.reasoning

/-- The worker with the defaults of the variables that are not sent. -/
def sent (w : WorkerInfo) : WorkerInfo := { w with skills := 0, compute := 1, reasoning := 0 }

/-- The numbers are of their C++ types, and the doubles have six decimals. -/
structure Sendable (w : WorkerInfo) : Prop where
  id : IsInt w.id
  capacity : SixDecimals w.capacity
  load : SixDecimals w.load
  speed : IsInt w.speed
  energy : IsInt w.energy

variable {w : WorkerInfo}

/-- A worker with the defaults is sent as it is. -/
theorem sent_eq (hskills : w.skills = 0) (hcompute : w.compute = 1) (hreasoning : w.reasoning = 0) :
    w.sent = w := by
  unfold sent
  rw [← hskills, ← hcompute, ← hreasoning]

/-- A profile without weights for the variables that are not sent. -/
theorem computeScore_sent {wp : WeightProfile} (hskills : wp.skills = 0) (hcompute : wp.compute = 0)
    (hreasoning : wp.reasoning = 0) : computeScore w.sent wp = computeScore w wp := by
  unfold computeScore sent
  rw [hskills, hcompute, hreasoning]
  simp only [zero_mul]

end WorkerInfo

/-! ## One row -/

variable {tiny : ℚ → Bool} {w : WorkerInfo}

theorem tierOfLevel_level (tier : WorkerTier) : tierOfLevel (tier.level : Int) = tier := by
  cases tier with
  | databot => rfl
  | pipeline => rfl
  | agentic => rfl

theorem decodeTier_level (tier : WorkerTier) :
    decodeTier (toString (tier.level : Int)).toList = some tier := by
  have hint : IsInt (tier.level : Int) := by
    cases tier with
    | databot => decide
    | pipeline => decide
    | agentic => decide
  have hne : (toString (tier.level : Int)).toList ≠ [] := by
    rw [toList_toString_int, if_neg (by omega)]
    exact Nat.toDigits_ne_nil
  unfold decodeTier
  rw [getline_last hne (notMem_toString_int (by decide) (by decide) _)]
  dsimp only
  rw [if_neg hne, stoi_toString hint, Option.map_some, tierOfLevel_level]

/-- One field of a row is read. -/
theorem bind_getline {α : Type} {token : List Char} (h : ',' ∉ token) (rest : List Char)
    (f : List Char × List Char → Option α) :
    (getline ',' (token ++ ',' :: rest) >>= f) = f (token, rest) := by
  rw [getline_separator h]
  rfl

theorem bind_stoi {α : Type} {z : Int} (hz : IsInt z) (f : Int → Option α) :
    (stoi (toString z).toList >>= f) = f z := by
  rw [stoi_toString hz]
  rfl

theorem bind_stod {α : Type} {d : ℚ} (hd : SixDecimals d) (f : Double → Option α) :
    (stod tiny (fixedText d) >>= f) = f (.finite d) := by
  rw [stod_fixedText hd]
  rfl

theorem decodeWorkerRow_encodeWorkerRow (h : w.Sendable) :
    decodeWorkerRow tiny (encodeWorkerRow w) = some w.sent.row := by
  have hint : ∀ z : Int, ',' ∉ (toString z).toList :=
    fun z => notMem_toString_int (by decide) (by decide) z
  have hfixed : ∀ d : ℚ, ',' ∉ fixedText d :=
    fun d => notMem_fixedText (by decide) (by decide) (by decide) d
  have havailable : ',' ∉ (if w.available then ['1'] else ['0']) := by
    cases w.available with
    | true => decide
    | false => decide
  have hone : decide ((if w.available then ['1'] else ['0']) = ['1']) = w.available := by
    cases w.available with
    | true => rfl
    | false => rfl
  unfold decodeWorkerRow encodeWorkerRow
  rw [bind_getline (hint _)]
  dsimp only
  rw [bind_stoi h.id, bind_getline havailable]
  dsimp only
  rw [hone, bind_getline (hfixed _)]
  dsimp only
  rw [bind_stod h.capacity, bind_getline (hfixed _)]
  dsimp only
  rw [bind_stod h.load, bind_getline (hint _)]
  dsimp only
  rw [bind_stoi h.speed, bind_getline (hint _)]
  dsimp only
  rw [bind_stoi h.energy, decodeTier_level]
  rfl

theorem lineBreak_notMem_encodeWorkerRow (w : WorkerInfo) : '\n' ∉ encodeWorkerRow w := by
  have hint : ∀ z : Int, '\n' ∉ (toString z).toList :=
    fun z => notMem_toString_int (by decide) (by decide) z
  have hfixed : ∀ d : ℚ, '\n' ∉ fixedText d :=
    fun d => notMem_fixedText (by decide) (by decide) (by decide) d
  have havailable : '\n' ∉ (if w.available then ['1'] else ['0']) := by
    cases w.available with
    | true => decide
    | false => decide
  unfold encodeWorkerRow
  simp only [List.mem_append, List.mem_cons, hint, hfixed, havailable, or_false]
  decide

theorem encodeWorkerRow_ne_nil (w : WorkerInfo) : encodeWorkerRow w ≠ [] := by
  unfold encodeWorkerRow
  simp

/-! ## The registry -/

theorem decodeWorkerRegistry_encodeWorkerRegistry {ws : List WorkerInfo}
    (h : ∀ w ∈ ws, w.Sendable) :
    decodeWorkerRegistry tiny (encodeWorkerRegistry ws) =
      { workers := ws.map fun w => w.sent.row } := by
  induction ws with
  | nil =>
      rw [encodeWorkerRegistry, List.flatMap_nil, decodeWorkerRegistry, pieces_nil]
      rfl
  | cons w rest ih =>
      obtain ⟨hw, hrest⟩ := List.forall_mem_cons.mp h
      have hcons : encodeWorkerRegistry (w :: rest) =
          encodeWorkerRow w ++ '\n' :: encodeWorkerRegistry rest := by
        unfold encodeWorkerRegistry
        rw [List.flatMap_cons, List.append_assoc]
        rfl
      have hone : decodeWorkerRegistry tiny (encodeWorkerRow w) =
          { workers := [w.sent.row] } := by
        have hrows : registryRows (encodeWorkerRow w) = [encodeWorkerRow w] := by
          unfold registryRows
          rw [List.splitOn_eq_singleton (lineBreak_notMem_encodeWorkerRow w)]
          exact List.filter_cons_of_pos (by simpa using encodeWorkerRow_ne_nil w)
        rw [decodeWorkerRegistry_eq, hrows]
        simp [decodeWorkerRow_encodeWorkerRow hw]
      rw [hcons, decodeWorkerRegistry_append, hone, ih hrest]
      rfl

/-- **Round trip.** Workers whose doubles have six decimals come back, all of them and in their
order, with the fields of the wire format and the defaults of the others. Every score of a worker
with these defaults is the manager's, and so is every score by a profile that does not weigh the
variables that are not sent. -/
theorem registry_roundTrip (tiny : ℚ → Bool) {ws : List WorkerInfo} (h : ∀ w ∈ ws, w.Sendable) :
    decodeWorkerRegistry tiny (encodeWorkerRegistry ws) =
        { workers := ws.map fun w => w.sent.row, malformedRows := 0 } ∧
      (∀ w ∈ ws, w.skills = 0 → w.compute = 1 → w.reasoning = 0 → w.sent = w) ∧
        ∀ w ∈ ws, ∀ wp : WeightProfile, wp.skills = 0 → wp.compute = 0 → wp.reasoning = 0 →
          computeScore w.sent wp = computeScore w wp :=
  ⟨decodeWorkerRegistry_encodeWorkerRegistry h, fun _ _ => WorkerInfo.sent_eq,
    fun _ _ _ => WorkerInfo.computeScore_sent⟩

theorem sixDecimals_zero : SixDecimals 0 :=
  ⟨⟨0, by simp⟩, by norm_num⟩

theorem sixDecimals_one : SixDecimals 1 := by
  have hone := roundBinary64_two_zpow (j := 0) (by omega)
  rw [zpow_zero] at hone
  constructor
  · refine ⟨1000000, ?_⟩
    rw [div_self (by norm_num), hone, abs_one]
  · rw [abs_one]
    exact one_lt_pow₀ (by norm_num) (by norm_num)

/-- A worker with all the capabilities that are requested. -/
def skilled : WorkerInfo := { id := 1, skills := 1 }

theorem sendable_skilled : skilled.Sendable :=
  ⟨by decide, sixDecimals_one, sixDecimals_zero, by decide, by decide⟩

theorem registry_roundTrip_skilled :
    decodeWorkerRegistry (fun _ => false) (encodeWorkerRegistry [skilled]) =
      { workers := [skilled.sent.row], malformedRows := 0 } :=
  (registry_roundTrip (fun _ => false)
    fun _ hw => List.mem_singleton.mp hw ▸ sendable_skilled).1

/-- The dispatcher does not learn of them. -/
theorem skilled_scoredDifferently :
    skilled.Sendable ∧
      decodeWorkerRegistry (fun _ => false) (encodeWorkerRegistry [skilled]) =
        { workers := [skilled.sent.row] } ∧
      skilled.sent.row ≠ skilled.row ∧
      computeScore skilled.sent { skills := 1 } ≠ computeScore skilled { skills := 1 } := by
  refine ⟨sendable_skilled, decodeWorkerRegistry_encodeWorkerRegistry
    fun _ hw => List.mem_singleton.mp hw ▸ sendable_skilled, by decide, ?_⟩
  simp [computeScore, skilled, WorkerInfo.sent]

end Labios
