import Labios.Elastic.Manager
import Labios.Theorems.RegistryRoundTrip

/-!
# From a worker's report to the dispatcher

`replies_decoded`: whatever bytes reach the manager, the dispatcher reads its reply without a
malformed row and finds every registered worker once; only the decimals of the doubles are cut, and
only the first time.

`reports_arrive`: a worker that registers and then reports is seen by the dispatcher with the
speed, energy and tier of its configuration and the load it computed, bit for bit, and with its free
capacity up to a millionth, as long as no other message is about it after that.
-/

namespace Labios.Elastic

open Foundation WorkerRegistry

/-! ## What the manager holds can be sent -/

/-- A row whose numbers are of their C++ types, with the defaults of what is not sent. -/
structure Encodable (w : WorkerRow) : Prop where
  id : IsInt w.id
  capacity : w.capacity.Proper
  load : w.load.Proper
  speed : IsInt w.speed
  energy : IsInt w.energy
  rest : w.skills = 0 ∧ w.compute = 1 ∧ w.reasoning = 0

variable {tiny : ℚ → Bool} {maxWorkerCapacity : UInt64} {s s' : WorkerRegistry} {e : ManagerEvent}
  {msg : List Char} {id : Int} {w : WorkerRow}

theorem parseRegister_isInt {fields : RegisterFields} (h : parseRegister msg = some fields) :
    IsInt fields.id ∧ IsInt fields.speed ∧ IsInt fields.energy := by
  have hfield : ∀ {default z : Int} {iss rest : List Char}, IsInt default →
      optionalField stoi default iss = some (z, rest) → IsInt z := by
    intro default z iss rest hdefault hz
    rcases of_optionalField hz with rfl | ⟨token, htoken⟩
    · exact hdefault
    · exact isInt_of_stoi htoken
  obtain ⟨⟨id, iss⟩, hid, h⟩ := Option.bind_eq_some_iff.mp h
  obtain ⟨⟨speed, iss⟩, hspeed, h⟩ := Option.bind_eq_some_iff.mp h
  obtain ⟨⟨energy, iss⟩, henergy, h⟩ := Option.bind_eq_some_iff.mp h
  obtain ⟨⟨capacityStr, iss⟩, -, h⟩ := Option.bind_eq_some_iff.mp h
  obtain ⟨⟨tier, iss⟩, -, h⟩ := Option.bind_eq_some_iff.mp h
  obtain rfl := Option.some.inj h
  exact ⟨hfield (by decide) hid, hfield (by decide) hspeed, hfield (by decide) henergy⟩

theorem proper_finite {x : ℚ} (h : FiniteDouble x) : (Double.finite x).Proper := by
  rintro y hy
  exact Double.finite.inj hy ▸ h

theorem FiniteDouble.zero : FiniteDouble 0 := by
  refine ⟨⟨0, le_refl _, ?_⟩, ?_⟩
  · rw [roundBinary64_zero, abs_zero]
  · rw [abs_zero]
    exact pow_pos (by norm_num) _

theorem parseScoreUpdate_proper {upd : ScoreUpdate} (h : parseScoreUpdate tiny msg = some upd) :
    upd.capacity.Proper ∧ upd.load.Proper := by
  obtain ⟨⟨id, iss⟩, -, h⟩ := Option.bind_eq_some_iff.mp h
  obtain ⟨⟨capacity, iss⟩, hcapacity, h⟩ := Option.bind_eq_some_iff.mp h
  obtain ⟨⟨load, iss⟩, hload, h⟩ := Option.bind_eq_some_iff.mp h
  obtain ⟨⟨available, iss⟩, -, h⟩ := Option.bind_eq_some_iff.mp h
  obtain rfl := Option.some.inj h
  constructor
  · rcases of_optionalField hcapacity with rfl | ⟨token, htoken⟩
    · exact proper_finite FiniteDouble.one
    · exact stod_proper htoken
  · rcases of_optionalField hload with rfl | ⟨token, htoken⟩
    · exact proper_finite FiniteDouble.zero
    · exact stod_proper htoken

/-- Every row stands under its id and can be sent, and so can the row that is written back. -/
structure Kept (s : WorkerRegistry) : Prop where
  rows : ∀ id w, s.workers.lookup id = some w → w.id = id ∧ Encodable w
  pending : ∀ p ∈ s.pending, p.2.id = p.1.id ∧ Encodable p.2 ∧
    p.1.capacity.Proper ∧ p.1.load.Proper

theorem kept_start : Kept {} := by
  refine ⟨fun id w h => ?_, fun p h => ?_⟩
  · rw [AList.lookup_empty] at h
    cases h
  · cases h

theorem mem_allWorkers : w ∈ s.allWorkers ↔ ∃ id, s.workers.lookup id = some w := by
  unfold allWorkers
  rw [List.mem_map]
  constructor
  · rintro ⟨⟨id, w⟩, hmem, rfl⟩
    exact ⟨id, AList.mem_lookup_iff.mpr hmem⟩
  · rintro ⟨id, hlookup⟩
    exact ⟨⟨id, w⟩, AList.mem_lookup_iff.mp hlookup, rfl⟩

/-- The loop over the copy finds the row of the worker. -/
theorem find_allWorkers (h : Kept s) (id : Int) :
    s.allWorkers.find? (·.id = id) = s.workers.lookup id := by
  cases hfind : s.allWorkers.find? (·.id = id) with
  | some w =>
      have hid : w.id = id := by simpa using List.find?_some hfind
      obtain ⟨id', hlookup⟩ := mem_allWorkers.mp (List.mem_of_find?_eq_some hfind)
      have hid' := (h.rows id' w hlookup).1
      rw [← hid, hid', hlookup]
  | none =>
      cases hlookup : s.workers.lookup id with
      | none => rfl
      | some w =>
          have hmem := mem_allWorkers.mpr ⟨id, hlookup⟩
          have hne := List.find?_eq_none.mp hfind w hmem
          simp [(h.rows id w hlookup).1] at hne

/-- A row is put in. -/
theorem Kept.insert (h : Kept s) (hw : Encodable w) :
    ∀ id' w', (s.workers.insert w.id w).lookup id' = some w' → w'.id = id' ∧ Encodable w' := by
  intro id' w' hlookup
  by_cases heq : id' = w.id
  · rw [heq, AList.lookup_insert] at hlookup
    obtain rfl := Option.some.inj hlookup
    exact ⟨heq.symm, hw⟩
  · rw [AList.lookup_insert_ne heq] at hlookup
    exact h.rows id' w' hlookup

theorem Kept.step (h : Kept s) (hstep : step tiny maxWorkerCapacity s e = some s') : Kept s' := by
  cases e with
  | register msg =>
      dsimp only [WorkerRegistry.step] at hstep
      cases hparse : parseRegister msg with
      | none =>
          rw [hparse] at hstep
          exact Option.some.inj hstep ▸ h
      | some fields =>
          rw [hparse] at hstep
          obtain ⟨ratio, hratio, rfl⟩ := Option.map_eq_some_iff.mp hstep
          obtain ⟨hid, hspeed, henergy⟩ := parseRegister_isInt hparse
          have hw : Encodable (registeredRow fields ratio) :=
            ⟨hid, proper_finite (capacityRatio_finiteDouble hratio),
              proper_finite FiniteDouble.zero, hspeed, henergy, rfl, rfl, rfl⟩
          exact ⟨h.insert hw, h.pending⟩
  | deregister msg =>
      dsimp only [WorkerRegistry.step] at hstep
      cases hparse : stoi msg with
      | none =>
          rw [hparse] at hstep
          exact Option.some.inj hstep ▸ h
      | some id =>
          rw [hparse] at hstep
          obtain rfl := Option.some.inj hstep
          refine ⟨fun id' w' hlookup => ?_, h.pending⟩
          by_cases heq : id' = id
          · rw [heq, AList.lookup_erase] at hlookup
            cases hlookup
          · rw [AList.lookup_erase_ne heq] at hlookup
            exact h.rows id' w' hlookup
  | scoreUpdate msg =>
      dsimp only [WorkerRegistry.step] at hstep
      split at hstep
      · cases hstep
      · cases hparse : parseScoreUpdate tiny msg with
        | none =>
            rw [hparse] at hstep
            exact Option.some.inj hstep ▸ h
        | some upd =>
            rw [hparse] at hstep
            obtain rfl := Option.some.inj hstep
            refine ⟨h.rows, fun p hp => ?_⟩
            obtain ⟨w, hfind, rfl⟩ := Option.map_eq_some_iff.mp hp
            rw [find_allWorkers h] at hfind
            obtain ⟨hid, hw⟩ := h.rows _ _ hfind
            exact ⟨hid, hw, parseScoreUpdate_proper hparse⟩
  | updateScore id =>
      dsimp only [WorkerRegistry.step] at hstep
      cases hpending : s.pending with
      | none =>
          rw [hpending] at hstep
          cases hstep
      | some p =>
          obtain ⟨upd, w⟩ := p
          rw [hpending] at hstep
          dsimp only at hstep
          split at hstep
          · next hupd =>
              obtain rfl := Option.some.inj hstep
              obtain ⟨hid, hw, hcapacity, hload⟩ := h.pending (upd, w) hpending
              refine ⟨?_, fun p hp => by cases hp⟩
              dsimp only
              split
              · have happlied : Encodable (upd.apply w) :=
                  ⟨hw.id, hcapacity, hload, hw.speed, hw.energy, hw.rest⟩
                have hsame : (upd.apply w).id = id := hid.trans hupd
                exact hsame ▸ h.insert happlied
              · exact h.rows
          · cases hstep

theorem kept_run {events : List ManagerEvent}
    (hexec : exec (step tiny maxWorkerCapacity) {} events = some s) : Kept s :=
  exec_kept (fun hI hstep => hI.step hstep) kept_start hexec

/-! ## The reply is read -/

/-- The row as the dispatcher gets it. -/
def received (w : WorkerRow) : WorkerRow :=
  { w with capacity := w.capacity.rewritten, load := w.load.rewritten }

theorem decodeWorkerRow_encodeRow (h : Encodable w) (minus : Bool × Bool) :
    decodeWorkerRow tiny (encodeRow minus w) = some (received w) := by
  have hdouble : ∀ b d, ',' ∉ Double.text b d :=
    fun b d => Double.notMem_text (by decide) (by decide) b d
  have havailable : ',' ∉ (if w.available then ['1'] else ['0']) := by
    cases w.available with
    | true => decide
    | false => decide
  have hone : decide ((if w.available then ['1'] else ['0']) = ['1']) = w.available := by
    cases w.available with
    | true => rfl
    | false => rfl
  have hstod : ∀ {d : Double} {b : Bool} {α : Type} (f : Double → Option α), d.Proper →
      (stod tiny (d.text b) >>= f) = f d.rewritten := by
    intro d b α f hd
    rw [Double.stod_text hd]
    rfl
  unfold decodeWorkerRow encodeRow
  rw [bind_getline (comma_notMem_int _)]
  dsimp only
  rw [bind_stoi h.id, bind_getline havailable]
  dsimp only
  rw [hone, bind_getline (hdouble _ _)]
  dsimp only
  rw [hstod _ h.capacity, bind_getline (hdouble _ _)]
  dsimp only
  rw [hstod _ h.load, bind_getline (comma_notMem_int _)]
  dsimp only
  rw [bind_stoi h.speed, bind_getline (comma_notMem_int _)]
  dsimp only
  rw [bind_stoi h.energy, decodeTier_level]
  obtain ⟨hskills, hcompute, hreasoning⟩ := h.rest
  unfold received
  rw [← hskills, ← hcompute, ← hreasoning]
  rfl

/-- Rows of finite doubles are encoded as the registry's workers are. -/
theorem encodeRows_row (minus : Int → Bool × Bool) (ws : List WorkerInfo) :
    encodeRows minus (ws.map WorkerInfo.row) = encodeWorkerRegistry ws := by
  unfold encodeRows encodeWorkerRegistry
  rw [List.flatMap_map]
  rfl

theorem lineBreak_notMem_encodeRow (minus : Bool × Bool) (w : WorkerRow) :
    '\n' ∉ encodeRow minus w := by
  have hint : ∀ z : Int, '\n' ∉ (toString z).toList :=
    fun z => notMem_toString_int (by decide) (by decide) z
  have hdouble : ∀ b d, '\n' ∉ Double.text b d :=
    fun b d => Double.notMem_text (by decide) (by decide) b d
  have havailable : '\n' ∉ (if w.available then ['1'] else ['0']) := by
    cases w.available with
    | true => decide
    | false => decide
  unfold encodeRow
  simp only [List.mem_append, List.mem_cons, hint, hdouble, havailable, or_false]
  decide

theorem decode_encodeRows {rows : List WorkerRow} (h : ∀ w ∈ rows, Encodable w)
    (minus : Int → Bool × Bool) :
    decodeWorkerRegistry tiny (encodeRows minus rows) = { workers := rows.map received } := by
  induction rows with
  | nil =>
      rw [encodeRows, List.flatMap_nil, decodeWorkerRegistry, pieces_nil]
      rfl
  | cons w rest ih =>
      obtain ⟨hw, hrest⟩ := List.forall_mem_cons.mp h
      have hcons : encodeRows minus (w :: rest) =
          encodeRow (minus w.id) w ++ '\n' :: encodeRows minus rest := by
        unfold encodeRows
        rw [List.flatMap_cons, List.append_assoc]
        rfl
      have hone : decodeWorkerRegistry tiny (encodeRow (minus w.id) w) =
          { workers := [received w] } := by
        have hne : encodeRow (minus w.id) w ≠ [] := by
          unfold encodeRow
          simp
        have hrows : registryRows (encodeRow (minus w.id) w) = [encodeRow (minus w.id) w] := by
          unfold registryRows
          rw [List.splitOn_eq_singleton (lineBreak_notMem_encodeRow _ w)]
          exact List.filter_cons_of_pos (by simpa using hne)
        rw [decodeWorkerRegistry_eq, hrows]
        simp [decodeWorkerRow_encodeRow hw]
      rw [hcons, decodeWorkerRegistry_append, hone, ih hrest]
      rfl

theorem received_received (h : Encodable w) : received (received w) = received w := by
  unfold received
  dsimp only
  rw [Double.rewritten_rewritten h.capacity, Double.rewritten_rewritten h.load]

/-- The ids of the registry. -/
theorem map_id_allWorkers (h : Kept s) : s.allWorkers.map (·.id) = s.workers.keys := by
  unfold allWorkers AList.keys List.keys
  rw [List.map_map]
  refine List.map_congr_left fun x hx => ?_
  exact (h.rows x.1 x.2 (AList.mem_lookup_iff.mpr hx)).1

theorem replies_decoded (minus : Int → Bool × Bool) {events : List ManagerEvent}
    (hexec : exec (step tiny maxWorkerCapacity) {} events = some s) {rows : List WorkerRow}
    (hrows : rows.Perm s.allWorkers) :
    decodeWorkerRegistry tiny (encodeRows minus rows) =
        { workers := rows.map received, malformedRows := 0 } ∧
      (rows.map (·.id)).Nodup ∧
      (∀ id, id ∈ rows.map (·.id) ↔ (s.workers.lookup id).isSome) ∧
      decodeWorkerRegistry tiny (encodeRows minus (rows.map received)) =
        { workers := rows.map received, malformedRows := 0 } := by
  have hkept := kept_run hexec
  have hencodable : ∀ w ∈ rows, Encodable w := by
    intro w hw
    obtain ⟨id, hlookup⟩ := mem_allWorkers.mp (hrows.mem_iff.mp hw)
    exact (hkept.rows id w hlookup).2
  have hids : (rows.map (·.id)).Perm s.workers.keys :=
    (hrows.map _).trans (.of_eq (map_id_allWorkers hkept))
  refine ⟨decode_encodeRows hencodable minus, hids.nodup_iff.mpr s.workers.nodupKeys, fun id => ?_, ?_⟩
  · rw [hids.mem_iff, AList.lookup_isSome, AList.mem_keys]
  · have hagain : ∀ w ∈ rows.map received, Encodable w := by
      intro w hw
      obtain ⟨v, hv, rfl⟩ := List.mem_map.mp hw
      have hv := hencodable v hv
      exact ⟨hv.id, hv.capacity.rewritten, hv.load.rewritten, hv.speed, hv.energy, hv.rest⟩
    rw [decode_encodeRows hagain, List.map_map]
    congr 1
    exact List.map_congr_left fun w hw => received_received (hencodable w hw)

/-- A worker registers and reports no numbers, another message is no registration. -/
def oddMessages : List ManagerEvent :=
  [.register "7,2,3,,1".toList, .register "seven".toList, .scoreUpdate "7,nan,-inf,0".toList,
    .updateScore 7]

theorem replies_decoded_odd :
    ∃ s, exec (step (fun _ => false) 0) {} oddMessages = some s ∧
      s.allWorkers.map (·.capacity) = [.nan] ∧
      (decodeWorkerRegistry (fun _ => false)
        (encodeRows (fun _ => (true, false)) s.allWorkers)).malformedRows = 0 := by
  have hrun : (exec (step (fun _ => false) 0) {} oddMessages).map (fun s =>
      s.allWorkers.map (·.capacity)) = some [.nan] := by decide +kernel
  obtain ⟨s, hs, hcapacity⟩ := Option.map_eq_some_iff.mp hrun
  exact ⟨s, hs, hcapacity,
    congrArg WorkerRegistrySnapshot.malformedRows (replies_decoded _ hs (.refl _)).1⟩

/-! ## One worker -/

/-- The event is not about the worker. -/
def Spares (tiny : ℚ → Bool) (id : Int) : ManagerEvent → Prop
  | .register msg => ∀ fields ∈ parseRegister msg, fields.id ≠ id
  | .deregister msg => stoi msg ≠ some id
  | .scoreUpdate msg => ∀ upd ∈ parseScoreUpdate tiny msg, upd.id ≠ id
  | .updateScore id' => id' ≠ id

/-- Its row stays, and so does a score update of it that is handled. -/
theorem Spares.step (h : Spares tiny id e)
    (hstep : WorkerRegistry.step tiny maxWorkerCapacity s e = some s') :
    s'.workers.lookup id = s.workers.lookup id ∧
      ∀ p ∈ s.pending, p.1.id = id → s'.pending = s.pending := by
  cases e with
  | register msg =>
      dsimp only [WorkerRegistry.step] at hstep
      cases hparse : parseRegister msg with
      | none =>
          rw [hparse] at hstep
          obtain rfl := Option.some.inj hstep
          exact ⟨rfl, fun _ _ _ => rfl⟩
      | some fields =>
          rw [hparse] at hstep
          obtain ⟨ratio, -, rfl⟩ := Option.map_eq_some_iff.mp hstep
          exact ⟨AList.lookup_insert_ne (h fields hparse).symm, fun _ _ _ => rfl⟩
  | deregister msg =>
      dsimp only [WorkerRegistry.step] at hstep
      cases hparse : stoi msg with
      | none =>
          rw [hparse] at hstep
          obtain rfl := Option.some.inj hstep
          exact ⟨rfl, fun _ _ _ => rfl⟩
      | some id' =>
          rw [hparse] at hstep
          obtain rfl := Option.some.inj hstep
          have hne : id ≠ id' := by
            rintro rfl
            exact h hparse
          exact ⟨AList.lookup_erase_ne hne, fun _ _ _ => rfl⟩
  | scoreUpdate msg =>
      dsimp only [WorkerRegistry.step] at hstep
      split at hstep
      · cases hstep
      · next hidle =>
          have hnone : s.pending = none := by simpa using hidle
          have hpending : ∀ p ∈ s.pending, p.1.id = id → s'.pending = s.pending := by
            intro p hp
            rw [hnone] at hp
            cases hp
          refine ⟨?_, hpending⟩
          split at hstep
          · exact Option.some.inj hstep ▸ rfl
          · exact Option.some.inj hstep ▸ rfl
  | updateScore id' =>
      dsimp only [WorkerRegistry.step] at hstep
      cases hpending : s.pending with
      | none =>
          rw [hpending] at hstep
          cases hstep
      | some p =>
          obtain ⟨upd, w⟩ := p
          rw [hpending] at hstep
          dsimp only at hstep
          split at hstep
          · next hupd =>
              obtain rfl := Option.some.inj hstep
              refine ⟨?_, fun p hp hid => ?_⟩
              · dsimp only
                split
                · exact AList.lookup_insert_ne (Ne.symm h)
                · rfl
              · obtain rfl := Option.some.inj hp
                exact absurd (hupd.symm.trans hid) h
          · cases hstep

theorem Spares.run {events : List ManagerEvent} (h : ∀ e ∈ events, Spares tiny id e)
    (hexec : exec (WorkerRegistry.step tiny maxWorkerCapacity) s events = some s') :
    s'.workers.lookup id = s.workers.lookup id ∧
      ∀ p ∈ s.pending, p.1.id = id → s'.pending = s.pending := by
  induction events generalizing s with
  | nil =>
      obtain rfl := Option.some.inj hexec
      exact ⟨rfl, fun _ _ _ => rfl⟩
  | cons e rest ih =>
      obtain ⟨t, hstep, hrest⟩ := exec_cons hexec
      obtain ⟨hlookup, hpending⟩ := (h e List.mem_cons_self).step hstep
      obtain ⟨hlookup', hpending'⟩ := ih (fun a ha => h a (List.mem_cons_of_mem _ ha)) hrest
      refine ⟨hlookup'.trans hlookup, fun p hp hid => ?_⟩
      have hkept := hpending p hp hid
      exact (hpending' p (hkept ▸ hp) hid).trans hkept

/-- The row that the dispatcher has of a worker after its report. -/
def reportedRow (cfg : WorkerConfig) (r : WorkerReport) : WorkerRow where
  id := cfg.workerId
  available := !r.suspended
  capacity := .finite (rewritten (capRatio r.space))
  load := .finite (loadOf r.activeLabels)
  speed := cfg.workerSpeed
  energy := cfg.workerEnergy
  tier := tierOfLevel cfg.workerTier

/-! ### Between the registration and the report -/

/-- The worker does not register again or leave. Score updates may be about it. -/
def KeepsRegistration (id : Int) : ManagerEvent → Prop
  | .register msg => ∀ fields ∈ parseRegister msg, fields.id ≠ id
  | .deregister msg => stoi msg ≠ some id
  | .scoreUpdate _ => True
  | .updateScore _ => True

/-- A row that differs from the registered one in what a score update sets. -/
def RegisteredAs (cfg : WorkerConfig) (w : WorkerRow) : Prop :=
  ∃ available capacity load, w =
    { id := cfg.workerId, available, capacity, load, speed := cfg.workerSpeed,
      energy := cfg.workerEnergy, tier := tierOfLevel cfg.workerTier }

theorem RegisteredAs.apply {cfg : WorkerConfig} {w : WorkerRow} (h : RegisteredAs cfg w)
    (upd : ScoreUpdate) : RegisteredAs cfg (upd.apply w) := by
  obtain ⟨_, _, _, rfl⟩ := h
  exact ⟨upd.available, upd.capacity, upd.load, rfl⟩

/-- The worker is registered, and no older row of it is about to come back. -/
structure Registration (cfg : WorkerConfig) (s : WorkerRegistry) : Prop where
  row : ∃ w, s.workers.lookup cfg.workerId = some w ∧ RegisteredAs cfg w
  pending : ∀ p ∈ s.pending, p.1.id = cfg.workerId → RegisteredAs cfg p.2

theorem Registration.step {cfg : WorkerConfig} (h : Registration cfg s) (hkept : Kept s)
    (he : KeepsRegistration cfg.workerId e)
    (hstep : WorkerRegistry.step tiny maxWorkerCapacity s e = some s') : Registration cfg s' := by
  obtain ⟨w, hrow, hw⟩ := h.row
  cases e with
  | register msg =>
      dsimp only [WorkerRegistry.step] at hstep
      cases hparse : parseRegister msg with
      | none =>
          rw [hparse] at hstep
          exact Option.some.inj hstep ▸ h
      | some fields =>
          rw [hparse] at hstep
          obtain ⟨ratio, -, rfl⟩ := Option.map_eq_some_iff.mp hstep
          refine ⟨⟨w, ?_, hw⟩, h.pending⟩
          exact (AList.lookup_insert_ne (he fields hparse).symm).trans hrow
  | deregister msg =>
      dsimp only [WorkerRegistry.step] at hstep
      cases hparse : stoi msg with
      | none =>
          rw [hparse] at hstep
          exact Option.some.inj hstep ▸ h
      | some id =>
          rw [hparse] at hstep
          obtain rfl := Option.some.inj hstep
          have hne : cfg.workerId ≠ id := by
            rintro rfl
            exact he hparse
          exact ⟨⟨w, (AList.lookup_erase_ne hne).trans hrow, hw⟩, h.pending⟩
  | scoreUpdate msg =>
      dsimp only [WorkerRegistry.step] at hstep
      split at hstep
      · cases hstep
      · split at hstep
        · exact Option.some.inj hstep ▸ h
        · next upd _ =>
            obtain rfl := Option.some.inj hstep
            refine ⟨⟨w, hrow, hw⟩, fun p hp hid => ?_⟩
            obtain ⟨v, hv, rfl⟩ := Option.map_eq_some_iff.mp hp
            -- the copy is the row
            dsimp only at hid
            rw [find_allWorkers hkept, hid, hrow] at hv
            exact Option.some.inj hv ▸ hw
  | updateScore id =>
      dsimp only [WorkerRegistry.step] at hstep
      cases hpending : s.pending with
      | none =>
          rw [hpending] at hstep
          cases hstep
      | some p =>
          obtain ⟨upd, v⟩ := p
          rw [hpending] at hstep
          dsimp only at hstep
          split at hstep
          · next hid =>
              obtain rfl := Option.some.inj hstep
              refine ⟨?_, fun p hp => absurd hp (Option.not_mem_none p)⟩
              dsimp only
              split
              · by_cases hsame : cfg.workerId = id
                · subst hsame
                  refine ⟨_, AList.lookup_insert _, ?_⟩
                  exact (h.pending _ hpending hid).apply upd
                · exact ⟨w, (AList.lookup_insert_ne hsame).trans hrow, hw⟩
              · exact ⟨w, hrow, hw⟩
          · cases hstep

theorem Registration.run {cfg : WorkerConfig} {events : List ManagerEvent}
    (h : Registration cfg s) (hkept : Kept s)
    (hevents : ∀ e ∈ events, KeepsRegistration cfg.workerId e)
    (hexec : exec (WorkerRegistry.step tiny maxWorkerCapacity) s events = some s') :
    Registration cfg s' ∧ Kept s' := by
  induction events generalizing s with
  | nil =>
      obtain rfl := Option.some.inj hexec
      exact ⟨h, hkept⟩
  | cons e rest ih =>
      obtain ⟨t, hstep, hrest⟩ := exec_cons hexec
      exact ih (h.step hkept (hevents e List.mem_cons_self) hstep) (hkept.step hstep)
        (fun a ha => hevents a (List.mem_cons_of_mem _ ha)) hrest

/-! ### The report -/

/-- Nothing is left to cut. -/
theorem received_reportedRow (cfg : WorkerConfig) (r : WorkerReport) :
    received (reportedRow cfg r) = reportedRow cfg r := by
  have hcapacity := (capRatio_finiteDouble r.space).sixDecimals.rewritten_eq
  have hload := (loadOf_sixDecimals r.activeLabels).rewritten_eq
  unfold received reportedRow Double.rewritten
  dsimp only
  rw [hcapacity, hload]

/-- The free capacity is off by half a millionth and a rounding. -/
theorem abs_rewritten_capRatio_sub_le {space : Option (UInt64 × UInt64)}
    (h : ∀ p ∈ space, p.1 ≤ p.2) : |rewritten (capRatio space) - capRatio space| ≤ 1 / 1000000 := by
  have hunit : 0 ≤ capRatio space ∧ capRatio space ≤ 1 := by
    unfold capRatio
    split
    · next available capacity =>
        split
        · next hpos =>
            have hle : roundBinary64 (available.toNat : ℚ) ≤ roundBinary64 (capacity.toNat : ℚ) := by
              refine roundBinary64_mono (Nat.cast_nonneg _) ?_
              exact_mod_cast UInt64.le_iff_toNat_le.mp (h _ rfl)
            have hnonneg := roundBinary64_nonneg (Nat.cast_nonneg (α := ℚ) available.toNat)
            have hquotient := div_nonneg hnonneg (hnonneg.trans hle)
            refine ⟨roundBinary64_nonneg hquotient, ?_⟩
            exact (roundBinary64_mono hquotient (div_le_one_of_le₀ hle (hnonneg.trans hle))).trans_eq
              roundBinary64_one
        · exact ⟨zero_le_one, le_refl _⟩
    · exact ⟨zero_le_one, le_refl _⟩
  have hwritten := abs_millionths_sub_le (capRatio space)
  have hread : rewritten (capRatio space) =
      roundBinary64 ((millionths (capRatio space) : ℚ) / 1000000) := if_neg (not_lt.mpr hunit.1)
  rw [abs_of_nonneg hunit.1] at hwritten
  set q := (millionths (capRatio space) : ℚ) / 1000000 with hq
  have hplace : ulpExponent q ≤ -51 := by
    have hsmall : q < 2 := by linarith [(abs_le.mp hwritten).2]
    have hlog : Int.log 2 q ≤ 0 := by
      rcases (by positivity : 0 ≤ q).eq_or_lt with hzero | hpos
      · rw [← hzero, Int.log_zero_right]
      · refine Int.lt_add_one_iff.mp ((Int.lt_zpow_iff_log_lt (by norm_num) hpos).mp ?_)
        exact_mod_cast hsmall
    unfold ulpExponent
    omega
  have hround := (abs_roundBinary64_sub_le q).trans (two_zpow_le (by omega : _ ≤ (-52 : ℤ)))
  have htiny : (2 : ℚ) ^ (-52 : ℤ) ≤ 1 / 2000000 := by norm_num
  rw [hread]
  calc |roundBinary64 q - capRatio space| ≤ |roundBinary64 q - q| + |q - capRatio space| :=
        abs_sub_le _ _ _
    _ ≤ 1 / 2000000 + 1 / 2000000 := add_le_add (hround.trans htiny) hwritten
    _ = 1 / 1000000 := by norm_num

/-- A registration and a report of a worker, and what else happens. -/
structure ReportedRun (tiny : ℚ → Bool) (maxWorkerCapacity : UInt64) (cfg : WorkerConfig)
    (r : WorkerReport) where
  before : List ManagerEvent := []
  /-- Earlier reports of the worker are among these. -/
  registered : List ManagerEvent := []
  handled : List ManagerEvent := []
  after : List ManagerEvent := []
  /-- When the worker registers, no score update of it is half done. -/
  fresh : ∀ s, exec (step tiny maxWorkerCapacity) {} before = some s →
    ∀ p ∈ s.pending, p.1.id ≠ cfg.workerId
  registeredKeeps : ∀ e ∈ registered, KeepsRegistration cfg.workerId e
  handledSpares : ∀ e ∈ handled, Spares tiny cfg.workerId e
  afterSpares : ∀ e ∈ after, Spares tiny cfg.workerId e

def ReportedRun.events {cfg : WorkerConfig} {r : WorkerReport}
    (run : ReportedRun tiny maxWorkerCapacity cfg r) : List ManagerEvent :=
  run.before ++ .register (registerMessage cfg) :: (run.registered ++
    .scoreUpdate (scoreMessage cfg.workerId r) :: (run.handled ++
      .updateScore cfg.workerId :: run.after))

theorem lookup_reported {cfg : WorkerConfig} {r : WorkerReport} (hcfg : cfg.Registrable)
    (run : ReportedRun tiny maxWorkerCapacity cfg r)
    (hexec : exec (step tiny maxWorkerCapacity) {} run.events = some s) :
    s.workers.lookup cfg.workerId = some (reportedRow cfg r) := by
  obtain ⟨s₀, hbefore, hexec⟩ := exec_append hexec
  obtain ⟨s₁, hregister, hexec⟩ := exec_cons hexec
  obtain ⟨s₂, hregistered, hexec⟩ := exec_append hexec
  obtain ⟨s₃, hreport, hexec⟩ := exec_cons hexec
  obtain ⟨s₄, hhandled, hexec⟩ := exec_append hexec
  obtain ⟨s₅, hupdate, hafter⟩ := exec_cons hexec
  have hkept₁ : Kept s₁ := (kept_run hbefore).step hregister
  -- the registration
  have hregistration : Registration cfg s₁ := by
    dsimp only [WorkerRegistry.step] at hregister
    rw [parseRegister_registerMessage hcfg] at hregister
    obtain ⟨ratio, -, rfl⟩ := Option.map_eq_some_iff.mp hregister
    refine ⟨⟨_, AList.lookup_insert _, _, _, _, rfl⟩, fun p hp hid => ?_⟩
    exact absurd hid (run.fresh s₀ hbefore p hp)
  obtain ⟨hregistration₂, hkept₂⟩ := hregistration.run hkept₁ run.registeredKeeps hregistered
  obtain ⟨w, hrow₂, available, capacity, load, rfl⟩ := hregistration₂.row
  -- the copy of the row
  dsimp only [WorkerRegistry.step] at hreport
  split at hreport
  · cases hreport
  · rw [parseScoreUpdate_scoreMessage hcfg.id] at hreport
    obtain rfl := Option.some.inj hreport
    rw [find_allWorkers hkept₂, hrow₂] at hhandled
    obtain ⟨hrow₄, hpending₄⟩ := Spares.run run.handledSpares hhandled
    have hpending := hpending₄ _ rfl rfl
    -- and its return
    dsimp only [WorkerRegistry.step] at hupdate
    rw [hpending] at hupdate
    dsimp only [Option.map_some] at hupdate
    rw [if_pos rfl, hrow₄] at hupdate
    obtain rfl := Option.some.inj hupdate
    have hrow := (Spares.run run.afterSpares hafter).1
    dsimp only at hrow
    rw [hrow₂, Option.isSome_some, if_pos rfl, AList.lookup_insert] at hrow
    exact hrow

/-- The row of the worker in what the dispatcher decodes. -/
theorem decoded_reported (minus : Int → Bool × Bool) {cfg : WorkerConfig} {r : WorkerReport}
    (hcfg : cfg.Registrable) (run : ReportedRun tiny maxWorkerCapacity cfg r)
    (hexec : exec (step tiny maxWorkerCapacity) {} run.events = some s) {rows : List WorkerRow}
    (hrows : rows.Perm s.allWorkers) :
    reportedRow cfg r ∈ (decodeWorkerRegistry tiny (encodeRows minus rows)).workers ∧
      ∀ w ∈ (decodeWorkerRegistry tiny (encodeRows minus rows)).workers,
        w.id = cfg.workerId → w = reportedRow cfg r := by
  have hkept := kept_run hexec
  have hlookup := lookup_reported hcfg run hexec
  have hencodable : ∀ w ∈ rows, Encodable w := by
    intro w hw
    obtain ⟨id, hw⟩ := mem_allWorkers.mp (hrows.mem_iff.mp hw)
    exact (hkept.rows id w hw).2
  rw [decode_encodeRows hencodable]
  refine ⟨?_, fun w hw hid => ?_⟩
  · rw [← received_reportedRow]
    exact List.mem_map_of_mem (hrows.mem_iff.mpr (mem_allWorkers.mpr ⟨_, hlookup⟩))
  · obtain ⟨v, hv, rfl⟩ := List.mem_map.mp hw
    obtain ⟨id, hv⟩ := mem_allWorkers.mp (hrows.mem_iff.mp hv)
    have hsame : id = cfg.workerId := (hkept.rows id v hv).1.symm.trans hid
    rw [hsame, hlookup] at hv
    obtain rfl := Option.some.inj hv
    exact received_reportedRow cfg r

theorem reports_arrive (minus : Int → Bool × Bool) {cfg : WorkerConfig} {r : WorkerReport}
    (hcfg : cfg.Registrable) (run : ReportedRun tiny maxWorkerCapacity cfg r)
    (hexec : exec (step tiny maxWorkerCapacity) {} run.events = some s) {rows : List WorkerRow}
    (hrows : rows.Perm s.allWorkers) :
    reportedRow cfg r ∈ (decodeWorkerRegistry tiny (encodeRows minus rows)).workers ∧
      (∀ w ∈ (decodeWorkerRegistry tiny (encodeRows minus rows)).workers,
        w.id = cfg.workerId → w = reportedRow cfg r) ∧
      ((∀ p ∈ r.space, p.1 ≤ p.2) →
        |rewritten (capRatio r.space) - capRatio r.space| ≤ 1 / 1000000) := by
  obtain ⟨hmem, hunique⟩ := decoded_reported minus hcfg run hexec hrows
  exact ⟨hmem, hunique, abs_rewritten_capRatio_sub_le⟩

/-- A worker that was resumed and is busy, while another one comes and goes. -/
def busyWorker :
    ReportedRun (fun _ => false) 0 { workerId := 7, workerCapacity := [], workerTier := 5 }
      { space := none, activeLabels := 3, suspended := false } where
  registered :=
    [.scoreUpdate (resumeMessage 7), .register "8,1,1,,0".toList, .updateScore 7]
  handled := [.deregister "8".toList]
  fresh := by
    intro s hs p hp
    obtain rfl := Option.some.inj hs
    exact absurd hp (Option.not_mem_none p)
  registeredKeeps := by
    intro e he
    rcases List.mem_cons.mp he with rfl | he
    · trivial
    · rcases List.mem_cons.mp he with rfl | he
      · rintro fields ⟨⟩
        decide
      · obtain rfl := List.mem_singleton.mp he
        trivial
  handledSpares := by
    intro e he
    obtain rfl := List.mem_singleton.mp he
    show ¬_
    decide
  afterSpares := by
    intro e he
    cases he

theorem reports_arrive_busyWorker :
    ∃ s, exec (step (fun _ => false) 0) {} busyWorker.events = some s ∧
      reportedRow { workerId := 7, workerCapacity := [], workerTier := 5 }
          { space := none, activeLabels := 3, suspended := false } ∈
        (decodeWorkerRegistry (fun _ => false)
          (encodeRows (fun _ => (false, false)) s.allWorkers)).workers := by
  have hrun : (exec (step (fun _ => false) 0) {} busyWorker.events).isSome := by decide +kernel
  obtain ⟨s, hs⟩ := Option.isSome_iff_exists.mp hrun
  have hcfg : WorkerConfig.Registrable { workerId := 7, workerCapacity := [], workerTier := 5 } :=
    ⟨by decide, by decide, by decide, by decide, by decide⟩
  exact ⟨s, hs, (reports_arrive _ hcfg busyWorker hs (.refl _)).1⟩

end Labios.Elastic
