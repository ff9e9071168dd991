import Labios.Client.Model
import Labios.Dispatcher.Placement
import Labios.Dispatcher.Policy

/-!
# Tiers and placement

A databot rejects labels with a pipeline. Neither the solvers nor the write
locality of the dispatcher read a tier, so a batch keeps clear of databots only
where no databot can be chosen at all: `tier_compatible_iff` says for which
workers, policy and catalog that is.
-/

namespace Labios

open Foundation StatusCatalog

/-- The id names a worker of tier 0. -/
def IsDatabot (workers : List WorkerInfo) (w : Int) : Prop :=
  ∃ info ∈ workers, info.id = w ∧ info.tier = .databot

theorem isDatabot_id {workers : List WorkerInfo} (hids : (workers.map (·.id)).Nodup)
    {info : WorkerInfo} (hinfo : info ∈ workers) :
    IsDatabot workers info.id ↔ info.tier = .databot := by
  constructor
  · rintro ⟨other, hother, hid, htier⟩
    obtain rfl := List.inj_on_of_nodup_map hids hother hinfo hid
    exact htier
  · exact fun h => ⟨info, hinfo, rfl, h⟩

/-- The message carries a label with a pipeline, alone or as a child. -/
def Pipelined (packed : UInt64 → Option (List LabelData)) (m : Int × LabelData) : Prop :=
  ∃ x ∈ unpack packed m, x.2.pipeline.empty = false

/-! ## The workers a batch can reach -/

section Reach

variable {ρ : Type} (S : StdSort) (d : Dispatcher ρ) (workers : List WorkerInfo)

/-- What holds of every worker to which a batch sends a label with a pipeline, by
write locality or by the solver. -/
def PipelinesWithin (P : Int → Prop) (locations : LocationCatalog) : Prop :=
  ∀ (refreshed : List WorkerInfo) (batch : List LabelData) (st : DispatchState ρ),
    st.locations = locations →
    ∀ m ∈ (dispatchBatch S d workers refreshed batch st).sent.drop (st.sent.length +
        (shuffle S d.config batch (some st.locations.getLocation)).directRoute.length),
      Pipelined (dispatchBatch S d workers refreshed batch st).supertasks m → P m.1

theorem dispatchBatch_of_available (havailable : ∃ w ∈ workers, w.available = true)
    (refreshed : List WorkerInfo) (batch : List LabelData) (st : DispatchState ρ) :
    dispatchBatch S d workers refreshed batch st =
      route d workers (shuffle S d.config batch (some st.locations.getLocation)) st := by
  obtain ⟨w, hw, havail⟩ := havailable
  have hany : workers.any (·.available) = true := List.any_eq_true.mpr ⟨w, hw, havail⟩
  rw [dispatchBatch_of_ne_nil S d refreshed batch st (List.ne_nil_of_mem hw)]
  unfold usableWorkers
  rw [if_pos hany]

/-- A write alone in its batch goes where it is placed. -/
theorem placed_single {l : LabelData} (hw : l.type = .write) (hdeps : l.dependencies = [])
    (havailable : ∃ w ∈ workers, w.available = true) (st : DispatchState ρ) {w : Int}
    {policy : String} {solver : ρ}
    (hplace : placeIndependent d workers st l = (some (w, policy), solver)) :
    ∃ m ∈ (dispatchBatch S d workers workers [l] st).sent.drop (st.sent.length +
        (shuffle S d.config [l] (some st.locations.getLocation)).directRoute.length),
      m.1 = w ∧ (Pipelined (dispatchBatch S d workers workers [l] st).supertasks m ↔
        l.pipeline.empty = false) := by
  have hread : readLocation (some st.locations.getLocation) l = none := by
    unfold readLocation
    rw [hw]
  obtain ⟨hdirect, htasks, hindependent⟩ := shuffle_singleton _ S d.config hdeps hread
  rw [dispatchBatch_of_available S d workers havailable]
  have hroute : route d workers (shuffle S d.config [l] (some st.locations.getLocation)) st =
      routeIndependents d workers
        (shuffle S d.config [l] (some st.locations.getLocation)).replyFanout st
        [markLabelShuffled l d.now] := by
    unfold route markShuffled
    dsimp only
    rw [hdirect, htasks, hindependent]
    rfl
  have hreq : request (markLabelShuffled l d.now) = request l := request_markLabelShuffled ..
  have hplace' : placeIndependent d workers st (markLabelShuffled l d.now) =
      (some (w, policy), solver) := by
    have hfield := congrArg (placeIndependent d workers st) hreq
    exact hfield.trans hplace
  rw [hdirect, hroute]
  generalize (shuffle S d.config [l] (some st.locations.getLocation)).replyFanout = fanout
  have hsent := (routeIndependent_alone d workers fanout (st, []) (markLabelShuffled l d.now)).sent
  rw [hplace'] at hsent
  obtain ⟨-, -, -, -, -, inbox, hasm⟩ :=
    assemble_placing d fanout st (markLabelShuffled l d.now)
  refine ⟨(w, mark d workers w policy (assemble d fanout st (markLabelShuffled l d.now)).1),
    ?_, rfl, ?_⟩
  · show _ ∈ List.drop (st.sent.length + 0) (routeIndependent d workers fanout (st, [])
      (markLabelShuffled l d.now)).1.sent
    rw [hsent, Nat.add_zero, List.drop_left]
    exact List.mem_singleton.mpr rfl
  · -- marks and assembly keep type and pipeline
    have hfields : ∀ l' : LabelData, request (mark d workers w policy l') = request l' :=
      fun l' => request_markLabelScheduled ..
    have htype : (mark d workers w policy
        (assemble d fanout st (markLabelShuffled l d.now)).1).type = .write := by
      rw [type_of_request (hfields _), hasm]
      exact (type_of_request hreq).trans hw
    have hpipeline : (mark d workers w policy
        (assemble d fanout st (markLabelShuffled l d.now)).1).pipeline = l.pipeline := by
      have hmarked := congrArg LabelData.pipeline
        (hfields (assemble d fanout st (markLabelShuffled l d.now)).1)
      have hshuffled := congrArg LabelData.pipeline hreq
      rw [hasm] at hmarked ⊢
      exact hmarked.trans hshuffled
    unfold Pipelined unpack
    rw [if_neg (by rw [htype]; decide)]
    simp [hpipeline]

/-- One stage, so not empty. -/
def oneStage : Pipeline := { stages := [{ operation := "builtin://identity", args := "" }] }

/-- A write with a pipeline to a file. -/
def pipelinedWrite (path : String) : LabelData :=
  { writeChunk 1 7 1 0 path 0 1 with pipeline := oneStage }

/-- A write with a pipeline that names no file. -/
def pipelinedLabel (intent : Intent) : LabelData := { id := 1, intent, pipeline := oneStage }

/-- A dispatcher that knows locations and nothing else. -/
def knowing (s : ρ) (locations : LocationCatalog) : DispatchState ρ :=
  { solver := s, warehouse := fun _ => none, locations, status := fun _ => {} }

/-- Exactly the recorded workers and the solver's answers get such labels. -/
theorem pipelinesWithin_iff (s₀ : ρ) (P : Int → Prop) (locations : LocationCatalog)
    (havailable : ∃ w ∈ workers, w.available = true) :
    PipelinesWithin S d workers P locations ↔ locations.Within P ∧ Answers d workers P := by
  constructor
  · intro h
    refine ⟨fun path w hpath hpos => ?_, fun intent s w hs => ?_⟩
    · have hplace : placeIndependent d workers (knowing s₀ locations) (pipelinedWrite path) =
          (some (w, "write-locality"), s₀) :=
        placeIndependent_located d workers
          (Option.filter_eq_some_iff.mpr ⟨hpath, decide_eq_true hpos⟩)
      obtain ⟨m, hm, rfl, hpipe⟩ := placed_single S d workers rfl rfl havailable _ hplace
      exact h workers _ _ rfl m hm (hpipe.mpr rfl)
    · have hplace : placeIndependent d workers (knowing s locations) (pipelinedLabel intent) =
          (some (w, d.policy), (d.selectWorker workers intent s).2) := by
        rw [placeIndependent_solved d workers rfl]
        show ((d.selectWorker workers intent s).1.map _, _) = _
        rw [hs]
        rfl
      obtain ⟨m, hm, rfl, hpipe⟩ := placed_single S d workers rfl rfl havailable _ hplace
      exact h workers _ _ rfl m hm (hpipe.mpr rfl)
  · rintro ⟨hlocations, hanswers⟩ refreshed batch st rfl m hm _
    rw [dispatchBatch_of_available S d workers havailable] at hm
    exact route_within hanswers _ st hlocations m hm

end Reach

/-! ## The four policies -/

section Policies

variable {γ : Type} (c : Scheduling γ) (config : ShufflerConfig) (now : UInt64)
  (inboxName : Nat → String) (workers : List WorkerInfo)

/-- The random distribution can return each of its values. -/
def Scheduling.DrawsAll : Prop := ∀ (k : Nat) (i : Fin (k + 1)), ∃ rng, (c.draw rng k).1 = i

/-- No worker that the policy can choose satisfies `Q`. -/
structure NoneChosen (Q : WorkerInfo → Prop) : Prop where
  random : c.policy = "random" → ∀ w ∈ workers, ¬Q w
  scores : c.Scores → ∀ intent w, topWorker c workers intent = some w → ¬Q w
  roundRobin : c.policy ≠ "random" → ¬c.Scores →
    ∀ w ∈ workers, w.available = true → ¬Q w

theorem topWorker_mem {intent : Intent} {w : WorkerInfo}
    (h : topWorker c workers intent = some w) : w ∈ workers ∧ w.available = true := by
  have hmem := (scoredWorkers_perm c.sort workers (policyScore c intent)).mem_iff.mp
    (List.mem_of_head? h)
  exact List.mem_filter.mp hmem

/-- The cursor can stand on every available worker, and on no other. -/
theorem exists_cursor {w : Int} :
    (availableIds workers ≠ [] ∧ ∃ next, cursorWorker workers next = w) ↔
      w ∈ availableIds workers := by
  constructor
  · rintro ⟨hne, next, rfl⟩
    have hpos := List.length_pos_iff.mpr hne
    have hlt : wrapCursor next (availableIds workers).length < (availableIds workers).length := by
      unfold wrapCursor
      split
      · exact hpos
      · omega
    unfold cursorWorker
    rw [List.getD_eq_getElem _ _ hlt]
    exact List.getElem_mem hlt
  · intro hw
    obtain ⟨next, hlt, hnext⟩ := List.getElem_of_mem hw
    refine ⟨List.ne_nil_of_mem hw, next, ?_⟩
    unfold cursorWorker wrapCursor
    rw [if_neg (by omega), List.getD_eq_getElem _ _ hlt, hnext]

/-- The answers of a policy, by the workers it can choose. -/
theorem answers_iff_noneChosen (hdraws : c.DrawsAll) (s₀ : SolverState γ)
    (hids : (workers.map (·.id)).Nodup) (Q : WorkerInfo → Prop) :
    Answers (c.dispatcher config now inboxName) workers
        (fun w => ∀ info ∈ workers, info.id = w → ¬Q info) ↔ NoneChosen c workers Q := by
  have hunique : ∀ info ∈ workers,
      (∀ other ∈ workers, other.id = info.id → ¬Q other) ↔ ¬Q info := by
    intro info hinfo
    refine ⟨fun h => h info hinfo rfl, fun h other hother hid => ?_⟩
    exact List.inj_on_of_nodup_map hids hother hinfo hid ▸ h
  have hcall : ∀ intent s, (c.dispatcher config now inboxName).selectWorker workers intent s =
      selectWorker c workers intent s := fun _ _ => rfl
  unfold Answers
  simp only [hcall]
  by_cases hrandom : c.policy = "random"
  · have hscores : ¬c.Scores := by
      rintro (h | h)
      · exact absurd (hrandom.symm.trans h) (by decide)
      · exact absurd (hrandom.symm.trans h) (by decide)
    constructor
    · intro h
      refine ⟨fun _ w hw => ?_, fun hs => absurd hs hscores, fun hr => absurd hrandom hr⟩
      obtain ⟨i, hi, hget⟩ := List.getElem_of_mem (List.mem_map_of_mem (f := (·.id)) hw)
      rw [List.length_map] at hi
      obtain ⟨rng, hrng⟩ := hdraws (workers.length - 1) ⟨i, by omega⟩
      have hne : workers.isEmpty = false := by
        cases workers with
        | nil => exact absurd hw List.not_mem_nil
        | cons _ _ => rfl
      refine (hunique w hw).mp (h .none { s₀ with rng } w.id ?_)
      rw [selectWorker_random c workers .none _ hrandom, hne]
      show some ((workers.map (·.id)).getD (c.draw rng (workers.length - 1)).1 0) = some w.id
      rw [hrng, List.getD_eq_getElem _ _ (by rw [List.length_map]; exact hi), hget]
    · intro h intent s w hs
      rw [selectWorker_random c workers intent s hrandom] at hs
      exact fun info hinfo _ => h.random hrandom info hinfo
  · by_cases hscores : c.Scores
    · constructor
      · intro h
        refine ⟨fun hr => absurd hr hrandom, fun _ intent w htop => ?_,
          fun _ hs => absurd hscores hs⟩
        refine (hunique w (topWorker_mem c workers htop).1).mp (h intent s₀ w.id ?_)
        rw [selectWorker_scores c workers intent s₀ hscores, htop]
        rfl
      · intro h intent s w hs
        rw [selectWorker_scores c workers intent s hscores] at hs
        obtain ⟨top, htop, rfl⟩ := Option.map_eq_some_iff.mp hs
        exact (hunique top (topWorker_mem c workers htop).1).mpr (h.scores hscores intent top htop)
    · constructor
      · intro h
        refine ⟨fun hr => absurd hr hrandom, fun hs => absurd hs hscores,
          fun _ _ w hw havail => ?_⟩
        have hmem : w.id ∈ availableIds workers :=
          List.mem_map_of_mem (List.mem_filter.mpr ⟨hw, havail⟩)
        obtain ⟨hne, next, hnext⟩ := (exists_cursor workers).mpr hmem
        refine (hunique w hw).mp (h .none { s₀ with next } w.id ?_)
        rw [selectWorker_roundRobin c workers .none _ hrandom hscores, if_neg (by simpa using hne)]
        exact congrArg some hnext
      · intro h intent s w hs
        rw [selectWorker_roundRobin c workers intent s hrandom hscores] at hs
        by_cases hempty : availableIds workers = []
        · simp [hempty] at hs
        · rw [if_neg (by simpa using hempty)] at hs
          obtain ⟨info, hinfo, hid⟩ := List.mem_map.mp
            ((exists_cursor workers).mp ⟨hempty, s.next, Option.some.inj hs⟩)
          obtain ⟨hin, havail⟩ := List.mem_filter.mp hinfo
          subst hid
          exact (hunique info hin).mpr (h.roundRobin hrandom hscores info hin havail)

/-- No label with a pipeline goes to a databot by write locality or by the solver. -/
def TierCompatible (S : StdSort) (locations : LocationCatalog) : Prop :=
  PipelinesWithin S (c.dispatcher config now inboxName) workers (fun w => ¬IsDatabot workers w)
    locations

/-- No databot is recorded for a file, and the policy chooses none. -/
structure DatabotsUnreachable (locations : LocationCatalog) : Prop where
  recorded : locations.Within fun w => ¬IsDatabot workers w
  chosen : NoneChosen c workers fun info => info.tier = .databot

/-- **Tier compatibility.** Batches keep clear of databots exactly where databots
cannot be reached. -/
theorem tier_compatible_iff (S : StdSort) (locations : LocationCatalog) (hdraws : c.DrawsAll)
    (s₀ : SolverState γ) (hids : (workers.map (·.id)).Nodup)
    (hcapable : ∃ w ∈ workers, w.available = true ∧ w.tier ≠ .databot) :
    TierCompatible c config now inboxName workers S locations ↔
      DatabotsUnreachable c workers locations := by
  obtain ⟨capable, hmem, havail, -⟩ := hcapable
  have hnot : (fun w => ¬IsDatabot workers w) =
      fun w => ∀ info ∈ workers, info.id = w → ¬info.tier = .databot := by
    funext w
    unfold IsDatabot
    push Not
    rfl
  have hchosen := answers_iff_noneChosen c config now inboxName workers hdraws s₀ hids
    fun info => info.tier = .databot
  rw [← hnot] at hchosen
  unfold TierCompatible
  rw [pipelinesWithin_iff S _ workers s₀ _ locations ⟨capable, hmem, havail⟩, hchosen]
  exact ⟨fun h => ⟨h.1, h.2⟩, fun h => ⟨h.recorded, h.chosen⟩⟩

end Policies

/-! ## Runs -/

/-- Round-robin; the state of the generator is the next number it returns. -/
def countingScheduling : Scheduling Nat :=
  { sort := .insertion
    policy := "round-robin"
    scoring := exactScoring {}
    draw := fun n k => (⟨n % (k + 1), Nat.mod_lt n (Nat.succ_pos k)⟩, n + 1) }

theorem countingScheduling_drawsAll : countingScheduling.DrawsAll := by
  intro k i
  exact ⟨i, Fin.ext (Nat.mod_eq_of_lt i.isLt)⟩

def nothingLocated : LocationCatalog := { whole := fun _ => none, ranged := fun _ => [] }

/-- A databot and a pipeline worker, both available. -/
def mixedWorkers : List WorkerInfo := [{ id := 1 }, { id := 2, tier := .pipeline }]

theorem tier_compatible_mixed :
    TierCompatible countingScheduling {} 1 (fun _ => "") mixedWorkers .insertion nothingLocated ↔
      DatabotsUnreachable countingScheduling mixedWorkers nothingLocated :=
  tier_compatible_iff countingScheduling {} 1 (fun _ => "") mixedWorkers .insertion nothingLocated
    countingScheduling_drawsAll { rng := 0 } (by decide) (by decide)

/-- The cursor of the round-robin solver starts at the databot. -/
theorem mixedWorkers_not_compatible :
    ¬TierCompatible countingScheduling {} 1 (fun _ => "") mixedWorkers .insertion
      nothingLocated := by
  intro h
  obtain ⟨m, hm, hto, hpipe⟩ := placed_single .insertion
    (countingScheduling.dispatcher {} 1 fun _ => "") mixedWorkers (l := pipelinedLabel .none)
    rfl rfl (by decide) (knowing { rng := 0 } nothingLocated)
    (w := 1) rfl
  exact h mixedWorkers _ _ rfl m hm (hpipe.mpr rfl)
    ⟨{ id := 1 }, List.mem_cons_self, hto.symm, rfl⟩

end Labios
