import Labios.Elastic.Workers
import Labios.Foundation.Machine
import Mathlib.Data.Finset.Basic
import Mathlib.Data.Fintype.Basic

/-!
# The buckets of the scheduler

`top_n_workers` of `labios/worker_manager.cpp`, and what the other calls do to the buckets that it
picks from. The scores of the profile in force and the buckets are kept from call to call. Buckets
are sets, walked in an order of their own.
-/

namespace Labios.Elastic

open Foundation

structure NamedProfile extends WeightProfile where
  name : String := ""
  deriving DecidableEq

/-- The floating-point expressions of the buckets. -/
structure Bucketing where
  score : WorkerInfo → WeightProfile → ℚ
  /-- `static_cast<int>(score * kNumBuckets)`. -/
  truncate : ℚ → Int

def exactBucketing : Bucketing :=
  { score := computeScore, truncate := fun score => (score * 5).num.tdiv (score * 5).den }

def Bucketing.bucketIndex (B : Bucketing) (score : ℚ) : Fin 5 :=
  Fin.ofNat 5 (max 0 (min 4 (B.truncate score))).toNat

structure InMemoryWorkerManager extends WorkerManager where
  /-- The score of a worker under the last profile. -/
  scores : AList fun _ : Int => ℚ := ∅
  buckets : Fin 5 → Finset Int := fun _ => ∅
  lastProfile : NamedProfile := {}

namespace InMemoryWorkerManager

variable (B : Bucketing)

def placeInBucket (m : InMemoryWorkerManager) (id : Int) (score : ℚ) : InMemoryWorkerManager :=
  { m with
    scores := m.scores.insert id score
    buckets := Function.update m.buckets (B.bucketIndex score)
      (insert id (m.buckets (B.bucketIndex score))) }

def removeFromBuckets (m : InMemoryWorkerManager) (id : Int) : InMemoryWorkerManager :=
  match m.scores.lookup id with
  | none => m
  | some score =>
      { m with
        scores := m.scores.erase id
        buckets := Function.update m.buckets (B.bucketIndex score)
          ((m.buckets (B.bucketIndex score)).erase id) }

/-- All workers are placed anew by the profile. -/
def rebuild (m : InMemoryWorkerManager) (wp : NamedProfile) : InMemoryWorkerManager :=
  m.workers.entries.foldl
    (fun m e => m.placeInBucket B e.1 (B.score e.2 wp.toWeightProfile))
    { m with scores := ∅, buckets := fun _ => ∅, lastProfile := wp }

/-- The buckets are rebuilt if the profile changed. -/
def adopt (m : InMemoryWorkerManager) (wp : NamedProfile) : InMemoryWorkerManager :=
  if wp ≠ m.lastProfile then m.rebuild B wp else m

/-- The walk through one bucket. -/
def pickBucket (workers : AList fun _ : Int => WorkerInfo) :
    List Int → Int → List WorkerInfo → Int × List WorkerInfo
  | [], remaining, result => (remaining, result)
  | wid :: rest, remaining, result =>
      if remaining ≤ 0 then (remaining, result)
      else
        match workers.lookup wid with
        | some w => pickBucket workers rest (remaining - 1) (result ++ [w])
        | none => pickBucket workers rest remaining result

def pickBuckets (workers : AList fun _ : Int => WorkerInfo) (walk : Fin 5 → List Int) :
    List (Fin 5) → Int → List WorkerInfo → List WorkerInfo
  | [], _, result => result
  | b :: rest, remaining, result =>
      if remaining ≤ 0 then result
      else
        let (remaining, result) := pickBucket workers (walk b) remaining result
        pickBuckets workers walk rest remaining result

/-- The answer and the manager after the call; `walk` is the order of each bucket. -/
def topNWorkers (m : InMemoryWorkerManager) (n : Int) (wp : NamedProfile)
    (walk : Fin 5 → List Int) : List WorkerInfo × InMemoryWorkerManager :=
  (pickBuckets (m.adopt B wp).workers walk [4, 3, 2, 1, 0] n [], m.adopt B wp)

/-- An order in which the buckets can be walked. -/
def Walks (m : InMemoryWorkerManager) (walk : Fin 5 → List Int) : Prop :=
  ∀ b, (walk b).Nodup ∧ (walk b).toFinset = m.buckets b

instance (m : InMemoryWorkerManager) (walk : Fin 5 → List Int) : Decidable (m.Walks walk) :=
  inferInstanceAs (Decidable (∀ _, _))

/-- The worker is placed by the profile in force. -/
def rebucket (m : InMemoryWorkerManager) (id : Int) (info : WorkerInfo) : InMemoryWorkerManager :=
  (m.removeFromBuckets B id).placeInBucket B id (B.score info m.lastProfile.toWeightProfile)

def updateScore (m : InMemoryWorkerManager) (id : Int) (info : WorkerInfo) (now : Int) :
    InMemoryWorkerManager :=
  match m.workers.lookup id with
  | none => m
  | some _ =>
      let m := { m with toWorkerManager := m.toWorkerManager.updateScore id info now }
      if m.lastProfile.name ≠ "" then m.rebucket B id info else m

def registerWorker (m : InMemoryWorkerManager) (info : WorkerInfo) : InMemoryWorkerManager :=
  let m := { m with toWorkerManager := m.toWorkerManager.registerWorker info }
  if m.lastProfile.name ≠ "" then m.rebucket B info.id info else m

def deregisterWorker (m : InMemoryWorkerManager) (id : Int) : InMemoryWorkerManager :=
  let m := m.removeFromBuckets B id
  { m with toWorkerManager := m.toWorkerManager.deregisterWorker id }

/-! ## Placing and removing -/

variable {B} {m : InMemoryWorkerManager} {id : Int}

/-- A worker is in the bucket of its score and in no other. -/
def Placed (B : Bucketing) (m : InMemoryWorkerManager) : Prop :=
  ∀ id b, id ∈ m.buckets b ↔ ∃ score, m.scores.lookup id = some score ∧ B.bucketIndex score = b

/-- The scores are those of the workers by the profile in force, and the buckets are theirs. -/
structure Fresh (B : Bucketing) (m : InMemoryWorkerManager) : Prop where
  scores : ∀ id, m.scores.lookup id =
    (m.workers.lookup id).map fun w => B.score w m.lastProfile.toWeightProfile
  placed : m.Placed B

@[simp] theorem workers_placeInBucket (B : Bucketing) (m : InMemoryWorkerManager) (id : Int)
    (score : ℚ) : (m.placeInBucket B id score).toWorkerManager = m.toWorkerManager := rfl

@[simp] theorem lastProfile_placeInBucket (B : Bucketing) (m : InMemoryWorkerManager) (id : Int)
    (score : ℚ) : (m.placeInBucket B id score).lastProfile = m.lastProfile := rfl

@[simp] theorem workers_removeFromBuckets (B : Bucketing) (m : InMemoryWorkerManager) (id : Int) :
    (m.removeFromBuckets B id).toWorkerManager = m.toWorkerManager := by
  unfold removeFromBuckets
  split
  · rfl
  · rfl

@[simp] theorem lastProfile_removeFromBuckets (B : Bucketing) (m : InMemoryWorkerManager)
    (id : Int) : (m.removeFromBuckets B id).lastProfile = m.lastProfile := by
  unfold removeFromBuckets
  split
  · rfl
  · rfl

theorem scores_removeFromBuckets (B : Bucketing) (m : InMemoryWorkerManager) (id id' : Int) :
    (m.removeFromBuckets B id).scores.lookup id' =
      if id' = id then none else m.scores.lookup id' := by
  unfold removeFromBuckets
  cases hscore : m.scores.lookup id with
  | none =>
      dsimp only
      by_cases heq : id' = id
      · rw [if_pos heq, heq, hscore]
      · rw [if_neg heq]
  | some score =>
      dsimp only
      by_cases heq : id' = id
      · rw [if_pos heq, heq, AList.lookup_erase]
      · rw [if_neg heq, AList.lookup_erase_ne heq]

theorem Placed.removeFromBuckets (h : m.Placed B) (id : Int) :
    (m.removeFromBuckets B id).Placed B := by
  intro id' b
  rw [scores_removeFromBuckets]
  unfold InMemoryWorkerManager.removeFromBuckets
  cases hscore : m.scores.lookup id with
  | none =>
      dsimp only
      rw [h id' b]
      by_cases heq : id' = id
      · rw [if_pos heq, heq, hscore]
      · rw [if_neg heq]
  | some score =>
      dsimp only
      by_cases heq : id' = id
      · subst heq
        rw [if_pos rfl]
        refine iff_of_false (fun hmem => ?_) (fun ⟨_, hnone, _⟩ => by cases hnone)
        -- only the bucket of its old score had it
        by_cases hb : b = B.bucketIndex score
        · subst hb
          rw [Function.update_self] at hmem
          exact Finset.notMem_erase _ _ hmem
        · rw [Function.update_of_ne hb, h id' b, hscore] at hmem
          obtain ⟨score', hsame, hindex⟩ := hmem
          obtain rfl := Option.some.inj hsame
          exact hb hindex.symm
      · rw [if_neg heq, ← h id' b]
        by_cases hb : b = B.bucketIndex score
        · subst hb
          rw [Function.update_self, Finset.mem_erase, and_iff_right heq]
        · rw [Function.update_of_ne hb]

/-- A worker without a score is placed. -/
theorem Placed.placeInBucket (h : m.Placed B) (hnone : m.scores.lookup id = none) (score : ℚ) :
    (m.placeInBucket B id score).Placed B := by
  intro id' b
  unfold InMemoryWorkerManager.placeInBucket
  dsimp only
  by_cases heq : id' = id
  · subst heq
    rw [AList.lookup_insert]
    have hnot : id' ∉ m.buckets b := by
      rw [h id' b, hnone]
      exact fun ⟨_, hsome, _⟩ => by cases hsome
    -- only the bucket of its score gets it
    by_cases hb : b = B.bucketIndex score
    · subst hb
      rw [Function.update_self]
      exact iff_of_true (Finset.mem_insert_self _ _) ⟨score, rfl, rfl⟩
    · rw [Function.update_of_ne hb]
      refine iff_of_false hnot fun ⟨score', hsame, hindex⟩ => ?_
      obtain rfl := Option.some.inj hsame
      exact hb hindex.symm
  · rw [AList.lookup_insert_ne heq, ← h id' b]
    by_cases hb : b = B.bucketIndex score
    · subst hb
      rw [Function.update_self, Finset.mem_insert, or_iff_right heq]
    · rw [Function.update_of_ne hb]

theorem Placed.rebucket (h : m.Placed B) (id : Int) (info : WorkerInfo) :
    (m.rebucket B id info).Placed B := by
  refine (h.removeFromBuckets id).placeInBucket ?_ _
  rw [scores_removeFromBuckets, if_pos rfl]

theorem scores_rebucket (B : Bucketing) (m : InMemoryWorkerManager) (id id' : Int)
    (info : WorkerInfo) :
    (m.rebucket B id info).scores.lookup id' =
      if id' = id then some (B.score info m.lastProfile.toWeightProfile)
      else m.scores.lookup id' := by
  unfold rebucket placeInBucket
  dsimp only
  by_cases heq : id' = id
  · rw [if_pos heq, heq, AList.lookup_insert]
  · rw [if_neg heq, AList.lookup_insert_ne heq, scores_removeFromBuckets, if_neg heq]

@[simp] theorem workers_rebucket (B : Bucketing) (m : InMemoryWorkerManager) (id : Int)
    (info : WorkerInfo) : (m.rebucket B id info).toWorkerManager = m.toWorkerManager :=
  workers_removeFromBuckets B m id

@[simp] theorem lastProfile_rebucket (B : Bucketing) (m : InMemoryWorkerManager) (id : Int)
    (info : WorkerInfo) : (m.rebucket B id info).lastProfile = m.lastProfile :=
  lastProfile_removeFromBuckets B m id

/-! ## What keeps the buckets up to date -/

/-- The loop of the rebuild over entries of different workers. -/
theorem placed_foldl (wp : WeightProfile) {entries : List (Sigma fun _ : Int => WorkerInfo)}
    (hkeys : entries.NodupKeys) (h : m.Placed B)
    (hnone : ∀ e ∈ entries, m.scores.lookup e.1 = none) :
    let m' := entries.foldl (fun m e => m.placeInBucket B e.1 (B.score e.2 wp)) m
    m'.Placed B ∧ m'.toWorkerManager = m.toWorkerManager ∧ m'.lastProfile = m.lastProfile ∧
      ∀ id, m'.scores.lookup id =
        ((entries.dlookup id).map fun w => B.score w wp).or (m.scores.lookup id) := by
  induction entries generalizing m with
  | nil => exact ⟨h, rfl, rfl, fun id => rfl⟩
  | cons e rest ih =>
      obtain ⟨id, w⟩ := e
      obtain ⟨hid, hrest⟩ := List.nodupKeys_cons.mp hkeys
      have hplaced := h.placeInBucket (hnone _ List.mem_cons_self) (B.score w wp)
      obtain ⟨hp, hworkers, hprofile, hscores⟩ := ih hrest hplaced fun e he => by
        have hne : e.1 ≠ id := by
          have hmem := List.mem_keys_of_mem he
          exact fun heq => hid (heq ▸ hmem)
        exact (AList.lookup_insert_ne hne).trans (hnone e (List.mem_cons_of_mem _ he))
      refine ⟨hp, hworkers, hprofile, fun id' => ?_⟩
      refine (hscores id').trans ?_
      unfold InMemoryWorkerManager.placeInBucket
      dsimp only
      by_cases heq : id' = id
      · subst heq
        rw [List.dlookup_eq_none.mpr hid, List.dlookup_cons_eq, AList.lookup_insert]
        rfl
      · rw [List.dlookup_cons_ne rest (⟨id, w⟩ : Sigma fun _ : Int => WorkerInfo) heq,
          AList.lookup_insert_ne heq]

theorem fresh_rebuild (B : Bucketing) (m : InMemoryWorkerManager) (wp : NamedProfile) :
    (m.rebuild B wp).Fresh B ∧ (m.rebuild B wp).toWorkerManager = m.toWorkerManager ∧
      (m.rebuild B wp).lastProfile = wp := by
  have hempty : Placed B
      { m with scores := ∅, buckets := fun _ => ∅, lastProfile := wp } := by
    intro id b
    exact iff_of_false (Finset.notMem_empty id) fun ⟨_, hsome, _⟩ => by cases hsome
  obtain ⟨hplaced, hworkers, hprofile, hscores⟩ := placed_foldl wp.toWeightProfile
    m.workers.nodupKeys hempty fun _ _ => rfl
  refine ⟨⟨fun id => ?_, hplaced⟩, hworkers, hprofile⟩
  have hlookup := hscores id
  rw [show (∅ : AList fun _ : Int => ℚ).lookup id = none from rfl, Option.or_none] at hlookup
  refine hlookup.trans ?_
  unfold rebuild
  rw [hworkers, hprofile]
  rfl

theorem fresh_empty (B : Bucketing) : Fresh B {} where
  scores := fun _ => rfl
  placed := fun id _ =>
    iff_of_false (Finset.notMem_empty id) fun ⟨_, hsome, _⟩ => by cases hsome

theorem Fresh.adopt {wp : NamedProfile} (h : wp = m.lastProfile → m.Fresh B) :
    (m.adopt B wp).Fresh B ∧ (m.adopt B wp).toWorkerManager = m.toWorkerManager ∧
      (m.adopt B wp).lastProfile = wp := by
  unfold InMemoryWorkerManager.adopt
  by_cases hsame : wp = m.lastProfile
  · rw [if_neg (not_not.mpr hsame)]
    exact ⟨h hsame, rfl, hsame.symm⟩
  · rw [if_pos hsame]
    exact fresh_rebuild B m wp

theorem Fresh.deregisterWorker (h : m.Fresh B) (id : Int) : (m.deregisterWorker B id).Fresh B := by
  refine ⟨fun id' => ?_, h.placed.removeFromBuckets id⟩
  unfold InMemoryWorkerManager.deregisterWorker WorkerManager.deregisterWorker
  dsimp only
  rw [scores_removeFromBuckets, workers_removeFromBuckets, lastProfile_removeFromBuckets, h.scores]
  by_cases heq : id' = id
  · rw [if_pos heq, heq, AList.lookup_erase]
    rfl
  · rw [if_neg heq, AList.lookup_erase_ne heq]

/-- A worker that is set and placed again. -/
theorem Fresh.rebucket (h : m.Fresh B) (m' : InMemoryWorkerManager) (hscores : m'.scores = m.scores)
    (hbuckets : m'.buckets = m.buckets) (hprofile : m'.lastProfile = m.lastProfile)
    {info : WorkerInfo} (hworkers : m'.workers = m.workers.insert id info) :
    (m'.rebucket B id info).Fresh B := by
  have hplaced : m'.Placed B := by
    intro id' b
    rw [hbuckets, hscores]
    exact h.placed id' b
  refine ⟨fun id' => ?_, hplaced.rebucket id info⟩
  rw [scores_rebucket, workers_rebucket, lastProfile_rebucket, hworkers, hscores, h.scores, hprofile]
  by_cases heq : id' = id
  · rw [if_pos heq, heq, AList.lookup_insert]
    rfl
  · rw [if_neg heq, AList.lookup_insert_ne heq]

theorem Fresh.registerWorker (h : m.Fresh B) (hname : m.lastProfile.name ≠ "") (info : WorkerInfo) :
    (m.registerWorker B info).Fresh B := by
  unfold InMemoryWorkerManager.registerWorker
  dsimp only
  rw [if_pos hname]
  exact h.rebucket { m with toWorkerManager := m.toWorkerManager.registerWorker info }
    rfl rfl rfl rfl

theorem Fresh.updateScore (h : m.Fresh B) (hname : m.lastProfile.name ≠ "") (id : Int)
    (info : WorkerInfo) (now : Int) : (m.updateScore B id info now).Fresh B := by
  unfold InMemoryWorkerManager.updateScore
  cases hold : m.workers.lookup id with
  | none => exact h
  | some old =>
      dsimp only
      rw [if_pos hname]
      refine h.rebucket { m with toWorkerManager := m.toWorkerManager.updateScore id info now }
        rfl rfl rfl ?_
      unfold WorkerManager.updateScore
      rw [hold]

end InMemoryWorkerManager
end Labios.Elastic

/-!
## Is the top picked?

The buckets follow registrations and updates only while a profile with a name is in force. The
comment of `register_worker` means a profile that was set before, but the code asks for its name:
an unnamed profile that is asked for twice gets the buckets of the first time, and the unnamed
profile without weights, which is in force from the start, finds no worker at all. In every other
case the answer is right (`top_n_correct`).
-/

namespace Labios.Elastic

open Foundation

def Bucketing.bucketOf (B : Bucketing) (w : WorkerInfo) (wp : WeightProfile) : Fin 5 :=
  B.bucketIndex (B.score w wp)

/-- As many of the registered workers as there are and were asked for, from the highest buckets
down. -/
def WorkerManager.IsTop (B : Bucketing) (m : WorkerManager) (n : Int) (wp : WeightProfile)
    (result : List WorkerInfo) : Prop :=
  ∃ picked : List (Int × WorkerInfo), result = picked.map (·.2) ∧
    (picked.map (·.1)).Nodup ∧ (∀ p ∈ picked, m.workers.lookup p.1 = some p.2) ∧
    picked.length = min n.toNat m.workerCount ∧
    picked.Pairwise (fun p q => B.bucketOf q.2 wp ≤ B.bucketOf p.2 wp) ∧
      ∀ id w, m.workers.lookup id = some w → id ∉ picked.map (·.1) →
        ∀ p ∈ picked, B.bucketOf w wp ≤ B.bucketOf p.2 wp

namespace InMemoryWorkerManager

variable {B : Bucketing} {m : InMemoryWorkerManager} {wp : NamedProfile} {walk : Fin 5 → List Int}

/-! ## The loops -/

theorem pickBucket_eq (workers : AList fun _ : Int => WorkerInfo) (ids : List Int) (remaining : Int)
    (result : List WorkerInfo) :
    pickBucket workers ids remaining result =
      (remaining - ((ids.filterMap workers.lookup).take remaining.toNat).length,
        result ++ (ids.filterMap workers.lookup).take remaining.toNat) := by
  induction ids generalizing remaining result with
  | nil => simp [pickBucket]
  | cons wid rest ih =>
      rw [pickBucket]
      by_cases hnone : remaining ≤ 0
      · rw [if_pos hnone, Int.toNat_of_nonpos hnone]
        simp
      · rw [if_neg hnone]
        cases hlookup : workers.lookup wid with
        | none =>
            have hfound : (wid :: rest).filterMap workers.lookup = rest.filterMap workers.lookup :=
              List.filterMap_cons_none hlookup
            dsimp only
            rw [ih, hfound]
        | some w =>
            have hfound : (wid :: rest).filterMap workers.lookup =
                w :: rest.filterMap workers.lookup := List.filterMap_cons_some hlookup
            have hnat : remaining.toNat = (remaining - 1).toNat + 1 := by omega
            dsimp only
            rw [ih, hfound, hnat, List.take_succ_cons, List.length_cons, List.append_assoc,
              List.singleton_append]
            refine Prod.ext ?_ rfl
            push_cast
            omega

theorem pickBuckets_eq (workers : AList fun _ : Int => WorkerInfo) (walk : Fin 5 → List Int)
    (bs : List (Fin 5)) (remaining : Int) (result : List WorkerInfo) :
    pickBuckets workers walk bs remaining result =
      result ++ ((bs.flatMap walk).filterMap workers.lookup).take remaining.toNat := by
  induction bs generalizing remaining result with
  | nil => simp [pickBuckets]
  | cons b rest ih =>
      rw [pickBuckets]
      by_cases hnone : remaining ≤ 0
      · rw [if_pos hnone, Int.toNat_of_nonpos hnone]
        simp
      · rw [if_neg hnone, pickBucket_eq]
        dsimp only
        have hleft : (remaining - (((walk b).filterMap workers.lookup).take
            remaining.toNat).length : Int).toNat =
              remaining.toNat - ((walk b).filterMap workers.lookup).length := by
          rw [List.length_take]
          omega
        rw [ih, hleft, List.flatMap_cons, List.filterMap_append, List.take_append,
          List.append_assoc]

/-! ## Buckets that are up to date -/

/-- All ids, in the order in which they are looked at. -/
def walked (walk : Fin 5 → List Int) : List Int := [4, 3, 2, 1, 0].flatMap walk

theorem mem_walk (h : m.Fresh B) (hwalk : m.Walks walk) {id : Int} {b : Fin 5} :
    id ∈ walk b ↔ ∃ w, m.workers.lookup id = some w ∧
      B.bucketOf w m.lastProfile.toWeightProfile = b := by
  rw [← List.mem_toFinset, (hwalk b).2, h.placed, h.scores]
  constructor
  · rintro ⟨score, hscore, hindex⟩
    obtain ⟨w, hw, rfl⟩ := Option.map_eq_some_iff.mp hscore
    exact ⟨w, hw, hindex⟩
  · rintro ⟨w, hw, hindex⟩
    exact ⟨_, Option.map_eq_some_iff.mpr ⟨w, hw, rfl⟩, hindex⟩

theorem mem_walked (h : m.Fresh B) (hwalk : m.Walks walk) {id : Int} :
    id ∈ walked walk ↔ ∃ w, m.workers.lookup id = some w := by
  unfold walked
  rw [List.mem_flatMap]
  constructor
  · rintro ⟨b, -, hmem⟩
    obtain ⟨w, hw, -⟩ := (mem_walk h hwalk).mp hmem
    exact ⟨w, hw⟩
  · rintro ⟨w, hw⟩
    have hall : ∀ b : Fin 5, b ∈ [4, 3, 2, 1, 0] := by decide
    exact ⟨_, hall _, (mem_walk h hwalk).mpr ⟨w, hw, rfl⟩⟩

theorem nodup_walked (h : m.Fresh B) (hwalk : m.Walks walk) : (walked walk).Nodup := by
  unfold walked
  refine List.nodup_flatMap.mpr ⟨fun b _ => (hwalk b).1, ?_⟩
  have hne : [4, 3, 2, 1, 0].Pairwise fun a b : Fin 5 => a ≠ b := by decide
  refine hne.imp fun {a b} hab id ha hb => hab ?_
  -- a worker is in one bucket
  obtain ⟨w, hw, rfl⟩ := (mem_walk h hwalk).mp ha
  obtain ⟨w', hw', rfl⟩ := (mem_walk h hwalk).mp hb
  obtain rfl := Option.some.inj (hw.symm.trans hw')
  rfl

theorem length_walked (h : m.Fresh B) (hwalk : m.Walks walk) :
    (walked walk).length = m.workerCount := by
  have hperm : (walked walk).Perm m.workers.keys := by
    refine (List.perm_ext_iff_of_nodup (nodup_walked h hwalk) m.workers.keys_nodup).mpr fun id => ?_
    rw [mem_walked h hwalk, ← AList.mem_keys, ← AList.lookup_isSome, Option.isSome_iff_exists]
  rw [hperm.length_eq, WorkerManager.workerCount, countOf, List.countP_true]
  exact List.length_map _

/-- The walk goes from the highest bucket down. -/
theorem pairwise_walked (h : m.Fresh B) (hwalk : m.Walks walk) :
    (walked walk).Pairwise fun id id' => ∀ w w', m.workers.lookup id = some w →
      m.workers.lookup id' = some w' →
        B.bucketOf w' m.lastProfile.toWeightProfile ≤
          B.bucketOf w m.lastProfile.toWeightProfile := by
  have hbucket : ∀ {id : Int} {b : Fin 5} {w : WorkerInfo}, id ∈ walk b →
      m.workers.lookup id = some w → B.bucketOf w m.lastProfile.toWeightProfile = b := by
    intro id b w hmem hw
    obtain ⟨w', hw', hindex⟩ := (mem_walk h hwalk).mp hmem
    obtain rfl := Option.some.inj (hw.symm.trans hw')
    exact hindex
  unfold walked
  refine List.pairwise_flatMap.mpr ⟨fun b _ => ?_, ?_⟩
  · refine List.Pairwise.imp_of_mem (fun {id id'} hid hid' _ w w' hw hw' => ?_) (hwalk b).1
    rw [hbucket hid hw, hbucket hid' hw']
  · have hdown : [4, 3, 2, 1, 0].Pairwise fun a b : Fin 5 => b ≤ a := by decide
    refine hdown.imp fun {a b} hab id hid id' hid' w w' hw hw' => ?_
    rw [hbucket hid hw, hbucket hid' hw']
    exact hab

theorem isTop_of_fresh (h : m.Fresh B) (hwalk : m.Walks walk) (n : Int) :
    m.IsTop B n m.lastProfile.toWeightProfile
      (pickBuckets m.workers walk [4, 3, 2, 1, 0] n []) := by
  let pairs := (walked walk).filterMap fun id => (m.workers.lookup id).map fun w => (id, w)
  have hlookup : ∀ p ∈ pairs, m.workers.lookup p.1 = some p.2 := by
    intro p hp
    obtain ⟨id, -, hid⟩ := List.mem_filterMap.mp hp
    obtain ⟨w, hw, rfl⟩ := Option.map_eq_some_iff.mp hid
    exact hw
  have hsnd : (walked walk).filterMap m.workers.lookup = pairs.map (·.2) := by
    rw [List.map_filterMap]
    refine List.filterMap_congr fun id _ => ?_
    rw [Option.map_map]
    exact Option.map_id'.symm
  have hfst : pairs.map (·.1) = walked walk := by
    have hid : ∀ id ∈ walked walk,
        ((m.workers.lookup id).map fun w => (id, w)).map (·.1) = some id := by
      intro id hmem
      obtain ⟨w, hw⟩ := (mem_walked h hwalk).mp hmem
      rw [hw]
      rfl
    rw [List.map_filterMap, List.filterMap_congr hid, List.filterMap_some]
  have hpairwise : pairs.Pairwise fun p q =>
      B.bucketOf q.2 m.lastProfile.toWeightProfile ≤
        B.bucketOf p.2 m.lastProfile.toWeightProfile := by
    have hdown := pairwise_walked h hwalk
    rw [← hfst, List.pairwise_map] at hdown
    exact hdown.imp_of_mem fun {p q} hp hq hpq => hpq p.2 q.2 (hlookup p hp) (hlookup q hq)
  have hnodup : (pairs.map (·.1)).Nodup := hfst ▸ nodup_walked h hwalk
  refine ⟨pairs.take n.toNat, ?_, hnodup.sublist ((List.take_sublist _ _).map _),
    fun p hp => hlookup p (List.mem_of_mem_take hp), ?_, hpairwise.sublist (List.take_sublist _ _),
    fun id w hw hout p hp => ?_⟩
  · rw [pickBuckets_eq, List.nil_append, List.map_take, ← hsnd]
    rfl
  · rw [List.length_take, ← length_walked h hwalk, ← hfst, List.length_map]
  · -- who is not taken comes later in the walk
    have hmem : (id, w) ∈ pairs :=
      List.mem_filterMap.mpr ⟨id, (mem_walked h hwalk).mpr ⟨w, hw⟩, by rw [hw]; rfl⟩
    rw [← List.take_append_drop n.toNat pairs] at hmem hpairwise
    rcases List.mem_append.mp hmem with htaken | hlater
    · exact absurd (List.mem_map_of_mem htaken) hout
    · exact (List.pairwise_append.mp hpairwise).2.2 p hp (id, w) hlater

/-! ## Runs -/

inductive Call
  | registerWorker (info : WorkerInfo)
  | updateScore (id : Int) (info : WorkerInfo) (now : Int)
  | deregisterWorker (id : Int)
  | topNWorkers (n : Int) (wp : NamedProfile) (walk : Fin 5 → List Int)

/-- The manager, and whether a worker was registered or updated since the profile in force was
adopted. -/
structure Watched where
  manager : InMemoryWorkerManager := {}
  touched : Bool := false

def step (B : Bucketing) (s : Watched) : Call → Option Watched
  | .registerWorker info => some { manager := s.manager.registerWorker B info, touched := true }
  | .updateScore id info now =>
      some
        { manager := s.manager.updateScore B id info now
          touched := s.touched || (s.manager.workers.lookup id).isSome }
  | .deregisterWorker id => some { s with manager := s.manager.deregisterWorker B id }
  | .topNWorkers n wp walk =>
      if (s.manager.adopt B wp).Walks walk then
        some
          { manager := (s.manager.topNWorkers B n wp walk).2
            touched := s.touched && wp = s.manager.lastProfile }
      else none

/-- No unnamed profile is asked for again after a registration or an update. -/
def AskedOnce (s : Watched) : Call → Prop
  | .topNWorkers _ wp _ => wp = s.manager.lastProfile → wp.name = "" → s.touched = false
  | .registerWorker _ | .updateScore _ _ _ | .deregisterWorker _ => True

instance (s : Watched) : (c : Call) → Decidable (AskedOnce s c)
  | .topNWorkers _ wp _ =>
      inferInstanceAs (Decidable (wp = s.manager.lastProfile → wp.name = "" → s.touched = false))
  | .registerWorker _ | .updateScore _ _ _ | .deregisterWorker _ => inferInstanceAs (Decidable True)

/-- Where the profile has a name or nothing was touched, the buckets are up to date. -/
def UpToDate (B : Bucketing) (s : Watched) : Prop :=
  (s.manager.lastProfile.name = "" → s.touched = false) → s.manager.Fresh B

theorem lastProfile_registerWorker (B : Bucketing) (m : InMemoryWorkerManager) (info : WorkerInfo) :
    (m.registerWorker B info).lastProfile = m.lastProfile := by
  unfold registerWorker
  dsimp only
  split
  · exact lastProfile_rebucket B _ info.id info
  · rfl

theorem lastProfile_updateScore (B : Bucketing) (m : InMemoryWorkerManager) (id : Int)
    (info : WorkerInfo) (now : Int) :
    (m.updateScore B id info now).lastProfile = m.lastProfile := by
  unfold updateScore
  split
  · rfl
  · dsimp only
    split
    · exact lastProfile_rebucket B _ id info
    · rfl

theorem UpToDate.adopt {s : Watched} (h : UpToDate B s)
    (hasked : wp = s.manager.lastProfile → wp.name = "" → s.touched = false) :
    (s.manager.adopt B wp).Fresh B ∧
      (s.manager.adopt B wp).toWorkerManager = s.manager.toWorkerManager ∧
        (s.manager.adopt B wp).lastProfile = wp :=
  Fresh.adopt fun heq => h fun hname => hasked heq (heq ▸ hname)

theorem UpToDate.step {s s' : Watched} {c : Call} (h : UpToDate B s) (hasked : AskedOnce s c)
    (hstep : step B s c = some s') : UpToDate B s' := by
  cases c with
  | registerWorker info =>
      obtain rfl := Option.some.inj hstep
      intro hnamed
      dsimp only at hnamed ⊢
      rw [lastProfile_registerWorker] at hnamed
      have hname : s.manager.lastProfile.name ≠ "" := fun hempty => by cases hnamed hempty
      exact (h fun hempty => absurd hempty hname).registerWorker hname info
  | updateScore id info now =>
      obtain rfl := Option.some.inj hstep
      intro hnamed
      dsimp only at hnamed ⊢
      rw [lastProfile_updateScore, Bool.or_eq_false_iff] at hnamed
      have hfresh : s.manager.Fresh B := h fun hempty => (hnamed hempty).1
      by_cases hname : s.manager.lastProfile.name = ""
      · -- an update of a worker that is not registered changes nothing
        have hnone := Option.isNone_iff_eq_none.mp
          (Option.isSome_eq_false_iff.mp (hnamed hname).2)
        unfold InMemoryWorkerManager.updateScore
        rw [hnone]
        exact hfresh
      · exact hfresh.updateScore hname id info now
  | deregisterWorker id =>
      obtain rfl := Option.some.inj hstep
      intro hnamed
      have hprofile : (s.manager.deregisterWorker B id).lastProfile = s.manager.lastProfile :=
        lastProfile_removeFromBuckets B s.manager id
      dsimp only at hnamed ⊢
      rw [hprofile] at hnamed
      exact (h hnamed).deregisterWorker id
  | topNWorkers n wp walk =>
      unfold InMemoryWorkerManager.step at hstep
      dsimp only at hstep
      split at hstep
      · obtain rfl := Option.some.inj hstep
        exact fun _ => (h.adopt hasked).1
      · cases hstep

/-- **Top workers.** In a run in which no unnamed profile is asked for again after a registration
or an update, every answer consists of the top workers. -/
theorem top_n_correct {calls : List Call} {t : Watched} (hrun : exec (step B) {} calls = some t)
    (hasked : Along (step B) AskedOnce {} calls) :
    ∀ front n wp walk back, calls = front ++ .topNWorkers n wp walk :: back →
      ∃ s, exec (step B) {} front = some s ∧
        s.manager.IsTop B n wp.toWeightProfile (s.manager.topNWorkers B n wp walk).1 := by
  rintro front n wp walk back rfl
  obtain ⟨s, hfront, hback⟩ := exec_append hrun
  obtain ⟨hbefore, hnow⟩ := hasked.append hfront
  obtain ⟨s', hstep, -⟩ := exec_cons hback
  have hstart : UpToDate B {} := fun _ => fresh_empty B
  have h : UpToDate B s :=
    exec_invariant (fun h hok hstep => h.step hok hstep) hstart hfront hbefore
  obtain ⟨hfresh, hworkers, hprofile⟩ := h.adopt hnow.1
  have hwalk : (s.manager.adopt B wp).Walks walk := by
    by_contra hnot
    rw [step, if_neg hnot] at hstep
    cases hstep
  have htop := isTop_of_fresh hfresh hwalk n
  rw [hprofile, hworkers] at htop
  exact ⟨s, hfront, by rw [topNWorkers, hworkers]; exact htop⟩

/-- Two workers under a profile with a name, one of which gets slower. -/
def namedRun : List Call :=
  [.registerWorker { id := 1, speed := 5 },
    .topNWorkers 1 { name := "fast", speed := 1 } (fun b => if b = 4 then [1] else []),
    .registerWorker { id := 2, speed := 4 }, .updateScore 1 { id := 1, speed := 1 } 0,
    .topNWorkers 1 { name := "fast", speed := 1 }
      (fun b => if b = 4 then [2] else if b = 1 then [1] else [])]

theorem top_n_correct_named :
    ∃ s, exec (step exactBucketing) {} (namedRun.take 4) = some s ∧
      s.manager.IsTop exactBucketing 1 { speed := 1 } [{ id := 2, speed := 4 }] := by
  have hsome : (exec (step exactBucketing) {} namedRun).isSome := by decide +kernel
  obtain ⟨t, ht⟩ := Option.isSome_iff_exists.mp hsome
  obtain ⟨s, hs, htop⟩ := top_n_correct ht (by decide +kernel) (namedRun.take 4) 1
    { name := "fast", speed := 1 } (fun b => if b = 4 then [2] else if b = 1 then [1] else []) [] rfl
  have hresult : ((exec (step exactBucketing) {} (namedRun.take 4)).map fun s =>
      (s.manager.topNWorkers exactBucketing 1 { name := "fast", speed := 1 }
        fun b => if b = 4 then [2] else if b = 1 then [1] else []).1) =
      some [{ id := 2, speed := 4 }] := by decide +kernel
  rw [hs, Option.map_some] at hresult
  rw [Option.some.inj hresult] at htop
  exact ⟨s, hs, htop⟩

/-- The worker that is registered is not found. -/
theorem unnamed_notTop :
    ∃ s, exec (step exactBucketing) {} [.registerWorker { id := 1 }] = some s ∧
      (s.manager.adopt exactBucketing {}).Walks (fun _ => []) ∧
        (s.manager.topNWorkers exactBucketing 1 {} fun _ => []).1 = [] ∧
          ¬s.manager.IsTop exactBucketing 1 {} [] := by
  refine ⟨_, rfl, by decide +kernel, by decide +kernel, ?_⟩
  rintro ⟨picked, hresult, -, -, hlength, -⟩
  rw [List.map_eq_nil_iff.mp hresult.symm] at hlength
  exact absurd hlength (by decide +kernel)

/-! ## Runs with any profiles -/

/-- The manager after a call, whatever order the buckets are walked in. -/
def after (B : Bucketing) (m : InMemoryWorkerManager) : Call → InMemoryWorkerManager
  | .registerWorker info => m.registerWorker B info
  | .updateScore id info now => m.updateScore B id info now
  | .deregisterWorker id => m.deregisterWorker B id
  | .topNWorkers n wp walk => (m.topNWorkers B n wp walk).2

/-- The buckets hold registered workers, each in the one bucket of its cached score. -/
structure BucketsConsistent (B : Bucketing) (m : InMemoryWorkerManager) : Prop where
  once : ∀ id b b', id ∈ m.buckets b → id ∈ m.buckets b' → b = b'
  scored : ∀ id, (∃ b, id ∈ m.buckets b) ↔ (m.scores.lookup id).isSome
  ofScore : ∀ id b score, id ∈ m.buckets b → m.scores.lookup id = some score →
    b = B.bucketIndex score
  registered : ∀ id b, id ∈ m.buckets b → (m.workers.lookup id).isSome

/-- Only registered workers have a cached score. -/
def ScoresRegistered (m : InMemoryWorkerManager) : Prop :=
  ∀ id, (m.scores.lookup id).isSome → (m.workers.lookup id).isSome

theorem Placed.consistent (h : m.Placed B) (hregistered : m.ScoresRegistered) :
    BucketsConsistent B m where
  once id b b' hb hb' := by
    obtain ⟨score, hscore, rfl⟩ := (h id b).mp hb
    obtain ⟨score', hscore', rfl⟩ := (h id b').mp hb'
    rw [hscore] at hscore'
    rw [Option.some.inj hscore']
  scored id := by
    rw [Option.isSome_iff_exists]
    constructor
    · rintro ⟨b, hb⟩
      obtain ⟨score, hscore, -⟩ := (h id b).mp hb
      exact ⟨score, hscore⟩
    · rintro ⟨score, hscore⟩
      exact ⟨_, (h id _).mpr ⟨score, hscore, rfl⟩⟩
  ofScore id b score hb hscore := by
    obtain ⟨score', hscore', rfl⟩ := (h id b).mp hb
    rw [hscore] at hscore'
    rw [Option.some.inj hscore']
  registered id b hb := by
    obtain ⟨score, hscore, -⟩ := (h id b).mp hb
    exact hregistered id (Option.isSome_iff_exists.mpr ⟨score, hscore⟩)

/-- A worker that is set stays registered with the others. -/
theorem ScoresRegistered.insert (h : m.ScoresRegistered) {m' : InMemoryWorkerManager}
    (hscores : m'.scores = m.scores) {id : Int} {info : WorkerInfo}
    (hworkers : m'.workers = m.workers.insert id info) :
    m'.ScoresRegistered ∧ (m'.rebucket B id info).ScoresRegistered := by
  have hkept : ∀ id', id' = id ∨ (m.workers.lookup id').isSome →
      (m'.workers.lookup id').isSome := by
    intro id' hid
    rw [hworkers]
    by_cases heq : id' = id
    · rw [heq, AList.lookup_insert]
      rfl
    · rw [AList.lookup_insert_ne heq]
      exact hid.resolve_left heq
  constructor
  · intro id' hscore
    rw [hscores] at hscore
    exact hkept id' (Or.inr (h id' hscore))
  · intro id' hscore
    rw [scores_rebucket, hscores] at hscore
    rw [workers_rebucket]
    by_cases heq : id' = id
    · exact hkept id' (Or.inl heq)
    · rw [if_neg heq] at hscore
      exact hkept id' (Or.inr (h id' hscore))

theorem Placed.congr (h : m.Placed B) {m' : InMemoryWorkerManager}
    (hscores : m'.scores = m.scores) (hbuckets : m'.buckets = m.buckets) : m'.Placed B := by
  intro id b
  rw [hbuckets, hscores]
  exact h id b

/-- A call that sets one worker and places it if the profile in force has a name. -/
theorem placed_set (h : m.Placed B) (hregistered : m.ScoresRegistered)
    (m' : InMemoryWorkerManager) (hscores : m'.scores = m.scores)
    (hbuckets : m'.buckets = m.buckets) {id : Int} {info : WorkerInfo}
    (hworkers : m'.workers = m.workers.insert id info) :
    (if m'.lastProfile.name ≠ "" then m'.rebucket B id info else m').Placed B ∧
      (if m'.lastProfile.name ≠ "" then m'.rebucket B id info else m').ScoresRegistered := by
  have hplaced := h.congr hscores hbuckets
  have hkept := hregistered.insert (B := B) hscores hworkers
  split
  · exact ⟨hplaced.rebucket id info, hkept.2⟩
  · exact ⟨hplaced, hkept.1⟩

theorem Fresh.scoresRegistered (h : m.Fresh B) : m.ScoresRegistered := by
  intro id hscore
  rw [h.scores, Option.isSome_map] at hscore
  exact hscore

/-- Every call keeps the workers in their buckets and the scores with the workers. -/
theorem placed_after (h : m.Placed B) (hregistered : m.ScoresRegistered) (c : Call) :
    (after B m c).Placed B ∧ (after B m c).ScoresRegistered := by
  cases c with
  | registerWorker info =>
      exact placed_set h hregistered
        { m with toWorkerManager := m.toWorkerManager.registerWorker info } rfl rfl rfl
  | updateScore id info now =>
      unfold after InMemoryWorkerManager.updateScore
      dsimp only
      cases hold : m.workers.lookup id with
      | none => exact ⟨h, hregistered⟩
      | some old =>
          -- the registered worker keeps its id, so the table gets a new value for it
          refine placed_set h hregistered
            { m with toWorkerManager := m.toWorkerManager.updateScore id info now } rfl rfl ?_
          show (m.toWorkerManager.updateScore id info now).workers = _
          unfold WorkerManager.updateScore
          rw [hold]
  | deregisterWorker id =>
      refine ⟨(h.removeFromBuckets id).congr rfl rfl, fun id' hscore => ?_⟩
      have hscore : ((m.removeFromBuckets B id).scores.lookup id').isSome := hscore
      show ((m.removeFromBuckets B id).toWorkerManager.deregisterWorker id |>.workers.lookup
        id').isSome
      rw [workers_removeFromBuckets]
      rw [scores_removeFromBuckets] at hscore
      by_cases heq : id' = id
      · rw [if_pos heq] at hscore
        cases hscore
      · rw [if_neg heq] at hscore
        unfold WorkerManager.deregisterWorker
        rw [AList.lookup_erase_ne heq]
        exact hregistered id' hscore
  | topNWorkers n wp walk =>
      show (m.adopt B wp).Placed B ∧ (m.adopt B wp).ScoresRegistered
      unfold adopt
      split
      · -- the buckets are built anew for another profile
        have hfresh := (fresh_rebuild B m wp).1
        exact ⟨hfresh.placed, hfresh.scoresRegistered⟩
      · exact ⟨h, hregistered⟩

/-- After every sequence of calls the buckets are consistent with the cached scores and the
registered workers. -/
theorem buckets_consistent (B : Bucketing) (calls : List Call) :
    BucketsConsistent B (calls.foldl (after B) {}) := by
  have hrun : ∀ m : InMemoryWorkerManager, m.Placed B → m.ScoresRegistered →
      BucketsConsistent B (calls.foldl (after B) m) := by
    induction calls with
    | nil => exact fun m h hregistered => h.consistent hregistered
    | cons c rest ih =>
        intro m h hregistered
        obtain ⟨hplaced, hkept⟩ := placed_after h hregistered c
        exact ih _ hplaced hkept
  have hempty := fresh_empty B
  exact hrun {} hempty.placed hempty.scoresRegistered

end InMemoryWorkerManager
end Labios.Elastic
