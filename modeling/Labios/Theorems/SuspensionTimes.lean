import Labios.Elastic.Workers
import Labios.Foundation.Latest
import Mathlib.Data.List.Induction

/-!
# How long a worker is suspended

`suspended_since_` changes when an update makes a worker unavailable or available. A new
registration leaves it alone, so an entry may be out of date; the queries skip such an entry, since
its worker is available. `decommissionable_exact` says that they find the workers that were
unavailable without a break for long enough.
-/

namespace Labios.Elastic

open Foundation

namespace WorkerManager

/-! ## Timed calls -/

inductive Call
  | registerWorker (info : WorkerInfo)
  | updateScore (id : Int) (info : WorkerInfo)
  | deregisterWorker (id : Int)

/-- A call at a time of the steady clock, in nanoseconds. -/
def call (m : WorkerManager) : Int × Call → WorkerManager
  | (_, .registerWorker info) => m.registerWorker info
  | (now, .updateScore id info) => m.updateScore id info now
  | (_, .deregisterWorker id) => m.deregisterWorker id

def run (m : WorkerManager) (history : List (Int × Call)) : WorkerManager := history.foldl call m

theorem run_concat (m : WorkerManager) (history : List (Int × Call)) (c : Int × Call) :
    m.run (history ++ [c]) = (m.run history).call c := by
  unfold run
  rw [List.foldl_append]
  rfl

/-! ## What the calls say of a worker -/

def registration (id : Int) : Int × Call → Option Bool
  | (_, .registerWorker info) => if info.id = id then some true else none
  | (_, .updateScore _ _) => none
  | (_, .deregisterWorker id') => if id' = id then some false else none

def Registered (history : List (Int × Call)) (id : Int) : Prop :=
  latest (registration id) history = some true

/-- A call that does not end a suspension. -/
def Lasting (id : Int) : Call → Prop
  | .registerWorker info => info.id ≠ id
  | .updateScore id' info => id' = id → info.available = false
  | .deregisterWorker id' => id' ≠ id

/-- An update of the registered worker said at this time that it is unavailable, and no later call
said otherwise. -/
def UnavailableSince (history : List (Int × Call)) (id since : Int) : Prop :=
  ∃ front info back, history = front ++ (since, .updateScore id info) :: back ∧
    Registered front id ∧ info.available = false ∧ ∀ c ∈ back, Lasting id c.2

variable {m : WorkerManager} {history : List (Int × Call)} {now id since : Int} {c : Call}

theorem registered_concat {c : Int × Call} :
    Registered (history ++ [c]) id ↔
      (registration id c).or (latest (registration id) history) = some true := by
  unfold Registered
  rw [latest_concat]

theorem unavailableSince_concat :
    UnavailableSince (history ++ [(now, c)]) id since ↔
      UnavailableSince history id since ∧ Lasting id c ∨
        now = since ∧ Registered history id ∧
          ∃ info, c = .updateScore id info ∧ info.available = false := by
  constructor
  · rintro ⟨front, info, back, heq, hregistered, hinfo, hback⟩
    induction back using List.reverseRecOn with
    | nil =>
        obtain ⟨rfl, hlast⟩ := List.append_inj' heq rfl
        obtain ⟨rfl, rfl⟩ := Prod.mk.inj (List.singleton_inj.mp hlast)
        exact .inr ⟨rfl, hregistered, info, rfl, hinfo⟩
    | append_singleton back last =>
        rw [← List.cons_append, ← List.append_assoc] at heq
        obtain ⟨rfl, hlast⟩ := List.append_inj' heq rfl
        obtain rfl := List.singleton_inj.mp hlast
        refine .inl ⟨⟨front, info, back, rfl, hregistered, hinfo, fun c hc => ?_⟩, ?_⟩
        · exact hback c (List.mem_append_left _ hc)
        · exact hback _ (List.mem_append_right _ (List.mem_singleton.mpr rfl))
  · rintro (⟨⟨front, info, back, rfl, hregistered, hinfo, hback⟩, hc⟩ | ⟨rfl, hregistered, info,
      rfl, hinfo⟩)
    · refine ⟨front, info, back ++ [(now, c)], ?_, hregistered, hinfo, fun c' hc' => ?_⟩
      · rw [List.append_assoc, List.cons_append]
      · rcases List.mem_append.mp hc' with hc' | hc'
        · exact hback c' hc'
        · rwa [List.mem_singleton.mp hc']
    · exact ⟨history, info, [], rfl, hregistered, hinfo, fun c hc => absurd hc List.not_mem_nil⟩

/-- The time of a suspension is the time of a call. -/
theorem UnavailableSince.le (h : UnavailableSince history id since)
    (hclock : ∀ c ∈ history, c.1 ≤ now) : since ≤ now := by
  obtain ⟨front, info, back, rfl, -⟩ := h
  exact hclock _ (List.mem_append_right _ List.mem_cons_self)

/-! ## What the manager knows of a worker -/

/-- The worker is registered exactly if the manager has it, and unavailable exactly if the manager
has it so; then the manager has the time from which on it is unavailable. -/
structure Tracked (m : WorkerManager) (history : List (Int × Call)) (id : Int) : Prop where
  registered : Registered history id ↔ ∃ w, m.workers.lookup id = some w
  unavailable : ∀ since, UnavailableSince history id since →
    ∃ w, m.workers.lookup id = some w ∧ w.available = false
  since : ∀ w, m.workers.lookup id = some w → w.available = false →
    ∃ first, m.suspendedSince.lookup id = some first ∧ UnavailableSince history id first ∧
      ∀ since, UnavailableSince history id since → first ≤ since

theorem tracked_empty (id : Int) : Tracked {} [] id where
  registered := iff_of_false (fun h => by cases h) (fun ⟨w, hw⟩ => by cases hw)
  unavailable := by
    rintro since ⟨front, info, back, heq, -⟩
    cases front with
    | nil => cases heq
    | cons c front => cases heq
  since := fun w hw => by cases hw

/-- A call of another worker. -/
theorem Tracked.other (h : Tracked m history id) {m' : WorkerManager}
    (hworkers : m'.workers.lookup id = m.workers.lookup id)
    (hsuspended : m'.suspendedSince.lookup id = m.suspendedSince.lookup id)
    (hregistration : registration id (now, c) = none) (hlasting : Lasting id c)
    (hupdate : ∀ info, c ≠ .updateScore id info) : Tracked m' (history ++ [(now, c)]) id := by
  have hsince : ∀ since, UnavailableSince (history ++ [(now, c)]) id since ↔
      UnavailableSince history id since := by
    intro since
    rw [unavailableSince_concat]
    constructor
    · rintro (⟨hsince, -⟩ | ⟨-, -, info, hc, -⟩)
      · exact hsince
      · exact absurd hc (hupdate info)
    · exact fun hsince => .inl ⟨hsince, hlasting⟩
  constructor
  · rw [registered_concat, hregistration, Option.none_or, hworkers]
    exact h.registered
  · intro since hunavailable
    rw [hworkers]
    exact h.unavailable since ((hsince since).mp hunavailable)
  · intro w hw
    simp only [hsince, hsuspended]
    exact h.since w (hworkers.symm.trans hw)

theorem Tracked.registerWorker (h : Tracked m history id) {info : WorkerInfo}
    (havailable : info.available = true) :
    Tracked (m.registerWorker info) (history ++ [(now, .registerWorker info)]) id := by
  by_cases heq : info.id = id
  · have hlookup : (m.registerWorker info).workers.lookup id = some info := by
      rw [← heq]
      exact AList.lookup_insert _
    constructor
    · rw [registered_concat, registration, if_pos heq, Option.some_or, hlookup]
      exact iff_of_true rfl ⟨info, rfl⟩
    · intro since hunavailable
      rcases unavailableSince_concat.mp hunavailable with ⟨-, hlasting⟩ | ⟨-, -, info', hc, -⟩
      · exact absurd heq hlasting
      · cases hc
    · intro w hw hsuspended
      rw [hlookup] at hw
      obtain rfl := Option.some.inj hw
      rw [havailable] at hsuspended
      cases hsuspended
  · refine h.other ?_ rfl (if_neg heq) heq (fun info' hc => by cases hc)
    exact AList.lookup_insert_ne (Ne.symm heq)

theorem Tracked.deregisterWorker (h : Tracked m history id) (id' : Int) :
    Tracked (m.deregisterWorker id') (history ++ [(now, .deregisterWorker id')]) id := by
  by_cases heq : id' = id
  · have hlookup : (m.deregisterWorker id').workers.lookup id = none := by
      rw [← heq]
      exact AList.lookup_erase _ _
    constructor
    · rw [registered_concat, registration, if_pos heq, Option.some_or, hlookup]
      exact iff_of_false (fun hf => by cases hf) (fun ⟨w, hw⟩ => by cases hw)
    · intro since hunavailable
      rcases unavailableSince_concat.mp hunavailable with ⟨-, hlasting⟩ | ⟨-, -, info', hc, -⟩
      · exact absurd heq hlasting
      · cases hc
    · intro w hw
      rw [hlookup] at hw
      cases hw
  · exact h.other (AList.lookup_erase_ne (Ne.symm heq)) (AList.lookup_erase_ne (Ne.symm heq))
      (if_neg heq) heq (fun info' hc => by cases hc)

/-- An update of another worker changes nothing of this one. -/
theorem lookup_updateScore_of_ne {id' : Int} (hne : id ≠ id') (m : WorkerManager)
    (info : WorkerInfo) (now : Int) :
    (m.updateScore id' info now).workers.lookup id = m.workers.lookup id ∧
      (m.updateScore id' info now).suspendedSince.lookup id = m.suspendedSince.lookup id := by
  unfold WorkerManager.updateScore
  split
  · exact ⟨rfl, rfl⟩
  · refine ⟨AList.lookup_insert_ne hne, ?_⟩
    dsimp only
    split
    · exact AList.lookup_insert_ne hne
    · split
      · exact AList.lookup_erase_ne hne
      · rfl

/-- An update of a registered worker. -/
theorem lookup_updateScore_self {old : WorkerInfo} (h : m.workers.lookup id = some old)
    (info : WorkerInfo) (now : Int) :
    (m.updateScore id info now).workers.lookup id = some info ∧
      (info.available = false → (m.updateScore id info now).suspendedSince.lookup id =
        if old.available then some now else m.suspendedSince.lookup id) := by
  unfold WorkerManager.updateScore
  rw [h]
  refine ⟨AList.lookup_insert _, fun hinfo => ?_⟩
  dsimp only
  rw [hinfo]
  cases old.available with
  | true => exact AList.lookup_insert _
  | false => rfl

theorem registered_updateScore (now id' : Int) (info : WorkerInfo) :
    Registered (history ++ [(now, .updateScore id' info)]) id ↔ Registered history id := by
  rw [registered_concat]
  rfl

/-- An update of a worker that is not registered is ignored. -/
theorem Tracked.ignored (h : Tracked m history id) (hnone : m.workers.lookup id = none)
    (info : WorkerInfo) (now : Int) :
    Tracked (m.updateScore id info now) (history ++ [(now, .updateScore id info)]) id := by
  have hsame : m.updateScore id info now = m := by
    unfold WorkerManager.updateScore
    rw [hnone]
  have hnot : ¬Registered history id := by
    rw [h.registered, hnone]
    exact fun ⟨w, hw⟩ => by cases hw
  rw [hsame]
  constructor
  · exact (registered_updateScore now id info).trans h.registered
  · intro since hunavailable
    rcases unavailableSince_concat.mp hunavailable with ⟨hsince, -⟩ | ⟨-, hreg, -⟩
    · exact h.unavailable since hsince
    · exact absurd hreg hnot
  · intro w hw
    rw [hnone] at hw
    cases hw

/-- An update of a registered worker begins a suspension, goes on with it, or ends it. -/
theorem Tracked.updated (h : Tracked m history id) (hclock : ∀ c ∈ history, c.1 ≤ now)
    {old : WorkerInfo} (hold : m.workers.lookup id = some old) (info : WorkerInfo) :
    Tracked (m.updateScore id info now) (history ++ [(now, .updateScore id info)]) id := by
  have hreg : Registered history id := h.registered.mpr ⟨old, hold⟩
  obtain ⟨hlookup, hsuspended⟩ := lookup_updateScore_self hold info now
  constructor
  · rw [registered_updateScore, hlookup]
    exact iff_of_true hreg ⟨info, rfl⟩
  · intro since hunavailable
    refine ⟨info, hlookup, ?_⟩
    rcases unavailableSince_concat.mp hunavailable with ⟨-, hlasting⟩ | ⟨-, -, info', hc, hinfo⟩
    · exact hlasting rfl
    · cases hc
      exact hinfo
  · intro w hw hfalse
    rw [hlookup] at hw
    obtain rfl := Option.some.inj hw
    rw [hsuspended hfalse]
    cases havailable : old.available with
    | true =>
        -- no earlier suspension lasts, so the one that begins here is the first
        refine ⟨now, rfl, unavailableSince_concat.mpr (.inr ⟨rfl, hreg, info, rfl, hfalse⟩),
          fun since hunavailable => ?_⟩
        rcases unavailableSince_concat.mp hunavailable with ⟨hsince, -⟩ | ⟨rfl, -⟩
        · obtain ⟨w, hw, hwfalse⟩ := h.unavailable since hsince
          rw [hold] at hw
          obtain rfl := Option.some.inj hw
          rw [havailable] at hwfalse
          cases hwfalse
        · exact le_rfl
    | false =>
        obtain ⟨first, hfirst, hsince, hleast⟩ := h.since old hold havailable
        refine ⟨first, hfirst, unavailableSince_concat.mpr (.inl ⟨hsince, fun _ => hfalse⟩),
          fun since hunavailable => ?_⟩
        rcases unavailableSince_concat.mp hunavailable with ⟨hsince', -⟩ | ⟨rfl, -⟩
        · exact hleast since hsince'
        · exact hsince.le hclock

theorem Tracked.updateScore (h : Tracked m history id) (hclock : ∀ c ∈ history, c.1 ≤ now)
    (id' : Int) (info : WorkerInfo) :
    Tracked (m.updateScore id' info now) (history ++ [(now, .updateScore id' info)]) id := by
  by_cases heq : id' = id
  · subst heq
    cases hold : m.workers.lookup id' with
    | none => exact h.ignored hold info now
    | some old => exact h.updated hclock hold info
  · obtain ⟨hworkers, hsuspended⟩ := lookup_updateScore_of_ne (Ne.symm heq) m info now
    refine h.other hworkers hsuspended rfl (fun h => absurd h heq) (fun info' hc => ?_)
    cases hc
    exact heq rfl

theorem tracked_run (hclock : history.Pairwise fun a b => a.1 ≤ b.1)
    (hregister : ∀ c ∈ history, ∀ info, c.2 = .registerWorker info → info.available = true)
    (id : Int) : Tracked (run {} history) history id := by
  induction history using List.reverseRecOn with
  | nil => exact tracked_empty id
  | append_singleton history c ih =>
      obtain ⟨hfront, -, hlast⟩ := List.pairwise_append.mp hclock
      have htracked := ih hfront fun c hc => hregister c (List.mem_append_left _ hc)
      have hcall := hregister c (List.mem_append_right _ (List.mem_singleton.mpr rfl))
      have hbefore : ∀ c' ∈ history, c'.1 ≤ c.1 :=
        fun c' hc' => hlast c' hc' c (List.mem_singleton.mpr rfl)
      rw [run_concat]
      obtain ⟨now, c⟩ := c
      cases c with
      | registerWorker info => exact htracked.registerWorker (hcall info rfl)
      | updateScore id' info => exact htracked.updateScore hbefore id' info
      | deregisterWorker id' => exact htracked.deregisterWorker id'

/-! ## The queries -/

theorem mem_decommissionableWorkers {thresholdMs : Int} :
    id ∈ m.decommissionableWorkers thresholdMs now ↔
      ∃ since, m.suspendedSince.lookup id = some since ∧
        m.LongSuspended thresholdMs now id since := by
  unfold decommissionableWorkers
  rw [List.mem_map]
  constructor
  · rintro ⟨⟨id', since⟩, hmem, rfl⟩
    obtain ⟨hentry, hlong⟩ := List.mem_filter.mp hmem
    exact ⟨since, AList.mem_lookup_iff.mpr hentry, of_decide_eq_true hlong⟩
  · rintro ⟨since, hlookup, hlong⟩
    exact ⟨⟨id, since⟩, List.mem_filter.mpr ⟨AList.mem_lookup_iff.mp hlookup,
      decide_eq_true hlong⟩, rfl⟩

theorem mem_decommissionableWorkersByTier {tier : WorkerTier} {thresholdMs : Int} :
    id ∈ m.decommissionableWorkersByTier tier thresholdMs now ↔
      id ∈ m.decommissionableWorkers thresholdMs now ∧
        ∃ w, m.workers.lookup id = some w ∧ w.tier = tier := by
  have htier : (m.workers.lookup id).any (·.tier = tier) = true ↔
      ∃ w, m.workers.lookup id = some w ∧ w.tier = tier := by
    rw [Option.any_eq_true]
    simp only [decide_eq_true_eq]
  rw [← htier, mem_decommissionableWorkers]
  unfold decommissionableWorkersByTier
  rw [List.mem_map]
  constructor
  · rintro ⟨⟨id', since⟩, hmem, rfl⟩
    obtain ⟨hentry, hboth⟩ := List.mem_filter.mp hmem
    obtain ⟨hlong, htier⟩ := of_decide_eq_true hboth
    exact ⟨⟨since, AList.mem_lookup_iff.mpr hentry, hlong⟩, htier⟩
  · rintro ⟨⟨since, hlookup, hlong⟩, htier⟩
    exact ⟨⟨id, since⟩, List.mem_filter.mpr ⟨AList.mem_lookup_iff.mp hlookup,
      decide_eq_true ⟨hlong, htier⟩⟩, rfl⟩

/-- No id is found twice. -/
theorem nodup_decommissionableWorkers (m : WorkerManager) (thresholdMs now : Int) :
    (m.decommissionableWorkers thresholdMs now).Nodup :=
  List.Nodup.sublist (List.filter_sublist.map _) m.suspendedSince.keys_nodup

/-- **Suspensions.** The decommissionable workers are those that are unavailable since more than
the threshold in whole milliseconds, each once; those of a tier are the ones with this tier. -/
theorem decommissionable_exact (hclock : history.Pairwise fun a b => a.1 ≤ b.1)
    (hregister : ∀ c ∈ history, ∀ info, c.2 = .registerWorker info → info.available = true)
    (thresholdMs now : Int) :
    (∀ id, id ∈ (run {} history).decommissionableWorkers thresholdMs now ↔
        ∃ since, UnavailableSince history id since ∧
          thresholdMs < (now - since).tdiv 1000000) ∧
      ((run {} history).decommissionableWorkers thresholdMs now).Nodup ∧
        ∀ tier id, id ∈ (run {} history).decommissionableWorkersByTier tier thresholdMs now ↔
          id ∈ (run {} history).decommissionableWorkers thresholdMs now ∧
            ∃ w, (run {} history).workers.lookup id = some w ∧ w.tier = tier := by
  refine ⟨fun id => ?_, nodup_decommissionableWorkers _ _ _,
    fun tier id => mem_decommissionableWorkersByTier⟩
  have htracked := tracked_run hclock hregister id
  rw [mem_decommissionableWorkers]
  constructor
  · rintro ⟨since, hlookup, ⟨w, hw, hfalse⟩, hlong⟩
    obtain ⟨first, hfirst, hsince, -⟩ := htracked.since w hw hfalse
    obtain rfl := Option.some.inj (hlookup.symm.trans hfirst)
    exact ⟨since, hsince, hlong⟩
  · rintro ⟨since, hsince, hlong⟩
    obtain ⟨w, hw, hfalse⟩ := htracked.unavailable since hsince
    obtain ⟨first, hfirst, -, hleast⟩ := htracked.since w hw hfalse
    refine ⟨first, hfirst, ⟨w, hw, hfalse⟩, hlong.trans_le ?_⟩
    exact Int.tdiv_le_tdiv (by decide) (Int.sub_le_sub_left (hleast since hsince) now)

/-- A worker is suspended, comes back by a registration, and is suspended again. -/
def suspendedTwice : List (Int × Call) :=
  [(0, .registerWorker { id := 7 }), (1000000, .updateScore 7 { id := 7, available := false }),
    (2000000, .registerWorker { id := 7 }),
    (3000000, .updateScore 7 { id := 7, available := false })]

theorem decommissionable_exact_twice :
    7 ∈ (run {} suspendedTwice).decommissionableWorkers 1 5000000 ∧
      7 ∉ (run {} suspendedTwice).decommissionableWorkers 3 5000000 := by
  have hclock : suspendedTwice.Pairwise fun a b => a.1 ≤ b.1 := by
    simp [suspendedTwice]
  have hregister : ∀ c ∈ suspendedTwice, ∀ info, c.2 = .registerWorker info →
      info.available = true := by
    simp [suspendedTwice]
  refine ⟨((decommissionable_exact hclock hregister 1 5000000).1 7).mpr ⟨3000000, ?_, by decide⟩,
    by decide⟩
  exact ⟨[(0, .registerWorker { id := 7 }),
    (1000000, .updateScore 7 { id := 7, available := false }),
    (2000000, .registerWorker { id := 7 })], { id := 7, available := false }, [], rfl, rfl, rfl,
    fun c hc => absurd hc List.not_mem_nil⟩

end WorkerManager
end Labios.Elastic
