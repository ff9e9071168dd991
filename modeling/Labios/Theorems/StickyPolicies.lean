import Labios.Client.ManagerCalls
import Labios.Foundation.Latest

/-!
# Does a read policy stick?

`set_read_policy` may come before the first write of a descriptor. Its cache has no path then,
and the first write, which looks for the path, takes the cache for a new one and sets the default
policy again. `policy_sticks_iff` says after which histories the policy in force is the one
that was set.
-/

namespace Labios

open Foundation

namespace ContentManager

/-! ## What is set, and what is in force -/

/-- The policy that a call sets for the descriptor; an eviction takes back what was set. -/
def decision (fd : Int) : Call → Option (Option ReadPolicy)
  | .setReadPolicy fd' policy => if fd' = fd then some (some policy) else none
  | .evict fd' => if fd' = fd then some none else none
  | _ => none

/-- The policy of the latest `set_read_policy` since the last `evict`, or the default. -/
def policySet (defaultReadPolicy : ReadPolicy) (history : List Call) (fd : Int) : ReadPolicy :=
  (latest (decision fd) history).join.getD defaultReadPolicy

/-- The policy that `cache_read` goes by. -/
def policyInForce (cm : ContentManager) (fd : Int) : ReadPolicy :=
  ((cm.caches.lookup fd).map (·.readPolicy)).getD cm.defaultReadPolicy

def pathOf (cm : ContentManager) (fd : Int) : String :=
  ((cm.caches.lookup fd).map (·.filepath)).getD ""

/-- Whether a call names the file of the descriptor, or drops the name. -/
def naming (fd : Int) : Call → Option Bool
  | .cacheWrite fd' filepath _ _ => if fd' = fd ∧ filepath ≠ "" then some true else none
  | .evict fd' => if fd' = fd then some false else none
  | _ => none

/-- Since the last `evict` there was a write with a path. -/
def Named (history : List Call) (fd : Int) : Prop := latest (naming fd) history = some true

instance (history : List Call) (fd : Int) : Decidable (Named history fd) :=
  inferInstanceAs (Decidable (latest (naming fd) history = some true))

/-- The condition under which the policy that is set is in force: it is the default, or there was
a write with a path before it, or none after it. -/
def PolicyKept (defaultReadPolicy : ReadPolicy) (history : List Call) (fd : Int) : Prop :=
  ∀ front policy back, history = front ++ .setReadPolicy fd policy :: back →
    (∀ c ∈ back, decision fd c = none) →
      policy = defaultReadPolicy ∨ Named front fd ∨
        ∀ filepath offset data, .cacheWrite fd filepath offset data ∉ back

/-! ## One call -/

variable {cm : ContentManager} {fd : Int} {c : Call}

theorem decision_setReadPolicy (fd : Int) (policy : ReadPolicy) :
    decision fd (.setReadPolicy fd policy) = some (some policy) := if_pos rfl

theorem policyInForce_of_lookup {cm' : ContentManager}
    (hdefault : cm'.defaultReadPolicy = cm.defaultReadPolicy)
    (h : (cm'.caches.lookup fd).map (·.readPolicy) = (cm.caches.lookup fd).map (·.readPolicy)) :
    cm'.policyInForce fd = cm.policyInForce fd := by
  unfold policyInForce
  rw [h, hdefault]

/-- A cache of a descriptor that is opened for a write. -/
theorem openCache_eq (cm : ContentManager) (fd : Int) (filepath : String) :
    (cm.openCache fd filepath).filepath = (if cm.pathOf fd = "" then filepath else cm.pathOf fd) ∧
      (cm.openCache fd filepath).readPolicy =
        if cm.pathOf fd = "" then cm.defaultReadPolicy else cm.policyInForce fd := by
  unfold openCache pathOf policyInForce
  cases cm.caches.lookup fd with
  | none => exact ⟨rfl, rfl⟩
  | some cache =>
      dsimp only [Option.getD_some, Option.map_some]
      split
      · exact ⟨rfl, rfl⟩
      · exact ⟨rfl, rfl⟩

/-- A write leaves the path and the policy of the cache that it opened. -/
theorem lookup_cacheWrite (cm : ContentManager) (fd : Int) (filepath : String) (offset : UInt64)
    (data : List UInt8) {γ : Type} {g : FdCache → γ}
    (hflush : ∀ cache, g (flushLocked cache).2 = g cache)
    (hassign : ∀ cache : FdCache, g (cache.assign offset data) = g cache) (fd' : Int) :
    ((cm.cacheWrite fd filepath offset data).2.caches.lookup fd').map g =
      if fd' = fd then some (g (cm.openCache fd filepath)) else (cm.caches.lookup fd').map g := by
  have hstage : ((cm.stage fd filepath offset data).caches.lookup fd').map g =
      if fd' = fd then some (g (cm.openCache fd filepath)) else (cm.caches.lookup fd').map g := by
    split
    · next heq => rw [heq, lookup_stage_self, Option.map_some, hassign]
    · next hne => rw [lookup_stage_of_ne hne]
  rw [cacheWrite_eq]
  split
  · rw [map_lookup_flush hflush]
    exact hstage
  · exact hstage

theorem defaultReadPolicy_call (cm : ContentManager) (c : Call) :
    (cm.call c).defaultReadPolicy = cm.defaultReadPolicy := by
  cases c with
  | setReadPolicy fd policy => rfl
  | cacheWrite fd filepath offset data =>
      show (cm.cacheWrite fd filepath offset data).2.defaultReadPolicy = _
      rw [cacheWrite_eq]
      split
      · exact flush_defaultReadPolicy _ _
      · rfl
  | cacheRead fd offset size => rfl
  | flush fd => exact flush_defaultReadPolicy cm fd
  | flushAll =>
      exact flushAll_kept (P := fun reached => reached.defaultReadPolicy = cm.defaultReadPolicy)
        (fun reached fd h => (flush_defaultReadPolicy reached fd).trans h) rfl
  | evict fd => rfl

theorem defaultReadPolicy_run (cm : ContentManager) (calls : List Call) :
    (cm.run calls).defaultReadPolicy = cm.defaultReadPolicy := by
  induction calls generalizing cm with
  | nil => rfl
  | cons c rest ih => exact (ih (cm.call c)).trans (defaultReadPolicy_call cm c)

/-- A write to the descriptor. -/
def writesTo (fd : Int) : Call → Bool
  | .cacheWrite fd' _ _ _ => fd' = fd
  | _ => false

theorem writesTo_iff :
    writesTo fd c = true ↔ ∃ filepath offset data, c = .cacheWrite fd filepath offset data := by
  constructor
  · intro h
    cases c with
    | cacheWrite fd' filepath offset data =>
        obtain rfl := of_decide_eq_true h
        exact ⟨filepath, offset, data, rfl⟩
    | setReadPolicy fd' policy => cases h
    | cacheRead fd' offset size => cases h
    | flush fd' => cases h
    | flushAll => cases h
    | evict fd' => cases h
  · rintro ⟨filepath, offset, data, rfl⟩
    exact decide_eq_true rfl

/-- What decides for a descriptor is `set_read_policy` or an eviction of it. -/
theorem decision_eq_some {policy : Option ReadPolicy} (h : decision fd c = some policy) :
    (∃ set, policy = some set ∧ c = .setReadPolicy fd set) ∨ policy = none ∧ c = .evict fd := by
  cases c with
  | setReadPolicy fd' set =>
      rw [decision] at h
      by_cases heq : fd' = fd
      · rw [if_pos heq] at h
        exact .inl ⟨set, (Option.some.inj h).symm, by rw [heq]⟩
      · rw [if_neg heq] at h
        cases h
  | evict fd' =>
      rw [decision] at h
      by_cases heq : fd' = fd
      · rw [if_pos heq] at h
        exact .inr ⟨(Option.some.inj h).symm, by rw [heq]⟩
      · rw [if_neg heq] at h
        cases h
  | cacheWrite fd' filepath offset data => cases h
  | cacheRead fd' offset size => cases h
  | flush fd' => cases h
  | flushAll => cases h

/-- What names a descriptor is a write with a path, and an eviction drops the name. -/
theorem naming_eq_some {named : Bool} (h : naming fd c = some named) :
    (named = true ∧ ∃ filepath offset data,
        filepath ≠ "" ∧ c = .cacheWrite fd filepath offset data) ∨
      named = false ∧ c = .evict fd := by
  cases c with
  | cacheWrite fd' filepath offset data =>
      rw [naming] at h
      by_cases hboth : fd' = fd ∧ filepath ≠ ""
      · rw [if_pos hboth] at h
        obtain ⟨rfl, hne⟩ := hboth
        exact .inl ⟨(Option.some.inj h).symm, filepath, offset, data, hne, rfl⟩
      · rw [if_neg hboth] at h
        cases h
  | evict fd' =>
      rw [naming] at h
      by_cases heq : fd' = fd
      · rw [if_pos heq] at h
        exact .inr ⟨(Option.some.inj h).symm, by rw [heq]⟩
      · rw [if_neg heq] at h
        cases h
  | setReadPolicy fd' policy => cases h
  | cacheRead fd' offset size => cases h
  | flush fd' => cases h
  | flushAll => cases h

/-- What flushes leave of a cache, every call leaves but for a write to it, an eviction and
`set_read_policy`. -/
theorem map_lookup_call {γ : Type} {g : FdCache → γ}
    (hflush : ∀ cache, g (flushLocked cache).2 = g cache) (hdecision : decision fd c = none)
    (hwrite : writesTo fd c = false) (cm : ContentManager) :
    ((cm.call c).caches.lookup fd).map g = (cm.caches.lookup fd).map g := by
  cases c with
  | setReadPolicy fd' policy =>
      have hne : fd ≠ fd' := by
        rintro rfl
        rw [decision_setReadPolicy] at hdecision
        cases hdecision
      exact congrArg _ (AList.lookup_insert_ne hne)
  | cacheWrite fd' filepath offset data =>
      have hne : fd ≠ fd' := Ne.symm (of_decide_eq_false hwrite)
      show ((cm.cacheWrite fd' filepath offset data).2.caches.lookup fd).map g = _
      rw [cacheWrite_eq]
      split
      · rw [map_lookup_flush hflush, lookup_stage_of_ne hne]
      · rw [lookup_stage_of_ne hne]
  | cacheRead fd' offset size => rfl
  | flush fd' => exact map_lookup_flush hflush cm fd' fd
  | flushAll => exact map_lookup_flushAll hflush cm fd
  | evict fd' =>
      have hne : fd ≠ fd' := by
        rintro rfl
        rw [decision, if_pos rfl] at hdecision
        cases hdecision
      exact congrArg _ (AList.lookup_erase_ne hne)

theorem policyInForce_call (hdecision : decision fd c = none) (hwrite : writesTo fd c = false)
    (cm : ContentManager) : (cm.call c).policyInForce fd = cm.policyInForce fd :=
  policyInForce_of_lookup (defaultReadPolicy_call cm c)
    (map_lookup_call (fun _ => rfl) hdecision hwrite cm)

theorem policyInForce_setReadPolicy (cm : ContentManager) (fd : Int) (policy : ReadPolicy) :
    (cm.setReadPolicy fd policy).policyInForce fd = policy := by
  unfold policyInForce setReadPolicy
  dsimp only
  rw [AList.lookup_insert]
  rfl

theorem policyInForce_evict (cm : ContentManager) (fd : Int) :
    (cm.evict fd).policyInForce fd = cm.defaultReadPolicy := by
  unfold policyInForce evict
  dsimp only
  rw [AList.lookup_erase]
  rfl

/-- The first write with a path sets the path and the default policy. -/
theorem cacheWrite_self (cm : ContentManager) (fd : Int) (filepath : String) (offset : UInt64)
    (data : List UInt8) :
    (cm.cacheWrite fd filepath offset data).2.pathOf fd =
        (if cm.pathOf fd = "" then filepath else cm.pathOf fd) ∧
      (cm.cacheWrite fd filepath offset data).2.policyInForce fd =
        if cm.pathOf fd = "" then cm.defaultReadPolicy else cm.policyInForce fd := by
  obtain ⟨hpath, hpolicy⟩ := openCache_eq cm fd filepath
  constructor
  · rw [pathOf, lookup_cacheWrite cm fd filepath offset data (fun _ => rfl) (fun _ => rfl),
      if_pos rfl]
    exact hpath
  · rw [policyInForce, lookup_cacheWrite cm fd filepath offset data (fun _ => rfl) (fun _ => rfl),
      if_pos rfl]
    exact hpolicy

theorem pathOf_setReadPolicy (cm : ContentManager) (fd : Int) (policy : ReadPolicy) :
    (cm.setReadPolicy fd policy).pathOf fd = cm.pathOf fd := by
  unfold pathOf setReadPolicy
  dsimp only
  rw [AList.lookup_insert]
  cases cm.caches.lookup fd with
  | none => rfl
  | some cache => rfl

theorem pathOf_evict (cm : ContentManager) (fd : Int) : (cm.evict fd).pathOf fd = "" := by
  unfold pathOf evict
  dsimp only
  rw [AList.lookup_erase]
  rfl

theorem pathOf_call (hnaming : naming fd c = none) (cm : ContentManager) :
    (cm.call c).pathOf fd = cm.pathOf fd := by
  by_cases hwrite : writesTo fd c = true
  · obtain ⟨filepath, offset, data, rfl⟩ := writesTo_iff.mp hwrite
    have hempty : filepath = "" := by
      by_contra hne
      rw [naming, if_pos ⟨rfl, hne⟩] at hnaming
      cases hnaming
    refine (cacheWrite_self cm fd filepath offset data).1.trans ?_
    split
    · next hpath => rw [hempty, hpath]
    · rfl
  · rw [Bool.not_eq_true] at hwrite
    cases hdecision : decision fd c with
    | none =>
        unfold pathOf
        rw [map_lookup_call (fun _ => rfl) hdecision hwrite]
    | some policy =>
        -- `set_read_policy` leaves the path; an eviction would be a naming
        rcases decision_eq_some hdecision with ⟨set, -, rfl⟩ | ⟨-, rfl⟩
        · exact pathOf_setReadPolicy cm fd set
        · rw [naming, if_pos rfl] at hnaming
          cases hnaming

/-! ## Whole histories -/

/-- A descriptor has a path after a history that named it. -/
theorem pathOf_run (minLabelSize : UInt64) (defaultReadPolicy : ReadPolicy) (history : List Call)
    (fd : Int) :
    ((start minLabelSize defaultReadPolicy).run history).pathOf fd ≠ "" ↔ Named history fd := by
  unfold Named
  induction history using List.reverseRecOn with
  | nil => exact iff_of_false (fun h => h rfl) (by simp)
  | append_singleton history c ih =>
      rw [run_append, latest_concat]
      show (((start minLabelSize defaultReadPolicy).run history).call c).pathOf fd ≠ "" ↔ _
      generalize (start minLabelSize defaultReadPolicy).run history = cm at ih ⊢
      cases hnaming : naming fd c with
      | none =>
          rw [pathOf_call hnaming, Option.none_or]
          exact ih
      | some named =>
          rw [Option.some_or]
          rcases naming_eq_some hnaming with ⟨rfl, filepath, offset, data, hne, rfl⟩ | ⟨rfl, rfl⟩
          · refine iff_of_true ?_ rfl
            show (cm.cacheWrite fd filepath offset data).2.pathOf fd ≠ ""
            rw [(cacheWrite_self cm fd filepath offset data).1]
            split
            · exact hne
            · next hpath => exact hpath
          · exact iff_of_false (fun h => h (pathOf_evict cm fd)) (fun h => by cases h)

/-- Without an eviction and `set_read_policy`, the policy in force lasts up to the first write to
a descriptor without a path. -/
theorem policyInForce_run {back : List Call} (hback : ∀ c ∈ back, decision fd c = none)
    (cm : ContentManager) :
    (cm.run back).policyInForce fd =
      if cm.pathOf fd = "" ∧ ∃ c ∈ back, writesTo fd c = true then cm.defaultReadPolicy
      else cm.policyInForce fd := by
  induction back generalizing cm with
  | nil => exact (if_neg fun ⟨_, _, hmem, _⟩ => absurd hmem List.not_mem_nil).symm
  | cons c rest ih =>
      obtain ⟨hdecision, hrest⟩ := List.forall_mem_cons.mp hback
      show ((cm.call c).run rest).policyInForce fd = _
      rw [ih hrest, defaultReadPolicy_call]
      simp only [List.exists_mem_cons_iff]
      by_cases hwrite : writesTo fd c = true
      · obtain ⟨filepath, offset, data, rfl⟩ := writesTo_iff.mp hwrite
        have hself :
            (cm.call (.cacheWrite fd filepath offset data)).pathOf fd =
                (if cm.pathOf fd = "" then filepath else cm.pathOf fd) ∧
              (cm.call (.cacheWrite fd filepath offset data)).policyInForce fd =
                if cm.pathOf fd = "" then cm.defaultReadPolicy else cm.policyInForce fd :=
          cacheWrite_self cm fd filepath offset data
        rw [hself.1, hself.2]
        by_cases hpath : cm.pathOf fd = ""
        · rw [if_pos hpath, if_pos hpath, ite_self, if_pos ⟨hpath, .inl hwrite⟩]
        · rw [if_neg hpath, if_neg hpath, if_neg fun h => hpath h.1, if_neg fun h => hpath h.1]
      · simp only [or_iff_right hwrite]
        rw [Bool.not_eq_true] at hwrite
        have hpath : (cm.call c).pathOf fd = cm.pathOf fd := by
          unfold pathOf
          rw [map_lookup_call (fun _ => rfl) hdecision hwrite]
        rw [hpath, policyInForce_call hdecision hwrite]

theorem exists_writesTo_iff {back : List Call} :
    (∃ c ∈ back, writesTo fd c = true) ↔
      ∃ filepath offset data, .cacheWrite fd filepath offset data ∈ back := by
  constructor
  · rintro ⟨c, hmem, hwrite⟩
    obtain ⟨filepath, offset, data, rfl⟩ := writesTo_iff.mp hwrite
    exact ⟨filepath, offset, data, hmem⟩
  · rintro ⟨filepath, offset, data, hmem⟩
    exact ⟨_, hmem, writesTo_iff.mpr ⟨filepath, offset, data, rfl⟩⟩

theorem policyInForce_of_default {back : List Call} (hback : ∀ c ∈ back, decision fd c = none)
    (h : cm.policyInForce fd = cm.defaultReadPolicy) :
    (cm.run back).policyInForce fd = cm.defaultReadPolicy := by
  rw [policyInForce_run hback, h, ite_self]

/-- After a history in which the policy was set last, it is in force unless a write came to a
descriptor without a path. -/
theorem policyInForce_after_set {front back : List Call} {policy : ReadPolicy}
    (hback : ∀ c ∈ back, decision fd c = none) (minLabelSize : UInt64)
    (defaultReadPolicy : ReadPolicy) :
    ((start minLabelSize defaultReadPolicy).run
        (front ++ .setReadPolicy fd policy :: back)).policyInForce fd =
      if ¬Named front fd ∧ ∃ c ∈ back, writesTo fd c = true then defaultReadPolicy else policy := by
  have hdefault := defaultReadPolicy_run (start minLabelSize defaultReadPolicy) front
  have hnamed := pathOf_run minLabelSize defaultReadPolicy front fd
  rw [run_append]
  generalize (start minLabelSize defaultReadPolicy).run front = cm at hdefault hnamed ⊢
  show ((cm.setReadPolicy fd policy).run back).policyInForce fd = _
  have hpath : (cm.setReadPolicy fd policy).pathOf fd = cm.pathOf fd :=
    pathOf_call (c := .setReadPolicy fd policy) rfl cm
  rw [policyInForce_run hback, policyInForce_setReadPolicy]
  by_cases hlost : ¬Named front fd ∧ ∃ c ∈ back, writesTo fd c = true
  · rw [if_pos hlost, if_pos ⟨hpath.trans (not_not.mp (mt hnamed.mp hlost.1)), hlost.2⟩]
    exact hdefault
  · rw [if_neg hlost, if_neg]
    rintro ⟨hempty, hwrite⟩
    exact hlost ⟨fun h => hnamed.mpr h (hpath.symm.trans hempty), hwrite⟩

/-- **Read policies.** After a history the policy in force is the one that was set last, or the
default, exactly if the policy was kept. -/
theorem policy_sticks_iff (minLabelSize : UInt64) (defaultReadPolicy : ReadPolicy)
    (history : List Call) (fd : Int) :
    ((start minLabelSize defaultReadPolicy).run history).policyInForce fd =
        policySet defaultReadPolicy history fd ↔
      PolicyKept defaultReadPolicy history fd := by
  unfold policySet
  cases hlatest : latest (decision fd) history with
  | none =>
      have hnone := latest_eq_none_iff.mp hlatest
      refine iff_of_true (policyInForce_of_default hnone rfl) ?_
      rintro front policy back rfl -
      have hset := hnone _ (List.mem_append_right front List.mem_cons_self)
      rw [decision_setReadPolicy] at hset
      cases hset
  | some last =>
      obtain ⟨front, c, back, rfl, hc, hback⟩ := latest_eq_some_iff.mp hlatest
      have hunique : ∀ front' policy back',
          front ++ c :: back = front' ++ .setReadPolicy fd policy :: back' →
            (∀ c ∈ back', decision fd c = none) →
              front = front' ∧ c = .setReadPolicy fd policy ∧ back = back' :=
        fun front' policy back' heq hback' =>
          latest_split_unique hc hback (decision_setReadPolicy fd policy) hback' heq
      rcases decision_eq_some hc with ⟨policy, rfl, rfl⟩ | ⟨rfl, rfl⟩
      · rw [policyInForce_after_set hback]
        have hkept : PolicyKept defaultReadPolicy (front ++ .setReadPolicy fd policy :: back) fd ↔
            policy = defaultReadPolicy ∨ Named front fd ∨
              ¬∃ c ∈ back, writesTo fd c = true := by
          rw [exists_writesTo_iff]
          push Not
          constructor
          · exact fun h => h front policy back rfl hback
          · intro h front' policy' back' heq hback'
            obtain ⟨rfl, hset, rfl⟩ := hunique front' policy' back' heq hback'
            cases hset
            exact h
        rw [hkept, Option.join_some, Option.getD_some]
        by_cases hlost : ¬Named front fd ∧ ∃ c ∈ back, writesTo fd c = true
        · rw [if_pos hlost]
          constructor
          · exact fun h => .inl h.symm
          · rintro (h | hnamed | hnone)
            · exact h.symm
            · exact absurd hnamed hlost.1
            · exact absurd hlost.2 hnone
        · rw [if_neg hlost]
          refine iff_of_true rfl (.inr ?_)
          by_cases hnamed : Named front fd
          · exact .inl hnamed
          · exact .inr fun hwrite => hlost ⟨hnamed, hwrite⟩
      · refine iff_of_true ?_ ?_
        · rw [run_append]
          refine (policyInForce_of_default hback (policyInForce_evict _ fd)).trans ?_
          exact defaultReadPolicy_run (start minLabelSize defaultReadPolicy) front
        · intro front' policy back' heq hback'
          obtain ⟨-, hset, -⟩ := hunique front' policy back' heq hback'
          cases hset

/-- The policy is set before the first write. -/
def writeOnlyFirst : List Call :=
  [.setReadPolicy 3 .writeOnly, .cacheWrite 3 "/f" 0 [1]]

/-- The write sets the default policy again, and the byte is read from the cache. -/
theorem writeOnlyFirst_lost :
    policySet .readThrough writeOnlyFirst 3 = .writeOnly ∧
      ((start 100 .readThrough).run writeOnlyFirst).policyInForce 3 = .readThrough ∧
      ((start 100 .readThrough).run writeOnlyFirst).cacheRead 3 0 1 = some [1] := by
  decide

end ContentManager
end Labios
