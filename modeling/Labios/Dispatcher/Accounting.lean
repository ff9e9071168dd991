import Labios.Dispatcher.Steps
import Labios.Shuffler.Supertasks
import Mathlib.Data.Multiset.Bind
import Mathlib.Tactic.Abel

/-!
# Where the labels of the batches are

Every label of a batch that was taken is in one of four places: in the hands of the
dispatcher, in the line of a worker, among the executed ones, or lost. `Accounted`
keeps the books over labels as they were taken, so that a merged write counts for
all its members; a label is told from those of other batches by the number of its
batch. `step_accounted` balances the books over one step of anybody.
-/

namespace Labios

open Foundation

/-! ## Names -/

/-- The labels of the first `n` batches. -/
def takenNames (intakes : Nat → Intake) (n : Nat) : List (Nat × UInt64) :=
  (List.range n).flatMap fun i => (intakes i).batch.map fun l => (i, l.id)

/-- The labels of its batch that the handling stands for. -/
def Handling.names (h : Handling) : List (Nat × UInt64) :=
  (originals h.label).map fun id => (h.turn, id)

def namesOf (handlings : Multiset Handling) : Multiset (Nat × UInt64) :=
  handlings.bind fun h => h.names

def DispatchOp.names : DispatchOp → List UInt64
  | .locate _ => []
  | .publish _ labels => labels.flatMap originals

/-- What the dispatcher holds of the batch it took last. -/
def Progress.atHand (p : Progress) : List UInt64 :=
  p.ops.flatMap DispatchOp.names ++
    (p.looking.flatMap originals ++ (p.direct.flatMap (fun r => originals r.1) ++
      (p.supertasks.flatMap (fun t => t.children.flatMap originals) ++
        p.independent.flatMap originals)))

theorem takenNames_succ (intakes : Nat → Intake) (n : Nat) :
    takenNames intakes (n + 1) =
      takenNames intakes n ++ (intakes n).batch.map fun l => (n, l.id) := by
  unfold takenNames
  rw [List.range_succ, List.flatMap_append, List.flatMap_singleton]

/-- With distinct ids in each batch, the names are distinct. -/
theorem takenNames_nodup {intakes : Nat → Intake} (h : ∀ n, DistinctIds (intakes n).batch)
    (n : Nat) : (takenNames intakes n).Nodup := by
  refine List.nodup_flatMap.mpr ⟨fun i _ => ?_, ?_⟩
  · have hmap : ((intakes i).batch.map fun l => (i, l.id)) =
        ((intakes i).batch.map (·.id)).map fun id => (i, id) := by
      rw [List.map_map]
      rfl
    rw [hmap]
    exact (h i).map fun a b hab => (Prod.mk.inj hab).2
  · refine List.nodup_range.imp fun hne x hx hx' => ?_
    obtain ⟨l, -, rfl⟩ := List.mem_map.mp hx
    obtain ⟨l', -, heq⟩ := List.mem_map.mp hx'
    exact hne (Prod.mk.inj heq).1.symm

theorem Progress.atHand_coe (p : Progress) : (p.atHand : Multiset UInt64) =
    (p.ops.flatMap DispatchOp.names : List UInt64) +
      ((p.looking.flatMap originals : List UInt64) +
        ((p.direct.flatMap (fun r => originals r.1) : List UInt64) +
          ((p.supertasks.flatMap (fun t => t.children.flatMap originals) : List UInt64) +
            (p.independent.flatMap originals : List UInt64)))) := by
  simp only [Multiset.coe_add, Progress.atHand]

@[simp] theorem namesOf_add (a b : Multiset Handling) :
    namesOf (a + b) = namesOf a + namesOf b := Multiset.add_bind ..

@[simp] theorem namesOf_cons (h : Handling) (a : Multiset Handling) :
    namesOf (h ::ₘ a) = (h.names : Multiset _) + namesOf a := Multiset.cons_bind ..

theorem namesOf_coe (handlings : List Handling) :
    namesOf (handlings : Multiset Handling) = (handlings.flatMap Handling.names : List _) :=
  Multiset.coe_bind ..

/-- The names of a message. -/
theorem namesOf_message (turn : Nat) (w : Int) (labels : List LabelData) :
    namesOf ((labels.map fun label => ({ turn, worker := w, label } : Handling)) : List Handling) =
      ((labels.flatMap originals).map fun id => (turn, id) : List _) := by
  rw [namesOf_coe, List.flatMap_map, List.map_flatMap]
  rfl

theorem originals_of_request {a b : LabelData} (h : request a = request b) :
    originals a = originals b := by
  have hfield := congrArg originals h
  exact hfield

/-! ## The books -/

/-- Composites are the shuffler's: supertasks have them, nothing else does. -/
structure Progress.Kinds (p : Progress) : Prop where
  looking : ∀ l ∈ p.looking, l.type ≠ .composite
  direct : ∀ r ∈ p.direct, r.1.type ≠ .composite
  supertasks : ∀ t ∈ p.supertasks, t.composite.type = .composite
  independent : ∀ l ∈ p.independent, l.type ≠ .composite

section Books

variable {ρ σ : Type} (intakes : Nat → Intake)

/-- What the dispatcher holds, with the number of its batch. -/
def LoopState.held (s : LoopState ρ σ) : List (Nat × UInt64) :=
  s.progress.atHand.map fun id => (s.progress.taken - 1, id)

structure Accounted (s : LoopState ρ σ) (lost : Multiset (Nat × UInt64)) : Prop where
  kinds : s.progress.Kinds
  balance : ∃ items, s.lines.Waits items ∧
    (takenNames intakes s.progress.taken : Multiset (Nat × UInt64)) =
      namesOf (s.lines.executed + items) + (s.held + lost)

variable {intakes} {s : LoopState ρ σ} {lost : Multiset (Nat × UInt64)}

/-- A move within the dispatcher: what it held it holds still, or it is gone. -/
theorem Accounted.move (h : Accounted intakes s lost) {s' : LoopState ρ σ} (gone : List UInt64)
    (hkinds : s'.progress.Kinds) (htaken : s'.progress.taken = s.progress.taken)
    (hlines : s'.lines = s.lines)
    (hhand : (s.progress.atHand : Multiset UInt64) = s'.progress.atHand + gone) :
    Accounted intakes s'
      ((gone.map fun id => (s.progress.taken - 1, id) : List (Nat × UInt64)) + lost) := by
  obtain ⟨items, hwaits, hbalance⟩ := h.balance
  refine ⟨hkinds, items, hlines ▸ hwaits, ?_⟩
  have hsplit := congrArg (Multiset.map fun id => (s.progress.taken - 1, id)) hhand
  rw [Multiset.map_add, Multiset.map_coe, Multiset.map_coe, Multiset.map_coe] at hsplit
  unfold LoopState.held at hbalance ⊢
  rw [htaken, hlines, hbalance, hsplit, add_assoc]

/-- The same, with nothing gone. -/
theorem Accounted.keep (h : Accounted intakes s lost) {s' : LoopState ρ σ}
    (hkinds : s'.progress.Kinds) (htaken : s'.progress.taken = s.progress.taken)
    (hlines : s'.lines = s.lines)
    (hhand : (s.progress.atHand : Multiset UInt64) = s'.progress.atHand) :
    Accounted intakes s' lost := by
  have hmove := h.move [] hkinds htaken hlines (by rw [hhand]; exact (add_zero _).symm)
  rwa [List.map_nil, Multiset.coe_nil, zero_add] at hmove

end Books

/-! ## Routing -/

section Routing

variable {ρ : Type} {d : Dispatcher ρ} (workers : List WorkerInfo)

/-- What the messages of a routing stand for, label by label. -/
def sentNames (before after : DispatchState ρ) : List (List (List UInt64)) :=
  (messagesOf before after).map fun m => (unpack after.supertasks m).map fun x => originals x.2

theorem opsBetween_names (before after : DispatchState ρ) (commands : List LocationCommand) :
    (opsBetween before after commands).flatMap DispatchOp.names =
      (sentNames before after).flatten.flatten := by
  unfold opsBetween sentNames
  have hlocate : (commands.map DispatchOp.locate).flatMap DispatchOp.names = [] := by
    rw [List.flatMap_map]
    exact List.flatMap_eq_nil_iff.mpr fun _ _ => rfl
  rw [List.flatMap_append, hlocate, List.nil_append, List.flatMap_map, List.flatten_flatten,
    List.map_map, ← List.flatMap_def]
  refine List.flatMap_congr fun m _ => ?_
  show ((unpack after.supertasks m).map (·.2)).flatMap originals = _
  rw [List.flatMap_map]
  rfl

theorem unpack_alone (packed : UInt64 → Option (List LabelData)) {m : Int × LabelData}
    (h : m.2.type ≠ .composite) : unpack packed m = [m] := if_neg h

theorem sentNames_direct (st : DispatchState ρ) {r : LabelData × Int}
    (hr : r.1.type ≠ .composite) :
    sentNames st (routeDirect d workers st (markLabelShuffled r.1 d.now, r.2)) =
      [[originals r.1]] := by
  have hrequest : request (mark d workers r.2 "read-locality" (markLabelShuffled r.1 d.now)) =
      request r.1 := (request_mark ..).trans (request_markLabelShuffled ..)
  have hsent : messagesOf st (routeDirect d workers st (markLabelShuffled r.1 d.now, r.2)) =
      [(r.2, mark d workers r.2 "read-locality" (markLabelShuffled r.1 d.now))] :=
    messagesOf_append rfl
  rw [sentNames, hsent, List.map_singleton, unpack_alone _ (by rwa [type_of_request hrequest]),
    List.map_singleton, originals_of_request hrequest]

/-- A supertask is sent whole, or not at all. -/
theorem sentNames_supertask (st : DispatchState ρ) {t : Supertask}
    (ht : t.composite.type = .composite) :
    sentNames st (routeSupertask d workers st (shuffledTask d.now t)) =
      if (d.selectWorker workers (shuffledTask d.now t).composite.intent st.solver).1.isSome then
        [t.children.map originals]
      else [] := by
  unfold routeSupertask
  rcases d.selectWorker workers (shuffledTask d.now t).composite.intent st.solver with
    ⟨_ | w, solver⟩
  · have hnone : messagesOf st { st with solver } = [] :=
      messagesOf_append (List.append_nil _).symm
    show (messagesOf st { st with solver }).map _ = _
    rw [hnone]
    rfl
  · dsimp only
    rw [sentNames, messagesOf_append rfl, List.map_singleton]
    have hcomposite : (mark d workers w d.policy (shuffledTask d.now t).composite).type =
        .composite :=
      (type_of_request ((request_mark ..).trans (request_markLabelShuffled ..))).trans ht
    show [(unpack (Function.update st.supertasks _ _) _).map _] = _
    unfold unpack
    rw [if_pos hcomposite, Function.update_self, Option.getD_some, Option.isSome_some,
      if_pos rfl, List.map_map]
    unfold shuffledTask
    dsimp only
    rw [List.map_map, List.map_map]
    refine congrArg (fun names => [names]) (List.map_congr_left fun l _ => ?_)
    exact originals_of_request ((request_mark ..).trans (request_markLabelShuffled ..))

/-- A label that goes alone is sent when a place is found for it. -/
theorem sentNames_independent (fanout : ReplyFanout) (st : DispatchState ρ) {l : LabelData}
    (hl : l.type ≠ .composite) :
    sentNames st (routeIndependent d workers fanout (st, []) (markLabelShuffled l d.now)).1 =
      if (placeIndependent d workers st (markLabelShuffled l d.now)).1.isSome then
        [[originals l]]
      else [] := by
  rw [sentNames, messagesOf_append (routeIndependent_alone d workers fanout (st, []) _).sent]
  rcases (placeIndependent d workers st (markLabelShuffled l d.now)).1 with _ | ⟨w, policy⟩
  · rfl
  · obtain ⟨-, -, -, -, -, inbox, hassemble⟩ :=
      assemble_placing d fanout st (markLabelShuffled l d.now)
    have hshuffled := request_markLabelShuffled l d.now
    have hmark := request_mark d workers w policy
      (assemble d fanout st (markLabelShuffled l d.now)).1
    have htype : (mark d workers w policy
        (assemble d fanout st (markLabelShuffled l d.now)).1).type = l.type := by
      rw [type_of_request hmark, hassemble]
      show (markLabelShuffled l d.now).type = l.type
      exact type_of_request hshuffled
    rw [Option.map_some, Option.toList_some, List.map_singleton, unpack_alone _ (by rwa [htype]),
      List.map_singleton, Option.isSome_some, if_pos rfl, originals_of_request hmark, hassemble]
    have hnames : originals (markLabelShuffled l d.now) = originals l :=
      originals_of_request hshuffled
    exact congrArg (fun names => [[names]]) hnames

theorem placeIndependent_isSome (hfind : SolverFinds d workers) (st : DispatchState ρ)
    (l : LabelData) : (placeIndependent d workers st l).1.isSome := by
  unfold placeIndependent
  cases (writeLocation st.locations l).filter (fun w => 0 < w) with
  | some w => rfl
  | none =>
      obtain ⟨w, solver, hselect⟩ := hfind l.intent st.solver
      simp [hselect]

end Routing

/-! ## The dispatcher -/

section Dispatcher

variable {ρ σ : Type} {S : StdSort} {d : Dispatcher ρ} {intakes : Nat → Intake}
  {s : LoopState ρ σ} {lost : Multiset (Nat × UInt64)}

/-- A read that is looked up changes hands within the dispatcher. -/
theorem Accounted.look (h : Accounted intakes s lost) {l : LabelData} {rest : List LabelData}
    (hlooking : s.progress.looking = l :: rest) (locations : LocationCatalog) :
    Accounted intakes { s with progress := s.progress.lookUp locations l rest } lost := by
  have hl : l.type ≠ .composite := h.kinds.looking l (by rw [hlooking]; exact List.mem_cons_self)
  have hrest : ∀ x ∈ rest, x.type ≠ .composite := fun x hx =>
    h.kinds.looking x (by rw [hlooking]; exact List.mem_cons_of_mem _ hx)
  have halone : ∀ x ∈ s.progress.independent ++ [l], x.type ≠ .composite := by
    intro x hx
    rcases List.mem_append.mp hx with hx | hx
    · exact h.kinds.independent x hx
    · exact List.mem_singleton.mp hx ▸ hl
  have hold := s.progress.atHand_coe
  rw [hlooking, List.flatMap_cons, ← Multiset.coe_add] at hold
  have hindependent : Accounted intakes
      { s with progress := { s.progress with
        looking := rest, missed := false, independent := s.progress.independent ++ [l] } } lost := by
    refine h.keep ⟨hrest, h.kinds.direct, h.kinds.supertasks, halone⟩ rfl rfl ?_
    rw [hold, Progress.atHand_coe]
    dsimp only
    rw [List.flatMap_append, List.flatMap_singleton, ← Multiset.coe_add]
    abel
  unfold Progress.lookUp
  split
  · dsimp only
    split
    · next w _ =>
        refine h.keep ⟨hrest, fun r hr => ?_, h.kinds.supertasks, h.kinds.independent⟩ rfl rfl ?_
        · rcases List.mem_append.mp hr with hr | hr
          · exact h.kinds.direct r hr
          · rw [List.mem_singleton.mp hr]
            exact hl
        · rw [hold, Progress.atHand_coe]
          dsimp only
          rw [List.flatMap_append, List.flatMap_singleton, ← Multiset.coe_add]
          abel
    · split
      · exact hindependent
      · exact h.keep ⟨h.kinds.looking, h.kinds.direct, h.kinds.supertasks, h.kinds.independent⟩
          rfl rfl rfl
  · refine h.keep ⟨hrest, h.kinds.direct, h.kinds.supertasks, halone⟩ rfl rfl ?_
    rw [hold, Progress.atHand_coe]
    dsimp only
    rw [List.flatMap_append, List.flatMap_singleton, ← Multiset.coe_add]
    abel

/-- One item is routed: `names` of it, all of them or none. -/
theorem Accounted.routed (h : Accounted intakes s lost) {p : Progress} {after : DispatchState ρ}
    {commands : List LocationCommand} (hkinds : p.Kinds) (htaken : p.taken = s.progress.taken)
    (sent : Bool) (names : List (List UInt64))
    (hnames : sentNames s.dispatch after = if sent then [names] else [])
    (hhand : (s.progress.atHand : Multiset UInt64) =
      (names.flatten : Multiset UInt64) + ({ p with ops := [] } : Progress).atHand) :
    Accounted intakes (s.routed p after commands)
      (((if sent then [] else names.flatten).map fun id =>
        (s.progress.taken - 1, id) : List (Nat × UInt64)) + lost) := by
  refine h.move _ ⟨hkinds.looking, hkinds.direct, hkinds.supertasks, hkinds.independent⟩
    htaken rfl ?_
  rw [hhand, Progress.atHand_coe, Progress.atHand_coe]
  dsimp only [LoopState.routed]
  rw [opsBetween_names, hnames, List.flatMap_nil]
  cases sent with
  | true =>
      simp only [if_true, List.flatten_singleton, Multiset.coe_nil]
      abel
  | false =>
      simp only [Bool.false_eq_true, if_false, List.flatten_nil, Multiset.coe_nil]
      abel

theorem Accounted.publish (h : Accounted intakes s lost) {w : Int} {labels : List LabelData}
    {rest : List DispatchOp} (hops : s.progress.ops = .publish w labels :: rest) :
    Accounted intakes (s.performed rest (.publish w labels)) lost := by
  obtain ⟨items, hwaits, hbalance⟩ := h.balance
  refine ⟨⟨h.kinds.looking, h.kinds.direct, h.kinds.supertasks, h.kinds.independent⟩, _,
    hwaits.push w _, ?_⟩
  have hhand : (s.progress.atHand : Multiset UInt64) =
      (labels.flatMap originals : List UInt64) +
        ({ s.progress with ops := rest } : Progress).atHand := by
    rw [Progress.atHand_coe, Progress.atHand_coe, hops, List.flatMap_cons, ← Multiset.coe_add]
    exact add_assoc ..
  have hsplit := congrArg (Multiset.map fun id => (s.progress.taken - 1, id)) hhand
  rw [Multiset.map_add, Multiset.map_coe, Multiset.map_coe, Multiset.map_coe] at hsplit
  unfold LoopState.held at hbalance
  show (takenNames intakes s.progress.taken : Multiset (Nat × UInt64)) = _
  rw [hbalance, hsplit]
  show _ = namesOf (s.lines.executed + (items + _)) + _
  rw [namesOf_add, namesOf_add, namesOf_add, namesOf_message]
  show _ = _ + ((({ s.progress with ops := rest } : Progress).atHand.map
    fun id => (s.progress.taken - 1, id) : List (Nat × UInt64)) + lost)
  abel

/-! ### The next batch -/

/-- What the loop takes comes from clients. -/
structure Submitted (intake : Intake) : Prop where
  ids : DistinctIds intake.batch
  plain : ∀ l ∈ intake.batch, l.children = []
  kind : ∀ l ∈ intake.batch, l.type ≠ .composite

theorem aggregated_not_composite {config : ShufflerConfig} {batch : List LabelData}
    (h : ∀ l ∈ batch, l.type ≠ .composite) {l : LabelData}
    (hl : l ∈ aggregated S config batch) : l.type ≠ .composite := by
  obtain ⟨c, hc, rfl⟩ := mem_aggregated.mp hl
  rcases cluster_cases hc with ⟨w, rfl, hw⟩ | ⟨_, hrun⟩
  · exact h w hw
  · rw [represent_type c hrun.write]
    decide

theorem shuffle_none_direct (config : ShufflerConfig) (batch : List LabelData)
    (h : DistinctIds batch) : (shuffle S config batch none).directRoute = [] := by
  refine List.eq_nil_iff_forall_not_mem.mpr fun r hr => ?_
  have hlocation := ((mem_directRoute h).mp hr).2.2
  unfold readLocation at hlocation
  split at hlocation
  · next heq => exact absurd heq (by simp)
  · exact absurd hlocation (by simp)

/-- The supertasks and the rest of a shuffle stand for the batch. -/
theorem shuffle_names (config : ShufflerConfig) {batch : List LabelData}
    (hids : DistinctIds batch) (hplain : ∀ l ∈ batch, l.children = []) :
    (((shuffle S config batch none).supertasks.flatMap fun t => t.children.flatMap originals) ++
      (shuffle S config batch none).independent.flatMap originals).Perm (batch.map (·.id)) := by
  have hcore : ∀ ls : List LabelData, ls.flatMap originals = (ls.map core).flatMap originals := by
    intro ls
    rw [List.flatMap_map]
    rfl
  have hunits : ((shuffle S config batch none).units.flatten.map core).Perm
      ((aggregated S config batch).map core) := units_perm hids
  replace hunits := hunits.flatMap_right originals
  rw [← hcore, ← hcore] at hunits
  have hflat : (shuffle S config batch none).units.flatten.flatMap originals =
      ((shuffle S config batch none).supertasks.flatMap fun t => t.children.flatMap originals) ++
        (shuffle S config batch none).independent.flatMap originals := by
    unfold ShuffleResult.units
    rw [shuffle_none_direct config batch hids, List.map_nil, List.nil_append,
      List.flatten_append, List.flatMap_append, ← List.flatMap_def, ← List.flatMap_def,
      List.flatMap_singleton', List.flatMap_assoc]
  rw [← hflat]
  exact hunits.trans (originals_aggregate_perm hplain)

/-- A batch comes in whole, unless nobody is there to serve it. -/
theorem Accounted.take (h : Accounted intakes s lost) {intake : Intake}
    (hintake : intakes s.progress.taken = intake) (hsubmitted : Submitted intake)
    (hops : s.progress.ops = []) (hdirect : s.progress.direct = [])
    (hempty : s.progress.atHand = []) :
    Accounted intakes { s with progress := s.progress.take S d intake }
      (((if intake.cached.isEmpty then intake.batch else []).map fun l =>
        (s.progress.taken, l.id) : List (Nat × UInt64)) + lost) := by
  obtain ⟨items, hwaits, hbalance⟩ := h.balance
  unfold Progress.take
  by_cases hcached : intake.cached.isEmpty
  · rw [if_pos hcached, if_pos hcached]
    refine ⟨⟨h.kinds.looking, h.kinds.direct, h.kinds.supertasks, h.kinds.independent⟩, items,
      hwaits, ?_⟩
    have hhand : ({ s.progress with taken := s.progress.taken + 1 } : Progress).atHand = [] :=
      hempty
    unfold LoopState.held at hbalance ⊢
    dsimp only
    rw [takenNames_succ, ← Multiset.coe_add, hbalance, hempty, hhand, hintake]
    simp only [List.map_nil, Multiset.coe_nil]
    abel
  · rw [if_neg hcached, if_neg hcached]
    have hnames := Multiset.coe_eq_coe.mpr (shuffle_names (S := S) d.config hsubmitted.ids
      hsubmitted.plain)
    have hmem : ∀ l ∈ (shuffle S d.config intake.batch none).independent, l.type ≠ .composite :=
      fun l hl => aggregated_not_composite hsubmitted.kind
        ((mem_independent hsubmitted.ids).mp hl).1
    refine ⟨⟨hmem, ?_, fun t ht => ?_, h.kinds.independent⟩, items, hwaits, ?_⟩
    · exact h.kinds.direct
    · obtain ⟨key, first, rest, _, rfl⟩ := (mem_supertasks hsubmitted.ids).mp
        (show t ∈ (shuffle S d.config intake.batch none).supertasks from ht)
      rfl
    · have hindependent : s.progress.independent.flatMap originals = [] := by
        unfold Progress.atHand at hempty
        simp only [List.append_eq_nil_iff] at hempty
        exact hempty.2.2.2.2
      have hhand : (({ s.progress with
          taken := s.progress.taken + 1
          looking := (shuffle S d.config intake.batch none).independent
          supertasks := (shuffle S d.config intake.batch none).supertasks
          fanout := (shuffle S d.config intake.batch none).replyFanout
          workers := usableWorkers intake.cached intake.refreshed } : Progress).atHand :
            Multiset UInt64) = (intake.batch.map (·.id) : List UInt64) := by
        rw [← hnames, Progress.atHand_coe, ← Multiset.coe_add]
        dsimp only
        rw [hops, hdirect, hindependent]
        simp only [List.flatMap_nil, Multiset.coe_nil]
        abel
      have hsplit := congrArg (Multiset.map fun id => (s.progress.taken, id)) hhand
      rw [Multiset.map_coe, Multiset.map_coe, List.map_map] at hsplit
      unfold LoopState.held at hbalance ⊢
      dsimp only
      rw [takenNames_succ, ← Multiset.coe_add, hbalance, hempty, hintake, Nat.add_sub_cancel,
        hsplit]
      simp only [List.map_nil, Multiset.coe_nil, Function.comp_def]
      abel

/-- A worker is found for whatever is still to be routed. -/
def Manned (d : Dispatcher ρ) (p : Progress) : Prop :=
  p.looking ≠ [] ∨ p.supertasks ≠ [] ∨ p.independent ≠ [] → SolverFinds d p.workers

/-- Every batch meets registered workers, and the solver finds one of them. -/
structure Serving (d : Dispatcher ρ) (intake : Intake) : Prop where
  registered : intake.cached ≠ []
  finds : SolverFinds d (usableWorkers intake.cached intake.refreshed)

/-- The books over one step of the dispatcher. -/
theorem dispatcherStep_accounted (hsubmitted : ∀ n, Submitted (intakes n))
    (h : Accounted intakes s lost) :
    ∃ gone : Multiset (Nat × UInt64), Accounted intakes (dispatcherStep S d intakes s) (gone + lost) ∧
      (Serving d (intakes s.progress.taken) → Manned d s.progress → gone = 0) := by
  have hmove := dispatcherStep_moves S d intakes s
  generalize dispatcherStep S d intakes s = s' at hmove ⊢
  cases hmove with
  | locate hops =>
      refine ⟨0, ?_, fun _ _ => rfl⟩
      rw [zero_add]
      refine h.keep ⟨h.kinds.looking, h.kinds.direct, h.kinds.supertasks, h.kinds.independent⟩
        rfl rfl ?_
      rw [Progress.atHand_coe, Progress.atHand_coe, hops]
      rfl
  | publish hops =>
      refine ⟨0, ?_, fun _ _ => rfl⟩
      rw [zero_add]
      exact h.publish hops
  | look hops hlooking =>
      refine ⟨0, ?_, fun _ _ => rfl⟩
      rw [zero_add]
      exact h.look hlooking _
  | @direct r rest hops hlooking hdirect =>
      have hr := h.kinds.direct r (by rw [hdirect]; exact List.mem_cons_self)
      have hkinds : Progress.Kinds { s.progress with direct := rest } :=
        ⟨h.kinds.looking, fun x hx => h.kinds.direct x (hdirect ▸ List.mem_cons_of_mem _ hx),
          h.kinds.supertasks, h.kinds.independent⟩
      refine ⟨_, h.routed hkinds rfl true [originals r.1] (sentNames_direct _ _ hr) ?_,
        fun _ _ => rfl⟩
      rw [Progress.atHand_coe, Progress.atHand_coe, hops, hdirect, List.flatMap_cons,
        ← Multiset.coe_add]
      simp only [List.flatMap_nil, List.flatten_singleton, Multiset.coe_nil]
      abel
  | @supertask t rest hops hlooking htasks =>
      have ht := h.kinds.supertasks t (by rw [htasks]; exact List.mem_cons_self)
      have hkinds : Progress.Kinds { s.progress with supertasks := rest } :=
        ⟨h.kinds.looking, h.kinds.direct,
          fun x hx => h.kinds.supertasks x (htasks ▸ List.mem_cons_of_mem _ hx),
          h.kinds.independent⟩
      refine ⟨_, h.routed hkinds rfl _ _ (sentNames_supertask _ _ ht) ?_, fun _ hmanned => ?_⟩
      · rw [Progress.atHand_coe, Progress.atHand_coe, hops, htasks, List.flatMap_cons,
          ← Multiset.coe_add]
        simp only [List.flatMap_nil, ← List.flatMap_def, Multiset.coe_nil]
        abel
      · obtain ⟨w, solver, hselect⟩ := hmanned (.inr (.inl (by simp [htasks])))
          (shuffledTask d.now t).composite.intent s.dispatch.solver
        rw [hselect]
        rfl
  | @independent l rest hops hlooking hindependent =>
      have hl := h.kinds.independent l (by rw [hindependent]; exact List.mem_cons_self)
      have hkinds : Progress.Kinds { s.progress with independent := rest } :=
        ⟨h.kinds.looking, h.kinds.direct, h.kinds.supertasks,
          fun x hx => h.kinds.independent x (hindependent ▸ List.mem_cons_of_mem _ hx)⟩
      refine ⟨_, h.routed hkinds rfl _ [originals l] (sentNames_independent _ _ _ hl) ?_,
        fun _ hmanned => ?_⟩
      · rw [Progress.atHand_coe, Progress.atHand_coe, hops, hindependent, List.flatMap_cons,
          ← Multiset.coe_add]
        simp only [List.flatMap_nil, List.flatten_singleton, Multiset.coe_nil]
        abel
      · rw [placeIndependent_isSome _ (hmanned (.inr (.inr (by simp [hindependent]))))]
        rfl
  | take hops hlooking hdirect htasks hindependent =>
      have hempty : s.progress.atHand = [] := by
        unfold Progress.atHand
        rw [hops, hlooking, hdirect, htasks, hindependent]
        rfl
      refine ⟨_, h.take rfl (hsubmitted _) hops hdirect hempty, fun hserving _ => ?_⟩
      rw [if_neg (by simpa using hserving.registered)]
      rfl

/-- Whoever is found stays found until the batch is out. -/
theorem Manned.dispatcherStep (hserving : Serving d (intakes s.progress.taken))
    (h : Manned d s.progress) : Manned d (dispatcherStep S d intakes s).progress := by
  have hmove := dispatcherStep_moves S d intakes s
  generalize Labios.dispatcherStep S d intakes s = s' at hmove ⊢
  cases hmove with
  | locate _ => exact h
  | publish _ => exact h
  | look _ hlooking =>
      intro _
      have hfinds := h (.inl (by simp [hlooking]))
      unfold Progress.lookUp
      split
      · dsimp only
        split
        · exact hfinds
        · split
          · exact hfinds
          · exact hfinds
      · exact hfinds
  | direct _ _ _ => exact h
  | @supertask t rest _ _ htasks =>
      exact fun _ => h (.inr (.inl (by simp [htasks])))
  | @independent l rest _ _ hindependent =>
      exact fun _ => h (.inr (.inr (by simp [hindependent])))
  | take _ _ _ _ _ =>
      intro _
      show SolverFinds d (Progress.take _ _ _ _).workers
      unfold Progress.take
      rw [if_neg (by simpa using hserving.registered)]
      exact hserving.finds

end Dispatcher

/-! ## The workers -/

section Worker

variable {ρ σ : Type} {intakes : Nat → Intake} {execute : Int → LabelData → σ → Option UInt64 × σ}
  {s s' : LoopState ρ σ} {lost : Multiset (Nat × UInt64)}

/-- The books over one step of a worker. -/
theorem workerStep_accounted {w : Int} (hstep : workerStep execute w s = some s')
    (h : Accounted intakes s lost) :
    ∃ gone : Multiset (Nat × UInt64), Accounted intakes s' (gone + lost) ∧
      ((∀ w l st, ((execute w l st).1).isSome) → gone = 0) := by
  obtain ⟨items, hwaits, hbalance⟩ := h.balance
  cases workerStep_moves hstep with
  | record _ =>
      refine ⟨0, ?_, fun _ => rfl⟩
      rw [zero_add]
      exact h.keep h.kinds rfl rfl rfl
  | finish hwaiting =>
      refine ⟨0, ⟨h.kinds, items, hwaits.finish hwaiting, ?_⟩, fun _ => rfl⟩
      rw [zero_add]
      exact hbalance
  | @run x rest messages size storage _ hwaiting _ =>
      obtain ⟨left, rfl, hleft⟩ := hwaits.run x [] (rest :: messages) (by
        unfold Lines.line
        rw [hwaiting]
        rfl)
      refine ⟨0, ⟨h.kinds, left, hleft, ?_⟩, fun _ => rfl⟩
      rw [Multiset.coe_nil, zero_add] at hbalance
      rw [zero_add]
      refine hbalance.trans ?_
      show _ = namesOf ((s.lines.executed ++ [x] : List Handling) + left) + _
      rw [← Multiset.coe_add, ← Multiset.singleton_add, namesOf_add, namesOf_add, namesOf_add,
        namesOf_add, Multiset.coe_singleton]
      show _ = _ + ((s.held : Multiset (Nat × UInt64)) + lost)
      abel
  | @abandon x rest messages storage _ hwaiting hexec =>
      obtain ⟨left, rfl, hleft⟩ := hwaits.run x rest messages (by
        unfold Lines.line
        rw [hwaiting]
        rfl)
      refine ⟨namesOf rest, ⟨h.kinds, left, hleft, ?_⟩, fun hok => ?_⟩
      · refine hbalance.trans ?_
        show _ = namesOf ((s.lines.executed ++ [x] : List Handling) + left) + _
        rw [← Multiset.coe_add, ← Multiset.singleton_add, namesOf_add, namesOf_add, namesOf_add,
          namesOf_add, namesOf_add, Multiset.coe_singleton]
        show _ = _ + ((s.held : Multiset (Nat × UInt64)) + (namesOf rest + lost))
        abel
      · have hsome := hok w x.label s.storage
        rw [hexec] at hsome
        exact absurd hsome (by simp)

end Worker

end Labios
