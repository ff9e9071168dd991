import Labios.Foundation.Entries
import Labios.Foundation.Machine
import Mathlib.Data.List.AList

/-!
# Containers

`DockerClient` of `labios/elastic/docker_client.cpp`, and how the orchestrator records the
containers that it creates. What `http_request` returns or throws is given with every
request, and so is whether Docker carried the request out: a connection may be lost before
or after that. The request bodies are left out.
-/

namespace Labios.Elastic

open Foundation

structure HttpResponse where
  statusCode : Int := 0
  body : List Char := []
  deriving DecidableEq

/-- What `http_request` returns, or the text that it throws. -/
abbrev HttpResult := Except String HttpResponse

/-- What stands behind the first occurrence of a text. -/
def behindFirst (pattern : List Char) : List Char → Option (List Char)
  | [] => if pattern = [] then some [] else none
  | c :: cs =>
      if pattern.isPrefixOf (c :: cs) then some ((c :: cs).drop pattern.length)
      else behindFirst pattern cs

/-- The container id in the answer to a create request: up to the next quotation mark, or to
the end. -/
def containerIdOf (body : List Char) : Option String :=
  (behindFirst "\"Id\":\"".toList body).map fun rest => String.ofList (rest.takeWhile (· ≠ '"'))

def createAndStart (create start : HttpResult) : Except String String :=
  match create with
  | .error text => .error text
  | .ok resp =>
      if resp.statusCode ≠ 201 then
        .error ("Docker create failed (" ++ toString resp.statusCode ++ "): " ++
          String.ofList resp.body)
      else
        match containerIdOf resp.body with
        | none => .error "No container ID in Docker response"
        | some containerId =>
            match start with
            | .error text => .error text
            | .ok startResp =>
                if startResp.statusCode ≠ 204 ∧ startResp.statusCode ≠ 304 then
                  .error ("Docker start failed (" ++ toString startResp.statusCode ++ "): " ++
                    String.ofList startResp.body)
                else .ok containerId

/-- The answers of a container that was created under this id and runs. -/
def Started (create start : HttpResult) (containerId : String) : Prop :=
  (∃ resp, create = .ok resp ∧ resp.statusCode = 201 ∧
      containerIdOf resp.body = some containerId) ∧
    ∃ resp, start = .ok resp ∧ (resp.statusCode = 204 ∨ resp.statusCode = 304)

theorem createAndStart_eq_ok {create start : HttpResult} {containerId : String} :
    createAndStart create start = .ok containerId ↔ Started create start containerId := by
  unfold createAndStart Started
  cases create with
  | error text => exact iff_of_false nofun fun ⟨⟨_, h, _⟩, _⟩ => nomatch h
  | ok resp =>
      simp only [Except.ok.injEq, exists_eq_left']
      by_cases hstatus : resp.statusCode = 201
      · rw [if_neg (not_not_intro hstatus)]
        cases hid : containerIdOf resp.body with
        | none => exact iff_of_false nofun fun ⟨⟨_, h⟩, _⟩ => nomatch h
        | some id =>
            cases start with
            | error text => exact iff_of_false nofun fun ⟨_, _, h, _⟩ => nomatch h
            | ok startResp =>
                simp only [Except.ok.injEq, exists_eq_left', Option.some.injEq, hstatus, true_and]
                by_cases hstart : startResp.statusCode ≠ 204 ∧ startResp.statusCode ≠ 304
                · rw [if_pos hstart]
                  exact iff_of_false nofun fun h => h.2.elim hstart.1 hstart.2
                · rw [if_neg hstart, Except.ok.injEq]
                  exact (and_iff_left (by omega)).symm
      · rw [if_pos hstatus]
        exact iff_of_false nofun fun h => hstatus h.1.1

/-! ## Commissioning and decommissioning -/

/-- A container at Docker, and the worker it was created for. -/
structure Container where
  id : String
  worker : Int
  deriving DecidableEq

structure Containers where
  existing : List Container := []
  commissioned : AList fun _ : Int => String := ∅
  nextElasticId : Int := 100

inductive ContainerEvent
  /-- `created` is the id of the container that Docker makes, if it makes one. -/
  | commissions (created : Option String) (create start : HttpResult)
  /-- `removed`: Docker carries the delete out. What it answers is not looked at. -/
  | decommissions (worker : Int) (removed : Bool)

namespace Containers

def commissionWorker (s : Containers) (created : Option String) (create start : HttpResult) :
    Containers :=
  let wid := s.nextElasticId
  { existing := s.existing ++ (created.map fun id => { id, worker := wid }).toList
    nextElasticId := wid + 1
    commissioned :=
      match createAndStart create start with
      | .ok containerId => s.commissioned.insert wid containerId
      | .error _ => s.commissioned }

def decommissionWorker (s : Containers) (worker : Int) (removed : Bool) : Containers :=
  match s.commissioned.lookup worker with
  | none => s
  | some containerId =>
      { s with
        commissioned := s.commissioned.erase worker
        existing :=
          if removed then s.existing.filter fun c => c.id ≠ containerId else s.existing }

/-- Docker gives a new container an id that no other one has. -/
def step (s : Containers) : ContainerEvent → Option Containers
  | .commissions created create start =>
      if ∀ id ∈ created, ∀ c ∈ s.existing, c.id ≠ id then
        some (s.commissionWorker created create start)
      else none
  | .decommissions worker removed => some (s.decommissionWorker worker removed)

end Containers
end Labios.Elastic

/-!
## Orphan containers

Is every container that the orchestrator has created recorded under its worker, so that it
can be removed? A container whose start is refused, or whose creation is answered in any
other way than with 201 and its id, exists and is not recorded (`refusedStart_orphan`), and a
decommission forgets a container before it is known to be removed. `recorded_iff`: these are
all the cases.
-/

namespace Labios.Elastic

open Foundation

namespace Containers

variable {s s' : Containers} {created : Option String} {create start : HttpResult} {worker : Int}
  {removed : Bool} {e : ContainerEvent}

/-- Every container is recorded under its worker. -/
def Recorded (s : Containers) : Prop :=
  ∀ c ∈ s.existing, s.commissioned.lookup c.worker = some c.id

/-- The ids of new workers were not used before. -/
structure Numbered (s : Containers) : Prop where
  existing : ∀ c ∈ s.existing, c.worker < s.nextElasticId
  commissioned : ∀ worker ∈ s.commissioned, worker < s.nextElasticId

/-- After the operation every container is recorded. -/
def LeavesRecorded (s : Containers) (e : ContainerEvent) : Prop := ∀ s' ∈ s.step e, s'.Recorded

/-- A container that Docker makes is answered with 201 and its id, and started; and a recorded
container that is still there is deleted. -/
def Answered (s : Containers) : ContainerEvent → Prop
  | .commissions created create start => ∀ id ∈ created, Started create start id
  | .decommissions worker removed =>
      (∃ c ∈ s.existing, c.worker = worker ∧ s.commissioned.lookup worker = some c.id) →
        removed = true

theorem Numbered.lookup_next (h : s.Numbered) : s.commissioned.lookup s.nextElasticId = none := by
  rw [AList.lookup_eq_none]
  intro hmem
  have hlt := h.commissioned _ hmem
  omega

theorem Numbered.commissionWorker (h : s.Numbered) :
    (s.commissionWorker created create start).Numbered := by
  constructor
  · intro c hc
    rcases List.mem_append.mp hc with hc | hc
    · exact Int.lt_trans (h.existing c hc) (Int.lt_succ _)
    · obtain ⟨id, -, rfl⟩ := Option.map_eq_some_iff.mp (Option.mem_toList.mp hc)
      exact Int.lt_succ _
  · intro w hw
    unfold Containers.commissionWorker at hw
    dsimp only at hw
    split at hw
    · rcases (AList.mem_insert s.commissioned).mp hw with rfl | hw
      · exact Int.lt_succ _
      · exact Int.lt_trans (h.commissioned w hw) (Int.lt_succ _)
    · exact Int.lt_trans (h.commissioned w hw) (Int.lt_succ _)

theorem Numbered.decommissionWorker (h : s.Numbered) :
    (s.decommissionWorker worker removed).Numbered := by
  unfold Containers.decommissionWorker
  split
  · exact h
  · refine ⟨fun c hc => h.existing c ?_, fun w hw => h.commissioned w (AList.mem_erase.mp hw).2⟩
    dsimp only at hc
    split at hc
    · exact List.mem_of_mem_filter hc
    · exact hc

/-- Where the record of the new worker does not lead astray, the old ones are as before. -/
theorem lookup_commissionWorker (h : s.Numbered) (created : Option String)
    (create start : HttpResult) :
    (s.commissionWorker created create start).commissioned.lookup s.nextElasticId =
      (createAndStart create start).toOption ∧
    ∀ worker, worker ≠ s.nextElasticId →
      (s.commissionWorker created create start).commissioned.lookup worker =
        s.commissioned.lookup worker := by
  unfold Containers.commissionWorker
  cases createAndStart create start with
  | error text => exact ⟨h.lookup_next, fun _ _ => rfl⟩
  | ok containerId => exact ⟨AList.lookup_insert _, fun _ hne => AList.lookup_insert_ne hne⟩

theorem recorded_commissionWorker (hrecorded : s.Recorded) (hnumbered : s.Numbered) :
    (s.commissionWorker created create start).Recorded ↔
      ∀ id ∈ created, Started create start id := by
  obtain ⟨hnew, hold⟩ := lookup_commissionWorker hnumbered created create start
  constructor
  · intro h id hid
    have hmem : (⟨id, s.nextElasticId⟩ : Container) ∈
        (s.commissionWorker created create start).existing := by
      refine List.mem_append_right _ (Option.mem_toList.mpr ?_)
      rw [hid]
      rfl
    have hlookup := h _ hmem
    rw [hnew] at hlookup
    cases hcreate : createAndStart create start with
    | error text =>
        rw [hcreate] at hlookup
        cases hlookup
    | ok containerId =>
        rw [hcreate] at hlookup
        obtain rfl := Option.some.inj hlookup
        exact createAndStart_eq_ok.mp hcreate
  · intro h c hc
    rcases List.mem_append.mp hc with hc | hc
    · have hlt := hnumbered.existing c hc
      rw [hold c.worker (by omega)]
      exact hrecorded c hc
    · obtain ⟨id, hid, rfl⟩ := Option.map_eq_some_iff.mp (Option.mem_toList.mp hc)
      rw [hnew, createAndStart_eq_ok.mpr (h id hid)]
      rfl

theorem recorded_decommissionWorker (hrecorded : s.Recorded) :
    (s.decommissionWorker worker removed).Recorded ↔
      ((∃ c ∈ s.existing, c.worker = worker ∧ s.commissioned.lookup worker = some c.id) →
        removed = true) := by
  unfold Containers.decommissionWorker
  cases hlookup : s.commissioned.lookup worker with
  | none => exact iff_of_true hrecorded fun ⟨_, _, _, hnone⟩ => nomatch hnone
  | some containerId =>
      dsimp only
      constructor
      · rintro h ⟨c, hc, hworker, -⟩
        by_contra hremoved
        rw [if_neg hremoved] at h
        exact (Foundation.lookup_of_erase (h c hc)).1 hworker
      · intro h c hc
        have hmem : c ∈ s.existing := by
          dsimp only at hc
          split at hc
          · exact List.mem_of_mem_filter hc
          · exact hc
        have hrecord := hrecorded c hmem
        have hne : c.worker ≠ worker := by
          intro hworker
          rw [hworker, hlookup] at hrecord
          rw [h ⟨c, hmem, hworker, hrecord⟩, if_pos rfl] at hc
          have hid := of_decide_eq_true (List.mem_filter.mp hc).2
          exact hid (Option.some.inj hrecord).symm
        rw [AList.lookup_erase_ne hne]
        exact hrecord

theorem step_commissions {created : Option String} {create start : HttpResult}
    (hstep : s.step (.commissions created create start) = some s') :
    s' = s.commissionWorker created create start := by
  simp only [Containers.step] at hstep
  split at hstep
  · exact (Option.some.inj hstep).symm
  · cases hstep

theorem Numbered.step (h : s.Numbered) (hstep : s.step e = some s') : s'.Numbered := by
  cases e with
  | commissions created create start =>
      obtain rfl := step_commissions hstep
      exact h.commissionWorker
  | decommissions worker removed =>
      obtain rfl := Option.some.inj hstep
      exact h.decommissionWorker

theorem leavesRecorded_iff_of_step (hrecorded : s.Recorded) (hnumbered : s.Numbered)
    (hstep : s.step e = some s') : s.LeavesRecorded e ↔ s.Answered e := by
  have hafter : s.LeavesRecorded e ↔ s'.Recorded := by
    unfold LeavesRecorded
    rw [hstep]
    exact ⟨fun h => h s' rfl, fun h t ht => Option.some.inj ht ▸ h⟩
  rw [hafter]
  cases e with
  | commissions created create start =>
      obtain rfl := step_commissions hstep
      exact recorded_commissionWorker hrecorded hnumbered
  | decommissions worker removed =>
      obtain rfl := Option.some.inj hstep
      exact recorded_decommissionWorker hrecorded

end Containers

open Containers

/-- **No orphans.** For every run of commissions and decommissions: every container is
recorded in every state of the run if and only if Docker answers so. -/
theorem recorded_iff {t : Containers} {events : List ContainerEvent}
    (hexec : exec step {} events = some t) :
    Along step LeavesRecorded {} events ↔ Along step Answered {} events := by
  refine Along.iff_exec (fun s => s.Recorded ∧ s.Numbered)
    (fun {s e s'} h _ hanswered hstep => ⟨?_, h.2.step hstep⟩)
    (fun h _ hstep => leavesRecorded_iff_of_step h.1 h.2 hstep) ⟨?_, ?_, ?_⟩ hexec
    (Along.trivial _ events)
  · exact (leavesRecorded_iff_of_step h.1 h.2 hstep).mpr hanswered s' hstep
  · nofun
  · nofun
  · exact fun worker hworker => absurd hworker (AList.notMem_empty worker)

def createdAs (id : String) : HttpResult :=
  .ok { statusCode := 201, body := ("\x7b\"Id\":\"" ++ id ++ "\",\"Warnings\":[]\x7d").toList }

def noContent : HttpResult := .ok { statusCode := 204 }

/-- Two containers, one of which is removed, and a third that could not be created. -/
def orderly : List ContainerEvent :=
  [.commissions (some "a1") (createdAs "a1") noContent,
    .commissions (some "b2") (createdAs "b2") noContent, .decommissions 100 true,
    .commissions none (.ok { statusCode := 409 }) noContent]

theorem recorded_iff_orderly :
    ∃ t, exec step {} orderly = some t ∧ t.existing = [⟨"b2", 101⟩] ∧
      (Along step LeavesRecorded {} orderly ↔ Along step Answered {} orderly) := by
  have hsome : (exec step {} orderly).map (·.existing) = some [⟨"b2", 101⟩] := by decide +kernel
  obtain ⟨t, ht, hexisting⟩ := Option.map_eq_some_iff.mp hsome
  exact ⟨t, ht, hexisting, recorded_iff ht⟩

/-- The start is refused: the container stays, and its worker has no record. -/
theorem refusedStart_orphan :
    ∃ t, exec step {} [.commissions (some "a1") (createdAs "a1") (.ok { statusCode := 500 })] =
        some t ∧ t.existing = [⟨"a1", 100⟩] ∧ t.commissioned.lookup 100 = none ∧ ¬t.Recorded := by
  refine ⟨_, rfl, by decide +kernel, by decide +kernel, fun h => ?_⟩
  have hrecord := h ⟨"a1", 100⟩ (by decide +kernel)
  exact absurd hrecord (by decide +kernel)

end Labios.Elastic
