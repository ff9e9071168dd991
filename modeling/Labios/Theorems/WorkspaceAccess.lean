import Labios.Foundation.Entries
import Labios.Workspace.Model
import Mathlib.Data.List.Induction

/-!
# Workspaces of client processes

Any number of client processes over one Redis. Each has its own app id and its own
`WorkspaceRegistry`, and the workspace calls of `labios/client.cpp` go through the
`Workspace` object that its registry has under the name.
-/

namespace Labios

open Foundation

structure ClientProcess where
  appId : UInt32
  workspaces : AList fun _ : String => Workspace := ∅

namespace ClientProcess

/-- `create_workspace`: nothing if the registry has the name. -/
def createWorkspace (p : ClientProcess) (name : String) (ttlSeconds : UInt32) : ClientProcess :=
  match p.workspaces.lookup name with
  | some _ => p
  | none => { p with
      workspaces := p.workspaces.insert name (Workspace.create name p.appId ttlSeconds) }

def getWorkspace (p : ClientProcess) (name : String) : Option Workspace := p.workspaces.lookup name

/-- The object under the name is changed. -/
def update (p : ClientProcess) (name : String) (f : Workspace → Workspace) : ClientProcess :=
  match p.getWorkspace name with
  | none => p
  | some ws => { p with workspaces := p.workspaces.insert name (f ws) }

def workspaceGrant (p : ClientProcess) (name : String) (appId : UInt32) : ClientProcess :=
  p.update name (·.grantAccess appId)

/-- `revoke_access` of what `get_workspace` returns. -/
def workspaceRevoke (p : ClientProcess) (name : String) (appId : UInt32) : ClientProcess :=
  p.update name (·.revokeAccess appId)

def workspacePut (p : ClientProcess) (now : Nat) (r : Redis) (name key : String)
    (data : List UInt8) : Except String (UInt64 × Redis) :=
  match p.getWorkspace name with
  | none => .ok (0, r)
  | some ws => ws.put now r key data p.appId

def workspaceGet (p : ClientProcess) (now : Nat) (r : Redis) (name key : String) :
    Except String (Option (List UInt8)) :=
  match p.getWorkspace name with
  | none => .ok none
  | some ws => ws.get now r key p.appId

def workspaceDel (p : ClientProcess) (now : Nat) (r : Redis) (name key : String) :
    Except String (Bool × Redis) :=
  match p.getWorkspace name with
  | none => .ok (false, r)
  | some ws => ws.del now r key p.appId

end ClientProcess

/-! ## Runs -/

inductive WorkspaceCall where
  | create (ttlSeconds : UInt32)
  | grant (appId : UInt32)
  | revoke (appId : UInt32)
  | put (key : String) (data : List UInt8)
  | get (key : String)
  | del (key : String)
  deriving DecidableEq

/-- A process makes a call on a workspace name, at some time. -/
structure ClientAction where
  client : Nat
  now : Nat
  name : String
  call : WorkspaceCall

structure Deployment where
  redis : Redis
  processes : List ClientProcess

/-- What Redis holds after a call that may throw. -/
def afterCall {β : Type} (r : Redis) : Except String (β × Redis) → Redis
  | .ok (_, r') => r'
  | .error _ => r

def ClientProcess.perform (p : ClientProcess) (now : Nat) (r : Redis) (name : String) :
    WorkspaceCall → ClientProcess × Redis
  | .create ttlSeconds => (p.createWorkspace name ttlSeconds, r)
  | .grant appId => (p.workspaceGrant name appId, r)
  | .revoke appId => (p.workspaceRevoke name appId, r)
  | .put key data => (p, afterCall r (p.workspacePut now r name key data))
  | .get _ => (p, r)
  | .del key => (p, afterCall r (p.workspaceDel now r name key))

namespace Deployment

/-- Processes with these app ids, over what Redis holds already. -/
def fresh (apps : List UInt32) (r : Redis) : Deployment :=
  { redis := r, processes := apps.map fun appId => { appId } }

def step (d : Deployment) (a : ClientAction) : Deployment :=
  match d.processes[a.client]? with
  | none => d
  | some p =>
      let (p', r') := p.perform a.now d.redis a.name a.call
      { redis := r', processes := d.processes.set a.client p' }

def run (apps : List UInt32) (r : Redis) (actions : List ClientAction) : Deployment :=
  actions.foldl step (fresh apps r)

end Deployment

/-! ## What is in the registries -/

def ClientAction.creates (a : ClientAction) (name : String) : Prop :=
  a.name = name ∧ ∃ ttlSeconds, a.call = .create ttlSeconds

/-- The process made the workspace of this name itself. -/
def Created (actions : List ClientAction) (client : Nat) (name : String) : Prop :=
  ∃ a ∈ actions, a.client = client ∧ a.creates name

/-- The objects of a registry have the names they are found by, and are owned by the
app of the process. -/
def ClientProcess.Registered (p : ClientProcess) : Prop :=
  ∀ name ws, p.workspaces.lookup name = some ws → ws.name = name ∧ ws.ownerAppId = p.appId

section Registries

variable {p : ClientProcess} {name name' : String} {now : Nat} {r : Redis} {call : WorkspaceCall}

theorem ClientProcess.Registered.insert (h : p.Registered) {ws : Workspace}
    (hname : ws.name = name) (howner : ws.ownerAppId = p.appId) :
    ({ p with workspaces := p.workspaces.insert name ws } : ClientProcess).Registered := by
  intro name' ws' hlookup
  rcases Foundation.lookup_insert_cases hlookup with ⟨rfl, rfl⟩ | ⟨-, hold⟩
  · exact ⟨hname, howner⟩
  · exact h name' ws' hold

/-- A call keeps the app id, and only a `create` brings a name into the registry. -/
structure ClientProcess.Keeps (p : ClientProcess) (name : String) (creates : Prop)
    (p' : ClientProcess) : Prop where
  appId : p'.appId = p.appId
  registered : p.Registered → p'.Registered
  names : ∀ name', name' ∈ p'.workspaces ↔ name' ∈ p.workspaces ∨ creates ∧ name' = name

theorem ClientProcess.Keeps.refl (p : ClientProcess) (name : String) : p.Keeps name False p :=
  ⟨rfl, id, fun name' => by simp⟩

theorem ClientProcess.createWorkspace_keeps (p : ClientProcess) (name : String)
    (ttlSeconds : UInt32) : p.Keeps name True (p.createWorkspace name ttlSeconds) := by
  unfold createWorkspace
  cases hlookup : p.workspaces.lookup name with
  | some ws =>
      have hmem : name ∈ p.workspaces := AList.lookup_isSome.mp (Option.isSome_of_eq_some hlookup)
      refine ⟨rfl, id, fun name' => ⟨.inl, ?_⟩⟩
      rintro (h | ⟨-, rfl⟩)
      · exact h
      · exact hmem
  | none =>
      refine ⟨rfl, fun h => h.insert rfl rfl, fun name' => ?_⟩
      show name' ∈ p.workspaces.insert name _ ↔ _
      rw [AList.mem_insert, true_and, or_comm]

theorem ClientProcess.update_keeps (p : ClientProcess) (name : String) {f : Workspace → Workspace}
    (hname : ∀ ws, (f ws).name = ws.name) (howner : ∀ ws, (f ws).ownerAppId = ws.ownerAppId) :
    p.Keeps name False (p.update name f) := by
  unfold update getWorkspace
  cases hlookup : p.workspaces.lookup name with
  | none => exact .refl p name
  | some ws =>
      refine ⟨rfl, fun h => ?_, fun name' => ?_⟩
      · obtain ⟨hws, happ⟩ := h name ws hlookup
        exact h.insert ((hname ws).trans hws) ((howner ws).trans happ)
      · have hmem : name ∈ p.workspaces :=
          AList.lookup_isSome.mp (Option.isSome_of_eq_some hlookup)
        show name' ∈ p.workspaces.insert name _ ↔ _
        rw [AList.mem_insert, false_and, or_false, or_iff_right_iff_imp]
        rintro rfl
        exact hmem

theorem ClientProcess.perform_keeps (p : ClientProcess) (now : Nat) (r : Redis) (name : String)
    (call : WorkspaceCall) :
    p.Keeps name (∃ ttlSeconds, call = .create ttlSeconds) (p.perform now r name call).1 := by
  have hno : ∀ {call : WorkspaceCall}, (∀ ttlSeconds, call ≠ .create ttlSeconds) →
      (∃ ttlSeconds, call = .create ttlSeconds) = False := fun h =>
    eq_false fun ⟨ttlSeconds, heq⟩ => h ttlSeconds heq
  cases call with
  | create ttlSeconds =>
      rw [eq_true (⟨ttlSeconds, rfl⟩ : ∃ n, WorkspaceCall.create ttlSeconds = .create n)]
      exact p.createWorkspace_keeps name ttlSeconds
  | grant appId =>
      rw [hno (by simp)]
      exact p.update_keeps name (fun ws => rfl) (fun ws => rfl)
  | revoke appId =>
      rw [hno (by simp)]
      have hrevoke : ∀ ws : Workspace, (ws.revokeAccess appId).name = ws.name ∧
          (ws.revokeAccess appId).ownerAppId = ws.ownerAppId := by
        intro ws
        unfold Workspace.revokeAccess
        split
        · exact ⟨rfl, rfl⟩
        · exact ⟨rfl, rfl⟩
      exact p.update_keeps name (fun ws => (hrevoke ws).1) (fun ws => (hrevoke ws).2)
  | put key data | get key | del key =>
      rw [hno (by simp)]
      exact .refl p name

end Registries

/-! ## Along a run -/

/-- The processes after these actions: their app ids are the given ones, and their
registries have what they created themselves. -/
structure Deployment.Tracks (apps : List UInt32) (actions : List ClientAction) (d : Deployment) :
    Prop where
  appIds : ∀ (c : Nat) (p : ClientProcess), d.processes[c]? = some p → apps[c]? = some p.appId
  registered : ∀ (c : Nat) (p : ClientProcess), d.processes[c]? = some p → p.Registered
  names : ∀ (c : Nat) (p : ClientProcess), d.processes[c]? = some p →
    ∀ name, name ∈ p.workspaces ↔ Created actions c name

theorem created_concat {actions : List ClientAction} {a : ClientAction} {c : Nat} {name : String} :
    Created (actions ++ [a]) c name ↔
      Created actions c name ∨ a.client = c ∧ a.creates name := by
  unfold Created
  constructor
  · rintro ⟨b, hb, h⟩
    rcases List.mem_append.mp hb with hb | hb
    · exact .inl ⟨b, hb, h⟩
    · rw [List.mem_singleton] at hb
      subst hb
      exact .inr h
  · rintro (⟨b, hb, h⟩ | h)
    · exact ⟨b, List.mem_append_left _ hb, h⟩
    · exact ⟨a, List.mem_append_right _ (List.mem_singleton_self a), h⟩

namespace Deployment

variable {apps : List UInt32} {actions : List ClientAction} {d : Deployment} {r : Redis}

theorem Tracks.step (h : d.Tracks apps actions) (a : ClientAction) :
    (d.step a).Tracks apps (actions ++ [a]) := by
  unfold Deployment.step
  cases hclient : d.processes[a.client]? with
  | none =>
      refine ⟨h.appIds, h.registered, fun c p hp name => ?_⟩
      have hne : a.client ≠ c := by
        rintro rfl
        rw [hclient] at hp
        cases hp
      rw [h.names c p hp, created_concat]
      simp only [hne, false_and, or_false]
  | some p₀ =>
      obtain ⟨happ, hregistered, hnames⟩ := p₀.perform_keeps a.now d.redis a.name a.call
      refine ⟨fun c p hp => ?_, fun c p hp => ?_, fun c p hp name => ?_⟩
      · rcases getElem?_set_cases hp with ⟨rfl, rfl⟩ | ⟨-, hold⟩
        · rw [happ]
          exact h.appIds a.client p₀ hclient
        · exact h.appIds c p hold
      · rcases getElem?_set_cases hp with ⟨rfl, rfl⟩ | ⟨-, hold⟩
        · exact hregistered (h.registered a.client p₀ hclient)
        · exact h.registered c p hold
      · rw [created_concat]
        rcases getElem?_set_cases hp with ⟨rfl, rfl⟩ | ⟨hne, hold⟩
        · rw [hnames, h.names a.client p₀ hclient]
          refine or_congr_right ?_
          unfold ClientAction.creates
          rw [and_comm, eq_comm]
          simp
        · rw [h.names c p hold]
          simp only [hne.symm, false_and, or_false]

theorem tracks_run (apps : List UInt32) (r : Redis) (actions : List ClientAction) :
    (run apps r actions).Tracks apps actions := by
  induction actions using List.reverseRecOn with
  | nil =>
      have hfresh : ∀ (c : Nat) (p : ClientProcess), (fresh apps r).processes[c]? = some p →
          apps[c]? = some p.appId ∧ p.workspaces = ∅ := by
        intro c p hp
        obtain ⟨app, happ, rfl⟩ := Option.map_eq_some_iff.mp (List.getElem?_map.symm.trans hp)
        exact ⟨happ, rfl⟩
      refine ⟨fun c p hp => (hfresh c p hp).1, fun c p hp name ws hlookup => ?_,
        fun c p hp name => ?_⟩
      · rw [(hfresh c p hp).2] at hlookup
        cases hlookup
      · rw [(hfresh c p hp).2]
        refine ⟨fun hmem => absurd hmem (AList.notMem_empty name), ?_⟩
        rintro ⟨a, ha, -⟩
        cases ha
  | append_singleton actions a ih =>
      unfold run
      rw [List.foldl_append]
      exact ih.step a

end Deployment

end Labios

/-!
## Access control across clients

Does a workspace let in exactly its first creator and the apps that were granted access?
Ownership and access list are in the registry of a process, and the data in Redis. So a
process gets at the data of a name if and only if it has called `create_workspace`
with this name itself. The access is right, in every state of every run, if and only if
whoever has done so is the first creator or granted access, and whoever is granted access
has done so (`access_controlled_iff`). One that was granted access and has not cannot
use the workspace, and one that was not and has can read it (`access_uncontrolled`).
-/

namespace Labios

open Foundation

/-! ## Who may -/

/-- Who owns a workspace, and whom the owner has granted access. -/
structure Authority where
  owner : UInt32
  granted : List UInt32 := []

namespace Authority

def Allows (authority : Option Authority) (appId : UInt32) : Prop :=
  ∃ a, authority = some a ∧ (appId = a.owner ∨ appId ∈ a.granted)

def Grants (authority : Option Authority) (appId : UInt32) : Prop :=
  ∃ a, authority = some a ∧ appId ∈ a.granted

/-- The first creator is the owner; grants and revocations count if they are made by
the owner. -/
def call (caller : UInt32) : Option Authority → WorkspaceCall → Option Authority
  | none, .create _ => some { owner := caller }
  | some a, .grant appId =>
      if caller = a.owner then some { a with granted := appId :: a.granted } else some a
  | some a, .revoke appId =>
      if caller = a.owner then some { a with granted := a.granted.filter (· ≠ appId) } else some a
  | authority, _ => authority

def step (apps : List UInt32) (name : String) (authority : Option Authority)
    (a : ClientAction) : Option Authority :=
  match apps[a.client]? with
  | none => authority
  | some caller => if a.name = name then call caller authority a.call else authority

/-- After these actions of processes with these app ids. -/
def after (apps : List UInt32) (name : String) (actions : List ClientAction) : Option Authority :=
  actions.foldl (step apps name) none

end Authority

/-! ## Who can -/

/-- The calls of the process on the name, whatever Redis holds: they read and write
nothing unless the app is allowed to, and for one that was granted access they are
those of a workspace that has it in its access list. -/
structure ClientProcess.ControlsAccess (p : ClientProcess) (name : String)
    (authority : Option Authority) : Prop where
  put : ∀ now r key data version r',
    p.workspacePut now r name key data = .ok (version, r') → r' ≠ r → Authority.Allows authority p.appId
  get : ∀ now r key data, p.workspaceGet now r name key = .ok (some data) →
    Authority.Allows authority p.appId
  del : ∀ now r key existed r', p.workspaceDel now r name key = .ok (existed, r') → r' ≠ r →
    Authority.Allows authority p.appId
  granted : Authority.Grants authority p.appId → ∃ ws : Workspace, ws.name = name ∧
    p.appId ∈ ws.acl ∧ ∀ now r key,
      (∀ data, p.workspacePut now r name key data = ws.put now r key data p.appId) ∧
      p.workspaceGet now r name key = ws.get now r key p.appId ∧
      p.workspaceDel now r name key = ws.del now r key p.appId

section Access

variable {p : ClientProcess} {name : String} {authority : Option Authority}

/-- A name that is not in the registry leads nowhere. -/
theorem workspaceGet_unknown (h : name ∉ p.workspaces) (now : Nat) (r : Redis) (key : String) :
    p.workspaceGet now r name key = .ok none := by
  unfold ClientProcess.workspaceGet ClientProcess.getWorkspace
  rw [AList.lookup_eq_none.mpr h]

theorem getWorkspace_of_mem (h : name ∈ p.workspaces) (hregistered : p.Registered) :
    ∃ ws, p.getWorkspace name = some ws ∧ ws.name = name ∧ p.appId ∈ ws.acl := by
  obtain ⟨ws, hlookup⟩ := Option.isSome_iff_exists.mp (AList.lookup_isSome.mpr h)
  obtain ⟨hname, howner⟩ := hregistered name ws hlookup
  exact ⟨ws, hlookup, hname, howner ▸ ws.owner_mem⟩

/-- A process has access to the workspaces of its registry, and to no others. -/
theorem controlsAccess_iff (hregistered : p.Registered) :
    p.ControlsAccess name authority ↔
      (name ∈ p.workspaces → Authority.Allows authority p.appId) ∧
        (Authority.Grants authority p.appId → name ∈ p.workspaces) := by
  -- some key space in which the key holds data
  have hpresent : ∀ ws : Workspace, p.appId ∈ ws.acl → ∃ r,
      ws.get 0 r "" p.appId = .ok (some []) := by
    intro ws hmem
    refine ⟨Keyspace.store ∅ (ws.dataKey "") (.string []), ?_⟩
    rw [Workspace.get_ok hmem]
    unfold Redis.get
    rw [Keyspace.value_store_self]
    rfl
  constructor
  · intro h
    refine ⟨fun hmem => ?_, fun hgrants => ?_⟩
    · obtain ⟨ws, hws, -, hacl⟩ := getWorkspace_of_mem hmem hregistered
      obtain ⟨r, hr⟩ := hpresent ws hacl
      refine h.get 0 r "" [] ?_
      unfold ClientProcess.workspaceGet
      rw [hws]
      exact hr
    · obtain ⟨ws, -, hacl, hcalls⟩ := h.granted hgrants
      obtain ⟨r, hr⟩ := hpresent ws hacl
      by_contra hnot
      have hget := (hcalls 0 r "").2.1
      rw [workspaceGet_unknown hnot, hr] at hget
      cases hget
  · rintro ⟨hallows, hknown⟩
    refine ⟨?_, ?_, ?_, ?_⟩
    · intro now r key data version r' hput hne
      by_cases hmem : name ∈ p.workspaces
      · exact hallows hmem
      · unfold ClientProcess.workspacePut ClientProcess.getWorkspace at hput
        rw [AList.lookup_eq_none.mpr hmem] at hput
        cases hput
        exact absurd rfl hne
    · intro now r key data hget
      by_cases hmem : name ∈ p.workspaces
      · exact hallows hmem
      · rw [workspaceGet_unknown hmem] at hget
        cases hget
    · intro now r key existed r' hdel hne
      by_cases hmem : name ∈ p.workspaces
      · exact hallows hmem
      · unfold ClientProcess.workspaceDel ClientProcess.getWorkspace at hdel
        rw [AList.lookup_eq_none.mpr hmem] at hdel
        cases hdel
        exact absurd rfl hne
    · intro hgrants
      obtain ⟨ws, hws, hname, hacl⟩ := getWorkspace_of_mem (hknown hgrants) hregistered
      refine ⟨ws, hname, hacl, fun now r key => ⟨fun data => ?_, ?_, ?_⟩⟩
      · unfold ClientProcess.workspacePut
        rw [hws]
      · unfold ClientProcess.workspaceGet
        rw [hws]
      · unfold ClientProcess.workspaceDel
        rw [hws]

end Access

/-! ## Every run -/

/-- In every state of every run the access of a process to a name is right if and only
if a process that has created the name is allowed to, and one whose app was granted
access has created it. -/
theorem access_controlled_iff (apps : List UInt32) (r : Redis) (actions : List ClientAction)
    (c : Nat) (p : ClientProcess) (hp : (Deployment.run apps r actions).processes[c]? = some p)
    (name : String) :
    p.ControlsAccess name (Authority.after apps name actions) ↔
      (Created actions c name → Authority.Allows (Authority.after apps name actions) p.appId) ∧
        (Authority.Grants (Authority.after apps name actions) p.appId → Created actions c name) := by
  have htracks := Deployment.tracks_run apps r actions
  rw [controlsAccess_iff (htracks.registered c p hp), htracks.names c p hp name]

def onShared (client now : Nat) (call : WorkspaceCall) : ClientAction :=
  { client, now, name := "shared", call }

/-- The first process makes a workspace and keeps a secret in it. -/
def secretKept : List ClientAction :=
  [onShared 0 1 (.create 0), onShared 0 2 (.put "secret" [42])]

/-- It grants access to the app of the second, which does nothing. -/
def grantedOnly : List ClientAction := secretKept ++ [onShared 0 3 (.grant 2)]

/-- The second process creates the name as well, with and without a grant. -/
def grantedAndCreated : List ClientAction := grantedOnly ++ [onShared 1 4 (.create 0)]

def createdOnly : List ClientAction := secretKept ++ [onShared 1 3 (.create 0)]

theorem access_controlled_grantedAndCreated :
    ∃ p, (Deployment.run [1, 2] ∅ grantedAndCreated).processes[1]? = some p ∧
      p.ControlsAccess "shared" (Authority.after [1, 2] "shared" grantedAndCreated) := by
  refine ⟨_, rfl,
    (access_controlled_iff [1, 2] ∅ grantedAndCreated 1 _ rfl "shared").mpr ⟨fun _ => ?_, fun _ => ?_⟩⟩
  · exact ⟨{ owner := 1, granted := [2] }, rfl, .inr (List.mem_singleton_self 2)⟩
  · exact ⟨onShared 1 4 (.create 0), List.mem_append_right _ (List.mem_singleton_self _), rfl, rfl,
      0, rfl⟩

/-- An app that nobody let in creates the name for itself and reads the secret; an app that
was granted access reads and writes nothing. -/
theorem access_uncontrolled :
    (∃ p, (Deployment.run [1, 2] ∅ createdOnly).processes[1]? = some p ∧
      ¬Authority.Allows (Authority.after [1, 2] "shared" createdOnly) p.appId ∧
      p.workspaceGet 4 (Deployment.run [1, 2] ∅ createdOnly).redis "shared" "secret" =
        .ok (some [42])) ∧
    ∃ p, (Deployment.run [1, 2] ∅ grantedOnly).processes[1]? = some p ∧
      Authority.Grants (Authority.after [1, 2] "shared" grantedOnly) p.appId ∧
      ∀ now r key data, p.workspaceGet now r "shared" key = .ok none ∧
        p.workspacePut now r "shared" key data = .ok (0, r) := by
  refine ⟨⟨_, rfl, ?_, rfl⟩, _, rfl, ?_, fun now r key data => ⟨rfl, rfl⟩⟩
  · rintro ⟨a, ha, hallows⟩
    obtain rfl := Option.some.inj ha
    exact absurd hallows (by decide)
  · exact ⟨{ owner := 1, granted := [2] }, rfl, List.mem_singleton_self 2⟩

end Labios
