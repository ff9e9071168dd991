import Labios.Sds.Executor
import Labios.Storage.Places
import Labios.Worker.Execution

/-!
# The backends of a worker

The registry that `main` of `services/labios-worker.cpp` builds: files, SQLite and,
where it is configured, the key-value server. What is put at a place of one of
them is read back from it (`readBack_put`).
-/

namespace Labios

/-- A worker with the backends of `main`; the key-value backend is optional. -/
def registryExecutor (workerId : Int) (root : String) (tier : WorkerTier)
    (repo : ProgramRepository) (keyValue : Bool) : Executor KeyedStores :=
  { workerId
    root
    tier
    executePipeline := executeStages repo
    backendPut := fun scheme =>
      if scheme = "sqlite" then some SQLiteBackend.put
      else if scheme = "kv" ∧ keyValue = true then some (KVBackend.put "labios:kv:")
      else none
    backendGet := fun scheme =>
      if scheme = "sqlite" then some SQLiteBackend.get
      else if scheme = "kv" ∧ keyValue = true then some (KVBackend.get "labios:kv:")
      else none }

/-- What a read of the URI returns. -/
def readBack {ω : Type} (e : Executor ω) (uri : String) (s : Storage ω) :
    Except String (List UInt8) :=
  resolveGet e (parseUri uri).scheme { type := .read, sourceUri := uri } s

/-- The URI names a place in a registered backend. -/
def Accepts (keyValue : Bool) (uri : String) : Prop :=
  uri ≠ "" ∧
    ((parseUri uri).scheme = "file" ∧
        fileOf (String.ofList (stripLeadingSlash (parseUri uri).path.toList)) ≠ none ∨
      (parseUri uri).scheme = "sqlite" ∨ (parseUri uri).scheme = "kv" ∧ keyValue = true)

variable {workerId : Int} {root : String} {tier : WorkerTier} {repo : ProgramRepository}
  {keyValue : Bool} {uri : String}

/-- What is put at a place of a registered backend is read back from it. -/
theorem readBack_put (h : Accepts keyValue uri) {l : LabelData} (hl : l.destUri = uri)
    (data : List UInt8) (s : Storage KeyedStores) :
    ∃ s', resolvePut (registryExecutor workerId root tier repo keyValue) (parseUri uri).scheme l
        data s = (.ok (), s') ∧
      ∀ t : Storage KeyedStores, t.files = s'.files → t.other = s'.other →
        readBack (registryExecutor workerId root tier repo keyValue) uri t = .ok data := by
  obtain ⟨hne, ⟨hscheme, hfile⟩ | hscheme | ⟨hscheme, hkv⟩⟩ := h
  · obtain ⟨name, hname⟩ := Option.ne_none_iff_exists'.mp hfile
    have hresolve := resolvePath_of_fileOf hname
    refine ⟨{ s with files := Function.update s.files root (putFile (s.files root) name 0 data) },
      ?_, ?_⟩
    · unfold resolvePut posixPut resolveDest
      simp [hscheme, hl, hne, hresolve, registryExecutor, seekable]
    · intro t hfiles _
      have hcontent : t.files root name = some data := by
        have hopen : openForPut (s.files root) name 0 = [] := by
          unfold openForPut
          cases s.files root name with
          | none => rfl
          | some _ => rfl
        rw [hfiles]
        simp only [Function.update_self, putFile, hopen]
        unfold writeAt
        cases data with
        | nil => rfl
        | cons b rest => simp
      unfold readBack resolveGet posixGet resolveSource
      simp [hscheme, hne, hresolve, registryExecutor, seekable, hcontent]
  · refine ⟨{ s with other := (SQLiteBackend.put l data s.other).2 }, ?_, ?_⟩
    · unfold resolvePut
      simp [hscheme, registryExecutor, SQLiteBackend.put]
    · intro t _ hother
      have hkey : SQLiteBackend.extractKey { type := .read, sourceUri := uri } =
          SQLiteBackend.extractKey l := by
        simp [SQLiteBackend.extractKey, keyUri, hl, hne]
      unfold readBack resolveGet
      simp [hscheme, registryExecutor, SQLiteBackend.get, hother, SQLiteBackend.put, hkey]
  · refine ⟨{ s with other := (KVBackend.put "labios:kv:" l data s.other).2 }, ?_, ?_⟩
    · unfold resolvePut
      simp [hscheme, hkv, registryExecutor, KVBackend.put]
    · intro t _ hother
      have hkey : KVBackend.makeKey "labios:kv:" { type := .read, sourceUri := uri } =
          KVBackend.makeKey "labios:kv:" l := by
        simp [KVBackend.makeKey, keyUri, hl, hne]
      unfold readBack resolveGet
      simp [hscheme, hkv, registryExecutor, KVBackend.get, hother, KVBackend.put, hkey]

end Labios
