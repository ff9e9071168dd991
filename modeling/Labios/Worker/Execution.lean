import Labios.Catalog.Locations
import Labios.Solver.Workers
import Labios.Storage.Execution
import Labios.Storage.Posix
import Labios.Storage.Warehouse
import Labios.Worker.Model

/-!
# What a worker does with the bytes

`execute_write` and `execute_read` of `services/labios-worker.cpp` over the warehouse, the
location catalog and the files of each storage root. SDS pipelines and the
backends of other schemes are parameters of the worker.

The labels of the label manager take the file path of both functions:
`executeWrite_plain` and `executeRead_plain` say what they do there.
-/

namespace Labios

/-- What executions read and write; `other` is what the other backends hold. -/
structure Storage (ω : Type) where
  warehouse : Warehouse
  /-- The files under each storage root. -/
  files : String → FileSystem
  locations : LocationCatalog
  other : ω

structure Executor (ω : Type) where
  workerId : Int
  root : String
  tier : WorkerTier
  /-- `sds::execute_pipeline`; the error text of a failed stage. -/
  executePipeline : Pipeline → List UInt8 → Except String (List UInt8)
  /-- The backend registered for a scheme other than `file`, if any. -/
  backendPut : String → Option (LabelData → List UInt8 → ω → Except String Unit × ω)
  backendGet : String → Option (LabelData → ω → Except String (List UInt8))

/-- A worker without pipelines and without other backends. -/
def fileExecutor (workerId : Int) (root : String) : Executor Unit :=
  { workerId
    root
    tier := .pipeline
    executePipeline := fun _ data => .ok data
    backendPut := fun _ => none
    backendGet := fun _ => none }

section Execute

variable {ω : Type} (e : Executor ω)

/-- `backends.resolve(scheme)->put(label, data)`. -/
def resolvePut (scheme : String) (label : LabelData) (data : List UInt8) (s : Storage ω) :
    Except String Unit × Storage ω :=
  if scheme = "file" then
    let (result, fs) := posixPut e.root label data (s.files e.root)
    (result, { s with files := Function.update s.files e.root fs })
  else
    match e.backendPut scheme with
    | none => (.error ("no backend for scheme: " ++ scheme), s)
    | some put =>
        let (result, other) := put label data s.other
        (result, { s with other })

/-- `backends.resolve(scheme)->get(label)`. -/
def resolveGet (scheme : String) (label : LabelData) (s : Storage ω) :
    Except String (List UInt8) :=
  if scheme = "file" then posixGet e.root label (s.files e.root)
  else
    match e.backendGet scheme with
    | none => .error ("no backend for scheme: " ++ scheme)
    | some get => get label s.other

/-- The end of `execute_write`: put, drop the staged bytes, record the location. -/
def storeBlob (scheme : String) (label : LabelData) (blob : List UInt8) (path location : String)
    (offset length : UInt64) (s : Storage ω) : Except String CompletionResult × Storage ω :=
  match resolvePut e scheme label blob s with
  | (.error text, s) => (.error text, s)
  | (.ok (), s) =>
      (.ok { resultLocation := location, bytesTransferred := UInt64.ofNat blob.length },
        { s with
          warehouse := s.warehouse.remove label.id
          locations := s.locations.setLocation path offset length e.workerId })

def executeWrite (label : LabelData) (s : Storage ω) :
    Except String CompletionResult × Storage ω :=
  if !label.pipeline.empty ∧ e.tier = .databot then
    (.error "Tier 0 (Databot) worker cannot execute labels with SDS pipelines", s)
  else
    let blob := s.warehouse.retrieve label.id
    match if label.pipeline.empty then .ok blob else e.executePipeline label.pipeline blob with
    | .error text => (.error ("SDS pipeline failed: " ++ text), s)
    | .ok blob =>
        if label.destUri ≠ "" then
          let uri := parseUri label.destUri
          storeBlob e uri.scheme label blob uri.path label.destUri 0
            (UInt64.ofNat blob.length) s
        else
          match label.destination with
          | .filePath dst => storeBlob e "file" label blob dst.path dst.path dst.offset dst.length s
          | _ => (.error "WRITE label missing FilePath destination", s)

/-- The end of `execute_read`: the bytes go to the warehouse under the label's id. -/
def stageRead (label : LabelData) (data : List UInt8) (s : Storage ω) :
    Except String CompletionResult × Storage ω :=
  let key := "labios:data:" ++ toString label.id
  (.ok
    { dataKey := key, resultLocation := key, bytesTransferred := UInt64.ofNat data.length },
    { s with warehouse := s.warehouse.stage label.id data })

def executeRead (label : LabelData) (s : Storage ω) :
    Except String CompletionResult × Storage ω :=
  if label.sourceUri ≠ "" then
    match resolveGet e (parseUri label.sourceUri).scheme label s with
    | .error text => (.error text, s)
    | .ok data => stageRead label data s
  else
    match label.source with
    | .filePath src =>
        let readSize := if 0 < label.dataSize then label.dataSize else src.length
        match resolveGet e "file" label s with
        | .error text => (.error text, s)
        | .ok data => stageRead label (if 0 < readSize then data.take readSize.toNat else data) s
    | _ => (.error "READ label missing FilePath source", s)

theorem storeBlob_complete (scheme : String) (label : LabelData) (blob : List UInt8)
    (path location : String) (offset length : UInt64) (s : Storage ω) (r : CompletionResult)
    (h : (storeBlob e scheme label blob path location offset length s).1 = .ok r) :
    r.status = .complete := by
  unfold storeBlob at h
  split at h
  · exact absurd h (by simp)
  · rw [← Except.ok.inj h]

/-- An `execute_write` that returns, returns `Complete`. -/
theorem executeWrite_complete (label : LabelData) (s : Storage ω) (r : CompletionResult)
    (h : (executeWrite e label s).1 = .ok r) : r.status = .complete := by
  unfold executeWrite at h
  split at h
  · exact absurd h (by simp)
  · dsimp only at h
    split at h
    · exact absurd h (by simp)
    · split at h
      · exact storeBlob_complete e _ _ _ _ _ _ _ _ _ h
      · split at h
        · exact storeBlob_complete e _ _ _ _ _ _ _ _ _ h
        · exact absurd h (by simp)

theorem executeRead_complete (label : LabelData) (s : Storage ω) (r : CompletionResult)
    (h : (executeRead e label s).1 = .ok r) : r.status = .complete := by
  have hstage : ∀ data, (stageRead (ω := ω) label data s).1 = .ok r → r.status = .complete := by
    intro data hdata
    rw [← Except.ok.inj hdata]
  unfold executeRead at h
  split at h
  · split at h
    · exact absurd h (by simp)
    · exact hstage _ h
  · split at h
    · dsimp only at h
      split at h
      · exact absurd h (by simp)
      · exact hstage _ h
    · exact absurd h (by simp)

/-- The worker of the message handler that executes this way. -/
def Executor.worker (name : String) (now : UInt64)
    (processContinuation : LabelData → CompletionData → Storage ω → Storage ω) :
    Worker (Storage ω) :=
  { name
    now
    executeWrite := executeWrite e
    executeRead := executeRead e
    processContinuation
    write_complete := executeWrite_complete e
    read_complete := executeRead_complete e }

end Execute

/-! ## Plain labels -/

/-- A plain label that a worker can execute on its file backend. -/
structure FileIO (l : LabelData) : Prop where
  plain : PlainIO l
  sourceUri : l.sourceUri = ""
  destUri : l.destUri = ""
  pipeline : l.pipeline = {}
  file : fileOf l.fileKey ≠ none
  seekable : start l < 2 ^ 63

section Plain

variable {ω : Type} (e : Executor ω) {l : LabelData} {name : List (List Char)}

/-- The storage after a write of `blob`. -/
def storedWrite (l : LabelData) (name : List (List Char)) (s : Storage ω) : Storage ω :=
  { s with
    warehouse := s.warehouse.remove l.id
    files := Function.update s.files e.root
      (putFile (s.files e.root) name (labelRange l).offset (s.warehouse.retrieve l.id))
    locations := s.locations.setLocation l.fileKey (labelRange l).offset l.dataSize e.workerId }

/-- A plain write succeeds: it puts what is staged under its id. -/
theorem executeWrite_plain (h : FileIO l) (hw : l.type = .write) (hname : fileOf l.fileKey = some name)
    (s : Storage ω) :
    ∃ r, executeWrite e l s = (.ok r, storedWrite e l name s) := by
  have hdest := h.plain.destination_eq hw
  have hseek : Labios.seekable (labelRange l).offset = true := decide_eq_true h.seekable
  unfold executeWrite
  simp only [h.pipeline, Pipeline.empty, List.isEmpty_nil, Bool.not_true, Bool.false_eq_true,
    false_and, if_false, if_true, h.destUri, ne_eq, not_true_eq_false, hdest, filePath, storeBlob,
    resolvePut, posixPut, resolveDest, resolvePath_of_fileOf hname, Option.map_some, hseek]
  exact ⟨_, rfl⟩

/-- A plain read stages what its file holds in its range. -/
theorem executeRead_found (h : FileIO l) (hr : l.type = .read) (hname : fileOf l.fileKey = some name)
    {s : Storage ω} {content : List UInt8} (hfile : s.files e.root name = some content) :
    ∃ r, executeRead e l s = (.ok r, { s with
      warehouse := s.warehouse.stage l.id ((content.drop (start l)).take l.dataSize.toNat) }) := by
  have hsource := h.plain.source_eq hr
  have hseek : Labios.seekable (labelRange l).offset = true := decide_eq_true h.seekable
  have hpos : 0 < l.dataSize := h.plain.nonempty
  have hne : l.dataSize ≠ 0 := fun he => by rw [he] at hpos; exact absurd hpos (by decide)
  unfold executeRead
  simp only [h.sourceUri, ne_eq, not_true_eq_false, if_false, hsource, filePath, resolveGet, if_true,
    posixGet, resolveSource, resolvePath_of_fileOf hname, Option.map_some, hfile, hseek,
    Bool.not_true, Bool.false_eq_true, hne, hpos, stageRead, List.take_take, Nat.min_self]
  exact ⟨_, rfl⟩

/-- Without the file it fails and changes nothing. -/
theorem executeRead_missing (h : FileIO l) (hr : l.type = .read)
    (hname : fileOf l.fileKey = some name) {s : Storage ω} (hfile : s.files e.root name = none) :
    ∃ text, executeRead e l s = (.error text, s) := by
  have hsource := h.plain.source_eq hr
  unfold executeRead
  simp only [h.sourceUri, ne_eq, not_true_eq_false, if_false, hsource, filePath, resolveGet, if_true,
    posixGet, resolveSource, resolvePath_of_fileOf hname, Option.map_some, hfile]
  exact ⟨_, rfl⟩

end Plain
end Labios
