import Labios.Client.Model
import Labios.Sds.Codec
import Labios.Worker.Registry

/-!
# What a pipeline request delivers

`Client::execute_pipeline` publishes a write with a source URI and no data.
`execute_write` runs the pipeline on what is staged under the label's id, which
is nothing, and never opens the source. So the destination gets what the
pipeline, as it comes out of the codec, makes of no bytes
(`pipeline_delivered_iff`).
-/

namespace Labios

/-- The label as the worker receives it: the pipeline has been through its codec. -/
def received (l : LabelData) : Except String LabelData :=
  match deserializePipeline (serializePipeline l.pipeline) with
  | .error text => .error text
  | .ok pipeline => .ok { l with pipeline }

/-- The write succeeds and `data` stands at `uri`. -/
def Leaves {ω : Type} (e : Executor ω) (l : LabelData) (s : Storage ω) (uri : String)
    (data : List UInt8) : Prop :=
  ∃ l' r, received l = .ok l' ∧ (executeWrite e l' s).1 = .ok r ∧
    readBack e uri (executeWrite e l' s).2 = .ok data

section Delivery

variable {workerId : Int} {root : String} {tier : WorkerTier} {repo : ProgramRepository}
  {keyValue : Bool} {uri : String}

/-- A write to a URI, with nothing staged, is the pipeline run on no bytes and a
put of its result. -/
theorem executeWrite_piped (htier : tier ≠ .databot) {l : LabelData} (hl : l.destUri = uri)
    (hne : uri ≠ "") {s : Storage KeyedStores} (hfresh : s.warehouse l.id = none) :
    executeWrite (registryExecutor workerId root tier repo keyValue) l s =
      match executeStages repo l.pipeline [] with
      | .error text => (.error ("SDS pipeline failed: " ++ text), s)
      | .ok data => storeBlob (registryExecutor workerId root tier repo keyValue)
          (parseUri uri).scheme l data (parseUri uri).path uri 0 (UInt64.ofNat data.length) s := by
  have hblob : s.warehouse.retrieve l.id = [] := by
    unfold Warehouse.retrieve
    rw [hfresh]
    rfl
  have hrun : (if l.pipeline.empty = true then .ok []
      else executeStages repo l.pipeline []) = executeStages repo l.pipeline [] := by
    by_cases hempty : l.pipeline.empty = true
    · rw [if_pos hempty, executeStages, if_pos hempty]
    · rw [if_neg hempty]
  unfold executeWrite
  have htier' : (registryExecutor workerId root tier repo keyValue).tier ≠ .databot := htier
  have hexec : (registryExecutor workerId root tier repo keyValue).executePipeline =
    executeStages repo := rfl
  rw [if_neg fun h => htier' h.2]
  dsimp only
  rw [hblob, hexec, hrun, hl]
  cases executeStages repo l.pipeline [] with
  | error text => rfl
  | ok data => simp [hne]

/-- A pipeline request leaves at its destination what the received pipeline makes
of no bytes. -/
theorem leaves_iff (htier : tier ≠ .databot) (h : Accepts keyValue uri) {l : LabelData}
    (hl : l.destUri = uri) {s : Storage KeyedStores} (hfresh : s.warehouse l.id = none)
    (data : List UInt8) :
    Leaves (registryExecutor workerId root tier repo keyValue) l s uri data ↔
      ∃ pipeline, deserializePipeline (serializePipeline l.pipeline) = .ok pipeline ∧
        executeStages repo pipeline [] = .ok data := by
  unfold Leaves received
  cases hcodec : deserializePipeline (serializePipeline l.pipeline) with
  | error text => simp
  | ok pipeline =>
      have hwrite : executeWrite (registryExecutor workerId root tier repo keyValue)
          { l with pipeline } s = _ :=
        executeWrite_piped htier (l := { l with pipeline }) hl h.1 hfresh
      have hleaves : ∀ result, executeStages repo pipeline [] = .ok result →
          ∃ r, (executeWrite (registryExecutor workerId root tier repo keyValue)
              { l with pipeline } s).1 = .ok r ∧
            readBack (registryExecutor workerId root tier repo keyValue) uri
              (executeWrite (registryExecutor workerId root tier repo keyValue)
                { l with pipeline } s).2 = .ok result := by
        intro result hresult
        dsimp only at hwrite
        rw [hresult] at hwrite
        dsimp only at hwrite
        have hl' : ({ l with pipeline } : LabelData).destUri = uri := hl
        obtain ⟨s', hput, hread⟩ := readBack_put h hl' result s
        rw [hwrite]
        unfold storeBlob
        rw [hput]
        exact ⟨_, rfl, hread _ rfl rfl⟩
      constructor
      · rintro ⟨l', r, hl', hok, hread⟩
        obtain rfl := Except.ok.inj hl'
        cases hrun : executeStages repo pipeline [] with
        | error text =>
            rw [hrun] at hwrite
            rw [hwrite] at hok
            exact absurd hok (by simp)
        | ok result =>
            obtain ⟨_, _, hread'⟩ := hleaves result hrun
            obtain rfl := Except.ok.inj (hread'.symm.trans hread)
            exact ⟨pipeline, rfl, hrun⟩
      · rintro ⟨pipeline', hp, hrun⟩
        obtain rfl := Except.ok.inj hp
        obtain ⟨r, hok, hread⟩ := hleaves data hrun
        exact ⟨_, r, rfl, hok, hread⟩

end Delivery

/-! ## The property -/

section Property

variable (e : Executor KeyedStores) (repo : ProgramRepository) (s : Storage KeyedStores)
  (sourceUri destUri : String) (pipeline : Pipeline)

/-- A pipeline request leaves what the pipeline makes of the source's bytes. -/
def PipelineDelivered (l : LabelData) : Prop :=
  ∀ source data, readBack e sourceUri s = .ok source →
    executeStages repo pipeline source = .ok data → Leaves e l s destUri data

/-- The received pipeline makes of no bytes what the pipeline makes of the source. -/
def SourceIrrelevant : Prop :=
  ∀ source data, readBack e sourceUri s = .ok source →
    executeStages repo pipeline source = .ok data →
    ∃ decoded, deserializePipeline (serializePipeline pipeline) = .ok decoded ∧
      executeStages repo decoded [] = .ok data

end Property

theorem executePipeline_fields (id : UInt64) (appId : UInt32) (now : UInt64)
    (sourceUri destUri : String) (pipeline : Pipeline) (intent : Intent) :
    (executePipeline id appId now sourceUri destUri pipeline intent).label.id = id ∧
      (executePipeline id appId now sourceUri destUri pipeline intent).label.destUri = destUri ∧
      (executePipeline id appId now sourceUri destUri pipeline intent).label.pipeline =
        pipeline := by
  have hstamp : ∀ l : LabelData, (stampCreated l now).id = l.id ∧
      (stampCreated l now).destUri = l.destUri ∧ (stampCreated l now).pipeline = l.pipeline := by
    intro l
    unfold stampCreated
    split
    · exact ⟨rfl, rfl, rfl⟩
    · exact ⟨rfl, rfl, rfl⟩
  have hmark : ∀ l : LabelData, (markLabelCreated l now).id = l.id ∧
      (markLabelCreated l now).destUri = l.destUri ∧
      (markLabelCreated l now).pipeline = l.pipeline := hstamp
  unfold executePipeline publish createLabel
  dsimp only
  split
  · rw [(hmark _).1, (hmark _).2.1, (hmark _).2.2, (hmark _).1, (hmark _).2.1, (hmark _).2.2]
    exact ⟨rfl, rfl, rfl⟩
  · exact hmark _

/-- A pipeline request delivers exactly when the bytes of its source do not matter. -/
theorem pipeline_delivered_iff (workerId : Int) (root : String) {tier : WorkerTier}
    (htier : tier ≠ .databot) (repo : ProgramRepository) (keyValue : Bool) (id : UInt64)
    (appId : UInt32) (now : UInt64) (sourceUri : String) {destUri : String}
    (hdest : Accepts keyValue destUri) (pipeline : Pipeline) (intent : Intent)
    {s : Storage KeyedStores} (hfresh : s.warehouse id = none) :
    PipelineDelivered (registryExecutor workerId root tier repo keyValue) repo s sourceUri destUri
        pipeline (executePipeline id appId now sourceUri destUri pipeline intent).label ↔
      SourceIrrelevant (registryExecutor workerId root tier repo keyValue) repo s sourceUri
        pipeline := by
  obtain ⟨hid, huri, hpipeline⟩ := executePipeline_fields id appId now sourceUri destUri pipeline
    intent
  have hleaves : ∀ data, Leaves (registryExecutor workerId root tier repo keyValue) _ s destUri data ↔ _ :=
    leaves_iff htier hdest huri (hid.symm ▸ hfresh)
  rw [hpipeline] at hleaves
  unfold PipelineDelivered SourceIrrelevant
  constructor
  · exact fun h source data hsource hrun => (hleaves data).mp (h source data hsource hrun)
  · exact fun h source data hsource hrun => (hleaves data).mpr (h source data hsource hrun)

/-! ## Runs -/

/-- A repository with one function, which returns its input. -/
def identityRepo : ProgramRepository := fun name =>
  if name = "builtin://identity" then some fun input _ => .ok input else none

def identityPipeline : Pipeline :=
  { stages := [{ operation := "builtin://identity", args := "" }] }

/-- Three bytes in file `src`, nothing staged. -/
def sourceFile : Storage KeyedStores :=
  { warehouse := fun _ => none
    files := fun _ => Function.update (fun _ => none) [['s', 'r', 'c']] (some [1, 2, 3])
    locations := { whole := fun _ => none, ranged := fun _ => [] }
    other := { redis := fun _ => none, table := fun _ => none } }

theorem dst_accepts : Accepts false "file:///dst" := ⟨by decide, .inl (by decide)⟩

theorem pipeline_delivered_identity :
    PipelineDelivered (registryExecutor 1 "root" .agentic identityRepo false) identityRepo
        sourceFile "file:///src" "file:///dst" identityPipeline
        (executePipeline 1 7 1 "file:///src" "file:///dst" identityPipeline .none).label ↔
      SourceIrrelevant (registryExecutor 1 "root" .agentic identityRepo false) identityRepo
        sourceFile "file:///src" identityPipeline :=
  pipeline_delivered_iff 1 "root" (by decide) identityRepo false 1 7 1 "file:///src" dst_accepts
    identityPipeline .none rfl

theorem identityPipeline_not_delivered :
    ¬PipelineDelivered (registryExecutor 1 "root" .agentic identityRepo false) identityRepo
      sourceFile "file:///src" "file:///dst" identityPipeline
      (executePipeline 1 7 1 "file:///src" "file:///dst" identityPipeline .none).label := by
  intro h
  have hleaves := h [1, 2, 3] [1, 2, 3] (by decide) (by decide)
  obtain ⟨decoded, hdecoded, hrun⟩ :=
    (leaves_iff (by decide) dst_accepts rfl rfl [1, 2, 3]).mp hleaves
  have hcodec : deserializePipeline (serializePipeline identityPipeline) =
      .ok identityPipeline := by decide
  obtain rfl := Except.ok.inj (hcodec.symm.trans hdecoded)
  exact absurd hrun (by decide)

end Labios
