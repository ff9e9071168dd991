import Labios.Client.Model
import Labios.Dispatcher.Steps
import Labios.Worker.OwnStorage

/-!
# A home for every file

Where all supertasks go to the worker that the catalog has for their files, every
file keeps the worker that wrote it first: its home. `Homed` is the invariant over
the steps of the loop and of the workers. What is on its way counts too, so that
it does not matter who moves first.

A read may be sent before anybody has written its file, and then stands anywhere;
only the files written in an earlier batch bind it (`Stands`).
-/

namespace Labios

open Foundation LocationCommand

/-! ## Labels -/

theorem FromLabelManager.pointer {l : LabelData} (h : FromLabelManager l) : PointerIO l :=
  ⟨h.plain, h.sourceUri, h.destUri, h.pipeline, h.children⟩

theorem work_markLabelShuffled (l : LabelData) (now : UInt64) :
    work (markLabelShuffled l now) = work l :=
  work_of_request (request_markLabelShuffled l now)

theorem work_mark {ρ : Type} (d : Dispatcher ρ) (workers : List WorkerInfo) (w : Int)
    (policy : String) (l : LabelData) : work (mark d workers w policy l) = work l :=
  work_of_request (request_mark d workers w policy l)

/-- The locations of a write are those of its file; a read has none. -/
theorem locating_eq {l : LabelData} (h : PointerIO l) (w : Int) :
    locating w l =
      if l.type = .write then
        settingLocation l.fileKey (labelRange l).offset l.dataSize w
      else [] := by
  unfold locating
  rcases h.plain.kind with hr | hw
  · rw [hr]
    rfl
  · rw [hw, h.plain.destination_eq hw]
    rfl

theorem writeLocation_of_pointer {l : LabelData} (h : PointerIO l) (locations : LocationCatalog) :
    writeLocation locations l = if l.type = .write then locations.whole l.fileKey else none := by
  unfold writeLocation
  rcases h.plain.kind with hr | hw
  · rw [hr]
    rfl
  · rw [hw, h.plain.destination_eq hw]
    rfl

theorem names_locating {home : String → Option Int} {l : LabelData} (h : PointerIO l) {w : Int}
    (hhome : l.type = .write → home l.fileKey = some w) {c : LocationCommand}
    (hc : c ∈ locating w l) : c.Names home := by
  rw [locating_eq h] at hc
  split at hc
  · next hw =>
      rcases List.mem_cons.mp hc with rfl | hc
      · exact hhome hw
      · rw [List.mem_singleton.mp hc]
        exact hhome hw
  · exact absurd hc List.not_mem_nil

theorem set_mem_locating {l : LabelData} (h : PointerIO l) (hw : l.type = .write) (w : Int) :
    .set l.fileKey w ∈ locating w l := by
  rw [locating_eq h, if_pos hw]
  exact List.mem_cons_of_mem _ List.mem_cons_self

/-- What the shuffle makes of labels of the label manager. -/
theorem pointer_of_unit {S : StdSort} {config : ShufflerConfig} {batch : List LabelData}
    (hagg : config.aggregationEnabled = false) (hids : DistinctIds batch)
    (hlabels : ∀ l ∈ batch, FromLabelManager l) {lookup : Option LocationLookup}
    {u : List LabelData} (hu : u ∈ (shuffle S config batch lookup).units) {l : LabelData}
    (hl : l ∈ u) : PointerIO l := by
  obtain ⟨m, hm, hcore⟩ := core_of_mem_unit hids hu hl
  rw [aggregated_disabled S hagg] at hm
  exact (hlabels m hm).pointer.of_work (work_of_core hcore)

/-! ## Files written earlier -/

/-- A write of the file was executed in a batch before `turn`. -/
def WrittenBefore (executed : List Handling) (turn : Nat) (k : String) : Prop :=
  ∃ h ∈ executed, h.turn < turn ∧ h.label.type = .write ∧ h.label.fileKey = k

/-- What the batch at hand executes is not earlier. -/
theorem writtenBefore_concat {executed : List Handling} {turn : Nat} {x : Handling}
    (hx : x.turn = turn) :
    WrittenBefore (executed ++ [x]) turn = WrittenBefore executed turn := by
  funext k
  refine propext ⟨?_, ?_⟩
  · rintro ⟨h, hmem, hlt, hrest⟩
    rcases List.mem_append.mp hmem with hmem | hmem
    · exact ⟨h, hmem, hlt, hrest⟩
    · rw [List.mem_singleton.mp hmem] at hlt
      omega
  · rintro ⟨h, hmem, hrest⟩
    exact ⟨h, List.mem_append_left _ hmem, hrest⟩

/-! ## The invariant -/

/-- The label may stand in the line of a worker. -/
structure Stands (home : String → Option Int) (earlier : String → Prop) (w : Int) (l : LabelData) :
    Prop where
  pointer : PointerIO l
  write : l.type = .write → home l.fileKey = some w
  read : l.type = .read → earlier l.fileKey → home l.fileKey = some w

def DispatchOp.Homed (home : String → Option Int) (earlier : String → Prop) : DispatchOp → Prop
  | locate c => c.Names home
  | publish w labels => ∀ l ∈ labels, Stands home earlier w l

/-- What is left of a batch. -/
structure Progress.Homed (home : String → Option Int) (earlier : String → Prop) (p : Progress) :
    Prop where
  looking : ∀ l ∈ p.looking, PointerIO l
  direct : ∀ r ∈ p.direct, PointerIO r.1 ∧ home r.1.fileKey = some r.2
  supertasks : ∀ t ∈ p.supertasks, t.composite.type = .composite ∧ ∀ l ∈ t.children, PointerIO l
  independent : ∀ l ∈ p.independent, PointerIO l ∧ (l.type = .read → ¬earlier l.fileKey)

section Invariant

variable {ρ σ : Type}

/-- The files written before the batch at hand. -/
abbrev LoopState.Earlier (s : LoopState ρ σ) : String → Prop :=
  WrittenBefore s.lines.executed (s.progress.taken - 1)

structure Homed (home : String → Option Int) (s : LoopState ρ σ) : Prop where
  catalog : s.dispatch.locations.Names home
  /-- The catalog knows a home, or is about to. -/
  anchored : ∀ k w, home k = some w →
    s.dispatch.locations.whole k = some w ∨ .locate (.set k w) ∈ s.progress.ops
  ops : ∀ op ∈ s.progress.ops, op.Homed home s.Earlier
  owed : ∀ w, ∀ c ∈ s.owed w, c.Names home
  line : ∀ w, ∀ x ∈ s.lines.line w,
    x.worker = w ∧ x.turn = s.progress.taken - 1 ∧ Stands home s.Earlier w x.label
  executed : ∀ h ∈ s.lines.executed, h.label.type = .write → home h.label.fileKey = some h.worker
  progress : s.progress.Homed home s.Earlier

/-- Every batch is executed before the next is taken. -/
def Drained (s : LoopState ρ σ) : Prop :=
  s.progress.ops = [] → s.progress.looking = [] → s.progress.direct = [] →
    s.progress.supertasks = [] → s.progress.independent = [] →
      ∀ w, s.lines.waiting w = [] ∧ s.owed w = []

/-- The condition on the next step of the loop, for what is left of the batch. -/
def PlacedNext (d : Dispatcher ρ) (s : LoopState ρ σ) :
    List DispatchOp → List LabelData → List (LabelData × Int) → List Supertask →
      List LabelData → Prop
  | [], [], [], t :: _, _ =>
      ∀ w ∈ (d.selectWorker s.progress.workers (shuffledTask d.now t).composite.intent
          s.dispatch.solver).1,
        ∀ l ∈ t.children, ∀ w' ∈ s.dispatch.locations.whole l.fileKey, w' = w
  | [], [], [], [], l :: _ =>
      l.type = .write → ∀ w' ∈ s.dispatch.locations.whole l.fileKey, w' ≤ 0 →
        ∀ w ∈ (d.selectWorker s.progress.workers (markLabelShuffled l d.now).intent
          s.dispatch.solver).1, w' = w
  | _, _, _, _, _ => True

/-- What the loop asks the solver about goes where the catalog has its files. -/
def WellPlaced (d : Dispatcher ρ) (s : LoopState ρ σ) : Prop :=
  PlacedNext d s s.progress.ops s.progress.looking s.progress.direct s.progress.supertasks
    s.progress.independent

instance decidablePlacedNext (d : Dispatcher ρ) (s : LoopState ρ σ) :
    ∀ ops looking direct tasks independent,
      Decidable (PlacedNext d s ops looking direct tasks independent)
  | [], [], [], _ :: _, _ => inferInstanceAs (Decidable (∀ w ∈ _, ∀ l ∈ _, ∀ w' ∈ _, _))
  | [], [], [], [], _ :: _ => inferInstanceAs (Decidable (_ → ∀ w' ∈ _, _ → ∀ w ∈ _, _))
  | [], [], [], [], [] => instDecidableTrue
  | _ :: _, _, _, _, _ => instDecidableTrue
  | [], _ :: _, _, _, _ => instDecidableTrue
  | [], [], _ :: _, _, _ => instDecidableTrue

instance (d : Dispatcher ρ) (s : LoopState ρ σ) : Decidable (WellPlaced d s) :=
  decidablePlacedNext d s _ _ _ _ _

/-! ### Monotonicity -/

variable {home more : String → Option Int} {earlier : String → Prop}

theorem Stands.mono {w : Int} {l : LabelData} (h : Stands home earlier w l)
    (hmore : ∀ k w, home k = some w → more k = some w) : Stands more earlier w l :=
  ⟨h.pointer, fun hw => hmore _ _ (h.write hw), fun hr hk => hmore _ _ (h.read hr hk)⟩

theorem Stands.of_work {w : Int} {a b : LabelData} (h : work a = work b)
    (ha : Stands home earlier w a) : Stands home earlier w b := by
  have hkey := fileKey_of_work h
  have htype := type_of_work h
  refine ⟨ha.pointer.of_work h, fun hw => ?_, fun hr hk => ?_⟩
  · rw [← hkey]
    exact ha.write (htype.trans hw)
  · rw [← hkey] at hk ⊢
    exact ha.read (htype.trans hr) hk

theorem LocationCommand.Names.mono {c : LocationCommand} (h : c.Names home)
    (hmore : ∀ k w, home k = some w → more k = some w) : c.Names more := by
  cases c with
  | zadd path e => exact hmore _ _ h
  | set path w => exact hmore _ _ h

theorem Progress.Homed.mono {p : Progress} (h : p.Homed home earlier)
    (hmore : ∀ k w, home k = some w → more k = some w) : p.Homed more earlier :=
  ⟨h.looking, fun r hr => ⟨(h.direct r hr).1, hmore _ _ (h.direct r hr).2⟩, h.supertasks,
    h.independent⟩

variable {s : LoopState ρ σ}

/-- A file that was written has a home. -/
theorem Homed.home_of_earlier (h : Homed home s) {k : String} (hk : s.Earlier k) :
    ∃ w, home k = some w := by
  obtain ⟨x, hx, _, hw, rfl⟩ := hk
  exact ⟨x.worker, h.executed x hx hw⟩

/-- Between two accesses the catalog knows all homes. -/
theorem Homed.whole_eq (h : Homed home s) (hops : s.progress.ops = []) (k : String) :
    s.dispatch.locations.whole k = home k := by
  cases hhome : home k with
  | some w =>
      rcases h.anchored k w hhome with hw | hw
      · exact hw
      · rw [hops] at hw
        exact absurd hw List.not_mem_nil
  | none =>
      cases hwhole : s.dispatch.locations.whole k with
      | none => rfl
      | some w => exact absurd (h.catalog.whole k w hwhole) (by rw [hhome]; simp)

/-! ### The accesses of the loop -/

variable {d : Dispatcher ρ} {S : StdSort} {intakes : Nat → Intake}

theorem Homed.locate (h : Homed home s) {c : LocationCommand} {rest : List DispatchOp}
    (hops : s.progress.ops = .locate c :: rest) : Homed home (s.performed rest (.locate c)) := by
  have hc : c.Names home := h.ops (.locate c) (by rw [hops]; exact List.mem_cons_self)
  refine ⟨h.catalog.apply hc, fun k w hk => ?_, fun op hop => h.ops op ?_, h.owed, h.line,
    h.executed, ⟨h.progress.looking, h.progress.direct, h.progress.supertasks,
      h.progress.independent⟩⟩
  · rcases h.anchored k w hk with hw | hw
    · exact .inl (h.catalog.whole_apply hw hc)
    · rw [hops] at hw
      rcases List.mem_cons.mp hw with hw | hw
      · obtain rfl := DispatchOp.locate.inj hw
        exact .inl (Function.update_self ..)
      · exact .inr hw
  · rw [hops]
    exact List.mem_cons_of_mem _ hop

theorem Homed.publish (h : Homed home s) {w : Int} {labels : List LabelData}
    {rest : List DispatchOp} (hops : s.progress.ops = .publish w labels :: rest) :
    Homed home (s.performed rest (.publish w labels)) := by
  have hlabels : ∀ l ∈ labels, Stands home s.Earlier w l :=
    h.ops (.publish w labels) (by rw [hops]; exact List.mem_cons_self)
  refine ⟨h.catalog, fun k v hk => ?_, fun op hop => h.ops op ?_, h.owed, ?_, h.executed,
    ⟨h.progress.looking, h.progress.direct, h.progress.supertasks, h.progress.independent⟩⟩
  · rcases h.anchored k v hk with hv | hv
    · exact .inl hv
    · rw [hops] at hv
      rcases List.mem_cons.mp hv with hv | hv
      · exact absurd hv (by simp)
      · exact .inr hv
  · rw [hops]
    exact List.mem_cons_of_mem _ hop
  · intro v x hx
    change x ∈ (s.lines.push w _).line v at hx
    by_cases hv : v = w
    · subst hv
      rw [Lines.push_line] at hx
      rcases List.mem_append.mp hx with hx | hx
      · exact h.line v x hx
      · obtain ⟨l, hl, rfl⟩ := List.mem_map.mp hx
        exact ⟨rfl, rfl, hlabels l hl⟩
    · rw [Lines.push_line_of_ne _ _ hv] at hx
      exact h.line v x hx

/-! ### Reads are looked up -/

theorem Homed.withProgress (h : Homed home s) {p : Progress}
    (htaken : p.taken = s.progress.taken) (hops : p.ops = s.progress.ops)
    (hp : p.Homed home s.Earlier) : Homed home { s with progress := p } := by
  have hearlier : LoopState.Earlier { s with progress := p } = s.Earlier := by
    show WrittenBefore s.lines.executed (p.taken - 1) = _
    rw [htaken]
  refine ⟨h.catalog, fun k w hk => ?_, fun op hop => ?_, h.owed, fun w x hx => ?_, h.executed, ?_⟩
  · rw [hops]
    exact h.anchored k w hk
  · rw [hearlier]
    exact h.ops op (hops ▸ hop)
  · rw [hearlier, htaken]
    exact h.line w x hx
  · rw [hearlier]
    exact hp

theorem Homed.look (h : Homed home s) (hops : s.progress.ops = []) {l : LabelData}
    {rest : List LabelData} (hlooking : s.progress.looking = l :: rest) :
    Homed home { s with progress := s.progress.lookUp s.dispatch.locations l rest } := by
  have hl : PointerIO l := h.progress.looking l (by rw [hlooking]; exact List.mem_cons_self)
  have hrest : ∀ x ∈ rest, PointerIO x := fun x hx =>
    h.progress.looking x (by rw [hlooking]; exact List.mem_cons_of_mem _ hx)
  have halone : (l.type = .read → ¬s.Earlier l.fileKey) → ∀ p : Progress,
      p = { s.progress with
        looking := rest, missed := false, independent := s.progress.independent ++ [l] } →
      p.Homed home s.Earlier := by
    rintro hread p rfl
    refine ⟨hrest, h.progress.direct, h.progress.supertasks, fun x hx => ?_⟩
    rcases List.mem_append.mp hx with hx | hx
    · exact h.progress.independent x hx
    · rw [List.mem_singleton.mp hx]
      exact ⟨hl, hread⟩
  unfold Progress.lookUp
  split
  · next hread =>
      dsimp only
      split
      · -- every entry names the home
        next w hfound =>
          have hhome : home l.fileKey = some w := by
            split at hfound
            · exact h.catalog.whole _ _ hfound
            · exact h.catalog.findRanged hfound
          refine h.withProgress rfl rfl ⟨hrest, fun r hr => ?_, h.progress.supertasks,
            h.progress.independent⟩
          rcases List.mem_append.mp hr with hr | hr
          · exact h.progress.direct r hr
          · rw [List.mem_singleton.mp hr]
            exact ⟨hl, hhome⟩
      · next hfound =>
          split
          · -- no entry, so nobody has written the file
            next hmissed =>
              rw [if_pos hmissed, h.whole_eq hops] at hfound
              refine h.withProgress rfl rfl (halone (fun _ hk => ?_) _ rfl)
              obtain ⟨w, hw⟩ := h.home_of_earlier hk
              rw [hfound] at hw
              exact absurd hw (by simp)
          · exact h.withProgress rfl rfl ⟨h.progress.looking, h.progress.direct, h.progress.supertasks,
              h.progress.independent⟩
  · next hread =>
      refine h.withProgress rfl rfl ⟨hrest, h.progress.direct, h.progress.supertasks, fun x hx => ?_⟩
      rcases List.mem_append.mp hx with hx | hx
      · exact h.progress.independent x hx
      · rw [List.mem_singleton.mp hx]
        exact ⟨hl, fun hr => absurd hr hread⟩

/-! ### Labels are routed -/

theorem Homed.routed (h : Homed home s) (hops : s.progress.ops = [])
    (hmore : ∀ k w, home k = some w → more k = some w) {p : Progress}
    (hp : p.Homed home s.Earlier) (htaken : p.taken = s.progress.taken)
    {after : DispatchState ρ} {commands : List LocationCommand}
    (hnames : ∀ c ∈ commands, c.Names more)
    (hnew : ∀ k w, more k = some w → home k = some w ∨ .set k w ∈ commands)
    (hmessages : ∀ m ∈ messagesOf s.dispatch after, ∀ x ∈ unpack after.supertasks m,
      Stands more s.Earlier m.1 x.2) :
    Homed more (s.routed p after commands) := by
  have hearlier : (s.routed p after commands).Earlier = s.Earlier := by
    show WrittenBefore s.lines.executed (p.taken - 1) = _
    rw [htaken]
  refine ⟨h.catalog.mono hmore, fun k w hk => ?_, ?_, fun w c hc => (h.owed w c hc).mono hmore,
    fun w x hx => ?_, fun x hx hw => hmore _ _ (h.executed x hx hw), ?_⟩
  · rcases hnew k w hk with hhome | hc
    · exact .inl ((h.whole_eq hops k).trans hhome)
    · exact .inr (List.mem_append_left _ (List.mem_map_of_mem hc))
  · rw [hearlier]
    intro op hop
    rcases List.mem_append.mp hop with hop | hop
    · obtain ⟨c, hc, rfl⟩ := List.mem_map.mp hop
      exact hnames c hc
    · obtain ⟨m, hm, rfl⟩ := List.mem_map.mp hop
      intro l hl
      obtain ⟨x, hx, rfl⟩ := List.mem_map.mp hl
      exact hmessages m hm x hx
  · rw [hearlier]
    obtain ⟨hworker, hturn, hstands⟩ := h.line w x hx
    exact ⟨hworker, hturn.trans (congrArg (· - 1) htaken.symm), hstands.mono hmore⟩
  · rw [hearlier]
    exact ⟨hp.looking, (hp.mono hmore).direct, hp.supertasks, hp.independent⟩

/-- The files of some writes move in with a worker. -/
def rehome (home : String → Option Int) (w : Int) (labels : List LabelData) (k : String) :
    Option Int :=
  if ∃ l ∈ labels, l.type = .write ∧ l.fileKey = k then some w else home k

/-- Labels go to a worker that is home to their files, or becomes it. -/
theorem Homed.placed (h : Homed home s) (hops : s.progress.ops = []) {p : Progress}
    (hp : p.Homed home s.Earlier) (htaken : p.taken = s.progress.taken) {w : Int}
    {labels : List LabelData} (hlabels : ∀ l ∈ labels, PointerIO l)
    (hwrite : ∀ l ∈ labels, l.type = .write → ∀ v, home l.fileKey = some v → v = w)
    (hread : ∀ l ∈ labels, l.type = .read → s.Earlier l.fileKey → home l.fileKey = some w)
    {after : DispatchState ρ}
    (hmessages : ∀ m ∈ messagesOf s.dispatch after,
      m.1 = w ∧ ∀ x ∈ unpack after.supertasks m, ∃ l ∈ labels, work l = work x.2) :
    Homed (rehome home w labels) (s.routed p after (labels.flatMap (locating w))) := by
  have hself : ∀ l ∈ labels, l.type = .write → rehome home w labels l.fileKey = some w :=
    fun l hl hw => if_pos ⟨l, hl, hw, rfl⟩
  have hmore : ∀ k v, home k = some v → rehome home w labels k = some v := by
    intro k v hv
    unfold rehome
    split
    · next hex =>
        obtain ⟨l, hl, hw, rfl⟩ := hex
        rw [hwrite l hl hw v hv]
    · exact hv
  refine h.routed hops hmore hp htaken (fun c hc => ?_) (fun k v hv => ?_) fun m hm x hx => ?_
  · obtain ⟨l, hl, hc⟩ := List.mem_flatMap.mp hc
    exact names_locating (hlabels l hl) (hself l hl) hc
  · unfold rehome at hv
    split at hv
    · next hex =>
        obtain ⟨l, hl, hw, rfl⟩ := hex
        obtain rfl := Option.some.inj hv
        exact .inr (List.mem_flatMap.mpr ⟨l, hl, set_mem_locating (hlabels l hl) hw w⟩)
    · exact .inl hv
  · obtain ⟨rfl, hunpack⟩ := hmessages m hm
    obtain ⟨l, hl, hwork⟩ := hunpack x hx
    exact Stands.of_work hwork ⟨hlabels l hl, hself l hl,
      fun hr hk => hmore _ _ (hread l hl hr hk)⟩

theorem unpack_of_pointer {l : LabelData} (hl : PointerIO l)
    (packed : UInt64 → Option (List LabelData)) (w : Int) : unpack packed (w, l) = [(w, l)] := by
  refine if_neg fun hc => ?_
  rcases hl.plain.kind with hr | hw
  · exact absurd (hr.symm.trans hc) (by decide)
  · exact absurd (hw.symm.trans hc) (by decide)

theorem Homed.direct (h : Homed home s) (hops : s.progress.ops = []) {r : LabelData × Int}
    {rest : List (LabelData × Int)} (hdirect : s.progress.direct = r :: rest) :
    Homed home (s.routed { s.progress with direct := rest }
      (routeDirect d s.progress.workers s.dispatch (markLabelShuffled r.1 d.now, r.2)) []) := by
  obtain ⟨hr, hhome⟩ := h.progress.direct r (by rw [hdirect]; exact List.mem_cons_self)
  have hp : Progress.Homed home s.Earlier { s.progress with direct := rest } :=
    ⟨h.progress.looking,
      fun x hx => h.progress.direct x (by rw [hdirect]; exact List.mem_cons_of_mem _ hx),
      h.progress.supertasks, h.progress.independent⟩
  refine h.routed hops (fun _ _ hk => hk) hp rfl (fun c hc => absurd hc List.not_mem_nil)
    (fun k w hk => .inl hk) fun m hm x hx => ?_
  have hmessages : messagesOf s.dispatch (routeDirect d s.progress.workers s.dispatch
      (markLabelShuffled r.1 d.now, r.2)) = [(r.2, mark d s.progress.workers r.2 "read-locality"
        (markLabelShuffled r.1 d.now))] := messagesOf_append rfl
  have hwork : work r.1 = work (mark d s.progress.workers r.2 "read-locality"
      (markLabelShuffled r.1 d.now)) := by
    rw [work_mark, work_markLabelShuffled]
  rw [hmessages] at hm
  obtain rfl := List.mem_singleton.mp hm
  rw [unpack_of_pointer (hr.of_work hwork)] at hx
  obtain rfl := List.mem_singleton.mp hx
  exact Stands.of_work hwork ⟨hr, fun _ => hhome, fun _ _ => hhome⟩

/-- A supertask goes where its files are. -/
theorem Homed.supertask (h : Homed home s) (hops : s.progress.ops = []) {t : Supertask}
    {rest : List Supertask} (htasks : s.progress.supertasks = t :: rest)
    (hplaced : ∀ w ∈ (d.selectWorker s.progress.workers (shuffledTask d.now t).composite.intent
      s.dispatch.solver).1,
        ∀ l ∈ t.children, ∀ v ∈ s.dispatch.locations.whole l.fileKey, v = w) :
    ∃ more, Homed more (s.routed { s.progress with supertasks := rest }
      (routeSupertask d s.progress.workers s.dispatch (shuffledTask d.now t))
      (taskCommands d s.progress.workers s.dispatch (shuffledTask d.now t))) := by
  obtain ⟨htype, hchildren⟩ := h.progress.supertasks t (by rw [htasks]; exact List.mem_cons_self)
  have hp : Progress.Homed home s.Earlier { s.progress with supertasks := rest } :=
    ⟨h.progress.looking, h.progress.direct,
      fun x hx => h.progress.supertasks x (by rw [htasks]; exact List.mem_cons_of_mem _ hx),
      h.progress.independent⟩
  unfold routeSupertask taskCommands
  rcases hselect : d.selectWorker s.progress.workers (shuffledTask d.now t).composite.intent
    s.dispatch.solver with ⟨_ | w, solver⟩
  · -- the supertask is gone
    refine ⟨home, h.routed hops (fun _ _ hk => hk) hp rfl
      (fun c hc => absurd hc List.not_mem_nil) (fun k w hk => .inl hk) fun m hm => ?_⟩
    have hnone : messagesOf s.dispatch { s.dispatch with solver } = [] :=
      messagesOf_append (List.append_nil _).symm
    rw [hnone] at hm
    exact absurd hm List.not_mem_nil
  · rw [hselect] at hplaced
    have hat : ∀ l ∈ t.children, ∀ v, home l.fileKey = some v → v = w := fun l hl v hv =>
      hplaced w rfl l hl v ((h.whole_eq hops l.fileKey).trans hv)
    have hshuffled : ∀ l ∈ (shuffledTask d.now t).children, ∃ c ∈ t.children, work c = work l := by
      intro l hl
      obtain ⟨c, hc, rfl⟩ := List.mem_map.mp hl
      exact ⟨c, hc, (work_markLabelShuffled c d.now).symm⟩
    refine ⟨_, h.placed hops hp rfl (fun l hl => ?_) (fun l hl _ v hv => ?_)
      (fun l hl _ hk => ?_) fun m hm => ?_⟩
    · obtain ⟨c, hc, hwork⟩ := hshuffled l hl
      exact (hchildren c hc).of_work hwork
    · obtain ⟨c, hc, hwork⟩ := hshuffled l hl
      rw [← fileKey_of_work hwork] at hv
      exact hat c hc v hv
    · obtain ⟨c, hc, hwork⟩ := hshuffled l hl
      rw [← fileKey_of_work hwork] at hk ⊢
      obtain ⟨v, hv⟩ := h.home_of_earlier hk
      rw [← hat c hc v hv]
      exact hv
    · dsimp only at hm ⊢
      rw [messagesOf_append rfl] at hm
      obtain rfl := List.mem_singleton.mp hm
      refine ⟨rfl, fun x hx => ?_⟩
      have hcomposite : (mark d s.progress.workers w d.policy
          (shuffledTask d.now t).composite).type = .composite := by
        rw [type_of_work (work_mark d s.progress.workers w d.policy _)]
        exact (type_of_work (work_markLabelShuffled t.composite d.now)).trans htype
      change x ∈ unpack (Function.update _ _ _) _ at hx
      unfold unpack at hx
      rw [if_pos hcomposite, Function.update_self] at hx
      obtain ⟨l, hl, rfl⟩ := List.mem_map.mp hx
      obtain ⟨c, hc, rfl⟩ := List.mem_map.mp hl
      exact ⟨c, hc, (work_mark d s.progress.workers w d.policy c).symm⟩

/-- A label that goes out alone is sent to one worker, or to none. -/
theorem messagesOf_routeIndependent (workers : List WorkerInfo) (fanout : ReplyFanout)
    (st : DispatchState ρ) {l : LabelData} (hl : PointerIO l) :
    messagesOf st (routeIndependent d workers fanout (st, []) l).1 =
      ((placeIndependent d workers st l).1.map fun p =>
        (p.1, mark d workers p.1 p.2 l)).toList := by
  have hassemble : assemble d fanout st l = (l, st) :=
    if_neg fun hc => hc.1 hl.children
  rw [messagesOf_append (routeIndependent_alone d workers fanout (st, []) l).sent, hassemble]

/-- Whoever gets the label gets the work of the label. -/
theorem sent_independent (workers : List WorkerInfo) (fanout : ReplyFanout)
    (st : DispatchState ρ) {label : LabelData} (hlabel : PointerIO label) {w : Int}
    {policy : String} (hplace : (placeIndependent d workers st label).1 = some (w, policy)) :
    ∀ m ∈ messagesOf st (routeIndependent d workers fanout (st, []) label).1,
      ∀ packed, m.1 = w ∧ ∀ x ∈ unpack packed m, work label = work x.2 := by
  intro m hm packed
  rw [messagesOf_routeIndependent workers fanout st hlabel, hplace] at hm
  obtain rfl := List.mem_singleton.mp hm
  have hmark := (work_mark d workers w policy label).symm
  refine ⟨rfl, fun x hx => ?_⟩
  rw [unpack_of_pointer (hlabel.of_work hmark)] at hx
  rw [List.mem_singleton.mp hx]
  exact hmark

/-- A label that is located follows its file. -/
theorem Homed.independent_located (h : Homed home s) (hops : s.progress.ops = [])
    {p : Progress} (hp : p.Homed home s.Earlier) (htaken : p.taken = s.progress.taken)
    {label : LabelData} (hlabel : PointerIO label) {v : Int}
    (hlocated : (writeLocation s.dispatch.locations label).filter (fun w => 0 < w) = some v) :
    Homed home (s.routed p
      (routeIndependent d s.progress.workers s.progress.fanout (s.dispatch, []) label).1
      (aloneCommands d s.progress.workers s.dispatch label)) := by
  obtain ⟨hlocation, hpos⟩ := Option.filter_eq_some_iff.mp hlocated
  have hplace : (placeIndependent d s.progress.workers s.dispatch label).1 =
      some (v, "write-locality") := by rw [placeIndependent_located d _ hlocated]
  rw [writeLocation_of_pointer hlabel] at hlocation
  have hwrite : label.type = .write := by
    by_contra hne
    rw [if_neg hne] at hlocation
    exact absurd hlocation (by simp)
  rw [if_pos hwrite] at hlocation
  -- nothing is recorded, the location is there already
  have hcommands : aloneCommands d s.progress.workers s.dispatch label = [] := by
    unfold aloneCommands
    rw [hplace]
    dsimp only
    rw [writeLocation_of_pointer hlabel, if_pos hwrite, hlocation, Option.any_some, if_pos hpos]
  rw [hcommands]
  refine h.routed hops (fun _ _ hk => hk) hp htaken (fun c hc => absurd hc List.not_mem_nil)
    (fun k w hk => .inl hk) fun m hm x hx => ?_
  obtain ⟨rfl, hx'⟩ := sent_independent s.progress.workers s.progress.fanout s.dispatch hlabel
    hplace m hm _
  have hhome := h.catalog.whole _ _ hlocation
  exact Stands.of_work (hx' x hx) ⟨hlabel, fun _ => hhome, fun _ _ => hhome⟩

/-- A label that no worker is chosen for is not sent. -/
theorem Homed.independent_unsent (h : Homed home s) (hops : s.progress.ops = [])
    {p : Progress} (hp : p.Homed home s.Earlier) (htaken : p.taken = s.progress.taken)
    {label : LabelData} (hlabel : PointerIO label)
    (hplace : (placeIndependent d s.progress.workers s.dispatch label).1 = none) :
    Homed home (s.routed p
      (routeIndependent d s.progress.workers s.progress.fanout (s.dispatch, []) label).1
      (aloneCommands d s.progress.workers s.dispatch label)) := by
  have hcommands : aloneCommands d s.progress.workers s.dispatch label = [] := by
    unfold aloneCommands
    rw [hplace]
  rw [hcommands]
  refine h.routed hops (fun _ _ hk => hk) hp htaken (fun c hc => absurd hc List.not_mem_nil)
    (fun k w hk => .inl hk) fun m hm => ?_
  rw [messagesOf_routeIndependent s.progress.workers s.progress.fanout s.dispatch hlabel,
    hplace] at hm
  exact absurd hm List.not_mem_nil

/-- A label that is not located and goes to `w` makes it the home of what it writes. -/
theorem Homed.independent_placed (h : Homed home s) (hops : s.progress.ops = [])
    {p : Progress} (hp : p.Homed home s.Earlier) (htaken : p.taken = s.progress.taken)
    {label : LabelData} (hlabel : PointerIO label) {w : Int} {policy : String}
    (hany : (writeLocation s.dispatch.locations label).any (fun w => 0 < w) = false)
    (hplace : (placeIndependent d s.progress.workers s.dispatch label).1 = some (w, policy))
    (hwrite : label.type = .write → ∀ v, home label.fileKey = some v → v = w)
    (hread : label.type = .read → s.Earlier label.fileKey → home label.fileKey = some w) :
    Homed (rehome home w [label]) (s.routed p
      (routeIndependent d s.progress.workers s.progress.fanout (s.dispatch, []) label).1
      (aloneCommands d s.progress.workers s.dispatch label)) := by
  have hcommands : aloneCommands d s.progress.workers s.dispatch label =
      [label].flatMap (locating w) := by
    unfold aloneCommands
    rw [hplace]
    dsimp only
    rw [hany, if_neg (by simp), List.flatMap_singleton]
  rw [hcommands]
  refine h.placed hops hp htaken (fun x hx => ?_) (fun x hx => ?_) (fun x hx => ?_)
    fun m hm => ?_
  · rw [List.mem_singleton.mp hx]
    exact hlabel
  · obtain rfl := List.mem_singleton.mp hx
    exact hwrite
  · obtain rfl := List.mem_singleton.mp hx
    exact hread
  · obtain ⟨hworker, hx'⟩ := sent_independent s.progress.workers s.progress.fanout s.dispatch
      hlabel hplace m hm _
    exact ⟨hworker, fun x hx => ⟨label, List.mem_singleton_self _, hx' x hx⟩⟩

/-- A write follows its file, and else becomes its home; a read that no entry was
found for is free. -/
theorem Homed.independent (h : Homed home s) (hops : s.progress.ops = []) {l : LabelData}
    {rest : List LabelData} (hindependent : s.progress.independent = l :: rest)
    (hplaced : l.type = .write → ∀ v ∈ s.dispatch.locations.whole l.fileKey, v ≤ 0 →
      ∀ w ∈ (d.selectWorker s.progress.workers (markLabelShuffled l d.now).intent
        s.dispatch.solver).1, v = w) :
    ∃ more, Homed more (s.routed { s.progress with independent := rest }
      (routeIndependent d s.progress.workers s.progress.fanout (s.dispatch, [])
        (markLabelShuffled l d.now)).1
      (aloneCommands d s.progress.workers s.dispatch (markLabelShuffled l d.now))) := by
  obtain ⟨hl, hfree⟩ := h.progress.independent l (by rw [hindependent]; exact List.mem_cons_self)
  have hp : Progress.Homed home s.Earlier { s.progress with independent := rest } :=
    ⟨h.progress.looking, h.progress.direct, h.progress.supertasks,
      fun x hx => h.progress.independent x (by rw [hindependent]; exact List.mem_cons_of_mem _ hx)⟩
  have hwork : work l = work (markLabelShuffled l d.now) := (work_markLabelShuffled l d.now).symm
  have hshuffled : PointerIO (markLabelShuffled l d.now) := hl.of_work hwork
  generalize markLabelShuffled l d.now = label at hwork hshuffled hplaced ⊢
  have htype := type_of_work hwork
  have hkey := fileKey_of_work hwork
  cases hlocated : (writeLocation s.dispatch.locations label).filter (fun w => 0 < w) with
  | some v => exact ⟨home, h.independent_located hops hp rfl hshuffled hlocated⟩
  | none =>
      have hany : (writeLocation s.dispatch.locations label).any (fun w => 0 < w) = false := by
        cases hlocation : writeLocation s.dispatch.locations label with
        | none => rfl
        | some v =>
            rw [hlocation] at hlocated
            by_contra hpos
            rw [Bool.not_eq_false, Option.any_some] at hpos
            rw [Option.filter_some, if_pos hpos] at hlocated
            exact absurd hlocated (by simp)
      have hsolved := placeIndependent_solved d s.progress.workers hlocated
      cases hchoice : (d.selectWorker s.progress.workers label.intent s.dispatch.solver).1 with
      | none =>
          refine ⟨home, h.independent_unsent hops hp rfl hshuffled ?_⟩
          rw [hsolved, hchoice]
          rfl
      | some w =>
          have hplace : (placeIndependent d s.progress.workers s.dispatch label).1 =
              some (w, d.policy) := by
            rw [hsolved, hchoice]
            rfl
          refine ⟨rehome home w [label], h.independent_placed hops hp rfl hshuffled hany hplace
            (fun hw v hv => ?_) fun hr hk => ?_⟩
          · have hwhole := (h.whole_eq hops _).trans hv
            have hle : v ≤ 0 := by
              rw [writeLocation_of_pointer hshuffled, if_pos hw, hwhole] at hany
              simpa using hany
            rw [← hkey] at hwhole
            exact hplaced (htype.trans hw) v hwhole hle w hchoice
          · rw [← hkey] at hk
            exact absurd hk (hfree (htype.trans hr))

/-! ### A batch is taken -/

theorem Progress.Homed.take {p : Progress} (hdirect : p.direct = [])
    (hindependent : p.independent = []) (hlooking : p.looking = []) (htasks : p.supertasks = [])
    {intake : Intake} (hagg : d.config.aggregationEnabled = false)
    (hids : DistinctIds intake.batch) (hlabels : ∀ l ∈ intake.batch, FromLabelManager l) :
    (p.take S d intake).Homed home earlier := by
  have halone : ∀ l ∈ (shuffle S d.config intake.batch none).independent, PointerIO l := by
    intro l hl
    have hunit : [l] ∈ (shuffle S d.config intake.batch none).units :=
      List.mem_append_right _ (List.mem_map_of_mem (List.mem_append_right _ hl))
    exact pointer_of_unit hagg hids hlabels hunit (List.mem_singleton_self l)
  have htask : ∀ t ∈ (shuffle S d.config intake.batch none).supertasks,
      t.composite.type = .composite ∧ ∀ l ∈ t.children, PointerIO l := by
    intro t ht
    have hunit : t.children ∈ (shuffle S d.config intake.batch none).units :=
      List.mem_append_left _ (List.mem_map_of_mem ht)
    refine ⟨?_, fun l hl => pointer_of_unit hagg hids hlabels hunit hl⟩
    obtain ⟨key, first, others, _, rfl⟩ := (mem_supertasks hids).mp ht
    rfl
  unfold Progress.take
  split
  · refine ⟨?_, ?_, ?_, ?_⟩
    · simp [hlooking]
    · simp [hdirect]
    · simp [htasks]
    · simp [hindependent]
  · refine ⟨halone, ?_, htask, ?_⟩
    · simp [hdirect]
    · simp [hindependent]

/-- Nothing is on its way when a batch is taken, so a new turn may begin. -/
theorem Homed.take (h : Homed home s) (hdrained : Drained s) (hops : s.progress.ops = [])
    (hlooking : s.progress.looking = []) (hdirect : s.progress.direct = [])
    (htasks : s.progress.supertasks = []) (hindependent : s.progress.independent = [])
    {intake : Intake} (hagg : d.config.aggregationEnabled = false)
    (hids : DistinctIds intake.batch) (hlabels : ∀ l ∈ intake.batch, FromLabelManager l) :
    Homed home { s with progress := s.progress.take S d intake } := by
  have hquiet := hdrained hops hlooking hdirect htasks hindependent
  have hnone : (s.progress.take S d intake).ops = [] := by
    unfold Progress.take
    split
    · exact hops
    · exact hops
  refine ⟨h.catalog, fun k w hk => .inl ((h.whole_eq hops k).trans hk), fun op hop => ?_, h.owed,
    fun w x hx => ?_, h.executed,
    Progress.Homed.take hdirect hindependent hlooking htasks hagg hids hlabels⟩
  · rw [hnone] at hop
    exact absurd hop List.not_mem_nil
  · change x ∈ (s.lines.waiting w).flatten at hx
    rw [(hquiet w).1] at hx
    exact absurd hx List.not_mem_nil

/-- A step of the dispatcher. -/
theorem Homed.dispatcherStep (h : Homed home s) (hdrained : Drained s) (hplaced : WellPlaced d s)
    (hagg : d.config.aggregationEnabled = false) (hids : ∀ i, DistinctIds (intakes i).batch)
    (hlabels : ∀ i, ∀ l ∈ (intakes i).batch, FromLabelManager l) :
    ∃ more, Homed more (dispatcherStep S d intakes s) := by
  unfold WellPlaced at hplaced
  cases hops : s.progress.ops with
  | cons op rest =>
      rw [dispatcherStep_op hops]
      cases op with
      | locate c => exact ⟨home, h.locate hops⟩
      | publish w labels => exact ⟨home, h.publish hops⟩
  | nil =>
      cases hlooking : s.progress.looking with
      | cons l rest =>
          rw [dispatcherStep_look hops hlooking]
          exact ⟨home, h.look hops hlooking⟩
      | nil =>
          cases hdirect : s.progress.direct with
          | cons r rest =>
              rw [dispatcherStep_direct hops hlooking hdirect]
              exact ⟨home, h.direct hops hdirect⟩
          | nil =>
              cases htasks : s.progress.supertasks with
              | cons t rest =>
                  rw [dispatcherStep_supertask hops hlooking hdirect htasks]
                  rw [hops, hlooking, hdirect, htasks] at hplaced
                  exact h.supertask hops htasks hplaced
              | nil =>
                  cases hindependent : s.progress.independent with
                  | cons l rest =>
                      rw [dispatcherStep_independent hops hlooking hdirect htasks hindependent]
                      rw [hops, hlooking, hdirect, htasks, hindependent] at hplaced
                      exact h.independent hops hindependent hplaced
                  | nil =>
                      rw [dispatcherStep_take hops hlooking hdirect htasks hindependent]
                      exact ⟨home, h.take hdrained hops hlooking hdirect htasks hindependent hagg
                        (hids _) (hlabels _)⟩

/-! ### A worker moves -/

/-- A worker runs the label at the head of its line. -/
theorem Homed.run (h : Homed home s) {w : Int} {x : Handling} {left : List (List Handling)}
    (hx : x ∈ s.lines.line w) (hleft : ∀ y ∈ left.flatten, y ∈ s.lines.line w)
    {owed : Int → List LocationCommand} (howed : ∀ v, ∀ c ∈ owed v, c.Names home) (storage : σ) :
    Homed home { s with lines := s.lines.run w x left, owed, storage } := by
  obtain ⟨hworker, hturn, hstands⟩ := h.line w x hx
  have hearlier : LoopState.Earlier { s with lines := s.lines.run w x left, owed, storage } =
      s.Earlier := writtenBefore_concat hturn
  refine ⟨h.catalog, h.anchored, ?_, howed, fun v y hy => ?_, fun y hy hw => ?_, ?_⟩
  · rw [hearlier]
    exact h.ops
  · rw [hearlier]
    change y ∈ (s.lines.run w x left).line v at hy
    by_cases hv : v = w
    · subst hv
      rw [Lines.run_line] at hy
      exact h.line v y (hleft y hy)
    · rw [Lines.run_line_of_ne _ _ _ hv] at hy
      exact h.line v y hy
  · rcases List.mem_append.mp hy with hy | hy
    · exact h.executed y hy hw
    · obtain rfl := List.mem_singleton.mp hy
      rw [hworker]
      exact hstands.write hw
  · rw [hearlier]
    exact h.progress

variable {execute : Int → LabelData → σ → Option UInt64 × σ}

theorem Homed.workerStep (h : Homed home s) {w : Int} {s' : LoopState ρ σ}
    (hstep : workerStep execute w s = some s') : Homed home s' := by
  cases workerStep_moves hstep with
  | @record c rest howed =>
      have hc : ∀ c' ∈ c :: rest, c'.Names home := fun c' hc' => h.owed w c' (howed ▸ hc')
      refine ⟨h.catalog.apply (hc c List.mem_cons_self), fun k v hk => ?_, h.ops,
        fun v c' hc' => ?_, h.line, h.executed, h.progress⟩
      · rcases h.anchored k v hk with hv | hv
        · exact .inl (h.catalog.whole_apply hv (hc c List.mem_cons_self))
        · exact .inr hv
      · change c' ∈ Function.update s.owed w rest v at hc'
        by_cases hv : v = w
        · subst hv
          rw [Function.update_self] at hc'
          exact hc c' (List.mem_cons_of_mem _ hc')
        · rw [Function.update_of_ne hv] at hc'
          exact h.owed v c' hc'
  | finish hwaiting =>
      refine ⟨h.catalog, h.anchored, h.ops, h.owed, fun v x hx => ?_, h.executed, h.progress⟩
      change x ∈ (s.lines.finish w _).line v at hx
      rw [Lines.finish_line hwaiting] at hx
      exact h.line v x hx
  | @run x rest messages size storage howed hwaiting hexec =>
      have hline : s.lines.line w = x :: (rest ++ messages.flatten) := by
        rw [Lines.line, hwaiting]
        rfl
      have hx : x ∈ s.lines.line w := hline ▸ List.mem_cons_self
      have hleft : ∀ y ∈ (rest :: messages).flatten, y ∈ s.lines.line w := fun y hy =>
        hline ▸ List.mem_cons_of_mem x hy
      refine h.run hx hleft (fun v c hc => ?_) storage
      by_cases hv : v = w
      · subst hv
        obtain ⟨-, -, hstands⟩ := h.line v x hx
        have hfinishing : finishing v x.label size = locating v x.label :=
          if_neg fun hw => hw.2 hstands.pointer.destUri
        rw [Function.update_self, hfinishing] at hc
        exact names_locating hstands.pointer hstands.write hc
      · rw [Function.update_of_ne hv] at hc
        exact h.owed v c hc
  | @abandon x rest messages storage howed hwaiting hexec =>
      have hline : s.lines.line w = x :: (rest ++ messages.flatten) := by
        rw [Lines.line, hwaiting]
        rfl
      exact h.run (hline ▸ List.mem_cons_self)
        (fun y hy => hline ▸ List.mem_cons_of_mem _ (List.mem_append_right _ hy)) h.owed storage

end Invariant
end Labios
