import Labios.Dispatcher.Telemetry

/-!
# The windows add up

`windows_complete`: threads record while the publisher empties the counters, in any order of their
accesses. Nothing is lost and nothing is shown twice: the windows, the one under way, the counters
and the accesses that the calls have still to make hold together exactly what was recorded.
-/

namespace Labios

open Foundation Telemetry

open scoped UInt64.CommRing

/-! ## What a call records -/

def TelemetryCall.recorded (c : Counter) : TelemetryCall → UInt64
  | .labelDispatched priority =>
      if c = .labelsDispatched ∨ c = .laneDispatched (laneOf priority) then 1 else 0
  | .labelCompleted latency priority =>
      if c = .labelsCompleted ∨ c = .laneCompleted (laneOf priority) then 1
      else if c = .totalLatencyUs then latency else 0
  | .scalingEvent => if c = .scalingEvents then 1 else 0

def TelemetryCall.latency : TelemetryCall → Option UInt64
  | .labelCompleted latency _ => some latency
  | _ => none

def counterAmount (c : Counter) : TelemetryAccess → UInt64
  | .add counter n => if counter = c then n else 0
  | .sample _ => 0

def sampleAmount : TelemetryAccess → Multiset UInt64
  | .add _ _ => 0
  | .sample latency => {latency}

theorem counterAmount_accesses (c : Counter) (call : TelemetryCall) :
    (call.accesses.map (counterAmount c)).sum = call.recorded c := by
  cases call with
  | labelDispatched priority =>
      cases c <;>
        simp [TelemetryCall.accesses, TelemetryCall.recorded, counterAmount, eq_comm]
  | labelCompleted latency priority =>
      cases c <;>
        simp [TelemetryCall.accesses, TelemetryCall.recorded, counterAmount, eq_comm]
  | scalingEvent =>
      cases c <;>
        simp [TelemetryCall.accesses, TelemetryCall.recorded, counterAmount]

theorem sampleAmount_accesses (call : TelemetryCall) :
    (call.accesses.map sampleAmount).sum = ↑call.latency.toList := by
  cases call <;> simp [TelemetryCall.accesses, TelemetryCall.latency, sampleAmount]

theorem sum_flatMap_accesses {M : Type} [AddCommMonoid M] {amount : TelemetryAccess → M}
    {recorded : TelemetryCall → M} (h : ∀ c, (c.accesses.map amount).sum = recorded c)
    (calls : List TelemetryCall) :
    ((calls.flatMap TelemetryCall.accesses).map amount).sum = (calls.map recorded).sum := by
  induction calls with
  | nil => rfl
  | cons c calls ih =>
      rw [List.flatMap_cons, List.map_append, List.sum_append, h, ih, List.map_cons, List.sum_cons]

/-! ## The two kinds of account -/

def counterAccount (c : Counter) : Account UInt64 where
  amount := counterAmount c
  left counters _ := counters c
  shown w := w.counters c
  left_start := rfl
  shown_start := rfl
  perform s a := by
    cases a with
    | add c' n =>
        by_cases hc : c' = c
        · subst hc
          simp [Telemetry.perform, counterAmount]
        · simp [Telemetry.perform, counterAmount, hc, Function.update_of_ne (Ne.symm hc)]
    | sample l => exact (add_zero _).symm
  drained s d hunshown := by
    cases d with
    | exchange c' =>
        by_cases hc : c' = c
        · subst hc
          have hzero : s.snapshot.counters c' = 0 := hunshown
          simp [Telemetry.drained, hzero]
        · simp [Telemetry.drained, Function.update_of_ne (Ne.symm hc)]
    | swap => rfl
  sorted _ := rfl

def samplesAccount : Account (Multiset UInt64) where
  amount := sampleAmount
  left _ samples := ↑samples
  shown w := ↑w.samples
  left_start := rfl
  shown_start := rfl
  perform s a := by
    cases a with
    | add c n => exact (add_zero _).symm
    | sample l => exact (Multiset.coe_add ..).symm
  drained s d hunshown := by
    cases d with
    | exchange c => rfl
    | swap =>
        have hempty : s.snapshot.samples = [] := hunshown
        simp [Telemetry.drained, hempty]
  sorted w := Multiset.coe_eq_coe.mpr (List.perm_insertionSort ..)

/-! ## Every run -/

/-- What has been found of a counter, and what lies in it. -/
noncomputable def Telemetry.collected (s : Telemetry) (c : Counter) : UInt64 :=
  (s.windows.map (·.counters c)).sum + s.snapshot.counters c + s.counters c

def Telemetry.collectedSamples (s : Telemetry) : Multiset UInt64 :=
  (s.windows.map fun w => (w.samples : Multiset UInt64)).sum + ↑s.snapshot.samples +
    ↑s.latencySamples

def Telemetry.Quiet (s : Telemetry) : Prop := ∀ t, s.calls t = []

/-- An account without the calls under way. -/
theorem Balanced.quiet {M : Type} [AddCommMonoid M] {A : Account M} {s : Telemetry}
    (h : Balanced A s) (hquiet : s.Quiet) :
    (s.windows.map A.shown).sum + A.shown s.snapshot + A.left s.counters s.latencySamples =
      A.of (s.called.flatMap TelemetryCall.accesses) := by
  obtain ⟨pending, htotal, hbalance⟩ := h.balance
  have hzero : pending = 0 := htotal.eq_zero fun t => by
    rw [hquiet t]
    rfl
  rwa [hzero, add_zero] at hbalance

/-- Every dispatch and every completion goes to one lane. -/
theorem recorded_lanes (call : TelemetryCall) :
    call.recorded .labelsDispatched = ∑ lane, call.recorded (.laneDispatched lane) ∧
      call.recorded .labelsCompleted = ∑ lane, call.recorded (.laneCompleted lane) := by
  cases call <;> simp [TelemetryCall.recorded]

theorem sum_recorded_lanes (calls : List TelemetryCall) :
    (calls.map (·.recorded .labelsDispatched)).sum =
        ∑ lane, (calls.map (·.recorded (.laneDispatched lane))).sum ∧
      (calls.map (·.recorded .labelsCompleted)).sum =
        ∑ lane, (calls.map (·.recorded (.laneCompleted lane))).sum := by
  induction calls with
  | nil => simp
  | cons c calls ih =>
      simp only [List.map_cons, List.sum_cons, Finset.sum_add_distrib]
      rw [ih.1, ih.2, (recorded_lanes c).1, (recorded_lanes c).2]
      exact ⟨rfl, rfl⟩

/-- The samples are the summands of the total latency, as many as there are completions. -/
theorem sum_latencies (calls : List TelemetryCall) :
    (calls.map (·.recorded .totalLatencyUs)).sum =
        (calls.map fun c => (c.latency.toList : Multiset UInt64)).sum.sum ∧
      (calls.map (·.recorded .labelsCompleted)).sum =
        ((calls.map fun c => (c.latency.toList : Multiset UInt64)).sum.card : UInt64) := by
  induction calls with
  | nil => simp
  | cons c calls ih =>
      rw [List.map_cons, List.map_cons, List.map_cons, List.sum_cons, List.sum_cons,
        List.sum_cons, ih.1, ih.2, Multiset.sum_add, Multiset.card_add, Nat.cast_add]
      cases c <;> simp [TelemetryCall.recorded, TelemetryCall.latency]

theorem windows_complete {actions : List TelemetryAction} {s : Telemetry}
    (hexec : exec Telemetry.step {} actions = some s) :
    (∀ c, ∃ pending, HasTotal (fun t => ((s.calls t).map (counterAmount c)).sum) pending ∧
      s.collected c + pending = (s.called.map (·.recorded c)).sum) ∧
    (∃ pending, HasTotal (fun t => ((s.calls t).map sampleAmount).sum) pending ∧
      s.collectedSamples + pending =
        (s.called.map fun c => (c.latency.toList : Multiset UInt64)).sum) ∧
    (s.Quiet →
      s.collected .labelsDispatched = ∑ lane, s.collected (.laneDispatched lane) ∧
      s.collected .labelsCompleted = ∑ lane, s.collected (.laneCompleted lane) ∧
      s.collected .labelsCompleted = (s.collectedSamples.card : UInt64) ∧
      s.collected .totalLatencyUs = s.collectedSamples.sum) := by
  have hcounter := fun c => account_run (counterAccount c) hexec
  have hsamples := account_run samplesAccount hexec
  refine ⟨fun c => ?_, ?_, fun hquiet => ?_⟩
  · obtain ⟨pending, htotal, hbalance⟩ := (hcounter c).balance
    exact ⟨pending, htotal,
      hbalance.trans (sum_flatMap_accesses (counterAmount_accesses c) s.called)⟩
  · obtain ⟨pending, htotal, hbalance⟩ := hsamples.balance
    exact ⟨pending, htotal, hbalance.trans (sum_flatMap_accesses sampleAmount_accesses s.called)⟩
  · have hcollected : ∀ c, s.collected c = (s.called.map (·.recorded c)).sum := fun c =>
      ((hcounter c).quiet hquiet).trans (sum_flatMap_accesses (counterAmount_accesses c) s.called)
    have hcollectedSamples : s.collectedSamples =
        (s.called.map fun c => (c.latency.toList : Multiset UInt64)).sum :=
      (hsamples.quiet hquiet).trans (sum_flatMap_accesses sampleAmount_accesses s.called)
    simp only [hcollected, hcollectedSamples]
    obtain ⟨hdispatched, hcompleted⟩ := sum_recorded_lanes s.called
    obtain ⟨hlatency, hcount⟩ := sum_latencies s.called
    exact ⟨hdispatched, hcompleted, hcount, hlatency⟩

/-- The window closes while a completion is half recorded. -/
def straddlingWindows : List TelemetryAction :=
  [.call 0 (.labelCompleted 30 200), .record 0] ++ List.replicate 11 .drain ++
    [.call 1 (.labelDispatched 7), .publish, .record 0, .record 1, .record 0, .record 0, .record 1]

theorem windows_complete_straddling :
    ∃ s, exec Telemetry.step {} straddlingWindows = some s ∧ s.counters .labelsCompleted = 0 ∧
      s.counters .totalLatencyUs = 30 ∧ ∃ pending,
        HasTotal (fun t => ((s.calls t).map sampleAmount).sum) pending ∧
        s.collectedSamples + pending = ({30} : Multiset UInt64) := by
  have hrun : (exec Telemetry.step {} straddlingWindows).map (fun s =>
      (s.counters .labelsCompleted, s.counters .totalLatencyUs, s.called)) =
      some (0, 30, [.labelCompleted 30 200, .labelDispatched 7]) := by decide +kernel
  obtain ⟨s, hs, hfound⟩ := Option.map_eq_some_iff.mp hrun
  simp only [Prod.mk.injEq] at hfound
  obtain ⟨hcompleted, hlatency, hcalled⟩ := hfound
  obtain ⟨pending, htotal, hbalance⟩ := (windows_complete hs).2.1
  refine ⟨s, hs, hcompleted, hlatency, pending, htotal, hbalance.trans ?_⟩
  rw [hcalled]
  rfl

end Labios
