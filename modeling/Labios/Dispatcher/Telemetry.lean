import Labios.Foundation.Binary64
import Labios.Foundation.Lines
import Labios.Foundation.Machine
import Labios.Solver.Workers
import Mathlib.Data.List.Sort
import Mathlib.Data.UInt
import Mathlib.Tactic.Abel

/-!
# Telemetry

`labios/telemetry.cpp`: threads record what they dispatch and complete in atomic counters, and a
publisher empties the counters at the end of each window. Every access is one step; recorders and
publisher are interleaved freely.

An `Account` follows one quantity through the accesses. `account_run` balances it: what the windows
show, what the publisher holds, what is left and what the calls have still to add is what was
recorded.
-/

namespace Labios

open Foundation

/-! ## Recording -/

/-- The lane of a priority: `kLaneDivisor` is `256 / kNumLanes`. -/
def laneOf (priority : UInt8) : Fin 3 := ⟨min (priority.toNat / (256 / 3)) 2, by omega⟩

/-- The atomic counters. -/
inductive Counter
  | labelsDispatched
  | labelsCompleted
  | totalLatencyUs
  | scalingEvents
  | laneDispatched (lane : Fin 3)
  | laneCompleted (lane : Fin 3)
  deriving DecidableEq

inductive TelemetryCall
  | labelDispatched (priority : UInt8)
  | labelCompleted (latency : UInt64) (priority : UInt8)
  | scalingEvent
  deriving DecidableEq, Repr

/-- An access of a recording thread: a `fetch_add`, or a sample under `latency_mu_`. -/
inductive TelemetryAccess
  | add (counter : Counter) (n : UInt64)
  | sample (latency : UInt64)
  deriving DecidableEq

def TelemetryCall.accesses : TelemetryCall → List TelemetryAccess
  | .labelDispatched priority =>
      [.add .labelsDispatched 1, .add (.laneDispatched (laneOf priority)) 1]
  | .labelCompleted latency priority =>
      [.add .labelsCompleted 1, .add (.laneCompleted (laneOf priority)) 1,
        .add .totalLatencyUs latency, .sample latency]
  | .scalingEvent => [.add .scalingEvents 1]

/-! ## Windows -/

/-- What the publisher has found in one window. -/
structure Window where
  counters : Counter → UInt64 := fun _ => 0
  samples : List UInt64 := []

/-- The element at `p` times the last index, computed in doubles; `none` is a read beyond the
samples. -/
def percentile (sorted : List UInt64) (p : ℚ) : Option UInt64 :=
  if sorted.isEmpty then some 0
  else sorted[⌊roundBinary64 (p * roundBinary64 (sorted.length - 1 : ℕ))⌋.toNat]?

/-- An access of the publisher: an `exchange(0)`, or the swap of the samples. -/
inductive Drain
  | exchange (counter : Counter)
  | swap
  deriving DecidableEq

def publishLoop : List Drain :=
  [.exchange .labelsDispatched, .exchange .labelsCompleted, .exchange .totalLatencyUs,
    .exchange .scalingEvents, .exchange (.laneDispatched 0), .exchange (.laneCompleted 0),
    .exchange (.laneDispatched 1), .exchange (.laneCompleted 1), .exchange (.laneDispatched 2),
    .exchange (.laneCompleted 2), .swap]

theorem publishLoop_nodup : publishLoop.Nodup := by decide

structure Telemetry where
  counters : Counter → UInt64 := fun _ => 0
  latencySamples : List UInt64 := []
  /-- What a thread has still to do of its call. -/
  calls : Nat → List TelemetryAccess := fun _ => []
  /-- All calls, oldest first. -/
  called : List TelemetryCall := []
  drains : List Drain := publishLoop
  snapshot : Window := {}
  windows : List Window := []

inductive TelemetryAction
  | call (thread : Nat) (call : TelemetryCall)
  | record (thread : Nat)
  | drain
  /-- The window is published, or the attempt fails, which is ignored. -/
  | publish

namespace Telemetry

def perform (s : Telemetry) : TelemetryAccess → Telemetry
  | .add c n => { s with counters := Function.update s.counters c (s.counters c + n) }
  | .sample latency => { s with latencySamples := s.latencySamples ++ [latency] }

def drained (s : Telemetry) : Drain → Telemetry
  | .exchange c =>
      { s with
        counters := Function.update s.counters c 0
        snapshot := { s.snapshot with
          counters := Function.update s.snapshot.counters c (s.counters c) } }
  | .swap =>
      { s with
        latencySamples := []
        snapshot := { s.snapshot with samples := s.latencySamples } }

def step (s : Telemetry) : TelemetryAction → Option Telemetry
  | .call t c =>
      if s.calls t = [] then
        some { s with
          calls := Function.update s.calls t c.accesses
          called := s.called ++ [c] }
      else none
  | .record t =>
      match s.calls t with
      | [] => none
      | a :: rest => some { s.perform a with calls := Function.update s.calls t rest }
  | .drain =>
      match s.drains with
      | [] => none
      | d :: rest => some { s.drained d with drains := rest }
  | .publish =>
      if s.drains.isEmpty then
        some { s with
          drains := publishLoop
          snapshot := {}
          windows := s.windows ++
            [{ s.snapshot with samples := s.snapshot.samples.insertionSort (· ≤ ·) }] }
      else none

end Telemetry

/-! ## Accounts -/

/-- The window shows nothing yet of what the access will find. -/
def Unshown (w : Window) : Drain → Prop
  | .exchange c => w.counters c = 0
  | .swap => w.samples = []

/-- A quantity that the accesses add to, what lies of it in the counters and the samples, and what
a window shows of it. -/
structure Account (M : Type) [AddCommMonoid M] where
  amount : TelemetryAccess → M
  left : (Counter → UInt64) → List UInt64 → M
  shown : Window → M
  left_start : left (fun _ => 0) [] = 0
  shown_start : shown {} = 0
  perform : ∀ (s : Telemetry) a, left (s.perform a).counters (s.perform a).latencySamples =
    left s.counters s.latencySamples + amount a
  drained : ∀ (s : Telemetry) d, Unshown s.snapshot d →
    left (s.drained d).counters (s.drained d).latencySamples + shown (s.drained d).snapshot =
      left s.counters s.latencySamples + shown s.snapshot
  sorted : ∀ w : Window, shown { w with samples := w.samples.insertionSort (· ≤ ·) } = shown w

theorem Unshown.drained {s : Telemetry} {d d' : Drain} (hne : d' ≠ d)
    (h : Unshown s.snapshot d') : Unshown (s.drained d).snapshot d' := by
  cases d with
  | swap =>
      cases d' with
      | exchange c => exact h
      | swap => exact absurd rfl hne
  | exchange c =>
      cases d' with
      | exchange c' =>
          have hcc : c' ≠ c := fun heq => hne (heq ▸ rfl)
          exact (Function.update_of_ne hcc ..).trans h
      | swap => exact h

section Run

variable {M : Type} [AddCommMonoid M] (A : Account M) {s s' : Telemetry}

def Account.of (A : Account M) (accesses : List TelemetryAccess) : M :=
  (accesses.map A.amount).sum

/-- The books of a quantity. -/
structure Balanced (s : Telemetry) : Prop where
  drains : s.drains.Nodup
  unshown : ∀ d ∈ s.drains, Unshown s.snapshot d
  balance : ∃ pending, HasTotal (fun t => A.of (s.calls t)) pending ∧
    (s.windows.map A.shown).sum + A.shown s.snapshot + A.left s.counters s.latencySamples + pending =
      A.of (s.called.flatMap TelemetryCall.accesses)

theorem balanced_start : Balanced A {} := by
  refine ⟨publishLoop_nodup, fun d _ => ?_, 0, hasTotal_zero, ?_⟩
  · cases d with
    | exchange c => rfl
    | swap => rfl
  · show ([] : List M).sum + A.shown {} + A.left _ _ + 0 = ([] : List M).sum
    rw [A.shown_start, A.left_start, List.sum_nil, add_zero, add_zero, add_zero]

theorem Balanced.step (h : Balanced A s) {a : TelemetryAction} (hstep : s.step a = some s') :
    Balanced A s' := by
  obtain ⟨pending, htotal, hbalance⟩ := h.balance
  cases a with
  | call t c =>
      dsimp only [Telemetry.step] at hstep
      split at hstep
      · next hidle =>
          obtain rfl := Option.some.inj hstep
          obtain ⟨others, rfl, hchange⟩ := htotal.split t
          have hchanged := hchange (fun u => A.of (Function.update s.calls t c.accesses u))
            fun u hu => by rw [Function.update_of_ne hu]
          rw [Function.update_self] at hchanged
          rw [hidle, show A.of [] = 0 from rfl, zero_add] at hbalance
          refine ⟨h.drains, h.unshown, _, hchanged, ?_⟩
          dsimp only
          rw [List.flatMap_append, List.flatMap_singleton]
          unfold Account.of at hbalance ⊢
          rw [List.map_append, List.sum_append, ← hbalance]
          abel
      · cases hstep
  | record t =>
      dsimp only [Telemetry.step] at hstep
      cases hcalls : s.calls t with
      | nil =>
          rw [hcalls] at hstep
          cases hstep
      | cons a rest =>
          rw [hcalls] at hstep
          obtain rfl := Option.some.inj hstep
          obtain ⟨others, rfl, hchange⟩ := htotal.split t
          have hchanged := hchange (fun u => A.of (Function.update s.calls t rest u))
            fun u hu => by rw [Function.update_of_ne hu]
          rw [Function.update_self] at hchanged
          have hsame : ∀ a, (s.perform a).windows = s.windows ∧ (s.perform a).called = s.called ∧
              (s.perform a).snapshot = s.snapshot ∧ (s.perform a).drains = s.drains := by
            intro a
            cases a with
            | add c n => exact ⟨rfl, rfl, rfl, rfl⟩
            | sample l => exact ⟨rfl, rfl, rfl, rfl⟩
          obtain ⟨hwindows, hcalled, hsnapshot, hdrains⟩ := hsame a
          refine ⟨by rw [hdrains]; exact h.drains,
            by rw [hdrains, hsnapshot]; exact h.unshown, _, hchanged, ?_⟩
          have hamount : A.of (a :: rest) = A.amount a + A.of rest := by
            unfold Account.of
            rw [List.map_cons, List.sum_cons]
          dsimp only
          rw [hwindows, hcalled, hsnapshot, A.perform, ← hbalance, hcalls, hamount]
          abel
  | drain =>
      dsimp only [Telemetry.step] at hstep
      cases hdrains : s.drains with
      | nil =>
          rw [hdrains] at hstep
          cases hstep
      | cons d rest =>
          rw [hdrains] at hstep
          obtain rfl := Option.some.inj hstep
          have hnodup := h.drains
          rw [hdrains, List.nodup_cons] at hnodup
          have hunshown := h.unshown d (by rw [hdrains]; exact List.mem_cons_self)
          have hsame : (s.drained d).windows = s.windows ∧ (s.drained d).called = s.called ∧
              (s.drained d).calls = s.calls := by
            cases d with
            | exchange c => exact ⟨rfl, rfl, rfl⟩
            | swap => exact ⟨rfl, rfl, rfl⟩
          obtain ⟨hwindows, hcalled, hcalls⟩ := hsame
          refine ⟨hnodup.2, fun d' hd' => ?_, pending, ?_, ?_⟩
          · refine (h.unshown d' (by rw [hdrains]; exact List.mem_cons_of_mem _ hd')).drained ?_
            rintro rfl
            exact hnodup.1 hd'
          · dsimp only
            rwa [hcalls]
          · dsimp only
            rw [hwindows, hcalled, ← hbalance]
            calc (s.windows.map A.shown).sum + A.shown (s.drained d).snapshot +
                  A.left (s.drained d).counters (s.drained d).latencySamples + pending
                = (s.windows.map A.shown).sum +
                    (A.left (s.drained d).counters (s.drained d).latencySamples +
                      A.shown (s.drained d).snapshot) + pending := by abel
              _ = (s.windows.map A.shown).sum + A.shown s.snapshot +
                    A.left s.counters s.latencySamples + pending := by
                  rw [A.drained s d hunshown]
                  abel
  | publish =>
      dsimp only [Telemetry.step] at hstep
      split at hstep
      · obtain rfl := Option.some.inj hstep
        refine ⟨publishLoop_nodup, fun d _ => ?_, pending, htotal, ?_⟩
        · cases d with
          | exchange c => rfl
          | swap => rfl
        · rw [← hbalance]
          dsimp only
          rw [List.map_append, List.map_singleton, List.sum_append, List.sum_singleton, A.sorted,
            A.shown_start, add_zero]
      · cases hstep

theorem account_run {actions : List TelemetryAction}
    (hexec : exec Telemetry.step {} actions = some s) : Balanced A s :=
  exec_kept (fun hI hstep => hI.step A hstep) (balanced_start A) hexec

end Run

end Labios
