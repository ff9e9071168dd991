import Labios.Channel.Messages

/-!
# Channel objects of several processes

One channel name, any number of processes. Each process has its own registry and in it
its own `Channel` object, with a counter of its own; warehouse keys and the NATS subject
are the same for all. `ChannelRegistry::create` makes no second object in a process; a
`Notify` continuation gets or creates the object of its process and publishes on it.
-/

namespace Labios

open Foundation

/-- The channel object of one process. -/
structure Process where
  owner : Nat
  channel : Channel
  calls : List ChannelCall := []

structure World where
  backend : Backend := {}
  processes : List Process := []

inductive WorldAction where
  | creates (owner : Nat) (ttlSeconds : UInt32) (maxPending : UInt64)
  | acts (index : Nat) (action : SiteAction)
  deriving DecidableEq, Repr

namespace World

/-- The object with what the processes share. -/
def site (w : World) (p : Process) : Site :=
  { backend := w.backend, channel := p.channel, calls := p.calls }

/-- `ChannelRegistry::create`: nothing if the registry of the process has the name. -/
def create (w : World) (name : String) (owner : Nat) (ttlSeconds : UInt32)
    (maxPending : UInt64) : World :=
  if w.processes.any (·.owner == owner) then w
  else { w with
    processes := w.processes ++ [{ owner, channel := { name, ttlSeconds, maxPending } }] }

/-- The object of `p`, at this index, has made a step. -/
def put (w : World) (i : Nat) (p : Process) (s : Site) : World :=
  { backend := s.backend
    processes := w.processes.set i { p with channel := s.channel, calls := s.calls } }

def step (scanMatches : String → String → Bool) (name : String) (w : World) :
    WorldAction → Option World
  | .creates owner ttlSeconds maxPending => some (w.create name owner ttlSeconds maxPending)
  | .acts i action =>
      w.processes[i]?.bind fun p =>
        ((w.site p).step scanMatches action).map (w.put i p)

/-- The messages that any of the objects accepted. -/
def accepted (w : World) : List ChannelMessage := w.processes.flatMap (·.channel.accepted)

theorem step_acts {scanMatches : String → String → Bool} {name : String} {w w' : World} {i : Nat}
    {action : SiteAction} (h : w.step scanMatches name (.acts i action) = some w') :
    ∃ p s, w.processes[i]? = some p ∧ (w.site p).step scanMatches action = some s ∧
      w' = w.put i p s := by
  obtain ⟨p, hp, h⟩ := Option.bind_eq_some_iff.mp h
  obtain ⟨s, hs, heq⟩ := Option.map_eq_some_iff.mp h
  exact ⟨p, s, hp, hs, heq.symm⟩

end World

end Labios

/-!
## Sequence numbers across processes

Are the numbers of one channel name unique, and does every callback get the bytes that
were published under its number and label? Each object counts from 1 on its own, so
they are as long as one object alone takes numbers, and a delivery finds its key
(`sequences_unique`). The first numbers of two objects are the same, the later bytes
overwrite the earlier ones, and a callback gets the label of one publish with the
bytes of the other (`twoObjects_collide`).
-/

namespace Labios

open Foundation

/-- A number is taken only while no other object has taken one and the counter has not
wrapped, and a delivery finds its key. -/
def World.OneCounts (w : World) : WorldAction → Prop
  | .creates _ _ _ => True
  | .acts i action => ∀ p ∈ w.processes[i]?,
      (w.site p).Unwrapped action ∧ (w.site p).FetchesStaged action ∧
        ((w.site p).takesNumber action → ∀ other ∈ w.processes.eraseIdx i,
          other.channel.nextSeq = 1)

instance World.decidableOneCounts (w : World) : (a : WorldAction) → Decidable (w.OneCounts a)
  | .creates _ _ _ => inferInstanceAs (Decidable True)
  | .acts i _ => inferInstanceAs (Decidable (∀ p ∈ w.processes[i]?, _))

/-! ## One object has taken all numbers -/

def World.Accepted (w : World) (m : ChannelMessage) : Prop :=
  ∃ p ∈ w.processes, m ∈ p.channel.accepted

structure OneCounter (name : String) (w : World) : Prop where
  names : ∀ p ∈ w.processes, p.channel.name = name
  numbered : ∀ p ∈ w.processes, Numbered p.channel
  sole : ∀ (i j : Nat) (p q : Process), w.processes[i]? = some p → w.processes[j]? = some q →
    i ≠ j → p.channel.accepted = [] ∨ q.channel.accepted = []
  backed : Backed name w.Accepted w.backend
  carries : ∀ p ∈ w.processes, Conveys w.Accepted p.channel p.calls

section Steps

variable {scanMatches : String → String → Bool} {name : String} {w w' : World}

theorem oneCounter_empty (name : String) : OneCounter name {} := by
  refine ⟨?_, ?_, ?_, ⟨?_, ?_⟩, ?_⟩
  · intro p hp
    cases hp
  · intro p hp
    cases hp
  · intro i j p q hp
    cases hp
  · intro sequence staged hlookup
    cases hlookup
  · intro payload hpayload
    cases hpayload
  · intro p hp
    cases hp

/-- One number, one message. -/
theorem OneCounter.unique (h : OneCounter name w) {m m' : ChannelMessage} (hm : w.Accepted m)
    (hm' : w.Accepted m') (heq : m.sequence = m'.sequence) : m = m' := by
  obtain ⟨p, hp, hmp⟩ := hm
  obtain ⟨q, hq, hmq⟩ := hm'
  obtain ⟨i, hi⟩ := List.mem_iff_getElem?.mp hp
  obtain ⟨j, hj⟩ := List.mem_iff_getElem?.mp hq
  by_cases hij : i = j
  · subst hij
    obtain rfl := Option.some.inj (hi.symm.trans hj)
    exact (h.numbered p hp).unique hmp hmq heq
  · rcases h.sole i j p q hi hj hij with hnil | hnil
    · rw [hnil] at hmp
      cases hmp
    · rw [hnil] at hmq
      cases hmq

theorem Numbered.accepted_nil {ch : Channel} (h : Numbered ch) (hnext : ch.nextSeq = 1) :
    ch.accepted = [] := by
  have heq := h.next
  have hsmall := h.small
  rw [hnext, UInt64.toNat_one] at heq
  exact List.length_eq_zero_iff.mp (by omega)

theorem OneCounter.create (h : OneCounter name w) (owner : Nat) (ttlSeconds : UInt32)
    (maxPending : UInt64) : OneCounter name (w.create name owner ttlSeconds maxPending) := by
  unfold World.create
  split
  · exact h
  · have hfresh := numbered_fresh name ttlSeconds maxPending
    have hall : ∀ m, w.Accepted m → World.Accepted { w with
        processes := w.processes ++ [{ owner, channel := { name, ttlSeconds, maxPending } }] }
          m := by
      rintro m ⟨p, hp, hm⟩
      exact ⟨p, List.mem_append_left _ hp, hm⟩
    refine ⟨?_, ?_, ?_, h.backed.mono hall, ?_⟩
    · intro p hp
      rcases List.mem_append.mp hp with hp | hp
      · exact h.names p hp
      · rw [List.mem_singleton.mp hp]
    · intro p hp
      rcases List.mem_append.mp hp with hp | hp
      · exact h.numbered p hp
      · rw [List.mem_singleton.mp hp]
        exact hfresh
    · intro i j p q hp hq hne
      rcases getElem?_snoc_cases hp with hp | ⟨-, rfl⟩
      · rcases getElem?_snoc_cases hq with hq | ⟨-, rfl⟩
        · exact h.sole i j p q hp hq hne
        · exact .inr rfl
      · exact .inl rfl
    · intro p hp
      rcases List.mem_append.mp hp with hp | hp
      · exact (h.carries p hp).mono hall
      · rw [List.mem_singleton.mp hp]
        refine ⟨?_, ?_, ?_⟩
        · intro i m hm
          cases hm
        · intro feed hfeed
          cases hfeed
        · intro r hr
          cases hr

theorem OneCounter.acts (h : OneCounter name w) {i : Nat} {action : SiteAction}
    (hok : w.OneCounts (.acts i action)) {p : Process} {s : Site}
    (hp : w.processes[i]? = some p) (hstep : (w.site p).step scanMatches action = some s) :
    OneCounter name (w.put i p s) := by
  obtain ⟨hunwrapped, hstaged, htakes⟩ := hok p hp
  have hmem := List.mem_of_getElem? hp
  have hname : (w.site p).channel.name = name := h.names p hmem
  have hcarries : Conveys w.Accepted (w.site p).channel (w.site p).calls := h.carries p hmem
  have hgrows : ∀ m ∈ p.channel.accepted, m ∈ s.channel.accepted := by
    intro m hm
    rcases accepted_step hstep with hsame | ⟨-, m', hnew⟩
    · rw [hsame]
      exact hm
    · rw [hnew]
      exact List.mem_append_left _ hm
  -- the stepping object is the only one that changes
  have hbound := (List.getElem?_eq_some_iff.mp hp).1
  have hnew : { p with channel := s.channel, calls := s.calls } ∈ (w.put i p s).processes :=
    List.mem_set hbound _
  have hall : ∀ m, w.Accepted m → (w.put i p s).Accepted m := by
    rintro m ⟨q, hq, hm⟩
    obtain ⟨j, hj⟩ := List.mem_iff_getElem?.mp hq
    by_cases hji : j = i
    · subst hji
      obtain rfl := Option.some.inj (hj.symm.trans hp)
      exact ⟨_, hnew, hgrows m hm⟩
    · refine ⟨q, List.mem_of_getElem? (i := j) ?_, hm⟩
      exact (List.getElem?_set_ne (Ne.symm hji)).trans hj
  have htaken : ∀ m ∈ s.channel.accepted, (w.put i p s).Accepted m := fun m hm => ⟨_, hnew, hm⟩
  refine ⟨?_, ?_, ?_, (backed_step h.backed hcarries hname hstep).mono hall, ?_⟩
  · intro q hq
    rcases List.mem_or_eq_of_mem_set hq with hold | rfl
    · exact h.names q hold
    · exact (config_step hstep).1.trans hname
  · intro q hq
    rcases List.mem_or_eq_of_mem_set hq with hold | rfl
    · exact h.numbered q hold
    · have hbefore : Numbered (w.site p).channel := h.numbered p hmem
      exact hbefore.step hunwrapped hstep
  · -- where a number is taken, no other object has one
    have hothers : ∀ (j : Nat) (q : Process), w.processes[j]? = some q → j ≠ i →
        s.channel.accepted = [] ∨ q.channel.accepted = [] := by
      intro j q hq hne
      rcases accepted_step hstep with hsame | ⟨hnumber, -⟩
      · rw [hsame]
        exact h.sole i j p q hp hq (Ne.symm hne)
      · right
        refine (h.numbered q (List.mem_of_getElem? hq)).accepted_nil (htakes hnumber q ?_)
        exact List.mem_eraseIdx_iff_getElem?.mpr ⟨j, hne, hq⟩
    intro j k q q' hq hq' hne
    rcases getElem?_set_cases hq with ⟨rfl, rfl⟩ | ⟨hji, hold⟩
    · rcases getElem?_set_cases hq' with ⟨rfl, rfl⟩ | ⟨hki, hold'⟩
      · exact absurd rfl hne
      · exact hothers k q' hold' hki
    · rcases getElem?_set_cases hq' with ⟨rfl, rfl⟩ | ⟨-, hold'⟩
      · exact (hothers j q hold hji).symm
      · exact h.sole j k q q' hold hold' hne
  · intro q hq
    rcases List.mem_or_eq_of_mem_set hq with hold | rfl
    · exact (h.carries q hold).mono hall
    · exact carries_step h.backed hcarries hname (fun _ _ hm hm' => h.unique hm hm') hstaged hstep
        hall htaken

theorem OneCounter.step {a : WorldAction} (h : OneCounter name w) (hok : w.OneCounts a)
    (hstep : w.step scanMatches name a = some w') : OneCounter name w' := by
  cases a with
  | creates owner ttlSeconds maxPending =>
      cases hstep
      exact h.create owner ttlSeconds maxPending
  | acts i action =>
      obtain ⟨p, s, hp, hs, rfl⟩ := World.step_acts hstep
      exact h.acts hok hp hs

theorem OneCounter.nodup (h : OneCounter name w) :
    (w.accepted.map ChannelMessage.sequence).Nodup := by
  unfold World.accepted
  rw [List.map_flatMap, List.nodup_flatMap]
  constructor
  · intro p hp
    exact (h.numbered p hp).nodup
  · rw [List.pairwise_iff_getElem]
    intro i j hi hj hlt
    have hne : i ≠ j := by omega
    intro n hn hn'
    rcases h.sole i j _ _ (List.getElem?_eq_getElem hi) (List.getElem?_eq_getElem hj) hne with
      hnil | hnil
    · dsimp only at hn
      rw [hnil] at hn
      cases hn
    · dsimp only at hn'
      rw [hnil] at hn'
      cases hn'

end Steps

/-- **Sequence numbers across processes.** In a run in which one object alone takes
numbers and no delivery finds its key gone, no two accepted messages of the channel
name bear the same number, and every callback gets exactly the message that was
accepted under its number. -/
theorem sequences_unique (scanMatches : String → String → Bool) (name : String)
    (actions : List WorldAction) (w : World)
    (hexec : exec (World.step scanMatches name) {} actions = some w)
    (hok : Along (World.step scanMatches name) World.OneCounts {} actions) :
    (w.accepted.map ChannelMessage.sequence).Nodup ∧
      ∀ p ∈ w.processes, ∀ r ∈ p.channel.received, r.message ∈ w.accepted := by
  have h : OneCounter name w := exec_invariant (fun h hok hstep => h.step hok hstep)
    (oneCounter_empty name) hexec hok
  refine ⟨h.nodup, fun p hp r hr => ?_⟩
  obtain ⟨q, hq, hm⟩ := (h.carries p hp).received r hr
  exact List.mem_flatMap.mpr ⟨q, hq, hm⟩

/-! ## Runs -/

/-- The object of a process subscribes and publishes. -/
def publisher (owner index first : Nat) (data : List UInt8) (labelId : UInt64) :
    List WorldAction :=
  .creates owner 0 10000 :: ((ChannelOp.subscribe.runs first 4 ++
    (ChannelOp.publish data labelId).runs (first + 1) 6).map (.acts index))

/-- Two objects publish, and then the first one's subscriber gets both messages. -/
def twoPublishers : List WorldAction :=
  publisher 0 0 0 [1] 7 ++ publisher 1 1 0 [2] 8 ++
    (List.replicate 10 (.delivers 0)).map (.acts 0)

theorem sequences_unique_publisher :
    ∃ w, exec (World.step starMatches "log") {}
        (publisher 0 0 0 [1] 7 ++ (List.replicate 5 (.delivers 0)).map (.acts 0)) = some w ∧
      (w.accepted.map ChannelMessage.sequence).Nodup ∧
      ∀ p ∈ w.processes, ∀ r ∈ p.channel.received, r.message ∈ w.accepted := by
  obtain ⟨w, hexec⟩ := Option.isSome_iff_exists.mp (show (exec (World.step starMatches "log") {}
    (publisher 0 0 0 [1] 7 ++ (List.replicate 5 (.delivers 0)).map (.acts 0))).isSome = true by
      decide +kernel)
  exact ⟨w, hexec, sequences_unique starMatches "log" _ w hexec (by decide +kernel)⟩

/-- Both first messages bear number 1, and the first callback gets the first label
with the second publisher's byte. -/
theorem twoObjects_collide :
    ∃ w ∈ exec (World.step starMatches "log") {} twoPublishers,
      w.accepted = [{ sequence := 1, labelId := 7, data := [1] },
        { sequence := 1, labelId := 8, data := [2] }] ∧
      ¬(w.accepted.map ChannelMessage.sequence).Nodup ∧
      ∃ p ∈ w.processes, ∃ r ∈ p.channel.received,
        r.message = { sequence := 1, labelId := 7, data := [2] } ∧ r.message ∉ w.accepted := by
  decide +kernel

end Labios
