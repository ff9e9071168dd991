import Labios.Adapter.Tracked

/-!
# The two models of the POSIX adapter

`Adapter` lets every label take effect on a byte store; `TrackedAdapter` leaves open what
becomes of a request. Each run over a store is a run of the second model in which nothing
fails and the reads bring what the store holds (`tracked_follows_store`), with the same
replies, descriptors and caches.
-/

namespace Labios

/-! ## Replies -/

def Errno.toPosix : Errno → PosixErrno
  | .ebadf => .ebadf
  | .enomem => .enomem

def CallReply.toPosix (r : CallReply) : PosixReply :=
  { value := r.value, errno := r.errno.map Errno.toPosix, data := r.data }

/-- Nothing that is written fails, and the reads from number `n` on bring `answers`. -/
def Outcomes.Serves (outcomes : Outcomes) (n : Nat) (answers : List (List UInt8)) : Prop :=
  (∀ i, outcomes.written i = true) ∧
    ∀ i data, answers[i]? = some data → outcomes.read (n + i) = some data

theorem Outcomes.Serves.append {outcomes : Outcomes} {n : Nat} {first rest : List (List UInt8)}
    (h : outcomes.Serves n (first ++ rest)) :
    outcomes.Serves n first ∧ outcomes.Serves (n + first.length) rest := by
  obtain ⟨hwritten, hread⟩ := h
  refine ⟨⟨hwritten, fun i data hi => hread i data ?_⟩, hwritten, fun i data hi => ?_⟩
  · obtain ⟨hlt, -⟩ := List.getElem?_eq_some_iff.mp hi
    rw [List.getElem?_append_left hlt]
    exact hi
  · rw [Nat.add_assoc]
    refine hread (first.length + i) data ?_
    rw [List.getElem?_append_right (Nat.le_add_right _ _), Nat.add_sub_cancel_left]
    exact hi

/-! ## Calls of the tracked adapter -/

namespace TrackedAdapter

def dup (s : TrackedAdapter) (oldFd newFd : Int) : PosixReply × TrackedAdapter :=
  match s.fds.get oldFd with
  | none => (.fails .ebadf, s)
  | some _ =>
      let (fd, fds) := s.fds.duplicate oldFd newFd
      ({ value := fd }, { s with fds })

/-- The calls of the other model; its offsets are `off_t` here. -/
def call (session : Session) (outcomes : Outcomes) (s : TrackedAdapter) :
    PosixCall → PosixReply × TrackedAdapter
  | .openFile path flags fd => s.openFile path flags fd
  | .dup oldFd newFd => s.dup oldFd newFd
  | .close fd => s.close session outcomes fd
  | .write fd data => s.write session outcomes fd data
  | .pwrite fd data offset => s.pwrite session outcomes fd data offset.toInt64
  | .read fd count => s.read session outcomes fd count
  | .pread fd count offset => s.pread session outcomes fd count offset.toInt64
  | .fsync fd => s.fsync session outcomes fd

def runCalls (session : Session) (outcomes : Outcomes) :
    TrackedAdapter → List PosixCall → List PosixReply × TrackedAdapter
  | s, [] => ([], s)
  | s, c :: rest =>
      let (reply, s) := s.call session outcomes c
      let (replies, s) := runCalls session outcomes s rest
      (reply :: replies, s)

theorem publishRegions_reads (session : Session) (outcomes : Outcomes) (s : TrackedAdapter)
    (regions : List FlushRegion) :
    (publishRegions session outcomes s regions).2.reads = s.reads := by
  induction regions generalizing s with
  | nil => rfl
  | cons r rest ih =>
      rw [publishRegions]
      dsimp only
      split
      · exact ih _
      · rfl

theorem store_reads (session : Session) (s : TrackedAdapter) (state : FileState) (fd : Int)
    (data : List UInt8) (offset : UInt64) :
    (s.store session state fd data offset).2.reads = s.reads := by
  unfold TrackedAdapter.store
  split
  · rfl
  · rfl

theorem moveTo_reads (s : TrackedAdapter) (updateOffset : Bool) (fd : Int) (offset : UInt64) :
    (s.moveTo updateOffset fd offset).reads = s.reads := by
  unfold TrackedAdapter.moveTo
  split
  · rfl
  · rfl

end TrackedAdapter

/-! ## In step -/

/-- The tables, the caches and the number of labels are the same. -/
structure InStep (s : TrackedAdapter) (a : Adapter) : Prop where
  fds : s.fds = a.fds
  content : s.content = a.content
  labels : s.labels.length = a.published

/-- What a call does on the store, it does from every state in step with it, if the requests
become what they become there. -/
def Follows (tracked : Outcomes → TrackedAdapter → PosixReply × TrackedAdapter) (a : Adapter)
    (stored : CallReply × Adapter) : Prop :=
  ∃ answers, ∀ (outcomes : Outcomes) (s : TrackedAdapter), InStep s a →
    outcomes.Serves s.reads answers →
      (tracked outcomes s).1 = stored.1.toPosix ∧ InStep (tracked outcomes s).2 stored.2 ∧
        (tracked outcomes s).2.reads = s.reads + answers.length

section

variable {session : Session} {outcomes : Outcomes} {s : TrackedAdapter} {a : Adapter}

/-- A call that reads nothing follows if it does so where nothing fails. -/
theorem Follows.of_unread {tracked : Outcomes → TrackedAdapter → PosixReply × TrackedAdapter}
    {stored : CallReply × Adapter}
    (h : ∀ (outcomes : Outcomes) (s : TrackedAdapter), InStep s a →
      (∀ i, outcomes.written i = true) →
      (tracked outcomes s).1 = stored.1.toPosix ∧ InStep (tracked outcomes s).2 stored.2 ∧
        (tracked outcomes s).2.reads = s.reads) :
    Follows tracked a stored :=
  ⟨[], fun outcomes s hs hserves => h outcomes s hs hserves.1⟩

namespace InStep

theorem moveTo (h : InStep s a) (updateOffset : Bool) (fd : Int) (offset : UInt64) :
    InStep (s.moveTo updateOffset fd offset) (a.moveTo updateOffset fd offset) := by
  unfold TrackedAdapter.moveTo Adapter.moveTo
  split
  · exact ⟨by rw [h.fds], h.content, h.labels⟩
  · exact h

theorem publishWrite (h : InStep s a) (session : Session) (outcomes : Outcomes)
    (r : FlushRegion) :
    InStep ((s.publishWrite session outcomes r).2.track r.filepath
        (·.trackWrite r.offset (UInt64.ofNat r.data.length)))
      (a.publishWrite session r.filepath r.offset r.data) := by
  refine ⟨h.fds, h.content, ?_⟩
  unfold TrackedAdapter.publishWrite Adapter.publishWrite Adapter.publish TrackedAdapter.track
  dsimp only
  rw [List.length_append, List.length_map, h.labels]

theorem publishRegions (h : InStep s a) (session : Session)
    (hall : ∀ i, outcomes.written i = true) (regions : List FlushRegion) :
    InStep (TrackedAdapter.publishRegions session outcomes s regions).2
      (a.publishRegions session regions) := by
  induction regions generalizing s a with
  | nil => exact h
  | cons r rest ih =>
      rw [TrackedAdapter.publishRegions]
      dsimp only
      rw [show (s.publishWrite session outcomes r).1 = true from hall _, if_pos rfl]
      exact ih (h.publishWrite session outcomes r)

theorem flushAndPublish (h : InStep s a) (session : Session)
    (hall : ∀ i, outcomes.written i = true) (fd : Int) :
    (s.flushAndPublish session outcomes fd).1 = true ∧
      InStep (s.flushAndPublish session outcomes fd).2 (a.flushAndPublish session fd) ∧
      (s.flushAndPublish session outcomes fd).2.reads = s.reads := by
  unfold TrackedAdapter.flushAndPublish Adapter.flushAndPublish
  rw [← h.content]
  dsimp only
  have hflushed : InStep { s with content := (s.content.flush fd).2 }
      { a with content := (s.content.flush fd).2 } := ⟨h.fds, rfl, h.labels⟩
  exact ⟨(TrackedAdapter.publishRegions_all session hall _).1,
    hflushed.publishRegions session hall _,
    TrackedAdapter.publishRegions_reads session outcomes _ _⟩

/-! ## Writes and reads -/

/-- The bytes of a write reach the same place. -/
theorem store (h : InStep s a) (session : Session) (hall : ∀ i, outcomes.written i = true)
    (state : FileState) (fd : Int) (data : List UInt8) (offset : UInt64) :
    InStep (TrackedAdapter.publishRegions session outcomes
        (s.store session state fd data offset).2 (s.store session state fd data offset).1).2
      (a.store session state fd data offset) := by
  unfold TrackedAdapter.store Adapter.store
  rw [← h.content]
  split
  · have hcached : InStep
        { s with content := (s.content.cacheWrite fd state.filepath offset data).2 }
        { a with content := (s.content.cacheWrite fd state.filepath offset data).2 } :=
      ⟨h.fds, rfl, h.labels⟩
    exact hcached.publishRegions session hall _
  · exact h.publishRegions session hall _

/-- The bytes of a read: either the cache answers, or the store answers after a flush. -/
theorem load (session : Session) (a : Adapter) (state : FileState) (fd : Int)
    (count offset : UInt64) :
    ∃ answers, ∀ (outcomes : Outcomes) (s : TrackedAdapter), InStep s a →
      outcomes.Serves s.reads answers →
        (s.load session outcomes state fd count offset).1 =
            some (a.load session state fd count offset).1 ∧
          InStep (s.load session outcomes state fd count offset).2
            (a.load session state fd count offset).2 ∧
          (s.load session outcomes state fd count offset).2.reads = s.reads + answers.length := by
  cases hcache : (a.content.cacheRead fd offset count).filter
      fun data => data.length = count.toNat with
  | some data =>
      refine ⟨[], fun outcomes s h _ => ?_⟩
      unfold TrackedAdapter.load Adapter.load
      rw [h.content, hcache]
      exact ⟨rfl, h, rfl⟩
  | none =>
      refine ⟨[((a.flushAndPublish session fd).publishRead session state.filepath offset count).1],
        fun outcomes s h hserves => ?_⟩
      obtain ⟨hdone, hflushed, hreads⟩ := h.flushAndPublish session hserves.1 fd
      have hread : outcomes.read s.reads =
          some ((a.flushAndPublish session fd).publishRead session state.filepath offset count).1 :=
        hserves.2 0 _ rfl
      unfold TrackedAdapter.load Adapter.load
      rw [h.content, hcache]
      dsimp only
      rw [hdone, if_pos rfl]
      unfold TrackedAdapter.publishRead
      dsimp only
      rw [hreads, hread]
      refine ⟨rfl, ⟨hflushed.fds, hflushed.content, ?_⟩, rfl⟩
      unfold Adapter.publishRead Adapter.publish
      dsimp only
      rw [List.length_append, List.length_map, hflushed.labels]

end InStep

/-! ## Calls -/

namespace Follows

theorem doWrite (session : Session) (a : Adapter) (state : FileState) (fd : Int)
    (data : List UInt8) (offset : UInt64) (updateOffset : Bool) :
    Follows (fun outcomes s =>
        s.doWrite session outcomes state fd data offset.toInt64 updateOffset) a
      (a.doWrite session state fd data offset updateOffset) := by
  refine .of_unread fun outcomes s h hall => ?_
  unfold TrackedAdapter.doWrite Adapter.doWrite
  rw [UInt64.toUInt64_toInt64]
  by_cases hempty : data = []
  · rw [if_pos hempty, if_pos hempty]
    exact ⟨rfl, h, rfl⟩
  · rw [if_neg hempty, if_neg hempty]
    dsimp only
    rw [(TrackedAdapter.publishRegions_all session hall _).1, if_pos rfl]
    refine ⟨rfl, (h.store session hall state fd data offset).moveTo updateOffset fd _, ?_⟩
    rw [TrackedAdapter.moveTo_reads, TrackedAdapter.publishRegions_reads,
      TrackedAdapter.store_reads]

theorem doRead (session : Session) (a : Adapter) (state : FileState) (fd : Int)
    (count offset : UInt64) (updateOffset : Bool) :
    Follows (fun outcomes s =>
        s.doRead session outcomes state fd count offset.toInt64 updateOffset) a
      (a.doRead session state fd count offset updateOffset) := by
  unfold TrackedAdapter.doRead Adapter.doRead
  rw [UInt64.toUInt64_toInt64]
  by_cases hzero : count = 0
  · rw [if_pos hzero]
    refine .of_unread fun outcomes s h _ => ?_
    rw [if_pos hzero]
    exact ⟨rfl, h, rfl⟩
  · rw [if_neg hzero]
    obtain ⟨answers, hanswers⟩ := InStep.load session a state fd count offset
    refine ⟨answers, fun outcomes s h hserves => ?_⟩
    obtain ⟨hdata, hloaded, hreads⟩ := hanswers outcomes s h hserves
    dsimp only
    rw [if_neg hzero]
    generalize s.load session outcomes state fd count offset = loaded at hdata hloaded hreads
    obtain ⟨found, after⟩ := loaded
    dsimp only at hdata hloaded hreads
    rw [hdata]
    exact ⟨rfl, hloaded.moveTo updateOffset fd _,
      (TrackedAdapter.moveTo_reads _ _ _ _).trans hreads⟩

theorem openFile (a : Adapter) (path : String) (flags : UInt32) (fd : Int) :
    Follows (fun _ s => s.openFile path flags fd) a (a.openFile path flags fd) := by
  refine .of_unread fun _ s h _ => ?_
  unfold TrackedAdapter.openFile Adapter.openFile
  dsimp only
  rw [← h.fds]
  split
  · exact ⟨rfl, h, rfl⟩
  · exact ⟨rfl, ⟨rfl, h.content, h.labels⟩, rfl⟩

theorem close (session : Session) (a : Adapter) (fd : Int) :
    Follows (fun outcomes s => s.close session outcomes fd) a (a.close session fd) := by
  refine .of_unread fun outcomes s h hall => ?_
  unfold TrackedAdapter.close Adapter.close
  rw [← h.fds]
  cases s.fds.get fd with
  | none => exact ⟨rfl, h, rfl⟩
  | some _ =>
      have hreleased : InStep { s with fds := (s.fds.release fd).2 }
          { a with fds := (s.fds.release fd).2 } := ⟨rfl, h.content, h.labels⟩
      dsimp only
      split
      · obtain ⟨-, hflushed, hreads⟩ := hreleased.flushAndPublish session hall fd
        exact ⟨rfl, ⟨hflushed.fds, congrArg (·.evict fd) hflushed.content, hflushed.labels⟩, hreads⟩
      · exact ⟨rfl, hreleased, rfl⟩

/-- A call that needs an open descriptor. -/
theorem onOpen (fd : Int)
    {tracked : FileState → Outcomes → TrackedAdapter → PosixReply × TrackedAdapter}
    {stored : FileState → CallReply × Adapter}
    (hfollows : ∀ state, Follows (tracked state) a (stored state)) :
    Follows
      (fun outcomes s => match s.fds.get fd with
        | none => (.fails .ebadf, s)
        | some state => tracked state outcomes s) a
      (match a.fds.get fd with
        | none => (Adapter.badDescriptor, a)
        | some state => stored state) := by
  cases hget : a.fds.get fd with
  | none =>
      refine .of_unread fun _ s h _ => ?_
      rw [h.fds, hget]
      exact ⟨rfl, h, rfl⟩
  | some state =>
      obtain ⟨answers, hanswers⟩ := hfollows state
      refine ⟨answers, fun outcomes s h hserves => ?_⟩
      dsimp only
      rw [h.fds, hget]
      exact hanswers outcomes s h hserves

theorem dup (a : Adapter) (oldFd newFd : Int) :
    Follows (fun _ s => s.dup oldFd newFd) a (a.dup oldFd newFd) := by
  refine onOpen oldFd fun _ => .of_unread fun _ s h _ => ?_
  rw [← h.fds]
  exact ⟨rfl, ⟨rfl, h.content, h.labels⟩, rfl⟩

theorem fsync (session : Session) (a : Adapter) (fd : Int) :
    Follows (fun outcomes s => s.fsync session outcomes fd) a (a.fsync session fd) := by
  refine onOpen fd fun _ => .of_unread fun outcomes s h hall => ?_
  obtain ⟨hdone, hflushed, hreads⟩ := h.flushAndPublish session hall fd
  refine ⟨?_, hflushed, hreads⟩
  dsimp only
  rw [hdone, if_pos rfl]
  rfl

/-- Every call follows. -/
theorem call (session : Session) (a : Adapter) (c : PosixCall) :
    Follows (fun outcomes s => s.call session outcomes c) a (a.call session c) := by
  cases c with
  | openFile path flags fd => exact openFile a path flags fd
  | dup oldFd newFd => exact dup a oldFd newFd
  | close fd => exact close session a fd
  | write fd data =>
      exact onOpen fd fun state => doWrite session a state fd data state.offset true
  | pwrite fd data offset =>
      exact onOpen fd fun state => doWrite session a state fd data offset false
  | read fd count =>
      exact onOpen fd fun state => doRead session a state fd count state.offset true
  | pread fd count offset =>
      exact onOpen fd fun state => doRead session a state fd count offset false
  | fsync fd => exact fsync session a fd

end Follows

/-- Every run follows; the answers of its calls are one after the other. -/
theorem InStep.run (session : Session) (calls : List PosixCall) (a : Adapter) :
    ∃ answers, ∀ (outcomes : Outcomes) (s : TrackedAdapter), InStep s a →
      outcomes.Serves s.reads answers →
        (s.runCalls session outcomes calls).1 =
            (runCalls (Adapter.call session) a calls).1.map CallReply.toPosix ∧
          InStep (s.runCalls session outcomes calls).2
            (runCalls (Adapter.call session) a calls).2 := by
  induction calls generalizing a with
  | nil => exact ⟨[], fun _ _ h _ => ⟨rfl, h⟩⟩
  | cons c rest ih =>
      obtain ⟨first, hfirst⟩ := Follows.call session a c
      obtain ⟨later, hlater⟩ := ih (a.call session c).2
      refine ⟨first ++ later, fun outcomes s h hserves => ?_⟩
      obtain ⟨hnow, hthen⟩ := hserves.append
      obtain ⟨hreply, hnext, hreads⟩ := hfirst outcomes s h hnow
      rw [← hreads] at hthen
      obtain ⟨hreplies, hend⟩ := hlater outcomes (s.call session outcomes c).2 hnext hthen
      exact ⟨congrArg₂ List.cons hreply hreplies, hend⟩

end

/-- Every run over a store is a run of the tracked adapter, whatever the catalog holds. -/
theorem tracked_follows_store (session : Session) (files : PathStore)
    (metadata : String → FileMeta) (calls : List PosixCall) :
    ∃ outcomes : Outcomes, (∀ i, outcomes.written i = true) ∧
      ((TrackedAdapter.fresh session metadata).runCalls session outcomes calls).1 =
          (runCalls (Adapter.call session) (Adapter.fresh session files) calls).1.map
            CallReply.toPosix ∧
        InStep ((TrackedAdapter.fresh session metadata).runCalls session outcomes calls).2
          (runCalls (Adapter.call session) (Adapter.fresh session files) calls).2 := by
  obtain ⟨answers, hanswers⟩ := InStep.run session calls (Adapter.fresh session files)
  have hserves : Outcomes.Serves { written := fun _ => true, read := fun i => answers[i]? }
      (TrackedAdapter.fresh session metadata).reads answers := by
    refine ⟨fun _ => rfl, fun i data hi => ?_⟩
    show answers[0 + i]? = some data
    rw [Nat.zero_add]
    exact hi
  exact ⟨_, hserves.1, hanswers _ _ ⟨rfl, rfl, rfl⟩ hserves⟩

end Labios
