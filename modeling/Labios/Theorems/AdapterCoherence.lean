import Labios.Adapter.Reference

/-!
# Coherence of the POSIX adapter

What the calls on one path return, and what the store holds once every descriptor
is closed, against a plain file that every write changes at once.

A run whose calls are all safe agrees with the file (`adapter_coherent`). A large
write does not touch the caches, so a small write before it that meets it is
flushed over it later (`smallBeforeLarge_overwrites`).
-/

namespace Labios

variable {session : Session} {path : String}

/-- A safe run from an adapter in step with the file. -/
theorem Coherent.run (hmax : 0 < session.maxLabelSize) (calls : List PosixCall) {s : Adapter}
    {m : PosixFile} (h : Coherent path s m) (hsafe : SafeRun session path s calls) :
    (runCalls (Adapter.call session) s calls).1 = (runCalls PosixFile.call m calls).1 ∧
      Coherent path (runCalls (Adapter.call session) s calls).2
        (runCalls PosixFile.call m calls).2 := by
  induction calls generalizing s m with
  | nil => exact ⟨rfl, h⟩
  | cons c rest ih =>
      obtain ⟨hcall, hrest⟩ := hsafe
      obtain ⟨hreply, hnext⟩ := h.call hmax hcall
      obtain ⟨hreplies, hend⟩ := ih hnext hrest
      exact ⟨congrArg₂ List.cons hreply hreplies, hend⟩

/-- With no descriptor open nothing is staged. -/
theorem Coherent.store_eq {s : Adapter} {m : PosixFile} (h : Coherent path s m)
    (hclosed : s.fds.table.keys = []) : s.files path = m.content := by
  refine h.represents.store_eq fun fd => ?_
  by_contra hne
  refine h.opened fd hne (AList.lookup_eq_none.mpr fun hmem => ?_)
  rw [AList.mem_keys, hclosed] at hmem
  exact List.not_mem_nil hmem

/-- **Coherence.** In a run of safe calls every call returns what it returns on a
plain file, and once no descriptor is open the store is that file. -/
theorem adapter_coherent (session : Session) (hmax : 0 < session.maxLabelSize) (path : String)
    (files : PathStore) (calls : List PosixCall)
    (hsafe : SafeRun session path (Adapter.fresh session files) calls) :
    (runCalls (Adapter.call session) (Adapter.fresh session files) calls).1 =
        (runCalls PosixFile.call { content := files path } calls).1 ∧
      ((runCalls (Adapter.call session) (Adapter.fresh session files) calls).2.fds.table.keys = [] →
        (runCalls (Adapter.call session) (Adapter.fresh session files) calls).2.files path =
          (runCalls PosixFile.call { content := files path } calls).2.content) := by
  have hfresh : Coherent path (Adapter.fresh session files) { content := files path } :=
    coherent_fresh _ rfl files path
  obtain ⟨hreplies, hend⟩ := hfresh.run hmax calls hsafe
  exact ⟨hreplies, hend.store_eq⟩

/-! ## Runs -/

/-- Writes below four bytes are cached, labels hold at most three. -/
def tinySession : Session :=
  { labelMinSize := 4
    maxLabelSize := 3
    readPolicy := .readThrough
    appId := 7
    ids := fun i => UInt64.ofNat (i + 1)
    now := 1
    buffer := 0 }

/-- Two descriptors with one offset: small writes side by side, a read from the
cache, a large write beside them, a read that flushes. -/
def sideBySide : List PosixCall :=
  [.openFile "/data" 0 3, .dup 3 4, .write 3 [1, 2], .pwrite 4 [9] 6, .read 4 0, .pread 3 2 0,
    .pwrite 3 [5, 6, 7, 8] 10, .pread 3 4 2, .pwrite 4 [4] 6, .fsync 4, .pread 3 14 0, .close 3,
    .close 4]

theorem adapter_coherent_sideBySide :
    0 < tinySession.maxLabelSize ∧
      SafeRun tinySession "/data" (Adapter.fresh tinySession fun _ => []) sideBySide ∧
      (runCalls (Adapter.call tinySession) (Adapter.fresh tinySession fun _ => []) sideBySide).1 =
        (runCalls PosixFile.call { content := [] } sideBySide).1 := by
  have hsafe : SafeRun tinySession "/data" (Adapter.fresh tinySession fun _ => []) sideBySide := by
    decide
  exact ⟨by decide, hsafe,
    (adapter_coherent tinySession (by decide) "/data" (fun _ => []) sideBySide hsafe).1⟩

/-- A small write, a large one over it, a read and the close. -/
def smallBeforeLarge : List PosixCall :=
  [.openFile "/data" 0 3, .pwrite 3 [1] 0, .pwrite 3 [2, 2, 2, 2] 0, .pread 3 4 0, .close 3]

/-- The read and the store have the small write's byte where the large one wrote
last. -/
theorem smallBeforeLarge_overwrites :
    (runCalls (Adapter.call tinySession) (Adapter.fresh tinySession fun _ => [])
        smallBeforeLarge).1 ≠
      (runCalls PosixFile.call { content := [] } smallBeforeLarge).1 ∧
    (runCalls (Adapter.call tinySession) (Adapter.fresh tinySession fun _ => [])
        smallBeforeLarge).2.fds.table.keys = [] ∧
    (runCalls (Adapter.call tinySession) (Adapter.fresh tinySession fun _ => [])
        smallBeforeLarge).2.files "/data" = [1, 2, 2, 2] ∧
    (runCalls PosixFile.call { content := [] } smallBeforeLarge).2.content = [2, 2, 2, 2] := by
  decide

end Labios
