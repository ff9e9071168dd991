import Labios.Client.ReadCalls

/-!
# Waiting through the C interface

`labios_wait_read` and `copy_to_c_buffer` of `labios/c_api.cpp`. A pointer argument is
either null or what the call finds there; `std::exception` and everything else thrown below
the interface becomes `LABIOS_ERR_IO`.
-/

namespace Labios

/-- `labios_error_t`. -/
inductive LabiosError
  | ok | connect | timeout | io | invalid
  deriving DecidableEq, Repr

/-- `labios_status`. -/
structure LabiosStatus where
  hasClient : Bool
  pending : List PendingLabel
  isRead : Bool
  deriving DecidableEq, Repr

/-- The caller's buffer: whether `buf` is null, and `buf_size`. -/
structure CBuffer where
  null : Bool := false
  size : Nat
  deriving DecidableEq, Repr

/-- What a read call gives back: its code, what it put into `*bytes_read`, and what it put
into the buffer. -/
structure CRead where
  code : LabiosError
  bytesRead : Nat := 0
  copied : List UInt8 := []
  deriving DecidableEq, Repr

/-- `copy_to_c_buffer`; `bytesRead` says whether the pointer is there. -/
def copyToCBuffer (data : List UInt8) (buf : CBuffer) (bytesRead : Bool) : CRead :=
  if !bytesRead then { code := .invalid }
  else if !data.isEmpty && buf.null then { code := .invalid, bytesRead := data.length }
  else if buf.size < data.length then { code := .invalid, bytesRead := data.length }
  else { code := .ok, bytesRead := data.length, copied := data }

/-- The `try` block of `labios_wait_read`, once `wait_read` is through. -/
def finishRead (result : Except String (List UInt8)) (buf : CBuffer) (bytesRead : Bool) : CRead :=
  match result with
  | .ok data => copyToCBuffer data buf bytesRead
  | .error _ => { code := .io }

/-- `labios_wait_read`. The size of the buffer is looked at after the labels were read. -/
def labiosWaitRead (decode : List UInt8 → DecodedReply) (status : Option LabiosStatus)
    (buf : CBuffer) (bytesRead : Bool) (store : KeyStore) :
    CRead × Option LabiosStatus × KeyStore :=
  match status with
  | none => ({ code := .invalid }, none, store)
  | some handle =>
      if !handle.hasClient || !handle.isRead || !bytesRead then
        ({ code := .invalid }, some handle, store)
      else
        let o := waitReadLoop decode store handle.pending
        (finishRead o.result buf bytesRead, some { handle with pending := o.pending }, o.store)

/-- The handle `labios_async_read` gives out. -/
def labiosAsyncRead (pending : List PendingLabel) : LabiosStatus :=
  { hasClient := true, pending, isRead := true }

/-- Calls of `labios_wait_read` on one handle, one after the other. -/
def waitReadCalls (decode : List UInt8 → DecodedReply) :
    Option LabiosStatus → KeyStore → List CBuffer → List CRead
  | _, _, [] => []
  | status, store, buf :: rest =>
      let r := labiosWaitRead decode status buf true store
      r.1 :: waitReadCalls decode r.2.1 r.2.2 rest

variable {decode : List UInt8 → DecodedReply} {store : KeyStore} {pending : List PendingLabel}
  {data : List UInt8}

/-- A call on a read handle copies what the labels gave. -/
theorem labiosWaitRead_eq (buf : CBuffer)
    (h : (waitReadLoop decode store pending).result = .ok data) :
    labiosWaitRead decode (some (labiosAsyncRead pending)) buf true store =
      (copyToCBuffer data buf true,
        some (labiosAsyncRead (waitReadLoop decode store pending).pending),
        (waitReadLoop decode store pending).store) := by
  show (finishRead (waitReadLoop decode store pending).result buf true, _, _) = _
  rw [h]
  rfl

/-- The first call copies the data, every later one nothing. -/
theorem waitReadCalls_eq (h : (waitReadLoop decode store pending).result = .ok data)
    (buf : CBuffer) (rest : List CBuffer) :
    waitReadCalls decode (some (labiosAsyncRead pending)) store (buf :: rest) =
      copyToCBuffer data buf true :: rest.map fun b => copyToCBuffer [] b true := by
  have hspent : ∀ {status : LabiosStatus} {store : KeyStore},
      status = labiosAsyncRead status.pending →
      (∀ p ∈ status.pending, Spent decode store p) →
      waitReadCalls decode (some status) store rest =
        rest.map fun b => copyToCBuffer [] b true := by
    intro status store hstatus hpending
    induction rest with
    | nil => rfl
    | cons b rest ih =>
        have hloop := waitReadLoop_spent hpending
        rw [waitReadCalls, hstatus, labiosWaitRead_eq b (congrArg ReadOutcome.result hloop), hloop,
          List.map_cons]
        dsimp only
        rw [← hstatus, ih]
  rw [waitReadCalls, labiosWaitRead_eq buf h]
  exact congrArg _ (hspent rfl (spent_of_waitReadLoop h))

theorem copyToCBuffer_short {buf : CBuffer} (h : buf.size < data.length) :
    copyToCBuffer data buf true = { code := .invalid, bytesRead := data.length } := by
  unfold copyToCBuffer
  rw [if_neg (by decide), if_pos h, ite_self]

theorem copyToCBuffer_fits {buf : CBuffer} (hnull : data ≠ [] → buf.null = false)
    (h : data.length ≤ buf.size) :
    copyToCBuffer data buf true = { code := .ok, bytesRead := data.length, copied := data } := by
  have hbuf : ¬(!data.isEmpty && buf.null) = true := by
    cases data with
    | nil => simp
    | cons b rest => simp [hnull (by simp)]
  unfold copyToCBuffer
  rw [if_neg (by decide), if_neg hbuf, if_neg (by omega)]

end Labios

/-!
## A read handle and a buffer that is too short

Does a read survive a call of `labios_wait_read` with too short a buffer? The call reports
the size, but by then the data has been fetched and removed from the warehouse, and it is
not kept in the handle. A later call finds nothing, and returns `LABIOS_OK` with no bytes
(`short_buffer_loses_data`); the data arrives exactly when the first call has the room for it
(`read_survives_iff`).
-/

namespace Labios

/-- What the calls should give back: the size for every short buffer, then the data. -/
def survivingReads (data : List UInt8) (shorts : List CBuffer) : List CRead :=
  shorts.map (fun _ => { code := .invalid, bytesRead := data.length }) ++
    [{ code := .ok, bytesRead := data.length, copied := data }]

/-- **Short buffers.** A handle whose labels read `data`, any number of calls with too short
a buffer, and one with enough room: the calls report the size and the last one returns the
data if and only if no call came before it. -/
theorem read_survives_iff {decode : List UInt8 → DecodedReply} {store : KeyStore}
    {pending : List PendingLabel} {data : List UInt8} {shorts : List CBuffer} {last : CBuffer}
    (hdata : (waitReadLoop decode store pending).result = .ok data)
    (hshort : ∀ b ∈ shorts, b.size < data.length)
    (hroom : data.length ≤ last.size) (hnull : data ≠ [] → last.null = false) :
    waitReadCalls decode (some (labiosAsyncRead pending)) store (shorts ++ [last]) =
        survivingReads data shorts ↔
      shorts = [] := by
  constructor
  · intro hcalls
    cases hlist : shorts with
    | nil => rfl
    | cons b rest =>
        have hpos : 0 < data.length :=
          Nat.lt_of_le_of_lt (Nat.zero_le _) (hshort b (hlist ▸ List.mem_cons_self))
        rw [hlist, List.cons_append, waitReadCalls_eq hdata] at hcalls
        have hlast := congrArg (fun reads => reads.getLast?.map CRead.bytesRead) hcalls
        -- the last call is a later one, so it copies nothing
        have hzero : (copyToCBuffer [] last true).bytesRead = 0 := by
          rw [copyToCBuffer_fits (fun h => absurd rfl h) (Nat.zero_le _)]
          rfl
        simp only [survivingReads, List.map_append, List.map_cons, List.map_nil,
          ← List.cons_append, List.getLast?_concat, Option.map_some, hzero] at hlast
        exact absurd (Option.some.inj hlast).symm (Nat.ne_of_gt hpos)
  · rintro rfl
    rw [List.nil_append, waitReadCalls_eq hdata, copyToCBuffer_fits hnull hroom]
    rfl

/-- One label whose reply names no key of its own, and the five bytes it read. -/
def fiveByteRead : List PendingLabel :=
  [{ labelId := 7, asyncReply := some { data := [1], completed := true } }]

def fiveByteReply (_ : List UInt8) : DecodedReply := { status := 0, error := "", dataKey := "" }

def fiveByteStore : KeyStore := Function.update (fun _ => none) (dataKey 7) (some [1, 2, 3, 4, 5])

/-- With enough room at once the bytes arrive. -/
theorem five_bytes_arrive :
    waitReadCalls fiveByteReply (some (labiosAsyncRead fiveByteRead)) fiveByteStore
        ([] ++ [{ size := 8 }]) = survivingReads [1, 2, 3, 4, 5] [] :=
  have hdata : (waitReadLoop fiveByteReply fiveByteStore fiveByteRead).result =
      .ok [1, 2, 3, 4, 5] := by decide
  (read_survives_iff hdata (by decide) (by decide) (by decide)).mpr rfl

/-- Asked for with two bytes of room, the read is gone: the call with enough room returns
`LABIOS_OK` and no bytes. -/
theorem short_buffer_loses_data :
    (waitReadLoop fiveByteReply fiveByteStore fiveByteRead).result = .ok [1, 2, 3, 4, 5] ∧
      waitReadCalls fiveByteReply (some (labiosAsyncRead fiveByteRead)) fiveByteStore
          [{ size := 2 }, { size := 8 }] =
        [{ code := .invalid, bytesRead := 5 }, { code := .ok, bytesRead := 0, copied := [] }] ∧
      waitReadCalls fiveByteReply (some (labiosAsyncRead fiveByteRead)) fiveByteStore
          [{ size := 2 }, { size := 8 }] ≠ survivingReads [1, 2, 3, 4, 5] [{ size := 2 }] := by
  decide

end Labios
