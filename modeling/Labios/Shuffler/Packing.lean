import Labios.Foundation.Buffers

/-!
# Packed supertasks

`pack_labels` and `unpack_labels` of `labios/shuffler.cpp`: a 32-bit count, then
each serialized child behind its 32-bit length. `none` stands for a read or a
write outside the buffer.

* **the loops** — `packLoop` fills the buffer with the frames of its labels, and
  `unpackLoop` reads the frames that `framesIn` finds (`unpackLoop_eq`);
* **the format** — the frames of a list, cut anywhere, hold a prefix of the list
  (`framesIn_prefix`).
-/

namespace Labios

open Foundation

/-! ## The source's functions -/

/-- The bytes `memcpy` takes from a `uint32_t`. -/
def u32Bytes (x : UInt32) : List UInt8 := leBytes 4 x.toNat

/-- A `uint32_t` copied out of the buffer. -/
def readU32 (buf : List UInt8) (pos : Nat) : Option UInt32 := do
  let bytes ← readAt buf pos 4
  return UInt32.ofNat (ofLeBytes bytes)

/-- The loop of `pack_labels` over the labels, with `pos` the bytes written. -/
def packLoop : List (List UInt8) → List UInt8 → Nat → Option (List UInt8)
  | [], buf, _ => some buf
  | l :: labels, buf, pos => do
    let buf ← writeAt buf pos (u32Bytes (UInt32.ofNat l.length))
    let buf ← writeAt buf (pos + 4) l
    packLoop labels buf (pos + 4 + l.length)

/-- `pack_labels`. -/
def packLabels (labels : List (List UInt8)) : Option (List UInt8) := do
  let total := labels.foldl (fun total l => total + (4 + l.length)) 4
  let buf ← writeAt (List.replicate total 0) 0 (u32Bytes (UInt32.ofNat labels.length))
  packLoop labels buf 4

/-- The loop of `unpack_labels`, with `i` rounds left. A length is below `2 ^ 32`
and a position inside a buffer below `2 ^ 63`, so the sums of the bounds do not
wrap. -/
def unpackLoop (packed : List UInt8) :
    Nat → Nat → List (List UInt8) → Option (List (List UInt8))
  | 0, _, result => some result
  | i + 1, pos, result =>
    if pos + 4 > packed.length then some result
    else do
      let len ← readU32 packed pos
      let pos := pos + 4
      if pos + len.toNat > packed.length then some result
      else
        let label ← readAt packed pos len.toNat
        unpackLoop packed i (pos + len.toNat) (result ++ [label])

/-- `unpack_labels`. -/
def unpackLabels (packed : List UInt8) : Option (List (List UInt8)) :=
  if packed.length < 4 then some []
  else do
    let count ← readU32 packed 0
    unpackLoop packed count.toNat 4 []

/-! ## Frames -/

/-- A label behind its length. -/
def frame (l : List UInt8) : List UInt8 := u32Bytes (UInt32.ofNat l.length) ++ l

/-- The `uint32_t` in front of the bytes. -/
def leadingU32 (bytes : List UInt8) : Nat := (UInt32.ofNat (ofLeBytes (bytes.take 4))).toNat

/-- The labels of the first `n` frames in front of the bytes, as far as they are
whole. -/
def framesIn : Nat → List UInt8 → List (List UInt8)
  | 0, _ => []
  | n + 1, bytes =>
    if bytes.length < 4 then []
    else if bytes.length - 4 < leadingU32 bytes then []
    else
      (bytes.drop 4).take (leadingU32 bytes) ::
        framesIn n (bytes.drop (4 + leadingU32 bytes))

@[simp] theorem length_u32Bytes (x : UInt32) : (u32Bytes x).length = 4 := length_leBytes 4 _

@[simp] theorem length_frame (l : List UInt8) : (frame l).length = 4 + l.length := by
  simp [frame]

theorem ofLeBytes_u32Bytes (x : UInt32) : UInt32.ofNat (ofLeBytes (u32Bytes x)) = x := by
  have hx : x.toNat < 256 ^ 4 := x.toNat_lt
  rw [u32Bytes, ofLeBytes_leBytes, Nat.mod_eq_of_lt hx, UInt32.ofNat_toNat]

theorem take_word (x : UInt32) (rest : List UInt8) : (u32Bytes x ++ rest).take 4 = u32Bytes x := by
  rw [← length_u32Bytes x, List.take_left]

theorem drop_word (x : UInt32) (rest : List UInt8) : (u32Bytes x ++ rest).drop 4 = rest := by
  rw [← length_u32Bytes x, List.drop_left]

theorem take_payload (l rest : List UInt8) :
    ((frame l ++ rest).drop 4).take l.length = l := by
  rw [frame, List.append_assoc, drop_word, List.take_left]

theorem drop_frame (l rest : List UInt8) : (frame l ++ rest).drop (4 + l.length) = rest := by
  rw [← length_frame, List.drop_left]

/-- The word in front of any bytes that go on after it. -/
theorem leadingU32_of_prefix {n : Nat} (h : n < 2 ^ 32) {bytes : List UInt8}
    (hfront : bytes.take 4 = u32Bytes (UInt32.ofNat n)) : leadingU32 bytes = n := by
  rw [leadingU32, hfront, ofLeBytes_u32Bytes]
  exact UInt32.toNat_ofNat_of_lt' h

theorem readU32_of_le {buf : List UInt8} {pos : Nat} (h : pos + 4 ≤ buf.length) :
    readU32 buf pos = some (UInt32.ofNat (ofLeBytes ((buf.drop pos).take 4))) := by
  rw [readU32, readAt_of_le h]
  rfl

/-! ## The loops -/

/-- The bytes of a buffer that is still to be filled with frames. -/
theorem foldl_total (labels : List (List UInt8)) (start : Nat) :
    labels.foldl (fun total l => total + (4 + l.length)) start =
      start + (labels.flatMap frame).length := by
  induction labels generalizing start with
  | nil => rfl
  | cons l labels ih =>
    rw [List.foldl_cons, ih, List.flatMap_cons, List.length_append, length_frame]
    omega

/-- The loop writes the frames behind what is written, into exactly the room
that the total reserved. -/
theorem packLoop_eq (labels : List (List UInt8)) (front room : List UInt8)
    (hroom : room.length = (labels.flatMap frame).length) :
    packLoop labels (front ++ room) front.length =
      some (front ++ labels.flatMap frame) := by
  induction labels generalizing front room with
  | nil =>
    have hnil : room = [] := List.length_eq_zero_iff.mp hroom
    rw [packLoop, hnil, List.flatMap_nil]
  | cons l labels ih =>
    rw [List.flatMap_cons, List.length_append, length_frame] at hroom
    -- the room for the length, for the label and for the frames after it
    obtain ⟨forLen, room', rfl, hlen⟩ : ∃ a b, room = a ++ b ∧ a.length = 4 :=
      ⟨_, _, (List.take_append_drop 4 room).symm, by rw [List.length_take]; omega⟩
    rw [List.length_append, hlen] at hroom
    obtain ⟨forLabel, rest, rfl, hlabel⟩ : ∃ a b, room' = a ++ b ∧ a.length = l.length :=
      ⟨_, _, (List.take_append_drop l.length room').symm, by rw [List.length_take]; omega⟩
    rw [List.length_append, hlabel] at hroom
    have hroomWord : forLen.length = (u32Bytes (UInt32.ofNat l.length)).length := by
      rw [hlen, length_u32Bytes]
    have hword := writeAt_append front (forLabel ++ rest) hroomWord
    have hbytes := writeAt_append (front ++ u32Bytes (UInt32.ofNat l.length)) rest hlabel
    have hih := ih (front ++ frame l) rest (by omega)
    rw [List.length_append, length_u32Bytes] at hbytes
    rw [List.length_append, length_frame] at hih
    rw [packLoop, ← List.append_assoc, hword]
    simp only [Option.bind_eq_bind, Option.bind_some, ← List.append_assoc, hbytes]
    rw [List.append_assoc front, ← frame, Nat.add_assoc, hih, List.flatMap_cons,
      List.append_assoc]

/-- What `pack_labels` writes: the count and the frames. -/
theorem packLabels_eq (labels : List (List UInt8)) :
    packLabels labels =
      some (u32Bytes (UInt32.ofNat labels.length) ++ labels.flatMap frame) := by
  have hsplit : List.replicate (4 + (labels.flatMap frame).length) (0 : UInt8) =
      [] ++ List.replicate 4 0 ++ List.replicate (labels.flatMap frame).length 0 := by
    rw [List.nil_append, List.replicate_append_replicate]
  have hroom : (List.replicate 4 (0 : UInt8)).length =
      (u32Bytes (UInt32.ofNat labels.length)).length := by
    rw [length_u32Bytes, List.length_replicate]
  have hword := writeAt_append [] (List.replicate (labels.flatMap frame).length (0 : UInt8)) hroom
  have hloop := packLoop_eq labels (u32Bytes (UInt32.ofNat labels.length))
    (List.replicate (labels.flatMap frame).length 0) (by rw [List.length_replicate])
  rw [length_u32Bytes] at hloop
  rw [packLabels, foldl_total, hsplit, ← List.length_nil (α := UInt8), hword]
  exact hloop

/-- The loop of `unpack_labels` stays inside the buffer and adds the frames it
finds from `pos` on. -/
theorem unpackLoop_eq (packed : List UInt8) (n pos : Nat) (result : List (List UInt8))
    (hpos : pos ≤ packed.length) :
    unpackLoop packed n pos result = some (result ++ framesIn n (packed.drop pos)) := by
  induction n generalizing pos result with
  | zero => rw [unpackLoop, framesIn, List.append_nil]
  | succ n ih =>
    have hleft : (packed.drop pos).length = packed.length - pos := List.length_drop
    rw [unpackLoop, framesIn, hleft]
    by_cases hword : packed.length - pos < 4
    · rw [if_pos hword, if_pos (by omega), List.append_nil]
    rw [if_neg hword, if_neg (by omega), readU32_of_le (by omega)]
    have hlen : (UInt32.ofNat (ofLeBytes ((packed.drop pos).take 4))).toNat =
        leadingU32 (packed.drop pos) := rfl
    simp only [Option.bind_eq_bind, Option.bind_some, hlen]
    by_cases hshort : packed.length - pos - 4 < leadingU32 (packed.drop pos)
    · rw [if_pos hshort, if_pos (by omega), List.append_nil]
    · have hinside : pos + 4 + leadingU32 (packed.drop pos) ≤ packed.length := by omega
      rw [if_neg hshort, if_neg (by omega), readAt_of_le hinside]
      simp only [Option.bind_some]
      rw [ih _ _ hinside, List.append_assoc, List.singleton_append, List.drop_drop,
        List.drop_drop, Nat.add_assoc]

/-- `unpack_labels` on any input: it never reads outside. -/
theorem unpackLabels_eq (packed : List UInt8) :
    unpackLabels packed =
      some (if packed.length < 4 then []
        else framesIn (leadingU32 packed) (packed.drop 4)) := by
  unfold unpackLabels
  by_cases hword : packed.length < 4
  · rw [if_pos hword, if_pos hword]
  · rw [if_neg hword, if_neg hword, readU32_of_le (by omega), List.drop_zero]
    exact unpackLoop_eq packed _ 4 [] (by omega)

/-! ## The format -/

/-- Any bytes that start with frames of `ls` and are cut anywhere hold a prefix
of `ls`. -/
theorem framesIn_prefix {ls : List (List UInt8)} (hshort : ∀ l ∈ ls, l.length < 2 ^ 32)
    (n : Nat) {bytes : List UInt8} (hcut : bytes <+: ls.flatMap frame) :
    framesIn n bytes <+: ls := by
  induction n generalizing ls bytes with
  | zero => exact List.nil_prefix
  | succ n ih =>
    rw [framesIn]
    by_cases hword : bytes.length < 4
    · rw [if_pos hword]
      exact List.nil_prefix
    rw [if_neg hword]
    cases ls with
    | nil =>
      have := List.prefix_nil.mp hcut
      simp [this] at hword
    | cons l ls =>
      rw [List.flatMap_cons] at hcut
      -- four bytes are there, so they are the length of `l`
      have hfront : bytes.take 4 = u32Bytes (UInt32.ofNat l.length) := by
        have hword : bytes <+: u32Bytes (UInt32.ofNat l.length) ++ (l ++ ls.flatMap frame) := by
          rwa [frame, List.append_assoc] at hcut
        obtain ⟨more, rfl, -⟩ :=
          exists_of_prefix_append hword (by rw [length_u32Bytes]; omega)
        exact take_word _ _
      have hlead := leadingU32_of_prefix (hshort l List.mem_cons_self) hfront
      rw [hlead]
      by_cases hcutShort : bytes.length - 4 < l.length
      · -- the cut falls into `l`
        rw [if_pos hcutShort]
        exact List.nil_prefix
      rw [if_neg hcutShort]
      -- the whole frame of `l` is there
      obtain ⟨rest, rfl, hrest⟩ := exists_of_prefix_append hcut (by rw [length_frame]; omega)
      rw [take_payload, drop_frame, List.cons_prefix_cons]
      exact ⟨rfl, ih (fun l' hl' => hshort l' (List.mem_cons_of_mem l hl')) hrest⟩

/-- All frames of a list are read back. -/
theorem framesIn_flatMap {ls : List (List UInt8)} (hshort : ∀ l ∈ ls, l.length < 2 ^ 32) :
    framesIn ls.length (ls.flatMap frame) = ls := by
  induction ls with
  | nil => rfl
  | cons l ls ih =>
    have hlead : leadingU32 (frame l ++ ls.flatMap frame) = l.length := by
      apply leadingU32_of_prefix (hshort l List.mem_cons_self)
      rw [frame, List.append_assoc, take_word]
    have hlen : (frame l ++ ls.flatMap frame).length =
        4 + l.length + (ls.flatMap frame).length := by simp
    rw [List.length_cons, List.flatMap_cons, framesIn, hlead, hlen, if_neg (by omega),
      if_neg (by omega), take_payload, drop_frame,
      ih fun l' hl' => hshort l' (List.mem_cons_of_mem l hl')]

/-- The labels found, each behind its length, fit in the bytes. -/
theorem framesIn_fit (n : Nat) (bytes : List UInt8) :
    ((framesIn n bytes).map fun l => 4 + l.length).sum ≤ bytes.length := by
  induction n generalizing bytes with
  | zero => exact Nat.zero_le _
  | succ n ih =>
    rw [framesIn]
    split
    · exact Nat.zero_le _
    · split
      · exact Nat.zero_le _
      · have hrest := ih (bytes.drop (4 + leadingU32 bytes))
        rw [List.length_drop] at hrest
        rw [List.map_cons, List.sum_cons, List.length_take, List.length_drop]
        omega

/-- Packing round trip, on the whole packed text, on every cut of it, and the
bound of what `unpack_labels` reads from arbitrary bytes. -/
theorem packing_round_trip :
    (∀ ls : List (List UInt8), ls.length < 2 ^ 32 → (∀ l ∈ ls, l.length < 2 ^ 32) →
      ∃ packed, packLabels ls = some packed ∧ unpackLabels packed = some ls ∧
        ∀ cut, cut <+: packed → ∃ read, unpackLabels cut = some read ∧ read <+: ls) ∧
    ∀ packed, ∃ read, unpackLabels packed = some read ∧
      (read = [] ∨ 4 + (read.map fun l => 4 + l.length).sum ≤ packed.length) := by
  constructor
  · intro ls hcount hshort
    refine ⟨_, packLabels_eq ls, ?_, ?_⟩
    · rw [unpackLabels_eq, leadingU32_of_prefix hcount (take_word _ _), drop_word,
        framesIn_flatMap hshort, if_neg (by simp)]
    · intro cut hcut
      refine ⟨_, unpackLabels_eq cut, ?_⟩
      by_cases hword : cut.length < 4
      · rw [if_pos hword]
        exact List.nil_prefix
      · rw [if_neg hword]
        obtain ⟨rest, rfl, hrest⟩ :=
          exists_of_prefix_append hcut (by rw [length_u32Bytes]; omega)
        rw [drop_word]
        exact framesIn_prefix hshort _ hrest
  · intro packed
    refine ⟨_, unpackLabels_eq packed, ?_⟩
    by_cases hword : packed.length < 4
    · rw [if_pos hword]
      exact Or.inl rfl
    · rw [if_neg hword]
      right
      have hfit := framesIn_fit (leadingU32 packed) (packed.drop 4)
      rw [List.length_drop] at hfit
      omega

/-- Two labels, the second of them empty. -/
theorem packing_round_trip_two :
    ∃ packed, packLabels [[7, 9], []] = some packed ∧
      unpackLabels packed = some [[7, 9], []] :=
  let ⟨packed, hpack, hunpack, _⟩ := packing_round_trip.1 [[7, 9], []] (by decide)
    (by simp)
  ⟨packed, hpack, hunpack⟩

end Labios
