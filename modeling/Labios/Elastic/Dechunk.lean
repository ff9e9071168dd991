import Labios.Foundation.Buffers
import Mathlib.Data.List.TakeWhile
import Mathlib.Data.Nat.Digits.Defs

/-!
# Chunked bodies

`DockerClient::dechunk` of `labios/elastic/docker_client.cpp`, with `std::stoul` in
base 16 as it calls it. The position in the text is kept as in the code, and a read
outside the text and a loop that does not end are outcomes of their own.

* **the loop** — it reads only what is left of the text (`dechunkLoop_eq`), so
  neither of these two outcomes occurs;
* **the encoding** — `ChunkedEncoding` relates chunks to the texts that carry them.
-/

namespace Labios.Elastic

open Foundation

/-! ## Size lines -/

inductive StoulError
  | invalidArgument
  | outOfRange
  deriving DecidableEq, Repr

/-- The value of a hexadecimal digit. -/
def hexDigit? (b : UInt8) : Option Nat :=
  if 48 ≤ b.toNat ∧ b.toNat ≤ 57 then some (b.toNat - 48)
  else if 65 ≤ b.toNat ∧ b.toNat ≤ 70 then some (b.toNat - 55)
  else if 97 ≤ b.toNat ∧ b.toNat ≤ 102 then some (b.toNat - 87)
  else none

def isHexDigit (b : UInt8) : Bool := (hexDigit? b).isSome

/-- The number that hexadecimal digits spell. -/
def hexValue (digits : List UInt8) : Nat :=
  digits.foldl (fun n b => 16 * n + (hexDigit? b).getD 0) 0

/-- `isspace` -/
def isSpace (b : UInt8) : Bool := b.toNat = 32 ∨ 9 ≤ b.toNat ∧ b.toNat ≤ 13

def cutSign : List UInt8 → Bool × List UInt8
  | [] => (false, [])
  | b :: rest =>
      if b = 45 then (true, rest) else if b = 43 then (false, rest) else (false, b :: rest)

/-- `0x` is skipped where a digit follows. -/
def cutHexPrefix : List UInt8 → List UInt8
  | zero :: x :: digit :: rest =>
      if zero = 48 ∧ (x = 120 ∨ x = 88) ∧ isHexDigit digit then digit :: rest
      else zero :: x :: digit :: rest
  | text => text

/-- `std::stoul(text, nullptr, 16)`: leading space, a sign, the digits up to the
first other character; a negative number wraps. -/
def stoul (text : List UInt8) : Except StoulError Nat :=
  let (negative, rest) := cutSign (text.dropWhile isSpace)
  let digits := (cutHexPrefix rest).takeWhile isHexDigit
  if digits = [] then .error .invalidArgument
  else if 2 ^ 64 ≤ hexValue digits then .error .outOfRange
  else .ok (if negative then (2 ^ 64 - hexValue digits) % 2 ^ 64 else hexValue digits)

/-! ## The loop -/

/-- Where the first line break starts. -/
def crlfIn : List UInt8 → Option Nat
  | [] => none
  | b :: rest => if b = 13 ∧ rest.head? = some 10 then some 0 else (crlfIn rest).map (· + 1)

/-- `chunked.find("\r\n", pos)` -/
def findCrlf (chunked : List UInt8) (pos : Nat) : Option Nat :=
  (crlfIn (chunked.drop pos)).map (pos + ·)

/-- How a call ends. -/
inductive Dechunked
  | returned (result : List UInt8)
  | threw (error : StoulError)
  | outside
  | unfinished
  deriving DecidableEq, Repr

def sanityLimit : Nat := 10 * 1024 * 1024

/-- The loop of `dechunk`, with at most `fuel` rounds. -/
def dechunkLoop (chunked : List UInt8) : Nat → Nat → List UInt8 → Dechunked
  | 0, _, _ => .unfinished
  | fuel + 1, pos, result =>
    if pos < chunked.length then
      match findCrlf chunked pos with
      | none => .returned result
      | some crlf =>
        match readAt chunked pos (crlf - pos) with
        | none => .outside
        | some line =>
          match stoul line with
          | .error error => .threw error
          | .ok chunkSize =>
            if chunkSize = 0 then .returned result
            else if chunkSize > sanityLimit then .returned result
            else
              let pos := crlf + 2
              if pos + chunkSize > chunked.length then .returned result
              else
                match readAt chunked pos chunkSize with
                | none => .outside
                | some chunk =>
                  dechunkLoop chunked fuel (pos + (chunkSize + 2)) (result ++ chunk)
    else .returned result

/-- `DockerClient::dechunk`; a round takes at least one character. -/
def dechunk (chunked : List UInt8) : Dechunked := dechunkLoop chunked (chunked.length + 1) 0 []

/-! ## Line breaks -/

theorem crlfIn_spec {text : List UInt8} {k : Nat} (h : crlfIn text = some k) :
    ∃ line rest, text = line ++ 13 :: 10 :: rest ∧ line.length = k := by
  induction text generalizing k with
  | nil => cases h
  | cons b text ih =>
    rw [crlfIn] at h
    split at h
    · next hbreak =>
      obtain rfl := Option.some.inj h
      obtain ⟨rfl, hnext⟩ := hbreak
      cases text with
      | nil => cases hnext
      | cons c rest =>
        obtain rfl := Option.some.inj hnext
        exact ⟨[], rest, rfl, rfl⟩
    · obtain ⟨k', hk', rfl⟩ := Option.map_eq_some_iff.mp h
      obtain ⟨line, rest, rfl, rfl⟩ := ih hk'
      exact ⟨b :: line, rest, rfl, rfl⟩

theorem crlfIn_append {line : List UInt8} (hline : 13 ∉ line) (rest : List UInt8) :
    crlfIn (line ++ 13 :: 10 :: rest) = some line.length := by
  induction line with
  | nil => rfl
  | cons b line ih =>
    rw [List.mem_cons, not_or] at hline
    have hb : ¬(b = 13 ∧ (line ++ 13 :: 10 :: rest).head? = some 10) :=
      fun h => hline.1 h.1.symm
    rw [List.cons_append, crlfIn, if_neg hb, ih hline.2]
    rfl

/-- A line that is cut before its break ends has none. -/
theorem crlfIn_cut {line cut : List UInt8} (hline : 13 ∉ line) (hcut : cut <+: line ++ [13]) :
    crlfIn cut = none := by
  cases hfind : crlfIn cut with
  | none => rfl
  | some k =>
    obtain ⟨front, rest, rfl, -⟩ := crlfIn_spec hfind
    obtain ⟨more, hmore⟩ := hcut
    have hget : (line ++ [13])[front.length]? = some 13 := by
      rw [← hmore]
      simp
    have hlt : front.length < line.length := by
      have hlength := congrArg List.length hmore
      simp only [List.length_append, List.length_cons, List.length_nil] at hlength
      omega
    rw [List.getElem?_append_left hlt] at hget
    exact absurd (List.mem_of_getElem? hget) hline

/-! ## The rest of the text -/

/-- The loop on what is left of the text. -/
def dechunkRest : Nat → List UInt8 → List UInt8 → Dechunked
  | 0, _, _ => .unfinished
  | fuel + 1, rest, result =>
    match crlfIn rest with
    | none => .returned result
    | some k =>
      match stoul (rest.take k) with
      | .error error => .threw error
      | .ok size =>
        if size = 0 ∨ size > sanityLimit ∨ (rest.drop (k + 2)).length < size then
          .returned result
        else
          dechunkRest fuel ((rest.drop (k + 2)).drop (size + 2))
            (result ++ (rest.drop (k + 2)).take size)

theorem dechunkLoop_eq (chunked : List UInt8) (fuel pos : Nat) (result : List UInt8) :
    dechunkLoop chunked fuel pos result = dechunkRest fuel (chunked.drop pos) result := by
  induction fuel generalizing pos result with
  | zero => rfl
  | succ fuel ih =>
    rw [dechunkLoop, dechunkRest]
    -- behind the end nothing is left of the text, and both stop
    by_cases hpos : pos < chunked.length
    · rw [if_pos hpos, findCrlf]
      cases hfind : crlfIn (chunked.drop pos) with
      | none => rfl
      | some k =>
        obtain ⟨line, rest, hsplit, rfl⟩ := crlfIn_spec hfind
        have hlength := congrArg List.length hsplit
        rw [List.length_drop, List.length_append, List.length_cons, List.length_cons] at hlength
        have hline : readAt chunked pos (pos + line.length - pos) =
            some ((chunked.drop pos).take line.length) := by
          rw [Nat.add_sub_cancel_left]
          exact readAt_of_le (by omega)
        simp only [Option.map_some, hline]
        cases stoul ((chunked.drop pos).take line.length) with
        | error error => rfl
        | ok size =>
          dsimp only
          rw [List.drop_drop, List.length_drop]
          -- the three tests of the code, as one
          by_cases hstop : size = 0 ∨ size > sanityLimit ∨
              chunked.length - (pos + (line.length + 2)) < size
          · rw [if_pos hstop]
            split
            · rfl
            · split
              · rfl
              · rw [if_pos (by omega)]
          · rw [if_neg hstop, if_neg (by omega), if_neg (by omega), if_neg (by omega),
              readAt_of_le (by omega)]
            dsimp only
            rw [ih, List.drop_drop, Nat.add_assoc pos]
    · rw [if_neg hpos, List.drop_eq_nil_of_le (by omega)]
      rfl

/-- Enough rounds end the loop, by a result or by what `stoul` throws. -/
theorem dechunkRest_ends {fuel : Nat} {rest : List UInt8} (hfuel : rest.length < fuel)
    (result : List UInt8) :
    (∃ decoded, dechunkRest fuel rest result = .returned decoded) ∨
      ∃ error, dechunkRest fuel rest result = .threw error := by
  induction fuel generalizing rest result with
  | zero => omega
  | succ fuel ih =>
    rw [dechunkRest]
    cases hfind : crlfIn rest with
    | none => exact Or.inl ⟨result, rfl⟩
    | some k =>
      obtain ⟨line, back, hsplit, rfl⟩ := crlfIn_spec hfind
      have hlength := congrArg List.length hsplit
      rw [List.length_append, List.length_cons, List.length_cons] at hlength
      dsimp only
      cases stoul (rest.take line.length) with
      | error error => exact Or.inr ⟨error, rfl⟩
      | ok size =>
        dsimp only
        split
        · exact Or.inl ⟨result, rfl⟩
        · -- at least the line break is gone
          apply ih
          rw [List.length_drop, List.length_drop]
          omega

/-! ## The encoding -/

/-- Hexadecimal digits, in either case and with leading zeros or not, that spell
`n`. -/
def SpellsHex (digits : List UInt8) (n : Nat) : Prop :=
  digits ≠ [] ∧ (∀ b ∈ digits, isHexDigit b = true) ∧ hexValue digits = n

/-- The texts that carry chunks: each behind its size, and a chunk of size zero with
whatever follows it at the end. -/
inductive ChunkedEncoding : List (List UInt8) → List UInt8 → Prop
  | last {zeros : List UInt8} (trailer : List UInt8) : SpellsHex zeros 0 →
      ChunkedEncoding [] (zeros ++ 13 :: 10 :: trailer)
  | chunk {size data text : List UInt8} {chunks : List (List UInt8)} :
      SpellsHex size data.length → ChunkedEncoding chunks text →
      ChunkedEncoding (data :: chunks) (size ++ 13 :: 10 :: (data ++ 13 :: 10 :: text))

/-- The digits of a size, written in lower case. -/
def hexText (n : Nat) : List UInt8 :=
  if n = 0 then [48]
  else (Nat.digits 16 n).reverse.map fun d => UInt8.ofNat (if d < 10 then 48 + d else 87 + d)

theorem spellsHex_digit {b : UInt8} {n : Nat} (h : hexDigit? b = some n) : SpellsHex [b] n := by
  refine ⟨List.cons_ne_nil b [], ?_, ?_⟩
  · intro c hc
    rw [List.mem_singleton.mp hc, isHexDigit, h]
    rfl
  · simp [hexValue, h]

theorem spellsHex_hexText (n : Nat) : SpellsHex (hexText n) n := by
  have hdigit : ∀ d < 16, hexDigit? (UInt8.ofNat (if d < 10 then 48 + d else 87 + d)) = some d := by
    decide
  by_cases hzero : n = 0
  · subst hzero
    exact spellsHex_digit rfl
  · have hlt : ∀ d ∈ Nat.digits 16 n, d < 16 := fun d hd => Nat.digits_lt_base (by decide) hd
    rw [hexText, if_neg hzero]
    refine ⟨?_, ?_, ?_⟩
    · rw [Ne, List.map_eq_nil_iff, List.reverse_eq_nil_iff, Nat.digits_eq_nil_iff_eq_zero]
      exact hzero
    · intro b hb
      obtain ⟨d, hd, rfl⟩ := List.mem_map.mp hb
      rw [isHexDigit, hdigit d (hlt d (List.mem_reverse.mp hd))]
      rfl
    · have hfold : ∀ ds : List Nat, (∀ d ∈ ds, d < 16) →
          hexValue (ds.reverse.map fun d =>
            UInt8.ofNat (if d < 10 then 48 + d else 87 + d)) = Nat.ofDigits 16 ds := by
        intro ds hds
        induction ds with
        | nil => rfl
        | cons d ds ih =>
          have hrest := ih fun d' hd' => hds d' (List.mem_cons_of_mem _ hd')
          unfold hexValue at hrest ⊢
          rw [List.reverse_cons, List.map_append, List.foldl_append, hrest, Nat.ofDigits_cons]
          simp only [List.map_cons, List.map_nil, List.foldl_cons, List.foldl_nil,
            hdigit d (hds d List.mem_cons_self), Option.getD_some]
          exact Nat.add_comm _ _
      rw [hfold _ hlt, Nat.ofDigits_digits]

/-- Every list of chunks has an encoding. -/
theorem exists_encoding (chunks : List (List UInt8)) : ∃ text, ChunkedEncoding chunks text := by
  induction chunks with
  | nil => exact ⟨_, .last [13, 10] (spellsHex_hexText 0)⟩
  | cons data chunks ih =>
    obtain ⟨text, htext⟩ := ih
    exact ⟨_, .chunk (spellsHex_hexText data.length) htext⟩

theorem isHexDigit_iff (b : UInt8) : isHexDigit b = true ↔
    48 ≤ b.toNat ∧ b.toNat ≤ 57 ∨ 65 ≤ b.toNat ∧ b.toNat ≤ 70 ∨
      97 ≤ b.toNat ∧ b.toNat ≤ 102 := by
  unfold isHexDigit hexDigit?
  split_ifs <;> simp <;> omega

theorem notMem_of_hexDigits {digits : List UInt8} (h : ∀ b ∈ digits, isHexDigit b = true)
    {b : UInt8} (hb : isHexDigit b = false) : b ∉ digits := by
  intro hmem
  rw [h b hmem] at hb
  cases hb

/-- `stoul` reads digits alone as their number. -/
theorem stoul_of_spells {digits : List UInt8} {n : Nat} (h : SpellsHex digits n)
    (hn : n < 2 ^ 64) : stoul digits = .ok n := by
  obtain ⟨hne, hdigits, rfl⟩ := h
  have hspace : digits.dropWhile isSpace = digits := by
    cases digits with
    | nil => rfl
    | cons b rest =>
      have hb := (isHexDigit_iff b).mp (hdigits b List.mem_cons_self)
      refine List.dropWhile_cons_of_neg ?_
      unfold isSpace
      rw [decide_eq_true_iff]
      omega
  have hsign : cutSign digits = (false, digits) := by
    cases digits with
    | nil => rfl
    | cons b rest =>
      have hplus : b ≠ 45 := by
        rintro rfl
        exact notMem_of_hexDigits hdigits (by decide) List.mem_cons_self
      have hminus : b ≠ 43 := by
        rintro rfl
        exact notMem_of_hexDigits hdigits (by decide) List.mem_cons_self
      rw [cutSign, if_neg hplus, if_neg hminus]
  have hfront : cutHexPrefix digits = digits := by
    unfold cutHexPrefix
    split
    · next zero x digit rest =>
      refine if_neg ?_
      rintro ⟨-, hx | hx, -⟩
      · exact notMem_of_hexDigits hdigits (b := x) (hx ▸ by decide) (by simp)
      · exact notMem_of_hexDigits hdigits (b := x) (hx ▸ by decide) (by simp)
    · rfl
  have htake : digits.takeWhile isHexDigit = digits := by
    rw [List.takeWhile_eq_self_iff]
    exact hdigits
  unfold stoul
  rw [hspace, hsign]
  simp only [hfront, htake]
  rw [if_neg hne, if_neg (Nat.not_le_of_lt hn)]
  rfl

theorem drop_line (line rest : List UInt8) :
    (line ++ 13 :: 10 :: rest).drop (line.length + 2) = rest := by
  rw [← List.drop_drop, List.drop_left]
  rfl

/-- A round on the text behind a size line. -/
theorem dechunkRest_line {line : List UInt8} {n : Nat} (h : SpellsHex line n) (hn : n < 2 ^ 64)
    (fuel : Nat) (rest result : List UInt8) :
    dechunkRest (fuel + 1) (line ++ 13 :: 10 :: rest) result =
      if n = 0 ∨ n > sanityLimit ∨ rest.length < n then .returned result
      else dechunkRest fuel (rest.drop (n + 2)) (result ++ rest.take n) := by
  have hline : 13 ∉ line := notMem_of_hexDigits h.2.1 (by decide)
  rw [dechunkRest, crlfIn_append hline]
  dsimp only
  rw [List.take_left, stoul_of_spells h hn]
  dsimp only
  rw [drop_line]

/-- A text that is cut inside its size line holds no chunk. -/
theorem dechunkRest_cut {line cut : List UInt8} (hline : 13 ∉ line) (hcut : cut <+: line ++ [13])
    (fuel : Nat) (result : List UInt8) : dechunkRest (fuel + 1) cut result = .returned result := by
  rw [dechunkRest, crlfIn_cut hline hcut]

/-- A cut of a text falls into its first line or behind it. -/
theorem cut_cases {line rest cut : List UInt8} (hcut : cut <+: line ++ 13 :: 10 :: rest) :
    cut <+: line ++ [13] ∨ ∃ more, cut = line ++ 13 :: 10 :: more ∧ more <+: rest := by
  have hsplit : line ++ 13 :: 10 :: rest = (line ++ [13, 10]) ++ rest := by simp
  have hfront : line ++ [13] <+: (line ++ [13, 10]) ++ rest := by
    rw [← hsplit]
    exact (List.prefix_append_right_inj line).mpr ⟨10 :: rest, rfl⟩
  rw [hsplit] at hcut
  by_cases hlen : cut.length ≤ line.length + 1
  · exact Or.inl (List.prefix_of_prefix_length_le hcut hfront (by simpa using hlen))
  · right
    have hlong : (line ++ [13, 10]).length ≤ cut.length := by
      rw [List.length_append]
      simp only [List.length_cons, List.length_nil]
      omega
    obtain ⟨more, rfl, hmore⟩ := exists_of_prefix_append hcut hlong
    exact ⟨more, by simp, hmore⟩

/-- The loop on an encoding that is cut anywhere returns a prefix of the chunks, and
all of them where nothing is cut off. -/
theorem dechunkRest_encoding {chunks : List (List UInt8)} {text : List UInt8}
    (h : ChunkedEncoding chunks text)
    (hsizes : ∀ data ∈ chunks, data ≠ [] ∧ data.length ≤ sanityLimit) {cut : List UInt8}
    (hcut : cut <+: text) {fuel : Nat} (hfuel : cut.length < fuel) (result : List UInt8) :
    ∃ part, dechunkRest fuel cut result = .returned (result ++ part) ∧
      part <+: chunks.flatten ∧ (cut = text → part = chunks.flatten) := by
  have hlimit : sanityLimit < 2 ^ 64 := by decide
  induction h generalizing cut fuel result with
  | @last zeros trailer hzeros =>
    have hline : 13 ∉ zeros := notMem_of_hexDigits hzeros.2.1 (by decide)
    obtain ⟨fuel, rfl⟩ : ∃ n, fuel = n + 1 := ⟨fuel - 1, by omega⟩
    refine ⟨[], ?_, List.nil_prefix, fun _ => rfl⟩
    rw [List.append_nil]
    -- the loop stops in the size line, or at the size zero
    rcases cut_cases hcut with hfront | ⟨more, rfl, -⟩
    · exact dechunkRest_cut hline hfront fuel result
    · rw [dechunkRest_line hzeros (by decide), if_pos (Or.inl rfl)]
  | @chunk size data text chunks hsize _ ih =>
    have hline : 13 ∉ size := notMem_of_hexDigits hsize.2.1 (by decide)
    obtain ⟨hne, hle⟩ := hsizes data List.mem_cons_self
    have hpos : 0 < data.length := List.length_pos_iff.mpr hne
    obtain ⟨fuel, rfl⟩ : ∃ n, fuel = n + 1 := ⟨fuel - 1, by omega⟩
    rcases cut_cases hcut with hfront | ⟨more, rfl, hmore⟩
    · refine ⟨[], ?_, List.nil_prefix, ?_⟩
      · rw [List.append_nil]
        exact dechunkRest_cut hline hfront fuel result
      · rintro rfl
        have hlength := hfront.length_le
        simp only [List.length_append, List.length_cons, List.length_nil] at hlength
        omega
    rw [dechunkRest_line hsize (by omega)]
    by_cases hshort : more.length < data.length
    · refine ⟨[], ?_, List.nil_prefix, ?_⟩
      · rw [List.append_nil, if_pos (Or.inr (Or.inr hshort))]
      · intro hwhole
        have hlength := congrArg List.length (List.append_cancel_left hwhole)
        simp only [List.length_append, List.length_cons] at hlength
        omega
    · rw [if_neg (by omega)]
      -- the chunk is whole; what follows it is a cut of the text of the others
      obtain ⟨after, rfl, hafter⟩ := exists_of_prefix_append hmore (by omega)
      have hdrop : (data ++ after).drop (data.length + 2) = after.drop 2 := by
        rw [← List.drop_drop, List.drop_left]
      have hcutRest : after.drop 2 <+: text := by
        obtain ⟨tail, htail⟩ := hafter
        match after, htail with
        | [], _ => exact List.nil_prefix
        | [_], _ => exact List.nil_prefix
        | _ :: _ :: after, htail =>
          exact ⟨tail, (List.cons.inj (List.cons.inj htail).2).2⟩
      have hrestFuel : (after.drop 2).length < fuel := by
        simp only [List.length_append, List.length_cons] at hfuel
        rw [List.length_drop]
        omega
      obtain ⟨part, hpart, hfront, hall⟩ :=
        ih (fun d hd => hsizes d (List.mem_cons_of_mem _ hd)) hcutRest hrestFuel
          (result ++ data)
      refine ⟨data ++ part, ?_, ?_, ?_⟩
      · rw [hdrop, List.take_left, hpart, List.append_assoc]
      · rw [List.flatten_cons]
        exact (List.prefix_append_right_inj _).mpr hfront
      · intro hwhole
        have hsame := List.append_cancel_left hwhole
        have hrest := List.append_cancel_left (List.cons.inj (List.cons.inj hsame).2).2
        rw [hall (by rw [hrest]; rfl), List.flatten_cons]

/-- The call is right on every encoding, returns a prefix of the chunks on every cut
of one, and ends inside the text on every string. -/
theorem dechunk_correct :
    (∀ chunks text, ChunkedEncoding chunks text →
      (∀ data ∈ chunks, data ≠ [] ∧ data.length ≤ sanityLimit) →
      dechunk text = .returned chunks.flatten ∧
        ∀ cut, cut <+: text → ∃ part, dechunk cut = .returned part ∧ part <+: chunks.flatten) ∧
    ∀ text, (∃ result, dechunk text = .returned result) ∨ ∃ error, dechunk text = .threw error := by
  have hstart : ∀ text, dechunk text = dechunkRest (text.length + 1) text [] := by
    intro text
    rw [dechunk, dechunkLoop_eq, List.drop_zero]
  refine ⟨fun chunks text h hsizes => ⟨?_, fun cut hcut => ?_⟩, fun text => ?_⟩
  · obtain ⟨part, hpart, -, hall⟩ :=
      dechunkRest_encoding h hsizes (List.prefix_refl text) (Nat.lt_succ_self _) []
    rw [hstart, hpart, hall rfl, List.nil_append]
  · obtain ⟨part, hpart, hfront, -⟩ :=
      dechunkRest_encoding h hsizes hcut (Nat.lt_succ_self _) []
    exact ⟨part, by rw [hstart, hpart, List.nil_append], hfront⟩
  · rw [hstart]
    exact dechunkRest_ends (Nat.lt_succ_self _) []

/-- The chunks `ab` and a line break. -/
theorem dechunk_correct_two :
    dechunk [50, 13, 10, 97, 98, 13, 10, 50, 13, 10, 13, 10, 13, 10, 48, 13, 10, 13, 10] =
      .returned [97, 98, 13, 10] :=
  (dechunk_correct.1 [[97, 98], [13, 10]] _
    (@ChunkedEncoding.chunk [50] [97, 98] _ _ (spellsHex_digit rfl)
      (@ChunkedEncoding.chunk [50] [13, 10] _ _ (spellsHex_digit rfl)
        (@ChunkedEncoding.last [48] [13, 10] (spellsHex_digit rfl))))
    (by decide)).1

end Labios.Elastic
