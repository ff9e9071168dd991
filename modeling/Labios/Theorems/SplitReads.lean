import Labios.Client.ReadCalls
import Labios.Client.Splitting
import Labios.Storage.ByteFile

/-!
# A read that was split

Does `wait_read` return a prefix of the file when every reply carries a prefix of its
chunk? The replies are concatenated whatever their lengths, so the bytes of a chunk move
forward by what the chunks before it fell short. The result is in place for every file if
and only if no chunk that fell short is followed by a reply with data
(`split_read_in_place_iff`).
-/

namespace Labios

open Foundation

/-- The range a label reads. -/
def sourceRange (p : Publication) : Nat × Nat :=
  ((getRange p.label.source).offset.toNat, (getRange p.label.source).length.toNat)

/-- Every reply carries a prefix of its chunk's bytes of the file. -/
def PrefixReplies (content : List UInt8) (publications : List Publication)
    (replies : List (List UInt8)) : Prop :=
  List.Forall₂ (fun p data => data <+: readAt content (sourceRange p).1 (sourceRange p).2)
    publications replies

/-- No chunk whose reply is shorter than the chunk is followed by a reply with data. -/
def NothingAfterShort (sizes lengths : List Nat) : Prop :=
  (sizes.zip lengths).Pairwise fun a b => a.2 < a.1 → b.2 = 0

instance NothingAfterShort.decidable (sizes lengths : List Nat) :
    Decidable (NothingAfterShort sizes lengths) :=
  inferInstanceAs (Decidable (List.Pairwise _ _))

/-- One waiting call on the labels of a read of a file, whose replies carry `replies`. -/
structure SplitRead (publications : List Publication) (replies : List (List UInt8)) where
  decode : List UInt8 → DecodedReply
  store : KeyStore
  arrivals : List Arrival
  labels : arrivals.map (·.labelId) = publications.map (·.label.id)
  carried : List.Forall₂ (Arrival.Carries decode store) arrivals replies

/-- The bytes of one chunk of the request. -/
def chunkBytes (content : List UInt8) (offset : UInt64) (chunk : UInt64 × UInt64) : List UInt8 :=
  readAt content (offset + chunk.1).toNat chunk.2.toNat

def ChunkPrefix (content : List UInt8) (offset : UInt64) (chunk : UInt64 × UInt64)
    (data : List UInt8) : Prop :=
  data <+: chunkBytes content offset chunk

variable {content other : List UInt8} {offset : UInt64} {front : List (UInt64 × UInt64)}
  {replies : List (List UInt8)}

/-! ## Replies in place -/

/-- The chunks from `lo` on: in place as long as nothing follows a short one. The last
chunk that the file reaches is short, so an offset that would wrap is never read from. -/
theorem flatten_prefix (hsize : content.length < 2 ^ 64) {lo hi : Nat}
    (htiles : Tiles lo (front.map chunkRange) hi) (hlo : offset.toNat + lo < 2 ^ 64)
    (hreplies : List.Forall₂ (ChunkPrefix content offset) front replies)
    (hplace : (front.zip replies).Pairwise fun a b => a.2.length < a.1.2.toNat → b.2 = []) :
    replies.flatten <+: content.drop (offset.toNat + lo) := by
  induction hreplies generalizing lo with
  | nil => exact List.nil_prefix
  | @cons chunk data front replies hdata hrest ih =>
      obtain ⟨hstart, hpos, htiles⟩ := htiles
      have haddr : (offset + chunk.1).toNat = offset.toNat + lo := by
        rw [← hstart]
        exact toNat_add_of_bound (by rw [show chunk.1.toNat = lo from hstart]; exact hlo)
      have hread : chunkBytes content offset chunk =
          (content.drop (offset.toNat + lo)).take chunk.2.toNat := by
        rw [chunkBytes, haddr]
        rfl
      rw [ChunkPrefix, hread] at hdata
      rw [List.zip_cons_cons, List.pairwise_cons] at hplace
      rw [List.flatten_cons]
      by_cases hshort : data.length < chunk.2.toNat
      · have hempty : replies.flatten = [] := by
          refine List.flatten_eq_nil_iff.mpr fun later hlater => ?_
          obtain ⟨i, hi, rfl⟩ := List.getElem_of_mem hlater
          have hi' : i < front.length := hrest.length_eq ▸ hi
          exact hplace.1 (front[i], replies[i])
            (List.mem_iff_getElem.mpr ⟨i, by simp [hi, hi'], List.getElem_zip⟩) hshort
        rw [hempty, List.append_nil]
        exact hdata.trans (List.take_prefix _ _)
      · -- the chunk is there in full, so the next one starts inside the file's range
        have hlen := hdata.length_le
        rw [List.length_take, List.length_drop] at hlen
        have hfull : data = (content.drop (offset.toNat + lo)).take chunk.2.toNat :=
          hdata.eq_of_length_le (by rw [List.length_take, List.length_drop]; omega)
        have hnext := ih htiles (show offset.toNat + (lo + chunk.2.toNat) < 2 ^ 64 by omega)
          hplace.2
        rw [← Nat.add_assoc, ← List.drop_drop] at hnext
        rw [hfull]
        conv_rhs => rw [← List.take_append_drop chunk.2.toNat (content.drop _)]
        exact (List.prefix_append_right_inj _).mpr hnext

/-! ## Replies out of place -/

theorem length_flatten_le (h : List.Forall₂ (ChunkPrefix content offset) front replies) :
    replies.flatten.length ≤ (front.map (·.2.toNat)).sum := by
  induction h with
  | nil => exact Nat.le_refl 0
  | cons hdata _ ih =>
      have hlen := hdata.length_le
      rw [chunkBytes, readAt, List.length_take] at hlen
      rw [List.flatten_cons, List.length_append, List.map_cons, List.sum_cons]
      omega

theorem length_flatten_lt (h : List.Forall₂ (ChunkPrefix content offset) front replies)
    (hshort : ∃ a ∈ front.zip replies, a.2.length < a.1.2.toNat) :
    replies.flatten.length < (front.map (·.2.toNat)).sum := by
  induction h with
  | nil =>
      obtain ⟨a, ha, -⟩ := hshort
      cases ha
  | cons hdata hrest ih =>
      have hlen := hdata.length_le
      rw [chunkBytes, readAt, List.length_take] at hlen
      have hle := length_flatten_le hrest
      rw [List.flatten_cons, List.length_append, List.map_cons, List.sum_cons]
      obtain ⟨a, ha, hlt⟩ := hshort
      rw [List.zip_cons_cons] at ha
      rcases List.mem_cons.mp ha with rfl | ha
      · dsimp only at hlt
        omega
      · have := ih ⟨a, ha, hlt⟩
        omega

/-- The replies another file of the same length would have given. -/
def repliesFrom (other : List UInt8) (offset : UInt64) (chunks : List (UInt64 × UInt64))
    (replies : List (List UInt8)) : List (List UInt8) :=
  List.zipWith (fun chunk data => (chunkBytes other offset chunk).take data.length) chunks replies

theorem repliesFrom_spec (hlength : other.length = content.length)
    (h : List.Forall₂ (ChunkPrefix content offset) front replies) :
    List.Forall₂ (ChunkPrefix other offset) front (repliesFrom other offset front replies) ∧
      (repliesFrom other offset front replies).map List.length = replies.map List.length := by
  induction h with
  | nil => exact ⟨.nil, rfl⟩
  | cons hdata hrest ih =>
      have hlen := hdata.length_le
      refine ⟨.cons (List.take_prefix _ _) ih.1, ?_⟩
      rw [List.map_cons, ← ih.2]
      refine congrArg₂ List.cons ?_ rfl
      simp only [chunkBytes, readAt, List.length_take, List.length_drop, hlength] at hlen ⊢
      omega

theorem exists_of_not_pairwise {α : Type} {P Q : α → Prop} {l : List α}
    (h : ¬l.Pairwise fun a b => P a → Q b) :
    ∃ front b back, l = front ++ b :: back ∧ (∃ a ∈ front, P a) ∧ ¬Q b := by
  induction l with
  | nil => exact absurd .nil h
  | cons a l ih =>
      rw [List.pairwise_cons, not_and_or] at h
      rcases h with hhead | hrest
      · push Not at hhead
        obtain ⟨b, hb, ha, hq⟩ := hhead
        obtain ⟨front, back, rfl⟩ := List.append_of_mem hb
        exact ⟨a :: front, b, back, rfl, ⟨a, List.mem_cons_self, ha⟩, hq⟩
      · obtain ⟨front, b, back, rfl, ⟨c, hc, hp⟩, hq⟩ := ih hrest
        exact ⟨a :: front, b, back, rfl, ⟨c, List.mem_cons_of_mem _ hc, hp⟩, hq⟩

/-- A file on which the byte of one address is seen. -/
def markedFile (length address : Nat) : List UInt8 := (List.replicate length 0).set address 1

theorem getElem?_markedFile (length address i : Nat) :
    (markedFile length address)[i]? =
      if i < length then some (if i = address then 1 else 0) else none := by
  unfold markedFile
  rw [List.getElem?_set, List.length_replicate, List.getElem?_replicate]
  by_cases hi : i < length
  · by_cases haddr : address = i
    · subst haddr
      rw [if_pos rfl, if_pos hi, if_pos hi, if_pos rfl]
    · rw [if_neg haddr, if_pos hi, if_pos hi, if_neg fun he => haddr he.symm]
  · have hnot : address = i → ¬address < length := fun he => he ▸ hi
    rw [if_neg hi, if_neg hi]
    split
    · rename_i he
      exact if_neg (hnot he)
    · rfl

/-- The first byte of a chunk with data, in the file that marks its address. -/
theorem head_chunkBytes_marked {chunk : UInt64 × UInt64} {data : List UInt8} (hdata : data ≠ [])
    (h : ChunkPrefix content offset chunk data) :
    ((chunkBytes (markedFile content.length (offset + chunk.1).toNat) offset chunk).take
      data.length)[0]? = some 1 := by
  have hpos : 0 < data.length := List.length_pos_iff.mpr hdata
  have hlen := h.length_le
  simp only [chunkBytes, readAt, List.length_take, List.length_drop] at hlen
  rw [List.getElem?_take_of_lt hpos, chunkBytes, getElem?_readAt, if_pos (by omega), Nat.add_zero,
    getElem?_markedFile, if_pos (by omega), if_pos rfl]

/-- A chunk with data behind a short reply, and what comes before it. -/
theorem exists_chunk_after_short {chunks : List (UInt64 × UInt64)}
    (hreplies : List.Forall₂ (ChunkPrefix content offset) chunks replies)
    (hplace : ¬(chunks.zip replies).Pairwise fun a b => a.2.length < a.1.2.toNat → b.2 = []) :
    ∃ front chunk back before data later, chunks = front ++ chunk :: back ∧
      replies = before ++ data :: later ∧ front.length = before.length ∧
      List.Forall₂ (ChunkPrefix content offset) front before ∧
      (∃ a ∈ front.zip before, a.2.length < a.1.2.toNat) ∧
      ChunkPrefix content offset chunk data ∧ data ≠ [] := by
  obtain ⟨_, ⟨chunk, data⟩, _, hzip, hshort, hdata⟩ := exists_of_not_pairwise hplace
  obtain ⟨front, chunks', before, replies', hlen, rfl, rfl, rfl, hcons⟩ :=
    List.zip_eq_append_iff.mp hzip
  obtain ⟨back, later, rfl, rfl, rfl⟩ := List.zip_eq_cons_iff.mp hcons.symm
  have hfront : List.Forall₂ (ChunkPrefix content offset) front before := by
    simpa [hlen] using List.forall₂_take front.length hreplies
  have hchunk : ChunkPrefix content offset chunk data := by
    have hdrop := List.forall₂_drop front.length hreplies
    rw [List.drop_left, List.drop_left' hlen.symm] at hdrop
    cases hdrop with
    | cons hchunk _ => exact hchunk
  exact ⟨front, chunk, back, before, data, later, rfl, rfl, hlen, hfront, hshort, hchunk, hdata⟩

/-- In the result the first byte of a chunk comes right behind the replies before it. -/
theorem getElem?_flatten_repliesFrom {other : List UInt8} {chunk : UInt64 × UInt64}
    (back : List (UInt64 × UInt64)) {before : List (List UInt8)} (later : List (List UInt8))
    {data : List UInt8} {b : UInt8} (hlen : front.length = before.length)
    (hhead : ((chunkBytes other offset chunk).take data.length)[0]? = some b) :
    (repliesFrom other offset (front ++ chunk :: back)
      (before ++ data :: later)).flatten[(repliesFrom other offset front
        before).flatten.length]? = some b := by
  unfold repliesFrom
  rw [List.zipWith_append hlen, List.flatten_append, List.getElem?_append_right (Nat.le_refl _),
    Nat.sub_self, List.zipWith_cons_cons, List.flatten_cons]
  exact (List.getElem?_append_left (List.getElem?_eq_some_iff.mp hhead).1).trans hhead

/-- Data after a short reply is out of place: some file of the same length shows it. -/
theorem exists_displaced {chunks : List (UInt64 × UInt64)} {size : Nat}
    (htiles : Tiles 0 (chunks.map chunkRange) size)
    (hreplies : List.Forall₂ (ChunkPrefix content offset) chunks replies)
    (hplace : ¬(chunks.zip replies).Pairwise fun a b => a.2.length < a.1.2.toNat → b.2 = []) :
    ∃ other : List UInt8, other.length = content.length ∧
      ¬(repliesFrom other offset chunks replies).flatten <+: other.drop offset.toNat := by
  obtain ⟨front, chunk, back, before, data, later, rfl, rfl, hlen, hfront, hshort, hchunk, hdata⟩ :=
    exists_chunk_after_short hreplies hplace
  have hlength : (markedFile content.length (offset + chunk.1).toNat).length = content.length := by
    simp [markedFile]
  refine ⟨markedFile content.length (offset + chunk.1).toNat, hlength, fun hprefix => ?_⟩
  have hhead := head_chunkBytes_marked hdata hchunk
  have hmarked := getElem?_markedFile content.length (offset + chunk.1).toNat
  generalize markedFile content.length (offset + chunk.1).toNat = other
    at hprefix hlength hhead hmarked
  -- what comes before the byte is shorter than the place it belongs to
  have hstart : chunk.1.toNat = 0 + ((front.map chunkRange).map (·.2)).sum := by
    rw [List.map_append, List.map_cons] at htiles
    exact htiles.start_eq
  have hbefore : (repliesFrom other offset front before).flatten.length < chunk.1.toNat := by
    have hlt := length_flatten_lt hfront hshort
    rw [List.length_flatten, ← (repliesFrom_spec hlength hfront).2, ← List.length_flatten] at hlt
    rw [hstart, List.map_map, Nat.zero_add]
    exact hlt
  -- and yet it is a byte of the file, at the address that the file marks
  have hbyte := getElem?_flatten_repliesFrom back later hlen hhead
  obtain ⟨rest, hrest⟩ := hprefix
  have hread : (other.drop offset.toNat)[(repliesFrom other offset front
      before).flatten.length]? = some 1 := by
    rw [← hrest, List.getElem?_append_left (List.getElem?_eq_some_iff.mp hbyte).1]
    exact hbyte
  rw [List.getElem?_drop, hmarked] at hread
  have haddr : (offset + chunk.1).toNat = (offset.toNat + chunk.1.toNat) % 2 ^ 64 :=
    UInt64.toNat_add ..
  have hoffset := offset.toNat_lt
  have hbound := chunk.1.toNat_lt
  split at hread
  · split at hread
    · omega
    · exact absurd (Option.some.inj hread) (by decide)
  · cases hread

/-! ## The labels of a read -/

section Read

variable {maxLabelSize size : UInt64} (appId : UInt32) (ids : Nat → UInt64) (now : UInt64)
  (filepath : String)

theorem map_sourceRange :
    (publishRead maxLabelSize appId ids now filepath offset size).map sourceRange =
      (chunks maxLabelSize size).map fun chunk => ((offset + chunk.1).toNat, chunk.2.toNat) := by
  refine List.ext_getElem (by simp [publishRead]) fun i h1 h2 => ?_
  simp only [publishRead, List.getElem_map, List.getElem_mapIdx]
  rfl

theorem prefixReplies_iff :
    PrefixReplies content (publishRead maxLabelSize appId ids now filepath offset size) replies ↔
      List.Forall₂ (ChunkPrefix content offset) (chunks maxLabelSize size) replies := by
  have hmap := List.forall₂_map_left_iff
    (R := fun (r : Nat × Nat) (data : List UInt8) => data <+: readAt content r.1 r.2)
    (f := sourceRange) (l := publishRead maxLabelSize appId ids now filepath offset size)
    (u := replies)
  rw [map_sourceRange, List.forall₂_map_left_iff] at hmap
  exact hmap.symm

theorem nothingAfterShort_iff {chunks : List (UInt64 × UInt64)} {lengths : List Nat}
    (hlengths : replies.map List.length = lengths) :
    NothingAfterShort (chunks.map (·.2.toNat)) lengths ↔
      (chunks.zip replies).Pairwise fun a b => a.2.length < a.1.2.toNat → b.2 = [] := by
  subst hlengths
  rw [NothingAfterShort, List.zip_map, List.pairwise_map]
  simp only [Prod.map, List.length_eq_zero_iff]

end Read

/-- A warehouse that holds the replies under the keys of the labels. -/
theorem exists_store {ids : List UInt64} {replies : List (List UInt8)}
    (hlen : ids.length = replies.length) (hids : ids.Nodup) :
    ∃ store : KeyStore,
      List.Forall₂ (fun id data => (store (dataKey id)).getD [] = data) ids replies := by
  induction ids generalizing replies with
  | nil =>
      obtain rfl := List.eq_nil_of_length_eq_zero hlen.symm
      exact ⟨fun _ => none, .nil⟩
  | cons id ids ih =>
      cases replies with
      | nil => cases hlen
      | cons data replies =>
          rw [List.nodup_cons] at hids
          obtain ⟨store, hstore⟩ := ih (Nat.succ.inj hlen) hids.2
          refine ⟨Function.update store (dataKey id) (some data), .cons ?_ ?_⟩
          · rw [Function.update_self]
            rfl
          · refine ((List.forall₂_and_left _ _).mpr ⟨fun i hi => hi, hstore⟩).imp ?_
            rintro i data' ⟨hi, hdata⟩
            have hne : dataKey i ≠ dataKey id := fun he =>
              hids.1 ((dataKey_inj he : i = id) ▸ hi)
            rwa [Function.update_of_ne hne]

/-- Some call on the labels has these replies: every reply leaves the key to the label. -/
theorem exists_splitRead {publications : List Publication} {replies : List (List UInt8)}
    (hlen : publications.length = replies.length)
    (hids : (publications.map (·.label.id)).Nodup) : Nonempty (SplitRead publications replies) := by
  obtain ⟨store, hstore⟩ := exists_store (by rw [List.length_map, hlen]) hids
  exact ⟨
    { decode := fun _ => { status := CompletionStatus.complete.code, error := "", dataKey := "" }
      store
      arrivals := publications.map fun p => { labelId := p.label.id, message := some [0] }
      labels := by rw [List.map_map]; rfl
      carried := by
        rw [List.forall₂_map_left_iff] at hstore ⊢
        exact hstore.imp fun p data hdata =>
          ⟨[0], rfl, .inr ⟨List.cons_ne_nil _ _, rfl, .inl rfl, hdata⟩⟩ }⟩

/-- What a waiting call returns is what the replies carry. -/
theorem waitRead_splitRead {publications : List Publication} {replies : List (List UInt8)}
    (hids : (publications.map (·.label.id)).Nodup) (r : SplitRead publications replies) :
    ∃ store', waitRead r.decode r.store (r.arrivals.map Arrival.pending) =
      .ok (replies.flatten, store') := by
  refine ⟨(waitReadLoop r.decode r.store (r.arrivals.map Arrival.pending)).store, ?_⟩
  rw [waitRead_eq, waitReadLoop_answers (r.labels ▸ hids) r.carried]
  rfl

/-- **Split reads.** For every request, every limit and distinct ids, and every vector of
reply lengths that a file can give: the bytes `wait_read` returns are those of the file from
the offset on, for every such file and every way the replies arrive, if and only if nothing
follows a short reply. -/
theorem split_read_in_place_iff {maxLabelSize offset size : UInt64} (appId : UInt32)
    (ids : Nat → UInt64) (now : UInt64) (filepath : String) {lengths : List Nat}
    (hmax : 0 < maxLabelSize)
    (hids : ((publishRead maxLabelSize appId ids now filepath offset size).map
      (·.label.id)).Nodup)
    (hgiven : ∃ content replies, content.length < 2 ^ 64 ∧
      PrefixReplies content (publishRead maxLabelSize appId ids now filepath offset size) replies ∧
      replies.map List.length = lengths) :
    (∀ content replies, content.length < 2 ^ 64 →
      PrefixReplies content (publishRead maxLabelSize appId ids now filepath offset size) replies →
      replies.map List.length = lengths →
      ∀ r : SplitRead (publishRead maxLabelSize appId ids now filepath offset size) replies,
        ∃ data store', waitRead r.decode r.store (r.arrivals.map Arrival.pending) =
            .ok (data, store') ∧ data <+: content.drop offset.toNat) ↔
      NothingAfterShort ((chunks maxLabelSize size).map (·.2.toNat)) lengths := by
  have htiles := chunks_tiles hmax size
  constructor
  · intro h
    by_contra hplace
    obtain ⟨content, replies, hsize, hreplies, hlengths⟩ := hgiven
    rw [nothingAfterShort_iff hlengths] at hplace
    rw [prefixReplies_iff] at hreplies
    obtain ⟨other, hother, hdisplaced⟩ := exists_displaced htiles hreplies hplace
    obtain ⟨hthere, hsame⟩ := repliesFrom_spec hother hreplies
    have hlen : (publishRead maxLabelSize appId ids now filepath offset size).length =
        (repliesFrom other offset (chunks maxLabelSize size) replies).length := by
      rw [publishRead, List.length_mapIdx, hthere.length_eq]
    obtain ⟨r⟩ := exists_splitRead hlen hids
    obtain ⟨data, store', hread, hprefix⟩ := h other _ (hother ▸ hsize)
      ((prefixReplies_iff appId ids now filepath).mpr hthere) (hsame.trans hlengths) r
    obtain ⟨store'', hflatten⟩ := waitRead_splitRead hids r
    obtain ⟨rfl, -⟩ := Prod.mk.inj (Except.ok.inj (hread.symm.trans hflatten))
    exact hdisplaced hprefix
  · intro hplace content replies hsize hreplies hlengths r
    obtain ⟨store', hread⟩ := waitRead_splitRead hids r
    refine ⟨_, store', hread, ?_⟩
    rw [nothingAfterShort_iff hlengths] at hplace
    exact flatten_prefix hsize htiles offset.toNat_lt
      ((prefixReplies_iff appId ids now filepath).mp hreplies) hplace

/-- Four bytes from offset 0 in labels of two. -/
def fourByteRead : List Publication := publishRead 2 1 UInt64.ofNat 0 "/f" 0 4

/-- Two replies that leave the key to the label. -/
def twoReplies (first second : List UInt8) : SplitRead fourByteRead [first, second] where
  decode := fun _ => { status := CompletionStatus.complete.code, error := "", dataKey := "" }
  store := Function.update (Function.update (fun _ => none) (dataKey 1) (some second))
    (dataKey 0) (some first)
  arrivals := [{ labelId := 0, message := some [0] }, { labelId := 1, message := some [0] }]
  labels := by decide
  carried := by
    refine .cons ⟨[0], rfl, .inr ⟨List.cons_ne_nil _ _, rfl, .inl rfl, ?_⟩⟩
      (.cons ⟨[0], rfl, .inr ⟨List.cons_ne_nil _ _, rfl, .inl rfl, ?_⟩⟩ .nil)
    · rw [Function.update_self]
      rfl
    · rw [Function.update_of_ne fun he => absurd (dataKey_inj he) (by decide),
        Function.update_self]
      rfl

theorem prefixReplies_fourByteRead {content first second : List UInt8}
    (hfirst : first <+: readAt content 0 2) (hsecond : second <+: readAt content 2 2) :
    PrefixReplies content fourByteRead [first, second] := by
  have hchunks : chunks 2 4 = [(0, 2), (2, 2)] := by decide
  rw [fourByteRead, prefixReplies_iff, hchunks]
  exact .cons hfirst (.cons hsecond .nil)

/-- A file of three bytes: the second reply is short, and nothing follows it. -/
theorem three_bytes_in_place :
    ∃ data store', waitRead (twoReplies [1, 2] [3]).decode (twoReplies [1, 2] [3]).store
        ((twoReplies [1, 2] [3]).arrivals.map Arrival.pending) = .ok (data, store') ∧
      data <+: List.drop (UInt64.toNat 0) [1, 2, 3] :=
  have hreplies := prefixReplies_fourByteRead (show [1, 2] <+: readAt [1, 2, 3] 0 2 by decide)
    (show [3] <+: readAt [1, 2, 3] 2 2 by decide)
  (split_read_in_place_iff 1 UInt64.ofNat 0 "/f" (by decide) (by decide)
    ⟨[1, 2, 3], _, by decide, hreplies, rfl⟩).mpr (by decide) [1, 2, 3] [[1, 2], [3]] (by decide)
    hreplies rfl (twoReplies [1, 2] [3])

/-- The first reply is short and the second is not: the third byte of the file is returned
in the place of the second. -/
theorem later_bytes_move :
    PrefixReplies [1, 2, 3, 4] fourByteRead [[1], [3, 4]] ∧
      (∃ store', waitRead (twoReplies [1] [3, 4]).decode (twoReplies [1] [3, 4]).store
        ((twoReplies [1] [3, 4]).arrivals.map Arrival.pending) = .ok ([1, 3, 4], store')) ∧
      ¬[1, 3, 4] <+: List.drop (UInt64.toNat 0) [1, 2, 3, 4] :=
  ⟨prefixReplies_fourByteRead (by decide) (by decide),
    waitRead_splitRead (by decide) (twoReplies [1] [3, 4]), by decide⟩

end Labios
