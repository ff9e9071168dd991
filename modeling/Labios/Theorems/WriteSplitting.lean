import Labios.Client.SizeText
import Labios.Client.Splitting

/-!
# Every configured limit and the loop that splits

Does splitting end whatever `label.max_size` and `LABIOS_LABEL_MAX_SIZE` say? `parse_size`
accepts every string: what it cannot read, what is negative and what is below one byte has
the size 0, and nothing looks at the limit again. With the limit 0 the loop takes nothing
off and `label_count` divides by zero (`zero_limit_never_ends`). Splitting ends exactly
when the string that counts states a size (`splitting_ends_iff`).
-/

namespace Labios

/-- The limit is defined, the loop ends for every request, and `label_count` never divides
by zero. -/
def SplittingEnds (labelMaxSize : Option UInt64) : Prop :=
  ∃ limit, labelMaxSize = some limit ∧
    (∀ size, ∃ chunks, SplitLoop limit 0 size chunks) ∧ ∀ size, ¬DividesByZero limit size

/-- The string that counts: the environment's unless it is missing or empty, else the
file's. -/
def governingSize (file env : Option String) : Option String :=
  env.elim file fun val => if val = "" then file else some val

/-- Everything hangs on the limit not being 0. -/
theorem splittingEnds_iff (labelMaxSize : Option UInt64) :
    SplittingEnds labelMaxSize ↔ ∃ limit, labelMaxSize = some limit ∧ limit ≠ 0 := by
  refine exists_congr fun limit => and_congr_right fun _ => ⟨fun ⟨_, h⟩ hzero => ?_, fun h => ?_⟩
  · exact h 1 ⟨by decide, hzero⟩
  · exact ⟨fun size =>
      ⟨_, splitLoop_chunkLoop (UInt64.pos_iff_ne_zero.mpr h) (Nat.le_refl size.toNat)⟩,
      fun size hzero => h hzero.2⟩

/-- A string that states a size is not overlong. -/
theorem StatesSize.not_overlong {v : String} (h : StatesSize v) : ¬Overlong v := by
  intro hover
  obtain ⟨n, hn, -⟩ := (parseSize_pos_iff v).mpr h
  rw [(parseSize_none_iff v).mpr hover] at hn
  cases hn

/-- The file alone sets a limit other than 0 if its string, if there is one, states a
size. -/
theorem fileLimit_pos_iff (file : Option String) :
    (∃ limit, file.elim (some defaultLabelMaxSize) parseSize = some limit ∧ limit ≠ 0) ↔
      ∀ v ∈ file, StatesSize v := by
  cases file with
  | none => exact iff_of_true ⟨_, rfl, by decide⟩ fun v hv => (by cases hv)
  | some v =>
      simp only [Option.mem_some_iff, forall_eq']
      exact parseSize_pos_iff v

/-- The file alone sets some limit if its string is not overlong. -/
theorem fileLimit_defined_iff (file : Option String) :
    (∃ limit, file.elim (some defaultLabelMaxSize) parseSize = some limit) ↔
      ∀ v ∈ file, ¬Overlong v := by
  cases file with
  | none => exact iff_of_true ⟨_, rfl⟩ fun v hv => (by cases hv)
  | some v =>
      simp only [Option.mem_some_iff, forall_eq']
      rw [← parseSize_none_iff, ← ne_eq, Option.ne_none_iff_exists']
      rfl

/-- **Splitting ends.** For every string, or none, in the file and in the environment: the
limit is defined, the loop ends for every size and nothing is divided by zero, if and only
if the file's string is not overlong and the string that counts, if there is one, states a
size. -/
theorem splitting_ends_iff (file env : Option String) :
    SplittingEnds (loadLabelMaxSize file env) ↔
      (∀ v ∈ file, ¬Overlong v) ∧ ∀ v ∈ governingSize file env, StatesSize v := by
  rw [splittingEnds_iff]
  cases env with
  | none =>
      have hload : loadLabelMaxSize file none = file.elim (some defaultLabelMaxSize) parseSize :=
        Option.bind_fun_some _
      rw [hload, fileLimit_pos_iff]
      exact ⟨fun h => ⟨fun v hv => (h v hv).not_overlong, h⟩, fun h => h.2⟩
  | some val =>
      by_cases hempty : val = ""
      · have hload : loadLabelMaxSize file (some val) =
            file.elim (some defaultLabelMaxSize) parseSize := by
          simp [loadLabelMaxSize, hempty]
        have hgoverns : governingSize file (some val) = file := by
          simp [governingSize, hempty]
        rw [hload, hgoverns, fileLimit_pos_iff]
        exact ⟨fun h => ⟨fun v hv => (h v hv).not_overlong, h⟩, fun h => h.2⟩
      · have hload : loadLabelMaxSize file (some val) =
            (file.elim (some defaultLabelMaxSize) parseSize).bind fun _ => parseSize val := by
          simp [loadLabelMaxSize, hempty]
        have hgoverns : governingSize file (some val) = some val := by
          simp [governingSize, hempty]
        rw [hload, hgoverns, ← fileLimit_defined_iff]
        simp only [Option.bind_eq_some_iff, Option.mem_some_iff, forall_eq', ← parseSize_pos_iff]
        constructor
        · rintro ⟨limit, ⟨fromFile, hfile, hval⟩, hlimit⟩
          exact ⟨⟨fromFile, hfile⟩, limit, hval, hlimit⟩
        · rintro ⟨⟨fromFile, hfile⟩, limit, hval, hlimit⟩
          exact ⟨limit, ⟨fromFile, hfile, hval⟩, hlimit⟩

/-- `label.max_size = "0"`, and a string that is no size: the limit is 0, a request of one
byte is never split to its end, and `label_count` divides by zero. -/
theorem zero_limit_never_ends :
    loadLabelMaxSize (some "0") none = some 0 ∧
      loadLabelMaxSize none (some "not-a-size") = some 0 ∧
      (∀ pos chunks, ¬SplitLoop 0 pos 1 chunks) ∧ DividesByZero 0 1 ∧
      ¬SplittingEnds (loadLabelMaxSize (some "0") none) := by
  have hfile : loadLabelMaxSize (some "0") none = some 0 := by decide +kernel
  refine ⟨hfile, by decide, fun pos chunks => not_splitLoop_zero (by decide),
    ⟨by decide, rfl⟩, ?_⟩
  rw [hfile]
  rintro ⟨limit, hlimit, hends, -⟩
  obtain rfl := Option.some.inj hlimit
  obtain ⟨chunks, hchunks⟩ := hends 1
  exact not_splitLoop_zero (by decide) hchunks

end Labios

/-!
## A write is split into a partition

Are the labels of `publish_write` a partition of the write? Their ranges follow each
other from the offset to the end, none empty and none over the limit, and what is staged
for them is the data (`publishWrite_ranges`, `publishWrite_staged`). There are as many as
`label_count` says if and only if its sum does not wrap (`publishWrite_partition_iff`): with
a limit near `2 ^ 64` it counts none (`label_count_wraps`).
-/

namespace Labios

open Foundation

/-- The range a label writes, as the dependency detection reads it. -/
def destinationRange (p : Publication) : Nat × Nat :=
  ((getRange p.label.destination).offset.toNat, (getRange p.label.destination).length.toNat)

/-- The labels of a write and what the warehouse holds for them divide the write. -/
structure WritePartition (maxLabelSize offset : UInt64) (data : List UInt8)
    (publications : List Publication) (warehouse : Warehouse) : Prop where
  count : publications.length = (labelCount maxLabelSize (UInt64.ofNat data.length)).toNat
  ranges : Tiles offset.toNat (publications.map destinationRange) (offset.toNat + data.length)
  bounded : ∀ p ∈ publications, (destinationRange p).2 ≤ maxLabelSize.toNat
  sizes : ∀ p ∈ publications, p.label.dataSize.toNat = (destinationRange p).2
  staged : (publications.flatMap fun p => warehouse.retrieve p.label.id) = data

section Write

variable {maxLabelSize offset : UInt64} {data : List UInt8} (appId : UInt32)
  (ids : Nat → UInt64) (now buffer : UInt64) (filepath : String)

theorem length_publishWrite :
    (publishWrite maxLabelSize appId ids now buffer filepath offset data).length =
      (chunks maxLabelSize (UInt64.ofNat data.length)).length :=
  List.length_mapIdx

theorem toNat_length (hbound : offset.toNat + data.length < 2 ^ 64) :
    (UInt64.ofNat data.length).toNat = data.length := by
  rw [UInt64.toNat_ofNat', Nat.mod_eq_of_lt (by omega)]

/-- The ranges of the labels are the chunks, moved to the offset of the write. -/
theorem map_destinationRange (hmax : 0 < maxLabelSize)
    (hbound : offset.toNat + data.length < 2 ^ 64) :
    (publishWrite maxLabelSize appId ids now buffer filepath offset data).map destinationRange =
      ((chunks maxLabelSize (UInt64.ofNat data.length)).map chunkRange).map
        fun r => (offset.toNat + r.1, r.2) := by
  have htiles := chunks_tiles hmax (UInt64.ofNat data.length)
  rw [toNat_length hbound] at htiles
  rw [List.map_map]
  refine List.ext_getElem (by simp [publishWrite]) fun i h1 h2 => ?_
  rw [List.getElem_map, List.getElem_map]
  simp only [publishWrite, List.getElem_mapIdx]
  have hi : i < (chunks maxLabelSize (UInt64.ofNat data.length)).length := by simpa using h2
  have hchunk := htiles.bounds _ (List.mem_map_of_mem (List.getElem_mem hi))
  refine Prod.ext ?_ rfl
  exact toNat_add_of_bound (by have := hchunk.2.2; simp only [chunkRange] at this; omega)

theorem publishWrite_ranges (hmax : 0 < maxLabelSize)
    (hbound : offset.toNat + data.length < 2 ^ 64) :
    Tiles offset.toNat
      ((publishWrite maxLabelSize appId ids now buffer filepath offset data).map destinationRange)
      (offset.toNat + data.length) := by
  have htiles := (chunks_tiles hmax (UInt64.ofNat data.length)).shift offset.toNat
  rw [toNat_length hbound, Nat.add_zero] at htiles
  rwa [map_destinationRange appId ids now buffer filepath hmax hbound]

/-- Every label has the size of its range, which the limit bounds. -/
theorem publishWrite_sizes (hmax : 0 < maxLabelSize) {p : Publication}
    (hp : p ∈ publishWrite maxLabelSize appId ids now buffer filepath offset data) :
    (destinationRange p).2 ≤ maxLabelSize.toNat ∧
      p.label.dataSize.toNat = (destinationRange p).2 := by
  obtain ⟨i, hi, rfl⟩ := List.mem_mapIdx.mp hp
  exact ⟨chunks_le hmax _ _ (List.getElem_mem hi), rfl⟩

/-- What the labels find in the warehouse is the data, in order. -/
theorem publishWrite_staged (hmax : 0 < maxLabelSize)
    (hbound : offset.toNat + data.length < 2 ^ 64) (warehouse : Warehouse)
    (hids : ((publishWrite maxLabelSize appId ids now buffer filepath offset data).map
      (·.label.id)).Nodup) :
    ((publishWrite maxLabelSize appId ids now buffer filepath offset data).flatMap fun p =>
      (stageAll warehouse
        (publishWrite maxLabelSize appId ids now buffer filepath offset data)).retrieve
          p.label.id) = data := by
  have hslices := (chunks_tiles hmax (UInt64.ofNat data.length)).flatMap_slices data
  rw [toNat_length hbound, Nat.sub_zero, List.drop_zero, List.take_length] at hslices
  refine Eq.trans ?_ hslices
  rw [List.flatMap_def, List.flatMap_def, List.map_map]
  congr 1
  refine List.ext_getElem (by simp [publishWrite]) fun i h1 h2 => ?_
  rw [List.getElem_map, List.getElem_map]
  have hi : i < (publishWrite maxLabelSize appId ids now buffer filepath offset data).length := by
    simpa using h1
  refine retrieve_stageAll warehouse hids (List.getElem_mem hi) ?_
  simp only [publishWrite, List.getElem_mapIdx]
  rfl

end Write

/-- **Partition.** For every data below the end of the 64-bit range, every limit and
distinct ids: the labels divide the write, and there are as many as `label_count` says,
exactly when the sum inside `label_count` stays below `2 ^ 64`. -/
theorem publishWrite_partition_iff {maxLabelSize offset : UInt64} {data : List UInt8}
    (appId : UInt32) (ids : Nat → UInt64) (now buffer : UInt64) (filepath : String)
    (warehouse : Warehouse) (hmax : 0 < maxLabelSize)
    (hbound : offset.toNat + data.length < 2 ^ 64)
    (hids : ((publishWrite maxLabelSize appId ids now buffer filepath offset data).map
      (·.label.id)).Nodup) :
    WritePartition maxLabelSize offset data
        (publishWrite maxLabelSize appId ids now buffer filepath offset data)
        (stageAll warehouse
          (publishWrite maxLabelSize appId ids now buffer filepath offset data)) ↔
      data.length = 0 ∨ data.length + maxLabelSize.toNat - 1 < 2 ^ 64 := by
  have hcount := labelCount_eq_iff hmax (UInt64.ofNat data.length)
  have hlength : (publishWrite maxLabelSize appId ids now buffer filepath offset data).length = _ :=
    length_publishWrite appId ids now buffer filepath
  rw [toNat_length hbound, ← hlength] at hcount
  constructor
  · intro h
    exact hcount.mp h.count
  · intro h
    exact
      { count := hcount.mpr h
        ranges := publishWrite_ranges appId ids now buffer filepath hmax hbound
        bounded := fun p hp => (publishWrite_sizes appId ids now buffer filepath hmax hp).1
        sizes := fun p hp => (publishWrite_sizes appId ids now buffer filepath hmax hp).2
        staged := publishWrite_staged appId ids now buffer filepath hmax hbound warehouse hids }

/-- Five bytes at offset 10 in labels of at most two. -/
theorem five_bytes_partition :
    WritePartition 2 10 [1, 2, 3, 4, 5]
      (publishWrite 2 1 UInt64.ofNat 0 0 "/f" 10 [1, 2, 3, 4, 5])
      (stageAll (fun _ => none) (publishWrite 2 1 UInt64.ofNat 0 0 "/f" 10 [1, 2, 3, 4, 5])) :=
  (publishWrite_partition_iff 1 UInt64.ofNat 0 0 "/f" (fun _ => none) (by decide) (by decide)
    (by decide)).mpr (.inr (by decide))

/-- The largest limit below `2 ^ 64` that is a double, and so a size string can give. -/
def wideLimit : UInt64 := 18446744073709549568

/-- A page written in one label, with `label_count` reporting none: the sum
`4096 + wideLimit - 1` wraps to 2047. -/
theorem label_count_wraps :
    0 < wideLimit ∧ labelCount wideLimit 4096 = 0 ∧
      (publishWrite wideLimit 1 UInt64.ofNat 0 0 "/f" 0 (List.replicate 4096 0)).length = 1 ∧
      ((publishWrite wideLimit 1 UInt64.ofNat 0 0 "/f" 0 (List.replicate 4096 0)).map
        (·.label.id)).Nodup ∧
      ¬WritePartition wideLimit 0 (List.replicate 4096 0)
        (publishWrite wideLimit 1 UInt64.ofNat 0 0 "/f" 0 (List.replicate 4096 0))
        (stageAll (fun _ => none)
          (publishWrite wideLimit 1 UInt64.ofNat 0 0 "/f" 0 (List.replicate 4096 0))) := by
  have hcount : labelCount wideLimit 4096 = 0 := by decide
  have hlength :
      (publishWrite wideLimit 1 UInt64.ofNat 0 0 "/f" 0 (List.replicate 4096 0)).length = 1 := by
    rw [length_publishWrite, length_chunks (by decide), List.length_replicate]
    decide
  refine ⟨by decide, hcount, hlength, ?_, fun h => ?_⟩
  · obtain ⟨p, hp⟩ := List.length_eq_one_iff.mp hlength
    rw [hp]
    exact List.nodup_singleton _
  · have := h.count
    rw [hlength, List.length_replicate] at this
    exact absurd (this.trans (congrArg UInt64.toNat hcount)) (by decide)

end Labios
