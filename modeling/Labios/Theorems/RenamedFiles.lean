import Labios.Adapter.Rename

/-!
# What a rename moves

`rename` carries the size and the whole-file location over to the new path and unlinks the
old one. It grows a target that is there instead of replacing it, leaves the ranged locations
of both paths to their names and the data to the old name, and unlinks a file that is renamed
to itself.
-/

namespace Labios

namespace NamedFiles

/-- A rename as its caller understands it. -/
structure Moved (session : Session) (root : String) (s s' : NamedFiles) (a b : String) : Prop where
  metadata : s'.getFileInfo b = s.getFileInfo a
  gone : a ≠ b → (s'.getFileInfo a).any (·.isThere) = false
  others : ∀ p, p ≠ a → p ≠ b → s'.metadata p = s.metadata p ∧
    s'.locations.whole p = s.locations.whole p ∧ s'.locations.ranged p = s.locations.ranged p
  whole : s'.locations.whole b = s.locations.whole a
  ranged : ∀ offset length,
    s'.locations.getLocation b offset length = s.locations.getLocation a offset length
  bytes : ∀ offset count,
    s'.read session root b offset count = s.read session root a offset count

/-- Nothing that the rename leaves behind makes a difference. -/
structure Movable (session : Session) (root : String) (s : NamedFiles) (a b : String) : Prop where
  distinct : a ≠ b
  /-- The target is not recorded as longer. -/
  shorter : (s.metadata b).size.getD 0 ≤ (s.metadata a).size.getD 0
  /-- The target is not placed if the file is not. -/
  placed : s.locations.whole a = none → s.locations.whole b = none
  /-- The target's ranges, else the file's latest writer, are where the file's ranges are. -/
  alike : ∀ offset length, (s.locations.findRanged b offset length).or (s.locations.whole a) =
    s.locations.getLocation a offset length
  /-- The backend has the same data under both names. -/
  stored : ∀ offset count,
    s.read session root b offset count = s.read session root a offset count

variable {s : NamedFiles} {a b : String}

theorem read_of_backend {s' : NamedFiles} (h : s'.backend = s.backend) (session : Session)
    (root path : String) (offset count : UInt64) :
    s'.read session root path offset count = s.read session root path offset count := by
  unfold read
  rw [h]

theorem getFileInfo_self (h : s.Has a) : (s.rename a b).2.getFileInfo a =
    some { isThere := false, size := 0 } := by
  unfold getFileInfo
  rw [(rename_of_has h b).2.2.1, Function.update_self]
  rfl

/-- Of a rename the new path's metadata has the greater of both sizes. -/
theorem getFileInfo_target (h : s.Has a) (hne : a ≠ b) : (s.rename a b).2.getFileInfo b =
    some { isThere := true,
           size := if (s.metadata b).size.getD 0 < (s.metadata a).size.getD 0 then
             (s.metadata a).size.getD 0 else (s.metadata b).size.getD 0 } := by
  unfold getFileInfo
  rw [(rename_of_has h b).2.2.1, Function.update_of_ne hne.symm, Function.update_self]
  rfl

theorem metadata_moved_iff (h : s.Has a) (hne : a ≠ b) :
    (s.rename a b).2.getFileInfo b = s.getFileInfo a ↔
      (s.metadata b).size.getD 0 ≤ (s.metadata a).size.getD 0 := by
  rw [getFileInfo_target h hne, getFileInfo_of_has h, Option.some.injEq, FileInfo.mk.injEq,
    and_iff_right rfl]
  split
  · next hlt => exact iff_of_true rfl (UInt64.le_of_lt hlt)
  · next hge =>
      constructor
      · intro heq
        rw [heq]
        exact UInt64.le_refl _
      · exact fun hle => UInt64.le_antisymm hle (UInt64.not_lt.mp hge)

theorem whole_moved_iff (h : s.Has a) (hne : a ≠ b) :
    (s.rename a b).2.locations.whole b = s.locations.whole a ↔
      (s.locations.whole a = none → s.locations.whole b = none) := by
  rw [(rename_of_has h b).2.2.2.1, Function.update_of_ne hne.symm, Function.update_self]
  cases s.locations.whole a with
  | none => simp
  | some w => simp

/-- The ranges of the new path are those that it had. -/
theorem getLocation_target (h : s.Has a) (hne : a ≠ b) (offset length : UInt64) :
    (s.rename a b).2.locations.getLocation b offset length =
      (s.locations.findRanged b offset length).or ((s.rename a b).2.locations.whole b) := by
  rw [LocationCatalog.getLocation_eq]
  unfold LocationCatalog.findRanged
  rw [(rename_of_has h b).2.2.2.2, Function.update_of_ne hne.symm]

theorem rename_others (h : s.Has a) {p : String} (ha : p ≠ a) (hb : p ≠ b) :
    (s.rename a b).2.metadata p = s.metadata p ∧
      (s.rename a b).2.locations.whole p = s.locations.whole p ∧
      (s.rename a b).2.locations.ranged p = s.locations.ranged p := by
  obtain ⟨-, -, hmetadata, hwhole, hranged⟩ := rename_of_has h b
  rw [hmetadata, hwhole, hranged, Function.update_of_ne ha, Function.update_of_ne hb,
    Function.update_of_ne ha, Function.update_of_ne hb, Function.update_of_ne ha]
  exact ⟨rfl, rfl, rfl⟩

/-- A file that is there is renamed without an error, and has been moved exactly when what
stays behind makes no difference. -/
theorem rename_moves_iff (session : Session) (root : String) (h : s.Has a) (b : String) :
    (s.rename a b).1 = .ok () ∧
      (Moved session root s (s.rename a b).2 a b ↔ Movable session root s a b) := by
  obtain ⟨hok, hbackend, -⟩ := rename_of_has h b
  refine ⟨hok, ⟨fun hmoved => ?_, fun hmovable => ?_⟩⟩
  · have hne : a ≠ b := by
      rintro rfl
      have hself := hmoved.metadata
      rw [getFileInfo_self h, getFileInfo_of_has h] at hself
      cases congrArg FileInfo.isThere (Option.some.inj hself)
    refine ⟨hne, (metadata_moved_iff h hne).mp hmoved.metadata,
      (whole_moved_iff h hne).mp hmoved.whole, fun offset length => ?_, fun offset count => ?_⟩
    · rw [← hmoved.ranged offset length, getLocation_target h hne, hmoved.whole]
    · rw [← hmoved.bytes offset count]
      exact (read_of_backend hbackend session root b offset count).symm
  · obtain ⟨hne, hshorter, hplaced, halike, hstored⟩ := hmovable
    have hwhole := (whole_moved_iff h hne).mpr hplaced
    refine ⟨(metadata_moved_iff h hne).mpr hshorter, fun _ => ?_, fun p ha hb =>
      rename_others h ha hb, hwhole, fun offset length => ?_, fun offset count => ?_⟩
    · rw [getFileInfo_self h]
      rfl
    · rw [getLocation_target h hne, hwhole]
      exact halike offset length
    · rw [read_of_backend hbackend]
      exact hstored offset count

def plainSession : Session :=
  { labelMinSize := 4, maxLabelSize := 8, readPolicy := .readThrough, appId := 1
    ids := fun i => UInt64.ofNat i, now := 0, buffer := 0 }

/-- Two names for the same data. -/
theorem rename_moves_sameData :
    let s : NamedFiles :=
      { metadata := fun p => if p = "a" then ⟨some true, some 2⟩ else {}
        backend := fun _ => some [1, 2] }
    Moved plainSession "" s (s.rename "a" "b").2 "a" "b" := by
  intro s
  refine (rename_moves_iff plainSession "" (show s.Has "a" from rfl) "b").2.mpr
    ⟨by decide, by decide, fun _ => rfl, fun offset length => ?_, fun offset count => ?_⟩
  · rw [LocationCatalog.getLocation_eq]
    rfl
  · exact read_congr (by decide) plainSession "" offset count

/-- The bytes stay under the old name; a longer target keeps its size; a file that is renamed
to itself is gone; and a range is no longer found where it is. -/
theorem rename_leavesBehind :
    let s : NamedFiles :=
      { metadata := fun p =>
          if p = "a" then ⟨some true, some 2⟩ else if p = "c" then ⟨some true, some 9⟩ else {}
        locations := LocationCatalog.setLocation
          (LocationCatalog.setLocation { whole := fun _ => none, ranged := fun _ => [] }
            "a" 0 1 1) "a" 1 1 2
        backend := fun name => if name = [['a']] then some [1, 2] else none }
    (s.read plainSession "" "a" 0 2).data = [1, 2] ∧
      (s.rename "a" "b").1 = .ok () ∧
      ((s.rename "a" "b").2.read plainSession "" "b" 0 2).value = -1 ∧
      (s.rename "a" "c").2.getFileInfo "c" = some { isThere := true, size := 9 } ∧
      (s.rename "a" "a").2.getFileInfo "a" = some { isThere := false, size := 0 } ∧
      s.locations.getLocation "a" 0 1 = some 1 ∧
      (s.rename "a" "b").2.locations.getLocation "b" 0 1 = some 2 := by
  decide +kernel

end NamedFiles
end Labios
