import ZephyrOS.Fs.Storage
import ZephyrOS.Lib.Outcome

/-!
# What `storage_parse_bpb` accepts

The geometry of an accepted boot sector: the areas of the volume follow one another
without overlap, the last cluster ends inside the volume, and the allocation table
of a FAT32 volume has an entry for every cluster.
-/

namespace ZephyrOS.Storage

open Lib

/-- The areas of a mounted volume. -/
structure Geometry (vol : Volume) (mnt : Mount) : Prop where
  sectorsPerCluster_pos : 0 < mnt.sectorsPerCluster
  fatCount_pos : 0 < mnt.fatCount
  fatCount_le : mnt.fatCount ≤ 4
  rootStart_eq : mnt.rootStart = mnt.fatStart + mnt.fatCount * mnt.sectorsPerFat
  dataStart_eq : mnt.dataStart = mnt.rootStart + mnt.rootSectors
  dataEnd_le : mnt.dataStart + mnt.totalClusters * mnt.sectorsPerCluster ≤ mnt.totalSectors
  totalSectors_le : mnt.totalSectors ≤ vol.sectorCount
  fsType_ne : mnt.fsType ≠ .none

/-- What is particular to a FAT32 volume. -/
structure Geometry32 (mnt : Mount) : Prop where
  fsType_eq : mnt.fsType = .fat32
  rootCluster_ge : 2 ≤ mnt.rootCluster
  rootCluster_lt : mnt.rootCluster < mnt.totalClusters + 2
  entries_le : mnt.totalClusters + 2 ≤ mnt.sectorsPerFat * 128
  entries_lt : mnt.sectorsPerFat * 128 < 4294967296

variable {mnt : Mount} {c : Nat} {outside : Err} {read : Nat → Except Err Sector} {vol : Volume}

/-- A cluster ends where the data area does, or before. -/
theorem cluster_end_le {c : Nat} (h2 : 2 ≤ c) (hc : c < mnt.totalClusters + 2) :
    (c - 2) * mnt.sectorsPerCluster + mnt.sectorsPerCluster
      ≤ mnt.totalClusters * mnt.sectorsPerCluster := by
  rw [← Nat.succ_mul]
  exact Nat.mul_le_mul_right _ (by omega)

theorem Geometry.copy_end_le {vol : Volume} (hg : Geometry vol mnt) {copy : Nat}
    (h : copy < mnt.fatCount) :
    mnt.fatStart + (copy + 1) * mnt.sectorsPerFat ≤ mnt.rootStart := by
  have := Nat.mul_le_mul_right mnt.sectorsPerFat (show copy + 1 ≤ mnt.fatCount from h)
  have := hg.rootStart_eq
  omega

/-- `storage_configure_fat_type` only fills in the kind of the volume and its root. -/
theorem configureFatType_ok {boot : Sector} {mnt' : Mount}
    (h : configureFatType boot mnt = .ok mnt') :
    ∃ kind root, mnt' = { mnt with fsType := kind, rootCluster := root } ∧ kind ≠ .none ∧
      (kind = .fat32 → Geometry32 mnt') := by
  unfold configureFatType at h
  split at h
  · obtain ⟨_, _, h⟩ := bind_eq_ok.mp h
    obtain ⟨_, _, h⟩ := bind_eq_ok.mp h
    obtain ⟨_, _, h⟩ := bind_eq_ok.mp h
    obtain ⟨_, _, h⟩ := bind_eq_ok.mp h
    obtain ⟨_, h⟩ := ite_error_eq_ok.mp h
    exact ⟨_, _, (Except.ok.inj h).symm, by simp, by simp⟩
  · obtain ⟨_, h⟩ := ite_error_eq_ok.mp h
    obtain ⟨ce, hce, h⟩ := bind_eq_ok.mp h
    obtain ⟨fe, hfe, h⟩ := bind_eq_ok.mp h
    obtain ⟨hok, h⟩ := ite_error_eq_ok.mp h
    have hfelt := hfe
    obtain ⟨hlt, _⟩ := ite_error_eq_ok.mp hfelt
    rw [addU32_ok hce, mulU32_ok hfe] at hok
    cases h
    refine ⟨_, _, rfl, by simp, fun _ => ⟨rfl, ?_, ?_, ?_, ?_⟩⟩ <;> dsimp only
    · omega
    · omega
    · omega
    · by_cases h0 : mnt.sectorsPerFat = 0
      · omega
      have hle : 128 ≤ 4294967295 / mnt.sectorsPerFat := by
        by_contra hc
        exact hlt ⟨h0, by omega⟩
      have := (Nat.le_div_iff_mul_le (Nat.pos_of_ne_zero h0)).mp hle
      omega

section

variable {vol : Volume} {boot : Sector} {mnt : Mount}

/-- What is known before the kind of the volume is. -/
theorem parseBpb_configure (h : parseBpb vol boot = .ok mnt) :
    ∃ mnt₀ : Mount, configureFatType boot mnt₀ = .ok mnt ∧ 0 < mnt₀.fatStart
      ∧ mnt₀.totalSectors < 4294967296 ∧ mnt₀.sectorsPerCluster ≤ 128 ∧ ∀ kind root, kind ≠ .none →
        Geometry vol { mnt₀ with fsType := kind, rootCluster := root } := by
  obtain ⟨_, h⟩ := ite_error_eq_ok.mp h
  obtain ⟨hbpb, h⟩ := ite_error_eq_ok.mp h
  obtain ⟨rb, _, h⟩ := bind_eq_ok.mp h
  obtain ⟨rb', _, h⟩ := bind_eq_ok.mp h
  obtain ⟨fa, hfa, h⟩ := bind_eq_ok.mp h
  obtain ⟨rs, hrs, h⟩ := bind_eq_ok.mp h
  obtain ⟨ds, hds, h⟩ := bind_eq_ok.mp h
  obtain ⟨hstart, h⟩ := ite_error_eq_ok.mp h
  obtain ⟨_, h⟩ := ite_error_eq_ok.mp h
  have h16 := read16_lt (Sector.byte boot) 19
  have h32 := read32_lt (Sector.byte boot) 32
  have hdiv := Nat.div_mul_le_self
    ((if read16 (Sector.byte boot) 19 = 0 then read32 (Sector.byte boot) 32
      else read16 (Sector.byte boot) 19) - ds) (Sector.byte boot 13).toNat
  refine ⟨_, h, ?_, ?_, ?_, fun kind root hkind => ⟨?_, ?_, ?_, ?_, ?_, ?_, ?_, hkind⟩⟩ <;> dsimp only
  · omega
  · split <;> omega
  · omega
  · omega
  · omega
  · omega
  · rw [addU32_ok hrs, mulU32_ok hfa]
  · exact addU32_ok hds
  · omega
  · omega

theorem parseBpb_ok (h : parseBpb vol boot = .ok mnt) :
    Geometry vol mnt ∧ (mnt.fsType = .fat32 → Geometry32 mnt) := by
  obtain ⟨mnt₀, hconf, -, -, -, hgeometry⟩ := parseBpb_configure h
  obtain ⟨kind, root, rfl, hkind, h32⟩ := configureFatType_ok hconf
  exact ⟨hgeometry kind root hkind, h32⟩

/-- The sizes of a parsed boot sector are those it has in its own fields. -/
theorem parseBpb_sizes (h : parseBpb vol boot = .ok mnt) :
    0 < mnt.fatStart ∧ mnt.totalSectors < 4294967296 ∧ mnt.sectorsPerCluster ≤ 128 := by
  obtain ⟨mnt₀, hconf, hstart, htotal, hcluster, -⟩ := parseBpb_configure h
  obtain ⟨kind, root, rfl, -⟩ := configureFatType_ok hconf
  exact ⟨hstart, htotal, hcluster⟩

end

/-! ### Reading an entry of a FAT32 table -/

/-- Four bytes at a multiple of four lie in one sector. -/
theorem fatBytes_entry
    (hin : c < mnt.sectorsPerFat * 128) (hfat : mnt.sectorsPerFat * 512 < 4294967296) :
    fatBytes read vol mnt outside (4 * c) 4
      = (readRelative read vol (mnt.fatStart + c / 128)).map fun s k =>
          if 0 ≤ k ∧ k < 0 + 4 then Sector.byte s (4 * c % 512 + (k - 0)) else 0 := by
  have hdiv : 4 * c / 512 = c / 128 := by omega
  have hmin : min (512 - 4 * c % 512) 4 = 4 := by omega
  unfold fatBytes
  rw [mulU32_of_lt hfat]
  simp only [Except.mapError, ok_bind]
  rw [if_neg (by omega)]
  unfold fatBytesLoop
  simp only [add_zero, hdiv, hmin]
  rw [if_pos (by decide), if_neg (by omega)]
  cases readRelative read vol (mnt.fatStart + c / 128) with
  | error e => rfl
  | ok s => rfl

theorem fatValue_entry {s : Sector} (h32 : mnt.fsType = .fat32) (hin : c < mnt.sectorsPerFat * 128)
    (hfat : mnt.sectorsPerFat * 512 < 4294967296)
    (hs : readRelative read vol (mnt.fatStart + c / 128) = .ok s) :
    fatValue (fatBytes read vol mnt outside) mnt c
      = .ok (read32 (Sector.byte s) (4 * c % 512) &&& 0x0FFFFFFF) := by
  unfold fatValue
  rw [if_neg (by rw [h32]; decide), if_neg (by omega), fatBytes_entry hin hfat, hs]
  rfl

end ZephyrOS.Storage
