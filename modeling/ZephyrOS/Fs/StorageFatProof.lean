import ZephyrOS.Fs.StorageFat
import ZephyrOS.Fs.StorageMount

/-!
# The allocation table as a function

On a mounted FAT32 volume the table is a function from cluster numbers to values, the one the
first copy holds. It lies before the data, so writing to a cluster leaves it as it is.
-/

namespace ZephyrOS.Storage

open Lib Function Nat

/-- A mounted FAT32 volume on a disk whose sectors have 32-bit numbers. -/
structure Ready (vol : Volume) (mnt : Mount) : Prop where
  geometry : Geometry vol mnt
  geometry32 : Geometry32 mnt
  onDisk : vol.startLba + vol.sectorCount ≤ 4294967296
  /-- The table has fewer than `2 ^ 32` bytes. -/
  table : mnt.sectorsPerFat * 512 < 4294967296
  cluster_le : mnt.sectorsPerCluster ≤ 128

/-- The value of an entry. -/
def fatAt (vol : Volume) (mnt : Mount) (image : Image) (cluster : Nat) : Nat :=
  read32 (byteAt image) (512 * (vol.startLba + mnt.fatStart) + 4 * cluster) &&& 0x0FFFFFFF

theorem read32_congr {m m' : Nat → UInt8} {b b' : Nat} (h : ∀ k, k < 4 → m (b + k) = m' (b' + k)) :
    read32 m b = read32 m' b' := by
  have h0 := h 0 (by decide)
  have h1 := h 1 (by decide)
  have h2 := h 2 (by decide)
  have h3 := h 3 (by decide)
  rw [add_zero, add_zero] at h0
  unfold read32 read16
  rw [h0, h1, h2, h3]

section

variable {α : Type} {vol : Volume} {mnt : Mount} {c copy lba : Nat} {s : Store} {image : Image}
  {outside : Err} {data : Sector} {f : (Nat → Except Err Sector) → Except Err α}

/-- A mounted volume whose table could be read. -/
theorem ready_of_parseBpb {boot : Sector} (h : parseBpb vol boot = .ok mnt)
    (h32 : mnt.fsType = .fat32) (hdisk : vol.startLba + vol.sectorCount ≤ 4294967296)
    {read : Nat → Except Err Sector} {v : Nat} (hnext : nextCluster read vol mnt c = .ok v) :
    Ready vol mnt := by
  obtain ⟨hg, hg32⟩ := parseBpb_ok h
  refine ⟨hg, hg32 h32, hdisk, ?_, (parseBpb_sizes h).2.2⟩
  obtain ⟨-, hnext⟩ := ite_error_eq_ok.mp hnext
  unfold fatValue at hnext
  rw [if_neg (by rw [h32]; decide)] at hnext
  obtain ⟨-, hnext⟩ := ite_error_eq_ok.mp hnext
  obtain ⟨b, hb, -⟩ := bind_eq_ok.mp hnext
  obtain ⟨n, hn, -⟩ := bind_eq_ok.mp hb
  rw [mapError_eq_ok] at hn
  -- The product was checked.
  obtain ⟨hle, -⟩ := ite_error_eq_ok.mp hn
  by_contra hbig
  refine hle ⟨by omega, ?_⟩
  rw [div_lt_iff_lt_mul (by omega)]
  omega

section

variable (hr : Ready vol mnt)
include hr

/-- The sector of an entry lies in the table, and the table before the data. -/
theorem Ready.sector_lt (hc : clusterValid mnt c = true) :
    c / 128 < mnt.sectorsPerFat := by
  have := hr.geometry32.entries_le
  have := (clusterValid_iff.mp hc).2.2
  omega

theorem Ready.dataStart_le : mnt.rootStart ≤ mnt.dataStart := by
  have := hr.geometry.dataStart_eq
  omega

theorem Ready.dataStart_lt : mnt.dataStart ≤ vol.sectorCount := by
  have := hr.geometry.dataEnd_le
  have := hr.geometry.totalSectors_le
  omega

theorem readRelative_read (h : lba < vol.sectorCount) :
    readRelative s.read vol lba = .ok (s.image (vol.startLba + lba)) := by
  rw [readRelative, relativeRange_of_lt h hr.onDisk]
  rfl

end

/-- The sector of a copy that has the entry of a cluster. -/
def copySector (vol : Volume) (mnt : Mount) (copy cluster : Nat) : Nat :=
  vol.startLba + (mnt.fatStart + copy * mnt.sectorsPerFat + cluster / 128)

theorem byteAt_entry {k : Nat} (hk : k < 4) :
    byteAt image (512 * (vol.startLba + mnt.fatStart) + 4 * c + k)
      = Sector.byte (image (copySector vol mnt 0 c)) (4 * c % 512 + k) := by
  unfold byteAt copySector
  rw [zero_mul, show (512 * (vol.startLba + mnt.fatStart) + 4 * c + k) / 512
      = vol.startLba + (mnt.fatStart + c / 128) by omega]
  unfold Sector.byte
  congr 1
  simp only [Fin.mk.injEq]
  omega

theorem fatAt_eq :
    fatAt vol mnt image c
      = read32 (Sector.byte (image (copySector vol mnt 0 c))) (4 * c % 512) &&& 0x0FFFFFFF := by
  rw [fatAt, read32_congr (fun k hk => byteAt_entry hk)]

/-- An entry as the readers of the table see it. -/
theorem fatValue_eq (hr : Ready vol mnt) (hc : clusterValid mnt c = true) :
    fatValue (fatBytes s.read vol mnt outside) mnt c = .ok (fatAt vol mnt s.image c) := by
  have hsector := hr.sector_lt hc
  have hcopy := hr.geometry.copy_end_le hr.geometry.fatCount_pos
  have hroot := hr.dataStart_le
  have hdata := hr.dataStart_lt
  have hin : c < mnt.sectorsPerFat * 128 := by omega
  rw [fatValue_entry hr.geometry32.fsType_eq hin hr.table (readRelative_read hr (by omega)), fatAt_eq,
    copySector, zero_mul, add_zero]

theorem nextCluster_eq (hr : Ready vol mnt) (hc : clusterValid mnt c = true) :
    nextCluster s.read vol mnt c = .ok (fatAt vol mnt s.image c) := by
  have hv := clusterValid_iff.mp hc
  rw [nextCluster, if_neg (by omega)]
  exact fatValue_eq hr hc

/-! ### Writing -/

theorem writeRelative_run (hr : Ready vol mnt) (hw : vol.readOnly = false)
    (h : lba < vol.sectorCount) :
    writeRelative vol lba data s
      = (.ok (), { s with image := update s.image (vol.startLba + lba) data }) := by
  rw [writeRelative, Program.run_bind_ok (Program.run_ensure_pos hw),
    Program.run_bind_ok (Program.run_ensure_pos h), relativeRange_of_lt h hr.onDisk]
  rfl

theorem run_reading : reading f s = (f s.read, s) := rfl

theorem fatSector_eq (hr : Ready vol mnt) (hcopy : copy < mnt.fatCount)
    (hc : clusterValid mnt c = true) :
    fatSector mnt copy c = .ok (mnt.fatStart + copy * mnt.sectorsPerFat + c / 128)
      ∧ mnt.fatStart + copy * mnt.sectorsPerFat + c / 128 < mnt.rootStart := by
  have hsector := hr.sector_lt hc
  have hcopy := hr.geometry.copy_end_le hcopy
  rw [succ_mul] at hcopy
  have hroot := hr.dataStart_le
  have hdata := hr.dataStart_lt
  have hdisk := hr.onDisk
  refine ⟨?_, by omega⟩
  rw [fatSector, mulU32_of_lt (by omega), ok_bind, addU32_of_lt (by omega), ok_bind,
    addU32_of_lt (by omega), show 4 * c / 512 = c / 128 by omega]

end

end ZephyrOS.Storage
