import ZephyrOS.Core.Errors
import ZephyrOS.Lib.Bytes
import ZephyrOS.Lib.Disk

/-!
# Volumes of `fs/storage.c`: the boot sector and the allocation table

A volume is a stretch of sectors of a disk. Mounting it parses the boot sector
into a `Mount`, the geometry every other function of the file takes. Sectors are
read through `read`, which stands for whichever path of the block layer the caller
uses (the cache for ordinary access, the device for the consistency check): an
absolute sector number gives 512 bytes or an error.

The allocation table of a FAT12 volume packs two entries in three bytes, that of a
FAT32 volume has four bytes an entry, of which the upper four bits are not part of
the value.
-/

namespace ZephyrOS.Storage

open Lib

/-- `storage_fs_type_t`. -/
inductive FsType where
  | none | fat12 | fat32
  deriving DecidableEq, Repr

/-- `storage_layout_t`. -/
inductive Layout where
  | raw | mbr
  deriving DecidableEq, Repr

/-- The fields of `storage_volume_t` that the functions below read. -/
structure Volume where
  layout : Layout
  partitionIndex : Nat
  partitionType : UInt8
  mounted : Bool
  readOnly : Bool
  startLba : Nat
  sectorCount : Nat

/-- `storage_mount_t`: the geometry of a mounted volume. -/
structure Mount where
  fsType : FsType
  sectorsPerCluster : Nat
  fatCount : Nat
  rootEntries : Nat
  totalSectors : Nat
  fatStart : Nat
  sectorsPerFat : Nat
  rootStart : Nat
  rootSectors : Nat
  dataStart : Nat
  totalClusters : Nat
  rootCluster : Nat
  deriving DecidableEq

/-! ### Checked arithmetic -/

/-- `storage_add_u32`. -/
def addU32 (left right : Nat) : Except Err Nat :=
  if 4294967295 - right < left then .error .overflow else .ok (left + right)

/-- `storage_mul_u32`. -/
def mulU32 (left right : Nat) : Except Err Nat :=
  if left ≠ 0 ∧ 4294967295 / left < right then .error .overflow else .ok (left * right)

variable {a b c : Nat} {vol : Volume} {lba : Nat}

theorem addU32_ok (h : addU32 a b = .ok c) : c = a + b := by
  unfold addU32 at h
  split at h
  · cases h
  · exact (Except.ok.inj h).symm

theorem mulU32_ok (h : mulU32 a b = .ok c) : c = a * b := by
  unfold mulU32 at h
  split at h
  · cases h
  · exact (Except.ok.inj h).symm

theorem addU32_of_lt (h : a + b < 4294967296) : addU32 a b = .ok (a + b) :=
  if_neg (by omega)

theorem mulU32_of_lt (h : a * b < 4294967296) : mulU32 a b = .ok (a * b) := by
  refine if_neg ?_
  rintro ⟨ha, hlt⟩
  have hb : (4294967295 / a + 1) * a ≤ b * a := Nat.mul_le_mul_right a hlt
  have hdiv : 4294967295 < (4294967295 / a + 1) * a := by
    rw [mul_comm]; exact Nat.lt_mul_div_succ _ (Nat.pos_of_ne_zero ha)
  rw [mul_comm b a] at hb
  omega

/-! ### Reading sectors -/

/-- `storage_relative_range`: the absolute number of a sector of the volume. -/
def relativeRange (vol : Volume) (lba count : Nat) : Except Err Nat :=
  if vol.sectorCount = 0 ∨ vol.sectorCount ≤ lba ∨ vol.sectorCount - lba < count then
    .error .disk
  else if 4294967295 - lba < vol.startLba ∨ 4294967295 - (lba + count - 1) < vol.startLba then
    .error .overflow
  else .ok (vol.startLba + lba)

/-- `storage_read_relative` of one sector, and `storage_check_read_relative`, which is
the same through the device. -/
def readRelative (read : Nat → Except Err Sector) (vol : Volume) (lba : Nat) :
    Except Err Sector := do
  read (← relativeRange vol lba 1)

theorem relativeRange_ok {n : Nat} (h : relativeRange vol lba 1 = .ok n) :
    n = vol.startLba + lba ∧ lba < vol.sectorCount := by
  unfold relativeRange at h
  split at h
  · cases h
  · split at h
    · cases h
    · exact ⟨(Except.ok.inj h).symm, by omega⟩

theorem relativeRange_of_lt (h : lba < vol.sectorCount)
    (hend : vol.startLba + vol.sectorCount ≤ 4294967296) :
    relativeRange vol lba 1 = .ok (vol.startLba + lba) := by
  unfold relativeRange
  rw [if_neg (by omega), if_neg (by omega)]

/-! ### The boot sector -/

/-- The part of `storage_parse_bpb` that `storage_configure_fat_type` does: the kind of
the volume follows from its number of clusters. -/
def configureFatType (boot : Sector) (mnt : Mount) : Except Err Mount :=
  let byte := Sector.byte boot
  if mnt.totalClusters < 4085 then do
    let fatBytes ← mulU32 mnt.sectorsPerFat 512
    let clusterEntries ← addU32 mnt.totalClusters 2
    let numerator ← mulU32 clusterEntries 3
    let numerator ← addU32 numerator 1
    if mnt.rootEntries = 0 ∨ read16 byte 22 = 0 ∨ fatBytes < numerator / 2 then
      .error .invalid
    else .ok { mnt with fsType := .fat12 }
  else if mnt.totalClusters < 4086 then .error .unavailable
  else do
    let rootCluster := read32 byte 44
    let clusterEntries ← addU32 mnt.totalClusters 2
    let fatEntries ← mulU32 mnt.sectorsPerFat 128
    if mnt.rootEntries ≠ 0 ∨ read16 byte 22 ≠ 0 ∨ rootCluster < 2 ∨
        clusterEntries ≤ rootCluster ∨ fatEntries < clusterEntries then .error .invalid
    else .ok { mnt with fsType := .fat32, rootCluster := rootCluster }

/-- `storage_parse_bpb`. -/
def parseBpb (vol : Volume) (boot : Sector) : Except Err Mount :=
  let byte := Sector.byte boot
  if byte 510 ≠ 0x55 ∨ byte 511 ≠ 0xAA then .error .invalid
  else
    let sectorsPerCluster := (byte 13).toNat
    let reserved := read16 byte 14
    let fatCount := (byte 16).toNat
    let rootEntries := read16 byte 17
    let totalSectors := if read16 byte 19 = 0 then read32 byte 32 else read16 byte 19
    let sectorsPerFat := if read16 byte 22 = 0 then read32 byte 36 else read16 byte 22
    if read16 byte 11 ≠ 512 ∨ sectorsPerCluster = 0 ∨ 128 < sectorsPerCluster ∨
        sectorsPerCluster &&& (sectorsPerCluster - 1) ≠ 0 ∨ reserved = 0 ∨ fatCount = 0 ∨
        4 < fatCount ∨ sectorsPerFat = 0 ∨ totalSectors = 0 ∨ vol.sectorCount < totalSectors then
      .error .invalid
    else do
      let rootBytes ← mulU32 rootEntries 32
      let rootBytes ← addU32 rootBytes 511
      let rootSectors := rootBytes / 512
      let fatArea ← mulU32 fatCount sectorsPerFat
      let rootStart ← addU32 reserved fatArea
      let dataStart ← addU32 rootStart rootSectors
      if totalSectors ≤ rootStart ∨ totalSectors < dataStart ∨ totalSectors ≤ dataStart then
        .error .invalid
      else
        let clusters := (totalSectors - dataStart) / sectorsPerCluster
        if clusters = 0 then .error .invalid
        else
          configureFatType boot
            { fsType := .none, sectorsPerCluster := sectorsPerCluster, fatCount := fatCount
              rootEntries := rootEntries, totalSectors := totalSectors, fatStart := reserved
              sectorsPerFat := sectorsPerFat, rootStart := rootStart, rootSectors := rootSectors
              dataStart := dataStart, totalClusters := clusters, rootCluster := 0 }

/-! ### The allocation table -/

/-- `storage_cluster_is_end`. -/
def clusterIsEnd (mnt : Mount) (cluster : Nat) : Bool :=
  if mnt.fsType = .fat12 then 0xFF8 ≤ cluster else 0x0FFFFFF8 ≤ cluster

/-- `storage_cluster_is_bad`. -/
def clusterIsBad (mnt : Mount) (cluster : Nat) : Bool :=
  if mnt.fsType = .fat12 then cluster == 0xFF7 else cluster == 0x0FFFFFF7

/-- The copy loop of `storage_read_fat_bytes` and `storage_check_read_fat_bytes`: sector
by sector until `size` bytes are in `out`. Every round copies at least one byte. -/
def fatBytesLoop (read : Nat → Except Err Sector) (vol : Volume) (mnt : Mount) (outside : Err)
    (offset size : Nat) : Nat → Nat → (Nat → UInt8) → Except Err (Nat → UInt8)
  | 0, _, out => .ok out
  | rounds + 1, copied, out =>
    if copied < size then
      let current := offset + copied
      let amount := min (512 - current % 512) (size - copied)
      if mnt.sectorsPerFat ≤ current / 512 then .error outside
      else do
        let sector ← readRelative read vol (mnt.fatStart + current / 512)
        fatBytesLoop read vol mnt outside offset size rounds (copied + amount) fun k =>
          if copied ≤ k ∧ k < copied + amount then
            Sector.byte sector (current % 512 + (k - copied))
          else out k
    else .ok out

/-- The two readers of the table differ in the code of an address outside it. -/
def fatBytes (read : Nat → Except Err Sector) (vol : Volume) (mnt : Mount) (outside : Err)
    (offset size : Nat) : Except Err (Nat → UInt8) := do
  let fatBytes ← (mulU32 mnt.sectorsPerFat 512).mapError fun _ => outside
  if fatBytes < offset ∨ fatBytes - offset < size then .error outside
  else fatBytesLoop read vol mnt outside offset size size 0 fun _ => 0

/-- `storage_read_fat_bytes`. -/
def readFatBytes (read : Nat → Except Err Sector) (vol : Volume) (mnt : Mount) :
    Nat → Nat → Except Err (Nat → UInt8) := fatBytes read vol mnt .disk

/-- `storage_check_read_fat_bytes`. -/
def checkReadFatBytes (read : Nat → Except Err Sector) (vol : Volume) (mnt : Mount) :
    Nat → Nat → Except Err (Nat → UInt8) := fatBytes read vol mnt .invalid

/-- The value of an entry among the bytes of the table. -/
def fatValue (bytes : Nat → Nat → Except Err (Nat → UInt8)) (mnt : Mount) (cluster : Nat) :
    Except Err Nat :=
  if mnt.fsType = .fat12 then do
    let b ← bytes (cluster + cluster / 2) 2
    .ok (if cluster % 2 = 1 then read16 b 0 >>> 4 else read16 b 0 &&& 0x0FFF)
  else if 1073741823 < cluster then .error .overflow
  else do
    let b ← bytes (4 * cluster) 4
    .ok (read32 b 0 &&& 0x0FFFFFFF)

/-- `storage_next_cluster`. -/
def nextCluster (read : Nat → Except Err Sector) (vol : Volume) (mnt : Mount) (cluster : Nat) :
    Except Err Nat :=
  if cluster < 2 ∨ 4294967293 < mnt.totalClusters ∨ mnt.totalClusters + 2 ≤ cluster then
    .error .invalid
  else fatValue (readFatBytes read vol mnt) mnt cluster

/-- `storage_check_read_fat_entry`. -/
def checkReadFatEntry (read : Nat → Except Err Sector) (vol : Volume) (mnt : Mount)
    (cluster : Nat) : Except Err Nat :=
  if mnt.totalClusters + 1 < cluster then .error .invalid
  else fatValue (checkReadFatBytes read vol mnt) mnt cluster

/-- `storage_check_cluster_valid`. -/
def clusterValid (mnt : Mount) (cluster : Nat) : Bool :=
  2 ≤ cluster && mnt.totalClusters ≤ 4294967293 && cluster < mnt.totalClusters + 2

/-- `storage_check_next_cluster`. -/
def checkNextCluster (read : Nat → Except Err Sector) (vol : Volume) (mnt : Mount)
    (cluster : Nat) : Except Err Nat :=
  if cluster < 2 ∨ mnt.totalClusters + 1 < cluster then .error .invalid
  else checkReadFatEntry read vol mnt cluster

end ZephyrOS.Storage
