import ZephyrOS.Fs.StorageWalk
import ZephyrOS.Lib.Program

/-!
# Writing the allocation table of a FAT32 volume

The functions of `fs/storage.c` that change a volume run on a `Store`: what the disk holds, and
the cluster from which the next search for a free one starts. Transfers of single sectors
succeed; what can fail is an address outside the volume, a volume that may only be read, and a
table with no free entry.

Every copy of the table is written. The upper four bits of an entry are kept as they were.
-/

namespace ZephyrOS.Storage

open Lib

/-- What the functions below read and change. `hint` is `storage_fat32_allocation_hint` of the
volume, zero if there is none. -/
structure Store where
  image : Image
  hint : Nat

/-- A function of the file on a store. -/
abbrev Access (α : Type) : Type := Program Store Err α

/-- The block layer's read. -/
def Store.read (s : Store) : Nat → Except Err Sector := fun lba => .ok (s.image lba)

/-- A computation that only reads. -/
def reading {α : Type} (f : (Nat → Except Err Sector) → Except Err α) : Access α :=
  fun s => (f s.read, s)

section

variable (vol : Volume) (mnt : Mount)

/-- `storage_write_relative`. -/
def writeRelative (lba : Nat) (data : Sector) : Access Unit := do
  Program.ensure (vol.readOnly = false) .unavailable
  Program.ensure (lba < vol.sectorCount) .disk
  let absolute ← Program.lift ((relativeRange vol lba 1).mapError fun _ => .overflow)
  Program.modify fun s => { s with image := Function.update s.image absolute data }

/-- `STORAGE_FAT32_END`. -/
def fat32End : Nat := 0x0FFFFFF8

/-- A cluster number that has an entry in the table of a FAT32 volume. -/
def fat32Entry (cluster : Nat) : Prop :=
  mnt.fsType = .fat32 ∧ 2 ≤ cluster ∧ mnt.totalClusters ≤ 4294967293
    ∧ cluster < mnt.totalClusters + 2

instance (cluster : Nat) : Decidable (fat32Entry mnt cluster) :=
  inferInstanceAs (Decidable (_ ∧ _))

/-- `storage_read_fat32_entry`. -/
def readFat32Entry (read : Nat → Except Err Sector) (cluster : Nat) : Except Err Nat :=
  if fat32Entry mnt cluster then fatValue (readFatBytes read vol mnt) mnt cluster
  else .error .invalid

/-- A sector of the table with the entry at `offset` changed. -/
def putFatEntry (sector : Sector) (offset value : Nat) : Sector := fun j =>
  let next := (read32 (Sector.byte sector) offset &&& 0xF0000000) ||| (value &&& 0x0FFFFFFF)
  if j.val = offset then UInt8.ofNat next
  else if j.val = offset + 1 then UInt8.ofNat (next >>> 8)
  else if j.val = offset + 2 then UInt8.ofNat (next >>> 16)
  else if j.val = offset + 3 then UInt8.ofNat (next >>> 24)
  else sector j

/-- The sector of a copy of the table that has an entry. -/
def fatSector (copy cluster : Nat) : Except Err Nat := do
  let copyOffset ← mulU32 copy mnt.sectorsPerFat
  let start ← addU32 mnt.fatStart copyOffset
  addU32 start (4 * cluster / 512)

/-- The loop of `storage_write_fat32_entry` over the copies from `copy` on. -/
def writeFatCopies (cluster value : Nat) : Nat → Nat → Access Unit
  | 0, _ => pure ()
  | rounds + 1, copy => do
    let lba ← Program.lift (fatSector mnt copy cluster)
    let sector ← reading fun read => readRelative read vol lba
    writeRelative vol lba (putFatEntry sector (4 * cluster % 512) value)
    writeFatCopies cluster value rounds (copy + 1)

/-- `storage_write_fat32_entry`. -/
def writeFat32Entry (cluster value : Nat) : Access Unit := do
  Program.ensure (vol.readOnly = false) .unavailable
  Program.ensure (fat32Entry mnt cluster) .invalid
  Program.ensure (cluster ≤ 1073741823) .overflow
  writeFatCopies vol mnt cluster value mnt.fatCount 0

/-- Where `storage_allocate_fat32_cluster` starts to search. -/
def allocationStart (hint : Nat) : Nat :=
  let start := if hint ≠ 0 then hint else mnt.rootCluster
  if start < 2 ∨ mnt.totalClusters + 2 ≤ start then 2 else start

/-- The two passes of `storage_allocate_fat32_cluster`, in the order of the search. -/
def allocateLoop : List Nat → Access Nat
  | [] => Program.fail .overflow
  | cluster :: clusters => do
    let value ← reading fun read => readFat32Entry vol mnt read cluster
    if value = 0 then do
      writeFat32Entry vol mnt cluster fat32End
      Program.modify fun s =>
        { s with hint := if cluster + 1 < mnt.totalClusters + 2 then cluster + 1 else 2 }
      pure cluster
    else allocateLoop clusters

/-- `storage_allocate_fat32_cluster`. -/
def allocateFat32Cluster : Access Nat := do
  Program.ensure (mnt.totalClusters ≤ 4294967293) .overflow
  let start ← Program.read fun s => allocationStart mnt s.hint
  allocateLoop vol mnt
    (List.range' start (mnt.totalClusters + 2 - start) ++ List.range' 2 (start - 2))

/-- The loop of `storage_release_fat32_chain`. -/
def releaseLoop : Nat → Nat → Access Unit
  | 0, _ => Program.fail .overflow
  | rounds + 1, cluster => do
    let next ← reading fun read => readFat32Entry vol mnt read cluster
    writeFat32Entry vol mnt cluster 0
    if clusterIsEnd mnt next then pure ()
    else if clusterIsBad mnt next ∨ next < 2 then Program.fail .disk
    else releaseLoop rounds next

/-- `storage_release_fat32_chain`. -/
def releaseFat32Chain (cluster : Nat) : Access Unit :=
  if cluster = 0 then pure () else releaseLoop vol mnt maxChainSteps cluster

end

end ZephyrOS.Storage
