import ZephyrOS.Fs.StorageFatProof
import ZephyrOS.Fs.StorageLongName

/-!
# Room for new entries in a directory

`storage_find_free_directory_slots` looks through a directory of a FAT32 volume for a run of
free slots, counting over the boundaries of sectors and clusters. If there is none it appends
clusters to the last one it saw, and the run is at the start of the first new cluster.

What it returns is one number, the byte offset of the first slot on the disk. The caller
writes the slots at this offset, thirty-two bytes further, and so on.
-/

namespace ZephyrOS.Storage

open Lib

/-- `run_start` and `run_count`. -/
structure Run where
  start : Nat
  count : Nat

/-- A slot that may be used: the end marker, or a deleted entry. -/
def slotFree (source : Nat → UInt8) : Prop := source 0 = 0 ∨ source 0 = 0xE5

instance (source : Nat → UInt8) : Decidable (slotFree source) := inferInstanceAs (Decidable (_ ∨ _))

/-- The loop over the slots of a sector: the offset of a run that is long enough, or the run
so far. -/
def scanSlots (required : Nat) : List (Nat × (Nat → UInt8)) → Run → Nat ⊕ Run
  | [], run => .inr run
  | (offset, source) :: slots, run =>
    if slotFree source then
      let run : Run := ⟨if run.count = 0 then offset else run.start, run.count + 1⟩
      if required ≤ run.count then .inl run.start else scanSlots required slots run
    else scanSlots required slots ⟨run.start, 0⟩

section

variable (vol : Volume) (mnt : Mount)

/-- The loop over the sectors of a cluster. -/
def scanSectors (read : Nat → Except Err Sector) (required lba : Nat) : Nat → Run → Except Err (Nat ⊕ Run)
  | 0, run => .ok (.inr run)
  | count + 1, run => do
    let sector ← readRelative read vol lba
    match scanSlots required (sectorSlots sector (sectorOffset vol lba)) run with
    | .inl offset => .ok (.inl offset)
    | .inr run => scanSectors read required (lba + 1) count run

/-- The loop over the clusters: the offset of a run, or the last cluster that was looked at. -/
def scanChain (read : Nat → Except Err Sector) (required : Nat) :
    Nat → Nat → Nat → Run → Except Err (Nat ⊕ Nat)
  | 0, _, last, _ => .ok (.inr last)
  | rounds + 1, cluster, _, run =>
    if cluster < 2 ∨ mnt.totalClusters + 2 ≤ cluster then .error .invalid
    else do
      match ← scanSectors vol read required (clusterLba mnt cluster) mnt.sectorsPerCluster run with
      | .inl offset => .ok (.inl offset)
      | .inr run =>
        let next ← (nextCluster read vol mnt cluster).mapError fun _ => .disk
        if clusterIsEnd mnt next then .ok (.inr cluster)
        else if clusterIsBad mnt next then .error .disk
        else scanChain read required rounds next cluster run

/-- Writing zeros to the sectors of a new cluster. -/
def clearSectors (lba : Nat) : Nat → Access Unit
  | 0 => pure ()
  | count + 1 => do
    writeRelative vol lba fun _ => 0
    clearSectors (lba + 1) count

/-- How the loop that adds clusters ended: the first new cluster, zero if there is none, and a
cluster that was allocated but not linked. -/
structure Growth where
  result : Except Err Unit
  first : Nat
  orphan : Nat

/-- The loop that adds clusters behind `previous`. -/
def growLoop : Nat → Nat → Nat → Access Growth
  | 0, first, _ => pure ⟨.ok (), first, 0⟩
  | needed + 1, first, previous => do
    match ← Program.attempt (allocateFat32Cluster vol mnt) with
    | .error e => pure ⟨.error e, first, 0⟩
    | .ok new =>
      let first := if first = 0 then new else first
      match ← Program.attempt (writeFat32Entry vol mnt previous new) with
      | .error e => pure ⟨.error e, first, new⟩
      | .ok _ =>
        match ← Program.attempt (clearSectors vol (clusterLba mnt new) mnt.sectorsPerCluster) with
        | .error e => pure ⟨.error e, first, 0⟩
        | .ok _ => growLoop needed first new

/-- The slots of a cluster. -/
def entriesPerCluster : Nat := 16 * mnt.sectorsPerCluster

/-- `clusters_needed`; the sum is one of 32-bit numbers. -/
def clustersNeeded (required : Nat) : Nat :=
  u32 (required + entriesPerCluster mnt - 1) / entriesPerCluster mnt

/-- The offset of the first slot of a new cluster. -/
def growthOffset (first : Nat) : Nat :=
  u32 (512 * (vol.startLba + mnt.dataStart + u32 (first + 4294967294) * mnt.sectorsPerCluster))

/-- Taking back what the loop did before it failed. -/
def undoGrowth (last : Nat) (growth : Growth) : Access Unit := do
  let _ ← Program.attempt (writeFat32Entry vol mnt last fat32End)
  let _ ← Program.attempt (releaseFat32Chain vol mnt growth.first)
  if growth.orphan ≠ 0 ∧ growth.orphan ≠ growth.first then do
    let _ ← Program.attempt (writeFat32Entry vol mnt growth.orphan 0)
    pure ()
  else pure ()

/-- `storage_find_free_directory_slots`. -/
def findFreeDirectorySlots (cluster required : Nat) : Access Nat := do
  Program.ensure (required ≠ 0) .null
  match ← reading fun read => scanChain vol mnt read required maxChainSteps cluster cluster ⟨0, 0⟩ with
  | .inl offset => pure offset
  | .inr last => do
    let growth ← growLoop vol mnt (clustersNeeded mnt required) 0 last
    match growth.result with
    | .ok _ => pure (growthOffset vol mnt growth.first)
    | .error e => do
      undoGrowth vol mnt last growth
      Program.fail e

/-- A sector with the thirty-two bytes of an entry put in. -/
def putEntry (sector : Sector) (offset : Nat) (entry : Nat → UInt8) : Sector := fun j =>
  if offset ≤ j.val ∧ j.val < offset + 32 then entry (j.val - offset) else sector j

/-- `storage_write_directory_entry`. -/
def writeDirectoryEntry (offset : Nat) (entry : Nat → UInt8) : Access Unit := do
  Program.ensure (offset % 512 + 32 ≤ 512 ∧ vol.startLba ≤ offset / 512) .invalid
  let sector ← reading fun read => readRelative read vol (offset / 512 - vol.startLba)
  writeRelative vol (offset / 512 - vol.startLba) (putEntry sector (offset % 512) entry)

/-- Entries written one after the other from `offset` on, as `storage_publish_fat32_entry`
writes them. -/
def writeEntries : Nat → List (Nat → UInt8) → Access Unit
  | _, [] => pure ()
  | offset, entry :: entries => do
    writeDirectoryEntry vol offset entry
    writeEntries (u32 (offset + 32)) entries

end

end ZephyrOS.Storage
