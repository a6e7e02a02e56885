import ZephyrOS.Fs.StorageDir

/-!
# The consistency check of `fs/storage.c`

`storage_check` reads a mounted volume through the device, never through the cache,
and accepts it only if every structure it meets is in order: the partition table,
the boot sector and its copies, the copies of the allocation table, and then the
directory tree from the root on. One bitmap over the clusters, shared by the whole
walk, says which clusters an entry already owns; it is what `kmalloc` returned, not
cleared, so a stale bit makes the check refuse a sound volume.

The recursion over subdirectories is bounded by the code itself: a directory
`depth` levels below the root is entered only if `depth` is below the number of
clusters. `levels` counts the levels that are left, and running out of them is the
`ERR_OVERFLOW` of the source.

The first error ends the walk and is what `storage_check` returns, so only an
accepted volume has a `Report`.
-/

namespace ZephyrOS.Storage

open Lib

/-- The counters of `storage_check_report_t`; the error counters of an accepted volume
are zero. -/
structure Report where
  structuresVerified : Nat := 0
  filesVerified : Nat := 0
  directoriesVerified : Nat := 0
  referencedClusters : Nat := 0
  freeClusters : Nat := 0
  warnings : Nat := 0
  deriving DecidableEq

/-- The part of `storage_check_context` that changes. -/
structure Check where
  ownership : Nat → UInt8
  report : Report

/-- `storage_check_record_structure`. -/
def Check.recordStructure (check : Check) : Check :=
  { check with report.structuresVerified := check.report.structuresVerified + 1 }

/-- `storage_check_record_warning`. -/
def Check.recordWarning (check : Check) : Check :=
  { check with report.warnings := check.report.warnings + 1 }

/-- The ownership bit of a cluster. -/
def Check.owns (check : Check) (cluster : Nat) : Bool := bitAt check.ownership (cluster - 2)

/-- `storage_check_mark_cluster`. -/
def checkMarkCluster (mnt : Mount) (cluster : Nat) (check : Check) : Except Err Check :=
  if clusterValid mnt cluster = false then .error .invalid
  else if check.owns cluster then .error .invalid
  else .ok { check with
    ownership := setBit check.ownership 0 (cluster - 2)
    report.referencedClusters := check.report.referencedClusters + 1 }

section

variable (read : Nat → Except Err Sector) (vol : Volume) (mnt : Mount)

/-- The loop of `storage_check_chain`. -/
def checkChainLoop (required : Nat) : Nat → Nat → Nat → Check → Except Err Check
  | 0, _, _, _ => .error .overflow
  | rounds + 1, step, cluster, check => do
    let check ← checkMarkCluster mnt cluster check
    let next ← checkNextCluster read vol mnt cluster
    let check := check.recordStructure
    if clusterIsEnd mnt next then
      if required ≠ 0 ∧ step + 1 < required then .error .invalid else .ok check
    else if next = 0 ∨ clusterIsBad mnt next ∨ clusterValid mnt next = false then .error .invalid
    else if required ≠ 0 ∧ required ≤ step + 1 then .error .invalid
    else checkChainLoop required rounds (step + 1) next check

/-- The number of clusters `storage_check_chain` requires of a file. -/
def requiredClusters (mnt : Mount) (size : Nat) : Nat :=
  size / (mnt.sectorsPerCluster * 512) + if size % (mnt.sectorsPerCluster * 512) = 0 then 0 else 1

/-- `storage_check_chain`. -/
def checkChain (first size : Nat) (directory : Bool) (check : Check) : Except Err Check :=
  if first = 0 then
    if size ≠ 0 ∨ directory then .error .invalid else .ok check
  else if directory = false ∧ size = 0 then .error .invalid
  else checkChainLoop read vol mnt (requiredClusters mnt size) mnt.totalClusters 0 first check

/-- One character of a name in `storage_check_name_valid`. -/
def charValid (c : UInt8) : Bool := 0x20 ≤ c && c != 47 && c != 92 && c != 58

/-- `storage_check_name_valid`. -/
def checkNameValid (e : LongEntry) : Except Err Unit :=
  if e.shortName = [] ∨ e.name = [] then .error .invalid
  else if e.shortName.all charValid && e.name.all charValid then .ok ()
  else .error .invalid

/-- The cluster loop of `storage_check_walk_directory`. -/
def checkWalkLoop {σ : Type} (visitor : LongEntry → σ → Except Err σ) :
    Nat → Nat → Lfn → σ → Except Err σ
  | 0, _, _, _ => .error .overflow
  | rounds + 1, cluster, lfn, context => do
    if clusterValid mnt cluster = false then .error .invalid
    else
      match ← visitSectors mnt visitor read vol (clusterLba mnt cluster)
          mnt.sectorsPerCluster lfn context with
      | (lfn, context, true) => if lfn.active then .error .invalid else .ok context
      | (lfn, context, false) =>
        let next ← checkNextCluster read vol mnt cluster
        if clusterIsEnd mnt next then
          if lfn.active then .error .invalid else .ok context
        else if next = 0 ∨ clusterIsBad mnt next ∨ clusterValid mnt next = false then
          .error .invalid
        else checkWalkLoop visitor rounds next lfn context

/-- A directory: the fixed root of a FAT12 volume, or a chain of clusters. -/
structure Dir where
  cluster : Nat
  fixedRoot : Bool
  deriving DecidableEq

/-- `storage_check_walk_directory`. -/
def checkWalkDirectory {σ : Type} (dir : Dir) (visitor : LongEntry → σ → Except Err σ)
    (context : σ) : Except Err σ :=
  if dir.fixedRoot then do
    match ← visitSectors mnt visitor read vol mnt.rootStart mnt.rootSectors Lfn.reset context with
    | (lfn, context, _) => if lfn.active then .error .invalid else .ok context
  else checkWalkLoop read vol mnt visitor mnt.totalClusters dir.cluster Lfn.reset context

/-- Two entries that `storage_check_duplicate_visitor` takes for one another. -/
def sameName (a b : LongEntry) : Bool :=
  textEqual a.shortName b.shortName || textEqual a.name b.name

/-- `storage_check_duplicate_visitor`: only an entry that lies before the current one on
the disk counts. -/
def checkDuplicateVisitor (current e : LongEntry) (duplicate : Bool) : Except Err Bool :=
  if e.entryOffset < current.entryOffset && sameName e current then .ok true else .ok duplicate

/-- `storage_check_duplicate_names`. -/
def checkDuplicateNames (dir : Dir) (current : LongEntry) : Except Err Unit := do
  let duplicate ← checkWalkDirectory read vol mnt dir (checkDuplicateVisitor current) false
  if duplicate then .error .invalid else .ok ()

/-- The body of `storage_check_directory_visitor`, for an entry of `dir`, whose parent
starts at `parent`; `enter` is what it does with a subdirectory once its chain is in
order. -/
def checkDirectoryEntry (enter : Nat → Check → Except Err Check) (dir : Dir) (parent : Nat)
    (e : LongEntry) (check : Check) : Except Err Check := do
  checkNameValid e
  checkDuplicateNames read vol mnt dir e
  let check := check.recordStructure
  if e.isDirectory = false then
    let check ←
      if e.firstCluster ≠ 0 ∨ e.size ≠ 0 then
        checkChain read vol mnt e.firstCluster e.size false check
      else .ok check
    .ok { check with report.filesVerified := check.report.filesVerified + 1 }
  else if textEqual e.name [46] then
    if e.firstCluster ≠ dir.cluster then .error .invalid else .ok check
  else if textEqual e.name [46, 46] then
    if e.firstCluster ≠ parent ∧ ¬ (dir.fixedRoot ∧ e.firstCluster = 0) then .error .invalid
    else .ok check
  else if e.firstCluster < 2 then .error .invalid
  else
    let check ← checkChain read vol mnt e.firstCluster 0 true check
    enter e.firstCluster
      { check with report.directoriesVerified := check.report.directoriesVerified + 1 }

/-- `storage_check_directory_visitor`: a subdirectory is walked in the same way, with one
level less. -/
def checkDirectoryVisitor : Nat → Dir → Nat → LongEntry → Check → Except Err Check
  | 0, dir, parent =>
    checkDirectoryEntry read vol mnt (fun _ _ => .error .overflow) dir parent
  | levels + 1, dir, parent =>
    checkDirectoryEntry read vol mnt
      (fun first => checkWalkDirectory read vol mnt ⟨first, false⟩
        (checkDirectoryVisitor levels ⟨first, false⟩ dir.cluster)) dir parent

end

/-! ### The partition table -/

/-- What `block_find` says of the disk. -/
structure BlockDevice where
  sectorSize : Nat
  sectorCount : Nat

/-- `ERR_NOT_FOUND` from the registry is a disk error to the check. -/
def deviceError : Err → Err
  | .notFound => .disk
  | e => e

/-- `storage_check_read_disk`. -/
def checkReadDisk (read : Nat → Except Err Sector) (device : Except Err BlockDevice) (lba : Nat) :
    Except Err Sector := do
  let found ← device.mapError deviceError
  if found.sectorSize ≠ 512 ∨ found.sectorCount ≤ lba then .error .disk else read lba

/-- One entry of the partition table in `storage_check_validate_mbr`: an entry in use is
added to the list, with whether the volume's own entry has been seen. -/
def checkMbrEntry (vol : Volume) (device : BlockDevice) (sector : Sector)
    (scan : List (Nat × Nat) × Bool × Check) (index : Nat) :
    Except Err (List (Nat × Nat) × Bool × Check) :=
  let byte := fun k => Sector.byte sector (446 + 16 * index + k)
  let type := byte 4
  let start := read32 byte 8
  let count := read32 byte 12
  let (parts, selected, check) := scan
  if type = 0 ∧ start = 0 ∧ count = 0 ∧ byte 0 = 0 then .ok scan
  else if type = 0 ∨ (byte 0 ≠ 0 ∧ byte 0 ≠ 0x80) ∨ start = 0 ∨ count = 0 ∨
      device.sectorCount ≤ start ∨ 4294967296 ≤ start + count ∨
      device.sectorCount < start + count then .error .invalid
  else if index + 1 = vol.partitionIndex then
    if start ≠ vol.startLba ∨ count ≠ vol.sectorCount ∨ type ≠ vol.partitionType then
      .error .invalid
    else .ok (parts ++ [(start, count)], true, check.recordStructure)
  else .ok (parts ++ [(start, count)], selected, check.recordStructure)

/-- Two partitions of the list share a sector. -/
def partsOverlap : List (Nat × Nat) → Bool
  | [] => false
  | (start, count) :: parts =>
    parts.any (fun p => start < p.1 + p.2 && p.1 < start + count) || partsOverlap parts

/-- `storage_check_validate_mbr`. -/
def checkValidateMbr (read : Nat → Except Err Sector) (device : Except Err BlockDevice)
    (vol : Volume) (check : Check) : Except Err Check :=
  if vol.layout ≠ .mbr then .ok check
  else do
    let found ← device.mapError deviceError
    let sector ← checkReadDisk read device 0
    if Sector.byte sector 510 ≠ 0x55 ∨ Sector.byte sector 511 ≠ 0xAA then .error .invalid
    else
      let (parts, selected, check) ←
        [0, 1, 2, 3].foldlM (checkMbrEntry vol found sector) ([], false, check)
      if selected = false then .error .invalid
      else if partsOverlap parts then .error .invalid
      else .ok check

/-! ### The boot sector -/

/-- The three signatures of an FSInfo sector. -/
def fsinfoValid (sector : Sector) : Bool :=
  let byte := Sector.byte sector
  read32 byte 0 == 0x41615252 && read32 byte 484 == 0x61417272 && read32 byte 508 == 0xAA550000

/-- `storage_buffers_equal` over one sector. -/
def buffersEqual (left right : Sector) : Bool :=
  (List.range 512).all fun k => Sector.byte left k == Sector.byte right k

/-- The FAT32 part of `storage_check_validate_bpb`: the copy of the boot sector and the two
FSInfo sectors. The second component is the free-cluster hint. -/
def checkValidateFsinfo (read : Nat → Except Err Sector) (vol : Volume) (probe : Mount)
    (boot : Sector) (check : Check) : Except Err (Check × Nat) := do
  let fsinfoSector := read16 (Sector.byte boot) 48
  let backupSector := read16 (Sector.byte boot) 50
  if fsinfoSector = 0 ∨ backupSector = 0 ∨ probe.totalSectors ≤ fsinfoSector ∨
      probe.totalSectors ≤ backupSector ∨ probe.totalSectors ≤ backupSector + 1 then
    .error .invalid
  else
    let backupBoot ← readRelative read vol backupSector
    let fsinfo ← readRelative read vol fsinfoSector
    let backupFsinfo ← readRelative read vol (backupSector + 1)
    if buffersEqual boot backupBoot = false ∨ fsinfoValid fsinfo = false ∨
        fsinfoValid backupFsinfo = false then .error .invalid
    else
      let check := if buffersEqual fsinfo backupFsinfo then check else check.recordWarning
      .ok (check.recordStructure, read32 (Sector.byte fsinfo) 488)

/-- `storage_check_validate_bpb`. -/
def checkValidateBpb (read : Nat → Except Err Sector) (vol : Volume) (mnt : Mount)
    (check : Check) : Except Err (Check × Nat) := do
  let boot ← readRelative read vol 0
  let probe ← parseBpb vol boot
  if probe.fsType ≠ mnt.fsType ∨ probe.totalSectors ≠ mnt.totalSectors ∨
      probe.fatStart ≠ mnt.fatStart ∨ probe.sectorsPerFat ≠ mnt.sectorsPerFat ∨
      probe.dataStart ≠ mnt.dataStart ∨ probe.totalClusters ≠ mnt.totalClusters ∨
      probe.sectorsPerCluster ≠ mnt.sectorsPerCluster then .error .invalid
  else
    let dataSectors ← (mulU32 probe.totalClusters probe.sectorsPerCluster).mapError fun _ => .invalid
    let dataEnd ← (addU32 probe.dataStart dataSectors).mapError fun _ => .invalid
    if probe.totalSectors < dataEnd then .error .invalid
    else
      let check := check.recordStructure
      if probe.fsType ≠ .fat32 then .ok (check, 0xFFFFFFFF)
      else checkValidateFsinfo read vol probe boot check

/-! ### The allocation table -/

section

variable (read : Nat → Except Err Sector) (vol : Volume) (mnt : Mount)

/-- The inner loop of `storage_check_validate_fat`: the further copies of one sector of the
table, compared with the first. -/
def checkFatCopies (sector : Nat) (first : Sector) : Nat → Nat → Check → Except Err Check
  | 0, _, check => .ok check
  | rounds + 1, copy, check => do
    let offset ← mulU32 copy mnt.sectorsPerFat
    let lba ← addU32 mnt.fatStart offset
    let lba ← addU32 lba sector
    let other ← readRelative read vol lba
    if buffersEqual first other = false then .error .invalid
    else checkFatCopies sector first rounds (copy + 1) check.recordStructure

/-- The outer loop: sector by sector. A volume has at least one copy. -/
def checkFatSectors : Nat → Nat → Check → Except Err Check
  | 0, _, check => .ok check
  | rounds + 1, sector, check => do
    let check ←
      if mnt.fatCount = 0 then Except.ok check
      else
        let lba ← addU32 mnt.fatStart sector
        let first ← readRelative read vol lba
        checkFatCopies read vol mnt sector first (mnt.fatCount - 1) 1 check.recordStructure
    checkFatSectors rounds (sector + 1) check

/-- The loop over the entries: free, last, bad or a cluster of the volume. -/
def checkFatEntries : Nat → Nat → Check → Except Err Check
  | 0, _, check => .ok check
  | rounds + 1, cluster, check => do
    let value ← checkReadFatEntry read vol mnt cluster
    if value = 0 then
      let check := { check with report.freeClusters := check.report.freeClusters + 1 }
      checkFatEntries rounds (cluster + 1) check.recordStructure
    else if clusterIsEnd mnt value = false ∧ clusterIsBad mnt value = false ∧
        clusterValid mnt value = false then .error .invalid
    else checkFatEntries rounds (cluster + 1) check.recordStructure

/-- `storage_check_validate_fat`. -/
def checkValidateFat (check : Check) : Except Err Check := do
  if 4 < mnt.fatCount then .error .invalid
  else
    let check ← checkFatSectors read vol mnt mnt.sectorsPerFat 0 check
    let value ← checkReadFatEntry read vol mnt 0
    if clusterIsEnd mnt value = false then .error .invalid
    else
      let value ← checkReadFatEntry read vol mnt 1
      if clusterIsEnd mnt value = false then .error .invalid
      else if 4294967293 < mnt.totalClusters then .error .overflow
      else checkFatEntries read vol mnt mnt.totalClusters 2 check

/-- `storage_check_orphans`: an allocated cluster nobody owns is a warning. -/
def checkOrphans : Nat → Nat → Check → Except Err Check
  | 0, _, check => .ok check
  | rounds + 1, cluster, check => do
    let value ← checkReadFatEntry read vol mnt cluster
    if value ≠ 0 ∧ clusterIsBad mnt value = false ∧ check.owns cluster = false then
      checkOrphans rounds (cluster + 1) check.recordWarning
    else checkOrphans rounds (cluster + 1) check

/-- The root directory of the volume. -/
def rootDir : Dir := if mnt.fsType = .fat12 then ⟨0, true⟩ else ⟨mnt.rootCluster, false⟩

/-- The directory tree in `storage_check`, from the root on. -/
def checkTree (check : Check) : Except Err Check := do
  let check ←
    if mnt.fsType = .fat12 then Except.ok check
    else checkChain read vol mnt mnt.rootCluster 0 true check
  let check := { check with report.directoriesVerified := 1 }
  checkWalkDirectory read vol mnt (rootDir mnt)
    (checkDirectoryVisitor read vol mnt mnt.totalClusters (rootDir mnt) (rootDir mnt).cluster) check

end

/-- `storage_check`. `heap` is the block `kmalloc` returns for the bitmap, with whatever it
holds. -/
def storageCheck (read : Nat → Except Err Sector) (device : Except Err BlockDevice)
    (vol : Volume) (mount : Option Mount) (heap : Option (Nat → UInt8)) : Except Err Report :=
  if vol.mounted = false then .error .state
  else
    match mount with
    | none => .error .unavailable
    | some mnt =>
      if mnt.fsType = .none then .error .unavailable
      else if 4294967293 < mnt.totalClusters ∨ 4294967295 < mnt.totalClusters + 7 then
        .error .overflow
      else
        match heap with
        | none => .error .mem
        | some ownership => do
          let check ← checkValidateMbr read device vol ⟨ownership, {}⟩
          let (check, hint) ← checkValidateBpb read vol mnt check
          let check ← checkValidateFat read vol mnt check
          let check ← checkTree read vol mnt check
          let check ← checkOrphans read vol mnt mnt.totalClusters 2 check
          if hint ≠ 0xFFFFFFFF ∧ hint ≠ check.report.freeClusters then
            .ok check.recordWarning.report
          else .ok check.report

end ZephyrOS.Storage
