import ZephyrOS.Fs.StorageDir
import ZephyrOS.Fs.StorageMount

/-!
# The geometry of a volume in 32-bit arithmetic

A boot sector is untrusted: the sizes in it are whatever the medium holds. The functions here
are those of `fs/storage.c` once more, from `storage_parse_bpb` to the read of an entry of the
allocation table, with every sum, difference and product formed in 32 bits. On an accepted
boot sector they agree with the ones in unbounded numbers, so nothing wraps, and the places
they compute are where they should be: the copies of the table, the root area and the data
area follow one another, clusters have sectors of their own inside the data area, and the
entry of every cluster lies in its copy.
-/

namespace ZephyrOS.Storage

open Lib Nat

/-! ### Machine arithmetic -/

/-- `storage_add_u32`. -/
def addWord (left right : Nat) : Except Err Nat :=
  if sub32 4294967295 right < left then .error .overflow else .ok (u32 (left + right))

/-- `storage_mul_u32`. -/
def mulWord (left right : Nat) : Except Err Nat :=
  if left ≠ 0 ∧ 4294967295 / left < right then .error .overflow else .ok (u32 (left * right))

/-- `storage_configure_fat_type`. -/
def configureFatTypeWord (boot : Sector) (mnt : Mount) : Except Err Mount :=
  let byte := Sector.byte boot
  if mnt.totalClusters < 4085 then do
    let fatBytes ← mulWord mnt.sectorsPerFat 512
    let clusterEntries ← addWord mnt.totalClusters 2
    let numerator ← mulWord clusterEntries 3
    let numerator ← addWord numerator 1
    if mnt.rootEntries = 0 ∨ read16 byte 22 = 0 ∨ fatBytes < numerator / 2 then
      .error .invalid
    else .ok { mnt with fsType := .fat12 }
  else if mnt.totalClusters < 4086 then .error .unavailable
  else do
    let rootCluster := read32 byte 44
    let clusterEntries ← addWord mnt.totalClusters 2
    let fatEntries ← mulWord mnt.sectorsPerFat 128
    if mnt.rootEntries ≠ 0 ∨ read16 byte 22 ≠ 0 ∨ rootCluster < 2 ∨
        clusterEntries ≤ rootCluster ∨ fatEntries < clusterEntries then .error .invalid
    else .ok { mnt with fsType := .fat32, rootCluster := rootCluster }

/-- `storage_parse_bpb`. -/
def parseBpbWord (vol : Volume) (boot : Sector) : Except Err Mount :=
  let byte := Sector.byte boot
  if byte 510 ≠ 0x55 ∨ byte 511 ≠ 0xAA then .error .invalid
  else
    let sectorsPerCluster := (byte 13).toNat
    let reserved := read16 byte 14
    let fatCount := (byte 16).toNat
    let rootEntries := read16 byte 17
    let totalSectors := if read16 byte 19 = 0 then read32 byte 32 else read16 byte 19
    let sectorsPerFat := if read16 byte 22 = 0 then read32 byte 36 else read16 byte 22
    if read16 byte 11 ≠ 512 ∨ sectorsPerCluster = 0 ∨ 128 < sectorsPerCluster ∨
        sectorsPerCluster &&& sub32 sectorsPerCluster 1 ≠ 0 ∨ reserved = 0 ∨ fatCount = 0 ∨
        4 < fatCount ∨ sectorsPerFat = 0 ∨ totalSectors = 0 ∨ vol.sectorCount < totalSectors then
      .error .invalid
    else do
      let rootBytes ← mulWord rootEntries 32
      let rootBytes ← addWord rootBytes 511
      let rootSectors := rootBytes / 512
      let fatArea ← mulWord fatCount sectorsPerFat
      let rootStart ← addWord reserved fatArea
      let dataStart ← addWord rootStart rootSectors
      if totalSectors ≤ rootStart ∨ totalSectors < dataStart ∨ totalSectors ≤ dataStart then
        .error .invalid
      else
        let clusters := sub32 totalSectors dataStart / sectorsPerCluster
        if clusters = 0 then .error .invalid
        else
          configureFatTypeWord boot
            { fsType := .none, sectorsPerCluster := sectorsPerCluster, fatCount := fatCount
              rootEntries := rootEntries, totalSectors := totalSectors, fatStart := reserved
              sectorsPerFat := sectorsPerFat
              rootStart := u32 (reserved + u32 (fatCount * sectorsPerFat))
              rootSectors := rootSectors, dataStart := dataStart, totalClusters := clusters
              rootCluster := 0 }

section

variable (read : Nat → Except Err Sector) (vol : Volume) (mnt : Mount)

/-- `storage_read_relative` of one sector. -/
def readRelativeWord (lba : Nat) : Except Err Sector :=
  let last := sub32 (u32 (lba + 1)) 1
  if vol.sectorCount = 0 ∨ vol.sectorCount ≤ lba ∨ sub32 vol.sectorCount lba < 1 then .error .disk
  else if sub32 4294967295 lba < vol.startLba ∨ sub32 4294967295 last < vol.startLba then
    .error .overflow
  else read (u32 (vol.startLba + lba))

/-- The copy loop of `storage_read_fat_bytes`. -/
def fatBytesLoopWord (offset size : Nat) : Nat → Nat → (Nat → UInt8) → Except Err (Nat → UInt8)
  | 0, _, out => .ok out
  | rounds + 1, copied, out =>
    if copied < size then
      let current := u32 (offset + copied)
      let amount := min (sub32 512 (current % 512)) (sub32 size copied)
      if mnt.sectorsPerFat ≤ current / 512 then .error .disk
      else if sub32 4294967295 (current / 512) < mnt.fatStart then .error .overflow
      else do
        let sector ← readRelativeWord read vol (u32 (mnt.fatStart + current / 512))
        fatBytesLoopWord offset size rounds (u32 (copied + amount)) fun k =>
          if copied ≤ k ∧ k < copied + amount then
            Sector.byte sector (current % 512 + (k - copied))
          else out k
    else .ok out

/-- `storage_read_fat_bytes`. -/
def readFatBytesWord (offset size : Nat) : Except Err (Nat → UInt8) :=
  if size = 0 then .ok fun _ => 0
  else if sub32 4294967295 (sub32 size 1) < offset then .error .overflow
  else do
    let fatBytes ← (mulWord mnt.sectorsPerFat 512).mapError fun _ => .disk
    if fatBytes < offset ∨ sub32 fatBytes offset < size then .error .disk
    else fatBytesLoopWord read vol mnt offset size size 0 fun _ => 0

/-- `storage_next_cluster`. -/
def nextClusterWord (cluster : Nat) : Except Err Nat :=
  if cluster < 2 ∨ sub32 4294967295 2 < mnt.totalClusters ∨
      u32 (mnt.totalClusters + 2) ≤ cluster then .error .invalid
  else if mnt.fsType = .fat12 then do
    let b ← readFatBytesWord read vol mnt (u32 (cluster + cluster / 2)) 2
    .ok (if cluster % 2 = 1 then read16 b 0 >>> 4 else read16 b 0 &&& 0x0FFF)
  else if 4294967295 / 4 < cluster then .error .overflow
  else do
    let b ← readFatBytesWord read vol mnt (u32 (cluster * 4)) 4
    .ok (read32 b 0 &&& 0x0FFFFFFF)

/-- A sector of a cluster, as every walk over a chain computes it. -/
def clusterSectorWord (cluster index : Nat) : Nat :=
  u32 (u32 (mnt.dataStart + u32 (sub32 cluster 2 * mnt.sectorsPerCluster)) + index)

end

/-! ### No wrap -/

variable {a b : Nat} {boot : Sector} {mnt : Mount}

theorem addWord_eq (hb : b < 4294967296) : addWord a b = addU32 a b := by
  unfold addWord addU32
  rw [sub32_of_le (by decide) (by omega)]
  split
  · rfl
  · rw [u32_of_lt (by omega)]

theorem mul_lt_of_not (h : ¬ (a ≠ 0 ∧ 4294967295 / a < b)) : a * b < 4294967296 := by
  by_cases h0 : a = 0
  · rw [h0, zero_mul]
    decide
  have hle : b ≤ 4294967295 / a := by
    by_contra hc
    exact h ⟨h0, by omega⟩
  have := (le_div_iff_mul_le (Nat.pos_of_ne_zero h0)).mp hle
  rw [mul_comm] at this
  omega

theorem mulWord_eq : mulWord a b = mulU32 a b := by
  unfold mulWord mulU32
  split
  · rfl
  · rename_i h
    rw [u32_of_lt (mul_lt_of_not h)]

theorem mulU32_lt {c : Nat} (h : mulU32 a b = .ok c) : c < 4294967296 := by
  rw [mulU32_ok h]
  exact mul_lt_of_not (ite_error_eq_ok.mp h).1

theorem addU32_lt {c : Nat} (hb : b < 4294967296) (h : addU32 a b = .ok c) : c < 4294967296 := by
  rw [addU32_ok h]
  have := (ite_error_eq_ok.mp h).1
  omega

theorem configureFatTypeWord_eq (mnt : Mount) :
    configureFatTypeWord boot mnt = configureFatType boot mnt := by
  unfold configureFatTypeWord configureFatType
  simp only [mulWord_eq, addWord_eq (show 1 < 4294967296 by decide),
    addWord_eq (show 2 < 4294967296 by decide)]

/-- **Parsing does not wrap.** -/
theorem parseBpbWord_eq (vol : Volume) : parseBpbWord vol boot = parseBpb vol boot := by
  have hpow : (Sector.byte boot 13).toNat &&& sub32 (Sector.byte boot 13).toNat 1
      = (Sector.byte boot 13).toNat &&& ((Sector.byte boot 13).toNat - 1) := by
    have hlt := (Sector.byte boot 13).toNat_lt
    by_cases h0 : (Sector.byte boot 13).toNat = 0
    · rw [h0, zero_and, zero_and]
    · rw [sub32_of_le (by omega) (by omega)]
  have htotal : (if read16 (Sector.byte boot) 19 = 0 then read32 (Sector.byte boot) 32
      else read16 (Sector.byte boot) 19) < 4294967296 := by
    have h1 := read16_lt (Sector.byte boot) 19
    have h2 := read32_lt (Sector.byte boot) 32
    split <;> omega
  refine if_congr .rfl rfl (if_congr (by rw [hpow]) rfl ?_)
  rw [mulWord_eq, mulWord_eq]
  generalize (if read16 (Sector.byte boot) 22 = 0 then read32 (Sector.byte boot) 36
      else read16 (Sector.byte boot) 22) = perFat
  cases hrb : mulU32 (read16 (Sector.byte boot) 17) 32 with
  | error e => rw [error_bind, error_bind]
  | ok rb =>
    rw [ok_bind, ok_bind, addWord_eq (by decide)]
    cases hrb' : addU32 rb 511 with
    | error e => rw [error_bind, error_bind]
    | ok rb' =>
      have hrb'lt := addU32_lt (by decide) hrb'
      rw [ok_bind, ok_bind]
      cases hfa : mulU32 (Sector.byte boot 16).toNat perFat with
      | error e => rw [error_bind, error_bind]
      | ok fa =>
        have hfalt := mulU32_lt hfa
        rw [ok_bind, ok_bind, addWord_eq hfalt]
        cases hrs : addU32 (read16 (Sector.byte boot) 14) fa with
        | error e => rw [error_bind, error_bind]
        | ok rs =>
          have hrslt := addU32_lt hfalt hrs
          rw [ok_bind, ok_bind, addWord_eq (by omega)]
          cases hds : addU32 rs (rb' / 512) with
          | error e => rw [error_bind, error_bind]
          | ok ds =>
            refine ite_congr rfl (fun _ => rfl) fun hin => ?_
            -- the start of the root area is computed a second time, without the checks
            have hagain : u32 (read16 (Sector.byte boot) 14 +
                u32 ((Sector.byte boot 16).toNat * perFat)) = rs := by
              rw [← mulU32_ok hfa, u32_of_lt hfalt, ← addU32_ok hrs, u32_of_lt hrslt]
            rw [hagain, sub32_of_le htotal (by omega), configureFatTypeWord_eq]

/-! ### Where things are -/

/-- The table of a FAT12 volume has room for twelve bits for every cluster. -/
theorem configureFatType_fat12 {mnt' : Mount}
    (h : configureFatType boot mnt = .ok mnt') (h12 : mnt'.fsType = .fat12) :
    mnt'.totalClusters < 4085 ∧ (3 * (mnt'.totalClusters + 2) + 1) / 2 ≤ mnt'.sectorsPerFat * 512 := by
  unfold configureFatType at h
  split at h
  · rename_i hsmall
    obtain ⟨fb, hfb, h⟩ := bind_eq_ok.mp h
    obtain ⟨ce, hce, h⟩ := bind_eq_ok.mp h
    obtain ⟨n3, hn3, h⟩ := bind_eq_ok.mp h
    obtain ⟨n31, hn31, h⟩ := bind_eq_ok.mp h
    obtain ⟨hok, h⟩ := ite_error_eq_ok.mp h
    rw [addU32_ok hn31, mulU32_ok hn3, addU32_ok hce, mulU32_ok hfb] at hok
    cases h
    dsimp only
    omega
  · obtain ⟨_, h⟩ := ite_error_eq_ok.mp h
    obtain ⟨_, _, h⟩ := bind_eq_ok.mp h
    obtain ⟨_, _, h⟩ := bind_eq_ok.mp h
    obtain ⟨_, h⟩ := ite_error_eq_ok.mp h
    cases h
    cases h12

theorem parseBpb_fat12 {vol : Volume} (h : parseBpb vol boot = .ok mnt)
    (h12 : mnt.fsType = .fat12) :
    mnt.totalClusters < 4085 ∧ (3 * (mnt.totalClusters + 2) + 1) / 2 ≤ mnt.sectorsPerFat * 512 := by
  obtain ⟨mnt₀, hconf, -⟩ := parseBpb_configure h
  exact configureFatType_fat12 hconf h12

/-- Where the entry of a cluster starts in a copy of the table. -/
def fatEntryOffset (mnt : Mount) (cluster : Nat) : Nat :=
  if mnt.fsType = .fat12 then cluster + cluster / 2 else 4 * cluster

/-- The bytes that hold it. -/
def fatEntrySize (mnt : Mount) : Nat := if mnt.fsType = .fat12 then 2 else 4

/-- The areas of a volume after the reserved sectors. -/
inductive Area where
  | fat (copy : Nat)
  | root
  | data

/-- The first sector of an area, and the one after its last. -/
def Area.start (mnt : Mount) : Area → Nat
  | .fat copy => mnt.fatStart + copy * mnt.sectorsPerFat
  | .root => mnt.rootStart
  | .data => mnt.dataStart

def Area.stop (mnt : Mount) : Area → Nat
  | .fat copy => mnt.fatStart + (copy + 1) * mnt.sectorsPerFat
  | .root => mnt.rootStart + mnt.rootSectors
  | .data => mnt.dataStart + mnt.totalClusters * mnt.sectorsPerCluster

/-- An area the volume has. -/
def Area.Exists (mnt : Mount) : Area → Prop
  | .fat copy => copy < mnt.fatCount
  | _ => True

/-- **Everything in its place.** -/
structure Placed (vol : Volume) (mnt : Mount) : Prop where
  /-- A cluster's sectors are sectors of the data area, and so of the volume. -/
  inside : ∀ c, 2 ≤ c → c < mnt.totalClusters + 2 → ∀ i, i < mnt.sectorsPerCluster →
    mnt.dataStart ≤ clusterLba mnt c + i ∧ clusterLba mnt c + i < mnt.totalSectors ∧
      mnt.totalSectors ≤ vol.sectorCount
  /-- No two clusters share a sector. -/
  apart : ∀ c d, 2 ≤ c → 2 ≤ d → ∀ i j, i < mnt.sectorsPerCluster → j < mnt.sectorsPerCluster →
    clusterLba mnt c + i = clusterLba mnt d + j → c = d
  /-- The bytes of an entry lie in the sectors of its copy. -/
  entry : ∀ copy, copy < mnt.fatCount → ∀ c, 2 ≤ c → c < mnt.totalClusters + 2 →
    ∀ k, k < fatEntrySize mnt → mnt.fatStart + copy * mnt.sectorsPerFat +
      (fatEntryOffset mnt c + k) / 512 < (Area.fat copy).stop mnt
  /-- The areas do not overlap, and lie in the volume behind the boot sector. -/
  areas : ∀ a b : Area, a.Exists mnt → b.Exists mnt → a ≠ b →
    a.stop mnt ≤ b.start mnt ∨ b.stop mnt ≤ a.start mnt
  bounds : ∀ a : Area, a.Exists mnt → 0 < a.start mnt ∧ a.start mnt ≤ a.stop mnt ∧
    a.stop mnt ≤ mnt.totalSectors

section

variable {vol : Volume} {mnt : Mount} {boot : Sector} {a : Area} {read : Nat → Except Err Sector}
  {c : Nat}

theorem parseBpb_fat32 (h : parseBpb vol boot = .ok mnt) (hne : mnt.fsType ≠ .fat12) :
    Geometry32 mnt := by
  obtain ⟨hg, h32⟩ := parseBpb_ok h
  cases hk : mnt.fsType with
  | none => exact absurd hk hg.fsType_ne
  | fat12 => exact absurd hk hne
  | fat32 => exact h32 hk

/-- Cluster numbers are 32-bit numbers. -/
theorem parseBpb_clusters (h : parseBpb vol boot = .ok mnt) : mnt.totalClusters + 2 < 4294967296 := by
  by_cases h12 : mnt.fsType = .fat12
  · have := (parseBpb_fat12 h h12).1
    omega
  have hg := parseBpb_fat32 h h12
  have := hg.entries_le
  have := hg.entries_lt
  omega

/-- The last byte of an entry is a byte of the table. -/
theorem fatEntry_le (h : parseBpb vol boot = .ok mnt) {c : Nat} (hc : c < mnt.totalClusters + 2) :
    fatEntryOffset mnt c + fatEntrySize mnt ≤ mnt.sectorsPerFat * 512 := by
  unfold fatEntryOffset fatEntrySize
  split
  · -- an odd number of clusters fills the last three bytes by half
    rename_i h12
    have := (parseBpb_fat12 h h12).2
    omega
  · rename_i h12
    have := (parseBpb_fat32 h h12).entries_le
    omega

theorem parseBpb_areas (h : parseBpb vol boot = .ok mnt) {b : Area} (ha : a.Exists mnt)
    (hb : b.Exists mnt) (hne : a ≠ b) : a.stop mnt ≤ b.start mnt ∨ b.stop mnt ≤ a.start mnt := by
  have hg := (parseBpb_ok h).1
  have hdata := hg.dataStart_eq
  -- an earlier copy ends before a later one starts
  have hcopies : ∀ i j, i < j → mnt.fatStart + (i + 1) * mnt.sectorsPerFat ≤
      mnt.fatStart + j * mnt.sectorsPerFat := fun i j hij =>
    Nat.add_le_add_left (mul_le_mul_right _ hij) _
  cases a with
  | fat i =>
    have hi := hg.copy_end_le ha
    cases b with
    | fat j =>
      rcases lt_trichotomy i j with hij | rfl | hij
      · exact .inl (hcopies i j hij)
      · exact absurd rfl hne
      · exact .inr (hcopies j i hij)
    | root => exact .inl hi
    | data => exact .inl (hi.trans (by show _ ≤ mnt.dataStart; omega))
  | root =>
    cases b with
    | fat j => exact .inr (hg.copy_end_le hb)
    | root => exact absurd rfl hne
    | data => exact .inl (by exact le_of_eq hdata.symm)
  | data =>
    cases b with
    | fat j => exact .inr ((hg.copy_end_le hb).trans (by show _ ≤ mnt.dataStart; omega))
    | root => exact .inr (by exact le_of_eq hdata.symm)
    | data => exact absurd rfl hne

theorem parseBpb_bounds (h : parseBpb vol boot = .ok mnt) (ha : a.Exists mnt) :
    0 < a.start mnt ∧ a.start mnt ≤ a.stop mnt ∧ a.stop mnt ≤ mnt.totalSectors := by
  have hg := (parseBpb_ok h).1
  have hpos := (parseBpb_sizes h).1
  have hroot := hg.rootStart_eq
  have hdata := hg.dataStart_eq
  have hend := hg.dataEnd_le
  cases a with
  | fat i =>
    have hi := hg.copy_end_le ha
    refine ⟨by show 0 < mnt.fatStart + _; omega, ?_, by show mnt.fatStart + _ ≤ _; omega⟩
    exact Nat.add_le_add_left (mul_le_mul_right _ (le_succ i)) _
  | root =>
    show 0 < mnt.rootStart ∧ mnt.rootStart ≤ mnt.rootStart + mnt.rootSectors ∧
      mnt.rootStart + mnt.rootSectors ≤ mnt.totalSectors
    omega
  | data =>
    show 0 < mnt.dataStart ∧ mnt.dataStart ≤ mnt.dataStart + _ ∧ mnt.dataStart + _ ≤ mnt.totalSectors
    omega

theorem parseBpb_placed (h : parseBpb vol boot = .ok mnt) : Placed vol mnt := by
  have hg := (parseBpb_ok h).1
  refine ⟨fun c h2 hc i hi => ?_, fun c d hc hd i j hi hj heq => ?_, fun copy hcopy c _ hc k hk => ?_,
    fun a b ha hb hne => parseBpb_areas h ha hb hne, fun a ha => parseBpb_bounds h ha⟩
  · have := cluster_end_le h2 hc
    have := hg.dataEnd_le
    unfold clusterLba
    exact ⟨by omega, by omega, hg.totalSectors_le⟩
  · -- the quotient by the size of a cluster says which cluster it is
    unfold clusterLba at heq
    have hsum : (c - 2) * mnt.sectorsPerCluster + i = (d - 2) * mnt.sectorsPerCluster + j := by omega
    have hdiv := congrArg (· / mnt.sectorsPerCluster) hsum
    simp only [mul_comm _ mnt.sectorsPerCluster, mul_add_div hg.sectorsPerCluster_pos,
      div_eq_of_lt hi, div_eq_of_lt hj] at hdiv
    omega
  · have hle := fatEntry_le h hc
    show _ < mnt.fatStart + (copy + 1) * mnt.sectorsPerFat
    rw [add_mul]
    omega

/-! ### Reading an entry -/

theorem readRelativeWord_eq (hcount : vol.sectorCount < 4294967296) {lba : Nat} (hlba : lba < 4294967295) :
    readRelativeWord read vol lba = readRelative read vol lba := by
  unfold readRelativeWord readRelative relativeRange
  dsimp only
  by_cases hin : vol.sectorCount = 0 ∨ vol.sectorCount ≤ lba ∨ vol.sectorCount - lba < 1
  · rw [if_pos hin, if_pos (by omega)]
    rfl
  have hlast : sub32 (u32 (lba + 1)) 1 = lba := by
    rw [u32_of_lt (by omega), sub32_of_le (by omega) (by omega), Nat.add_sub_cancel]
  have hroom : sub32 4294967295 lba = 4294967295 - lba := sub32_of_le (by decide) (by omega)
  rw [hlast, hroom, sub32_of_le hcount (by omega), if_neg hin, Nat.add_sub_cancel]
  split
  · rfl
  · rw [u32_of_lt (by omega)]
    rfl

section

variable (hg : Geometry vol mnt) (htotal : mnt.totalSectors < 4294967296)
  (hcount : vol.sectorCount < 4294967296) {offset size : Nat}
include hg htotal hcount

theorem fatBytesLoopWord_eq (hin : offset + size ≤ mnt.sectorsPerFat * 512)
    (hlt : mnt.sectorsPerFat * 512 < 4294967296) (rounds copied : Nat) (out : Nat → UInt8) :
    fatBytesLoopWord read vol mnt offset size rounds copied out
      = fatBytesLoop read vol mnt .disk offset size rounds copied out := by
  induction rounds generalizing copied out with
  | zero => rfl
  | succ rounds ih =>
    unfold fatBytesLoopWord fatBytesLoop
    dsimp only
    split
    · have hfat := hg.copy_end_le hg.fatCount_pos
      have hdata := hg.dataStart_eq
      have hend := hg.dataEnd_le
      rw [u32_of_lt (by omega),
        sub32_of_le (by decide) (by omega),
        sub32_of_le (show size < 4294967296 by omega) (by omega), if_neg (by omega),
        if_neg (by omega),
        sub32_of_le (by decide) (by omega), if_neg (by omega),
        u32_of_lt (by omega),
        u32_of_lt (by omega),
        readRelativeWord_eq hcount (by omega)]
      exact congrArg _ (funext fun sector => ih _ _)
    · rfl

theorem readFatBytesWord_eq
    (hpos : 0 < size) (hsize : size < 4294967296) (hoff : offset + size ≤ 4294967296) :
    readFatBytesWord read vol mnt offset size = readFatBytes read vol mnt offset size := by
  unfold readFatBytesWord readFatBytes fatBytes
  have hroom : sub32 4294967295 (sub32 size 1) = 4294967295 - (size - 1) := by
    rw [sub32_of_le hsize hpos, sub32_of_le (by decide) (by omega)]
  rw [if_neg (by omega), if_neg (by omega), mulWord_eq]
  cases hfb : mulU32 mnt.sectorsPerFat 512 with
  | error e => rfl
  | ok fb =>
    have hfblt := mulU32_lt hfb
    have hfbeq := mulU32_ok hfb
    simp only [Except.mapError, ok_bind]
    by_cases hbig : fb < offset ∨ fb - offset < size
    · rw [if_pos hbig, if_pos]
      rcases hbig with hbig | hbig
      · exact .inl hbig
      · by_cases hlo : fb < offset
        · exact .inl hlo
        · exact .inr (by rw [sub32_of_le hfblt (by omega)]; exact hbig)
    · rw [sub32_of_le hfblt (by omega), if_neg hbig, if_neg hbig]
      exact fatBytesLoopWord_eq hg htotal hcount (by omega) (by omega) _ _ _

end

/-- **Reading an entry does not wrap.** -/
theorem nextClusterWord_eq (h : parseBpb vol boot = .ok mnt)
    (hcount : vol.sectorCount < 4294967296) :
    nextClusterWord read vol mnt c = nextCluster read vol mnt c := by
  have hg := (parseBpb_ok h).1
  have htotal := (parseBpb_sizes h).2.1
  have hclusters := parseBpb_clusters h
  unfold nextClusterWord nextCluster fatValue
  rw [u32_of_lt hclusters]
  refine ite_congr rfl (fun _ => rfl) fun hin => ?_
  split
  · rename_i hkind
    have := (parseBpb_fat12 h hkind).1
    rw [u32_of_lt (by omega), readFatBytesWord_eq hg htotal hcount (by decide) (by decide) (by omega)]
  · refine ite_congr rfl (fun _ => rfl) fun hbig => ?_
    rw [u32_of_lt (by omega), mul_comm c 4,
      readFatBytesWord_eq hg htotal hcount (by decide) (by decide) (by omega)]

theorem clusterSectorWord_eq (h : parseBpb vol boot = .ok mnt) {i : Nat} (h2 : 2 ≤ c)
    (hc : c < mnt.totalClusters + 2) (hi : i < mnt.sectorsPerCluster) :
    clusterSectorWord mnt c i = clusterLba mnt c + i := by
  have hg := (parseBpb_ok h).1
  have htotal := (parseBpb_sizes h).2.1
  have hclusters := parseBpb_clusters h
  have hend := hg.dataEnd_le
  have hlt := cluster_end_le h2 hc
  unfold clusterSectorWord clusterLba
  rw [sub32_of_le (by omega) h2,
    u32_of_lt (show (c - 2) * mnt.sectorsPerCluster < 4294967296 by omega),
    u32_of_lt (show mnt.dataStart + (c - 2) * mnt.sectorsPerCluster < 4294967296 by omega),
    u32_of_lt (by omega)]

/-- **The geometry of an accepted boot sector.** Whatever the 512 bytes and the size of the
volume, if `storage_parse_bpb` accepts them then its result is the one of unbounded
arithmetic, everything is in its place, and neither the address of a sector of a cluster nor
the read of a cluster's entry wraps. -/
theorem parseBpb_geometry (hcount : vol.sectorCount < 4294967296)
    (h : parseBpbWord vol boot = .ok mnt) :
    parseBpb vol boot = .ok mnt ∧ Placed vol mnt ∧
      (∀ c i, 2 ≤ c → c < mnt.totalClusters + 2 → i < mnt.sectorsPerCluster →
        clusterSectorWord mnt c i = clusterLba mnt c + i) ∧
      ∀ read c, nextClusterWord read vol mnt c = nextCluster read vol mnt c := by
  rw [parseBpbWord_eq] at h
  exact ⟨h, parseBpb_placed h, fun c i h2 hc hi => clusterSectorWord_eq h h2 hc hi,
    fun read c => nextClusterWord_eq h hcount⟩

end

/-- The boot sector of a 1.44 MB disk. -/
def floppyBoot : Sector := fun j =>
  match j.val with
  | 12 => 2 | 13 => 1 | 14 => 1 | 16 => 2 | 17 => 0xE0 | 19 => 0x40 | 20 => 0x0B | 22 => 9
  | 510 => 0x55 | 511 => 0xAA | _ => 0

theorem parseBpb_geometry_floppy :
    parseBpbWord ⟨.raw, 0, 0, true, false, 0, 2880⟩ floppyBoot
      = .ok ⟨.fat12, 1, 2, 224, 2880, 1, 9, 19, 14, 33, 2847, 0⟩ ∧
    Placed ⟨.raw, 0, 0, true, false, 0, 2880⟩ ⟨.fat12, 1, 2, 224, 2880, 1, 9, 19, 14, 33, 2847, 0⟩ := by
  have h : parseBpbWord ⟨.raw, 0, 0, true, false, 0, 2880⟩ floppyBoot
      = .ok ⟨.fat12, 1, 2, 224, 2880, 1, 9, 19, 14, 33, 2847, 0⟩ := by decide +kernel
  exact ⟨h, (parseBpb_geometry (by decide) h).2.1⟩

end ZephyrOS.Storage
