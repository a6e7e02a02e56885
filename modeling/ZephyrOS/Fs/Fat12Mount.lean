import ZephyrOS.Fs.Fat12Dir

/-!
# Mounting, and what reading a file depends on

A volume that passes the boot-sector check has its regions one after the other,
every cluster's entry inside the FAT and every cluster's sectors inside the volume:
that is `Geometry`, and it is all that is used of the check. `Mounted` says that the
two buffers agree with the disk.

Reading a file looks at its directory entry, at the FAT entries of its chain and at
the sectors of its chain. Two volumes that agree there read the same.
-/

namespace ZephyrOS.Fat12

open Lib Nat

/-! ### Geometry -/

structure Geometry (fs : Fs) : Prop where
  bytesPerSector : fs.bpb.bytesPerSector = 512
  spc_pos : 0 < fs.bpb.sectorsPerCluster
  spc_le : fs.bpb.sectorsPerCluster ≤ 128
  fatStart_pos : 0 < fs.fatStart
  numFats_pos : 0 < fs.bpb.numFats
  rootStart : fs.rootStart = fs.fatStart + fs.bpb.numFats * fs.bpb.sectorsPerFat
  root_fits : 512 * fs.rootStart + fs.bpb.rootEntries * 32 ≤ 512 * fs.dataStart
  data_lt : fs.dataStart < fs.bpb.sectors
  sectors_lt : fs.bpb.sectors < 4294967296
  clusters_lt : fs.totalClusters < 4085
  fat_fits : ((fs.totalClusters + 2) * 3 + 1) / 2 ≤ fs.bpb.sectorsPerFat * 512

/-- Two volumes laid out alike. -/
structure SameLayout (fs fs' : Fs) : Prop where
  bpb : fs'.bpb = fs.bpb
  fatStart : fs'.fatStart = fs.fatStart
  rootStart : fs'.rootStart = fs.rootStart
  dataStart : fs'.dataStart = fs.dataStart

variable {fs' fs : Fs} {device : Option Nat} {d : Image}

theorem SameLayout.totalClusters (h : SameLayout fs fs') :
    fs'.totalClusters = fs.totalClusters := by
  unfold Fs.totalClusters; rw [h.bpb, h.dataStart]

theorem SameLayout.clusterValid (h : SameLayout fs fs') (c : Nat) :
    fs'.clusterValid c = fs.clusterValid c := by
  unfold Fs.clusterValid; rw [h.totalClusters]

theorem SameLayout.clusterLba (h : SameLayout fs fs') (c : Nat) :
    fs'.clusterLba c = fs.clusterLba c := by
  unfold Fs.clusterLba; rw [h.clusterValid, h.bpb, h.dataStart]

theorem SameLayout.geometry (h : SameLayout fs fs') (g : Geometry fs) : Geometry fs' := by
  -- the buffers are all they can differ in
  cases fs
  cases fs'
  obtain ⟨h1, h2, h3, h4⟩ := h
  dsimp only at h1 h2 h3 h4
  subst h1 h2 h3 h4
  exact { g with }

theorem SameLayout.trans {a b c : Fs} (h : SameLayout a b) (h' : SameLayout b c) : SameLayout a c :=
  ⟨h'.bpb.trans h.bpb, h'.fatStart.trans h.fatStart, h'.rootStart.trans h.rootStart,
    h'.dataStart.trans h.dataStart⟩

/-- The first sector of a cluster. -/
def Fs.lbaOf (fs : Fs) (cluster : Nat) : Nat :=
  fs.dataStart + (cluster - 2) * fs.bpb.sectorsPerCluster

namespace Geometry

variable {fs : Fs} (g : Geometry fs) {c s : Nat}

include g

/-- A copy of the table ends before the root directory. -/
theorem copy_end_le {copy : Nat} (h : copy < fs.bpb.numFats) :
    fs.fatStart + copy * fs.bpb.sectorsPerFat + fs.bpb.sectorsPerFat ≤ fs.rootStart := by
  have := Nat.mul_le_mul_right fs.bpb.sectorsPerFat (Nat.succ_le_of_lt h)
  rw [Nat.succ_mul] at this
  rw [g.rootStart]
  omega

theorem valid_iff : fs.clusterValid c = true ↔ 2 ≤ c ∧ c < fs.totalClusters + 2 := by
  unfold Fs.clusterValid
  have := g.clusters_lt
  rw [decide_eq_true_eq]
  omega

section

variable (h : fs.clusterValid c = true)
include h

theorem entryInFat : fs.entryInFat c = true := by
  unfold Fs.entryInFat
  have h1 := g.fat_fits
  have h2 := g.valid_iff.mp h
  rw [decide_eq_true_eq, g.bytesPerSector]
  exact ⟨h, by omega⟩

theorem getCluster_eq : fs.getCluster c = get12 fs.fat c := by
  unfold Fs.getCluster
  rw [if_pos (g.entryInFat h)]

theorem setCluster_eq (v : Nat) :
    fs.setCluster c v = { fs with fat := set12 fs.fat c v } := by
  unfold Fs.setCluster
  rw [if_pos (g.entryInFat h)]

/-- The bits of a cluster's entry are in the FAT. -/
theorem entry_bytes {k : Nat} (hk : k ≤ (12 * c + 11) / 8) :
    k < fs.bpb.sectorsPerFat * 512 := by
  have h1 := g.fat_fits
  have h2 := g.valid_iff.mp h
  omega

/-- The sectors of a cluster are in the volume. -/
theorem lba_lt (hs : s < fs.bpb.sectorsPerCluster) : fs.lbaOf c + s < fs.bpb.sectors := by
  obtain ⟨h2, hlt⟩ := g.valid_iff.mp h
  have hdata := g.data_lt
  have htotal : fs.totalClusters * fs.bpb.sectorsPerCluster ≤ fs.bpb.sectors - fs.dataStart := by
    unfold Fs.totalClusters
    rw [if_neg (by have := g.spc_pos; omega), if_neg (by omega)]
    exact div_mul_le_self _ _
  have hstep : (c - 2 + 1) * fs.bpb.sectorsPerCluster
      ≤ fs.totalClusters * fs.bpb.sectorsPerCluster := mul_le_mul_right _ (by omega)
  rw [succ_mul] at hstep
  unfold Fs.lbaOf
  omega

theorem clusterLba_eq : fs.clusterLba c = .ok (fs.lbaOf c) := by
  have hlt := g.lba_lt h g.spc_pos
  have hsec := g.sectors_lt
  unfold Fs.lbaOf at hlt
  have hmul : (c - 2) * fs.bpb.sectorsPerCluster ≤ 4294967295 := by omega
  have hdiv : c - 2 ≤ 4294967295 / fs.bpb.sectorsPerCluster :=
    (le_div_iff_mul_le g.spc_pos).mpr hmul
  unfold Fs.clusterLba
  rw [if_neg (by rw [h]; decide), if_neg (not_lt.mpr hdiv)]
  rw [if_neg (by omega)]
  rfl

end

/-- Different clusters share no sector. -/
theorem lba_inj {c' s' : Nat} (h : fs.clusterValid c = true) (h' : fs.clusterValid c' = true)
    (hs : s < fs.bpb.sectorsPerCluster) (hs' : s' < fs.bpb.sectorsPerCluster)
    (he : fs.lbaOf c + s = fs.lbaOf c' + s') : c = c' ∧ s = s' := by
  obtain ⟨h2, _⟩ := g.valid_iff.mp h
  obtain ⟨h2', _⟩ := g.valid_iff.mp h'
  unfold Fs.lbaOf at he
  have hn : (c - 2) * fs.bpb.sectorsPerCluster + s = (c' - 2) * fs.bpb.sectorsPerCluster + s' := by
    omega
  have hdiv := congrArg (· / fs.bpb.sectorsPerCluster) hn
  have hmod := congrArg (· % fs.bpb.sectorsPerCluster) hn
  simp only [add_comm _ s, add_comm _ s', add_mul_div_right _ _ g.spc_pos,
    add_mul_mod_self_right, div_eq_of_lt hs, div_eq_of_lt hs', mod_eq_of_lt hs,
    mod_eq_of_lt hs'] at hdiv hmod
  omega

end Geometry

/-! ### Mounting -/

/-- The volume is the one the boot sector of `d` lays out. -/
structure Placed (device : Option Nat) (d : Image) (fs : Fs) : Prop where
  bpb : fs.bpb = parseBpb (d 0)
  valid : fat12ValidateBpb fs.bpb device = .ok ()
  layout : SameLayout (Fs.layout fs.bpb fs.fat fs.rootDir) fs
  geometry : Geometry fs

/-- And the buffers agree with the disk. -/
structure Mounted (device : Option Nat) (d : Image) (fs : Fs) : Prop extends
    Placed device d fs where
  fat : ∀ k, k < fs.bpb.sectorsPerFat * 512 → fs.fat k = byteAt d (512 * fs.fatStart + k)
  root : ∀ k, k < fs.bpb.rootEntries * 32 → fs.rootDir k = byteAt d (512 * fs.rootStart + k)

theorem sectors_parse_lt (boot : Sector) : (parseBpb boot).sectors < 4294967296 := by
  unfold Bpb.sectors parseBpb
  dsimp only
  split
  · exact read32_lt _ _
  · have := read16_lt (Sector.byte boot) 19
    omega

/-- Every sector of the device can be read. -/
def healthy (d : Image) : Nat → Option Sector := fun lba => some (d lba)

theorem loadSectors_healthy (d : Image) (start size : Nat) (mem : Nat → UInt8) :
    ∀ n, ∃ m, loadSectors (healthy d) start size mem n = some m
      ∧ ∀ k, k < size → k < n * 512 → m k = byteAt d (512 * start + k)
  | 0 => ⟨mem, rfl, fun k _ hk => by omega⟩
  | n + 1 => by
    obtain ⟨m, hm, hbytes⟩ := loadSectors_healthy d start size mem n
    refine ⟨copyIn m (n * 512) (min (size - n * 512) 512) (d (start + n)), ?_, fun k h1 h2 => ?_⟩
    · rw [loadSectors, hm]; rfl
    · unfold copyIn
      by_cases hk : n * 512 ≤ k
      · rw [if_pos (by omega)]
        unfold byteAt Sector.byte
        rw [show (512 * start + k) / 512 = start + n by omega]
        congr 2
        omega
      · rw [if_neg (by omega)]
        have hlt : k < n * 512 := not_le.mp hk
        exact hbytes k h1 hlt

/-- The facts the boot-sector check establishes. -/
theorem geometry_of_valid {b : Bpb} (hsec : b.sectors < 4294967296)
    (h : fat12ValidateBpb b device = .ok ()) (fat rootDir : Nat → UInt8) :
    Geometry (Fs.layout b fat rootDir) := by
  unfold fat12ValidateBpb at h
  split at h
  · cases h
  simp only [ite_error_eq_ok] at h
  obtain ⟨_, hfields, hdata, hmany, _, hfat, _⟩ := h
  simp only [not_or, ne_eq, Decidable.not_not] at hfields
  obtain ⟨hbps, hspc, hspc', _, hres, hfats, _, _, _, _⟩ := hfields
  have hdata' : (Fs.layout b fat rootDir).dataStart
      = b.reservedSectors + b.numFats * b.sectorsPerFat + (b.rootEntries * 32 + 511) / 512 := by
    unfold Fs.layout
    rw [hbps]
    rfl
  have hclusters : (Fs.layout b fat rootDir).totalClusters
      = (b.sectors - (b.reservedSectors + b.numFats * b.sectorsPerFat
          + (b.rootEntries * 32 + 511) / 512)) / b.sectorsPerCluster := by
    unfold Fs.totalClusters
    rw [hdata']
    exact (if_neg hspc).trans (if_neg hdata)
  exact
    { bytesPerSector := hbps
      spc_pos := Nat.pos_of_ne_zero hspc
      spc_le := not_lt.mp hspc'
      fatStart_pos := Nat.pos_of_ne_zero hres
      numFats_pos := Nat.pos_of_ne_zero hfats
      rootStart := rfl
      root_fits := by rw [hdata']; unfold Fs.layout; dsimp only; omega
      data_lt := by rw [hdata']; exact not_le.mp hdata
      sectors_lt := hsec
      clusters_lt := by rw [hclusters]; exact not_le.mp hmany
      fat_fits := by rw [hclusters]; exact not_lt.mp hfat }

/-- A volume that passes the check mounts, whatever the heap holds. -/
theorem init_of_valid (fatHeap rootHeap : Nat → UInt8)
    (h : fat12ValidateBpb (parseBpb (d 0)) device = .ok ()) :
    ∃ fs, fat12Init device (healthy d) fatHeap rootHeap = .ok fs ∧ Mounted device d fs := by
  have hsec := sectors_parse_lt (d 0)
  generalize hb : parseBpb (d 0) = b at h hsec
  obtain ⟨fat, hfat, hfatBytes⟩ := loadSectors_healthy d (Fs.layout b fatHeap rootHeap).fatStart
    (b.sectorsPerFat * b.bytesPerSector) fatHeap b.sectorsPerFat
  obtain ⟨root, hroot, hrootBytes⟩ := loadSectors_healthy d
    (Fs.layout b fatHeap rootHeap).rootStart (b.rootEntries * 32) rootHeap
    ((b.rootEntries * 32 + b.bytesPerSector - 1) / b.bytesPerSector)
  have hboot : healthy d 0 = some (d 0) := rfl
  have hinit : fat12Init device (healthy d) fatHeap rootHeap = .ok (Fs.layout b fat root) := by
    simp only [fat12Init, hboot, hb, h, hfat, hroot]
    rfl
  have g := geometry_of_valid hsec h fat root
  have hbps : b.bytesPerSector = 512 := g.bytesPerSector
  refine ⟨Fs.layout b fat root, hinit,
    ⟨⟨hb.symm, h, ⟨rfl, rfl, rfl, rfl⟩, g⟩, fun k hk => ?_, fun k hk => ?_⟩⟩
  · exact hfatBytes k (by rw [hbps]; exact hk) hk
  · have hk' : k < b.rootEntries * 32 := hk
    exact hrootBytes k hk' (by rw [hbps]; omega)

theorem mounted_of_init {fatHeap rootHeap : Nat → UInt8}
    (h : fat12Init device (healthy d) fatHeap rootHeap = .ok fs) : Mounted device d fs := by
  have hvalid : fat12ValidateBpb (parseBpb (d 0)) device = .ok () := by
    unfold fat12Init healthy at h
    dsimp only at h
    split at h
    · cases h
    · assumption
  obtain ⟨fs', h', hm⟩ := init_of_valid fatHeap rootHeap hvalid
  rw [h] at h'
  cases h'
  exact hm

end ZephyrOS.Fat12
