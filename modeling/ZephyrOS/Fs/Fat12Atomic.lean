import ZephyrOS.Fs.Fat12Read

/-!
# The atomic write under crashes

`Keeps` describes a disk in the middle of the call: it has the boot sector, the root
directory and, for the clusters of a protected set, the FAT entries and the sectors
of some reference volume. Remounting such a disk reads every file whose chain is
protected as the reference does.

The call goes through two references. Until the root sector is written it is the
volume as mounted, with every cluster but the newly allocated ones protected: they
were free, so no file has them. From then on it is the volume with the new entry,
with every cluster protected but those of the chain being released. A sector of the
FAT holds pieces of many entries, and an entry may lie across two of them; whichever
mix of old and new sectors is on the disk, the bits of a protected entry are the same
in both, and that is why no partial flush can hurt it.
-/

namespace ZephyrOS.Fat12

open Lib Function List Nat

structure Keeps (fs : Fs) (ref : Image) (S : Nat → Prop) (d : Image) : Prop where
  boot : d 0 = ref 0
  root : ∀ k, k < fs.bpb.rootEntries * 32 → byteAt d (512 * fs.rootStart + k) = fs.rootDir k
  fat : ∀ c, fs.clusterValid c = true → S c →
    SameEntry (fun k => byteAt d (512 * fs.fatStart + k)) fs.fat c
  data : ∀ c, fs.clusterValid c = true → S c → ∀ s, s < fs.bpb.sectorsPerCluster →
    d (fs.lbaOf c + s) = ref (fs.lbaOf c + s)

variable {fs' fs : Fs}

section Keeps

variable {device : Option Nat} {fs : Fs} {ref d : Image} {S : Nat → Prop} {sector : Sector}

/-- A mounted disk keeps everything. -/
theorem Mounted.keeps (h : Mounted device d fs) (S : Nat → Prop) : Keeps fs d S d := by
  refine ⟨rfl, fun k hk => (h.root k hk).symm, fun c hv _ => ?_, fun _ _ _ _ _ => rfl⟩
  refine SameEntry.mix (fun _ _ => rfl) (fun _ _ => rfl) fun k _ hk => .inl ?_
  exact (h.fat k (h.geometry.entry_bytes hv hk)).symm

theorem Keeps.mono {S' : Nat → Prop} (h : Keeps fs ref S d) (hs : ∀ c, S' c → S c) :
    Keeps fs ref S' d :=
  ⟨h.boot, h.root, fun c hv hc => h.fat c hv (hs c hc), fun c hv hc => h.data c hv (hs c hc)⟩

/-- A write to a sector of an unprotected cluster. -/
theorem Keeps.update_data (g : Geometry fs) (h : Keeps fs ref S d) {c s : Nat}
    (hv : fs.clusterValid c = true) (hc : ¬ S c) (hs : s < fs.bpb.sectorsPerCluster) :
    Keeps fs ref S (update d (fs.lbaOf c + s) sector) := by
  have hroot := g.root_fits
  have hfat := g.fatStart_pos
  have hend := g.copy_end_le g.numFats_pos
  have hlba : fs.dataStart ≤ fs.lbaOf c + s := by unfold Fs.lbaOf; omega
  refine ⟨?_, fun k hk => ?_, fun x hx hS => ?_, fun x hx hS j hj => ?_⟩
  · rw [update_of_ne (by omega)]; exact h.boot
  · rw [byteAt_update, if_neg (by omega)]; exact h.root k hk
  · refine SameEntry.mix (h.fat x hx hS) (h.fat x hx hS) fun k _ hk => .inl ?_
    have hk' := g.entry_bytes hx hk
    rw [byteAt_update, if_neg (by omega)]
  · rw [update_of_ne]
    · exact h.data x hx hS j hj
    · intro he
      have := (g.lba_inj hx hv hj hs he).1
      subst this
      exact hc hS

/-- A write of a FAT sector, to any copy, from a table with the protected entries. -/
theorem Keeps.update_fat (g : Geometry fs) (h : Keeps fs ref S d) {mem : Nat → UInt8}
    (hmem : ∀ c, fs.clusterValid c = true → S c → SameEntry mem fs.fat c) {copy sector : Nat}
    (hcopy : copy < fs.bpb.numFats) (hsector : sector < fs.bpb.sectorsPerFat) :
    Keeps fs ref S (update d (fs.fatStart + copy * fs.bpb.sectorsPerFat + sector)
      (sectorOf mem (sector * 512))) := by
  have hroot := g.root_fits
  have hfat := g.fatStart_pos
  have hend := g.copy_end_le hcopy
  refine ⟨?_, fun k hk => ?_, fun x hx hS => ?_, fun x hx hS j hj => ?_⟩
  · rw [update_of_ne (by omega)]; exact h.boot
  · rw [byteAt_update, if_neg (by omega)]; exact h.root k hk
  · refine SameEntry.mix (h.fat x hx hS) (hmem x hx hS) fun k _ hk => ?_
    have hk' := g.entry_bytes hx hk
    rw [byteAt_update]
    split
    · -- byte `k` of the first copy is in this sector
      right
      obtain rfl : copy = 0 :=
        lt_one_iff.mp (@Nat.lt_of_mul_lt_mul_right fs.bpb.sectorsPerFat _ _ (by omega))
      exact byte_sectorOf (by omega) (by omega)
    · exact .inl rfl
  · rw [update_of_ne]
    · exact h.data x hx hS j hj
    · unfold Fs.lbaOf
      omega

theorem mem_fatWrites {w : Nat × Sector} (h : w ∈ fatWrites fs) :
    ∃ copy sector, copy < fs.bpb.numFats ∧ sector < fs.bpb.sectorsPerFat
      ∧ w = (fs.fatStart + copy * fs.bpb.sectorsPerFat + sector, sectorOf fs.fat (sector * 512)) := by
  obtain ⟨copy, hcopy, h⟩ := mem_flatMap.mp h
  obtain ⟨sector, hsector, rfl⟩ := mem_map.mp h
  exact ⟨copy, sector, mem_range.mp hcopy, mem_range.mp hsector, rfl⟩

/-- A flush, complete or not, of a table with the protected entries. -/
theorem Keeps.flush {log : List Write} {d0 : Image} (g : Geometry fs) (hl : SameLayout fs fs')
    (hmem : ∀ c, fs.clusterValid c = true → S c → SameEntry fs'.fat fs.fat c)
    (h : Keeps fs ref S (replay d0 log)) {io : Nat → Nat → Ending}
    (hio : ∀ n lba, lba < fs.dataStart → (io n lba).Whole) :
    Extends (Keeps fs ref S) d0 log (fat12FlushFats io fs' log).2 := by
  refine writeAll_extends h fun w hw n d' hd' => ?_
  obtain ⟨copy, sector, hcopy, hsector, rfl⟩ := mem_fatWrites hw
  rw [hl.bpb] at hcopy hsector
  rw [hl.fatStart, hl.bpb]
  have hend := g.copy_end_le hcopy
  have hroot := g.root_fits
  exact (hio n _ (by omega)).keeps hd' (hd'.update_fat g hmem hcopy hsector)

/-- Remounting: the same volume, as far as it is protected. -/
theorem Keeps.remount (hp : Placed device ref fs) (h : Keeps fs ref S d)
    (fatHeap rootHeap : Nat → UInt8) :
    ∃ fs', fat12Init device (healthy d) fatHeap rootHeap = .ok fs' ∧ SameLayout fs fs'
      ∧ (∀ k, k < fs.bpb.rootEntries * 32 → fs'.rootDir k = fs.rootDir k)
      ∧ ∀ c, fs.clusterValid c = true → S c → Agree fs fs' ref d c := by
  have hbpb : parseBpb (d 0) = fs.bpb := by rw [h.boot]; exact hp.bpb.symm
  obtain ⟨fs', hinit, hm⟩ := @init_of_valid device d fatHeap rootHeap (by rw [hbpb]; exact hp.valid)
  have hb : fs'.bpb = fs.bpb := hm.bpb.trans hbpb
  have hl : SameLayout fs fs' := by
    have h1 := hp.layout
    have h2 := hm.layout
    rw [hb] at h2
    exact ⟨hb, h2.fatStart.trans h1.fatStart.symm, h2.rootStart.trans h1.rootStart.symm,
      h2.dataStart.trans h1.dataStart.symm⟩
  refine ⟨fs', hinit, hl, fun k hk => ?_, fun c hv hS => ⟨?_, fun s hs => h.data c hv hS s hs⟩⟩
  · rw [hm.root k (by rw [hb]; exact hk), hl.rootStart]
    exact h.root k hk
  · have hv' : fs'.clusterValid c = true := (hl.clusterValid c).trans hv
    rw [hm.geometry.getCluster_eq hv', hp.geometry.getCluster_eq hv]
    refine (SameEntry.mix (h.fat c hv hS) (h.fat c hv hS) fun k _ hk => .inl ?_).get12_eq
    rw [hm.fat k (by rw [hb]; exact hp.geometry.entry_bytes hv hk), hl.fatStart]

end Keeps

theorem findFrom_congr {root root' : Nat → UInt8} {name : List UInt8} : ∀ {n index : Nat},
    (∀ i k, i < index + n → k < 32 → entryByte root' i k = entryByte root i k) →
    findFrom root' name index n = findFrom root name index n
  | 0, _, _ => rfl
  | n + 1, index, h => by
    have hcmp : ∀ b m i, i + m ≤ 11 →
        strncmpEq (entryByte root' index) b i m = strncmpEq (entryByte root index) b i m := by
      intro b m
      induction m with
      | zero => intro i _; rfl
      | succ m ih =>
        intro i hi
        rw [strncmpEq, strncmpEq, h index i (by omega) (by omega), ih (i + 1) (by omega)]
    unfold findFrom entryAttributes
    rw [h index 0 (by omega) (by decide), h index 11 (by omega) (by decide), hcmp _ 11 0 (by decide),
      findFrom_congr fun i k hi hk => h i k (by omega) hk]

/-- A file whose chain is protected reads, after a crash, as in the reference volume. -/
theorem Keeps.read {device : Option Nat} {ref d : Image} {S : Nat → Prop}
    (hp : Placed device ref fs) (hl : SameLayout fs fs')
    (hroot : ∀ k, k < fs.bpb.rootEntries * 32 → fs'.rootDir k = fs.rootDir k)
    (hagree : ∀ c, fs.clusterValid c = true → S c → Agree fs fs' ref d c) (filename : List UInt8)
    (hchain : ∀ i, fat12FindEntry fs filename = some i →
    ∃ cs, FileChain fs i cs ∧ ∀ c ∈ cs, S c) (maxSize : Nat) :
    fat12ReadFile fs' (healthy d) filename maxSize
      = fat12ReadFile fs (healthy ref) filename maxSize := by
  have hbytes : ∀ i k, i < fs.bpb.rootEntries → k < 32 →
      entryByte fs'.rootDir i k = entryByte fs.rootDir i k :=
    fun i k hi hk => hroot _ (by omega)
  have hfind : fat12FindEntry fs' filename = fat12FindEntry fs filename := by
    unfold fat12FindEntry
    rw [hl.bpb]
    exact findFrom_congr fun i k hi hk => hbytes i k (by omega) hk
  cases hcase : fat12FindEntry fs filename with
  | none =>
    unfold fat12ReadFile
    rw [hfind, hcase]
  | some i =>
    -- the entry is the same, and so is every cluster of its chain
    obtain ⟨cs, hcs, hS⟩ := hchain i hcase
    have hi : i < fs.bpb.rootEntries := by
      have hf := findEntry_found fs filename
      rw [hcase] at hf
      have := hf.2.1
      omega
    have hb : ∀ k, k < 32 → fs'.rootDir (32 * i + k) = fs.rootDir (32 * i + k) :=
      fun k hk => hbytes i k hi hk
    refine readFile_congr hp.geometry hl hcase (hfind.trans hcase) ?_ ?_ hcs
      (fun c hc => hagree c (hcs.valid c hc) (hS c hc)) maxSize
    · unfold entryClusterLow read16
      rw [hb 26 (by decide), hb 27 (by decide)]
    · unfold entryFileSize read32 read16
      rw [hb 28 (by decide), hb 29 (by decide), add_assoc, hb 30 (by decide),
        hb 31 (by decide)]

/-! ### Allocating, linking and releasing clusters -/

section Chains

theorem SameLayout.refl : SameLayout fs fs := ⟨rfl, rfl, rfl, rfl⟩

variable {c v : Nat}

theorem setCluster_layout :
    SameLayout fs (fs.setCluster c v) ∧ (fs.setCluster c v).rootDir = fs.rootDir := by
  unfold Fs.setCluster
  split
  · exact ⟨⟨rfl, rfl, rfl, rfl⟩, rfl⟩
  · exact ⟨SameLayout.refl, rfl⟩

/-- Setting an entry spares every other one. -/
theorem setCluster_other {x : Nat} (hv : v < 4096) (h : x ≠ c) :
    SameEntry (fs.setCluster c v).fat fs.fat x := by
  unfold Fs.setCluster
  split
  · exact sameEntry_set12 hv h
  · exact fun _ _ => rfl

/-- The entries of the FAT are an array, although neighbours share a byte. -/
theorem Geometry.getCluster_set (g : Geometry fs) {i j : Nat} (hi : fs.clusterValid i = true)
    (hj : fs.clusterValid j = true) (hv : v < 4096) :
    (fs.setCluster i v).getCluster j = if i = j then v else fs.getCluster j := by
  obtain ⟨hl, -⟩ := @setCluster_layout fs i v
  rw [(hl.geometry g).getCluster_eq ((hl.clusterValid j).trans hj)]
  split
  · rename_i heq
    rw [← heq, g.setCluster_eq hi]
    exact get12_set12_self hv
  · rename_i hne
    rw [(setCluster_other hv (Ne.symm hne)).get12_eq, g.getCluster_eq hj]

/-- The selected clusters are free ones of the volume, in ascending order. -/
theorem selectFrom_spec (fs : Fs) : ∀ (n cluster wanted : Nat),
    (∀ c ∈ selectFrom fs cluster wanted n,
      cluster ≤ c ∧ c < cluster + n ∧ fs.getCluster c = clusterFree)
    ∧ (selectFrom fs cluster wanted n).Nodup
  | 0, _, _ => ⟨fun c hc => absurd hc (by simp [selectFrom]), by simp [selectFrom]⟩
  | n + 1, cluster, wanted => by
    rw [selectFrom]
    split
    · exact ⟨fun c hc => absurd hc not_mem_nil, nodup_nil⟩
    split
    · rename_i hfree
      obtain ⟨hmem, hnd⟩ := selectFrom_spec fs n (cluster + 1) (wanted - 1)
      refine ⟨fun c hc => ?_, nodup_cons.mpr ⟨fun hc => ?_, hnd⟩⟩
      · rcases mem_cons.mp hc with rfl | hc
        · exact ⟨le_refl _, by omega, hfree⟩
        · obtain ⟨h1, h2, h3⟩ := hmem c hc
          exact ⟨by omega, by omega, h3⟩
      · have := (hmem cluster hc).1
        omega
    · obtain ⟨hmem, hnd⟩ := selectFrom_spec fs n (cluster + 1) wanted
      refine ⟨fun c hc => ?_, hnd⟩
      obtain ⟨h1, h2, h3⟩ := hmem c hc
      exact ⟨by omega, by omega, h3⟩

/-- Linking changes the entries of the clusters linked, and makes a chain of them. -/
theorem linkClusters_spec : ∀ {cs : List Nat} {fs : Fs}, Geometry fs → cs.Nodup →
    (∀ c ∈ cs, fs.clusterValid c = true) →
    SameLayout fs (linkClusters fs cs) ∧ (linkClusters fs cs).rootDir = fs.rootDir
      ∧ (∀ x, x ∉ cs → SameEntry (linkClusters fs cs).fat fs.fat x)
      ∧ ChainOf (linkClusters fs cs) (cs.headD clusterEnd) cs
  | [], fs, _, _, _ => ⟨SameLayout.refl, rfl, fun _ _ _ _ => rfl, le_refl _⟩
  | c :: cs, fs, g, hnd, hvalid => by
    obtain ⟨hnotin, hnd'⟩ := nodup_cons.mp hnd
    obtain ⟨hl, hroot⟩ := setCluster_layout
    have g' := hl.geometry g
    have hv := hvalid c mem_cons_self
    have hnext : cs.headD clusterEnd < 4096 := by
      cases cs with
      | nil => decide
      | cons y cs =>
        have h1 := (g.valid_iff.mp (hvalid y (by simp))).2
        have h2 := g.clusters_lt
        show y < 4096
        omega
    obtain ⟨hl', hroot', hother, hchain⟩ := linkClusters_spec g' hnd' fun x hx =>
      (hl.clusterValid x).trans (hvalid x (mem_cons_of_mem _ hx))
    have hll := hl.trans hl'
    refine ⟨hll, hroot'.trans hroot, fun x hx => ?_, rfl, (hll.clusterValid c).trans hv, ?_⟩
    · exact (hother x fun h => hx (mem_cons_of_mem _ h)).trans
        (setCluster_other hnext fun h => hx (h ▸ mem_cons_self))
    · -- the entry just set survives the linking of the others
      have hget : (linkClusters fs (c :: cs)).getCluster c = cs.headD clusterEnd := by
        rw [linkClusters, (hll.geometry g).getCluster_eq ((hll.clusterValid c).trans hv)]
        refine (hother c hnotin).get12_eq.trans ?_
        rw [g.setCluster_eq hv]
        exact get12_set12_self hnext
      rw [hget]
      exact hchain

/-- No cluster of the list leads out of it. -/
def Closed (fs : Fs) (cs : List Nat) : Prop :=
  ∀ x ∈ cs, fs.getCluster x ∈ cs ∨ fs.getCluster x < 2 ∨ clusterEnd ≤ fs.getCluster x

theorem ChainOf.closed : ∀ {cs : List Nat} {c : Nat}, ChainOf fs c cs →
    (c ∈ cs ∨ clusterEnd ≤ c) ∧ Closed fs cs
  | [], _, h => ⟨.inr h, fun x hx => absurd hx not_mem_nil⟩
  | x :: cs, c, ⟨hc, _, hrest⟩ => by
    obtain ⟨hnext, hclosed⟩ := hrest.closed
    refine ⟨.inl (hc ▸ mem_cons_self), fun y hy => ?_⟩
    rcases mem_cons.mp hy with rfl | hy
    · rcases hnext with h | h
      · exact .inl (mem_cons_of_mem _ h)
      · exact .inr (.inr h)
    · rcases hclosed y hy with h | h
      · exact .inl (mem_cons_of_mem _ h)
      · exact .inr h

/-- Releasing from inside a closed list changes the entries of that list only. -/
theorem releaseFrom_spec {cs : List Nat} : ∀ (steps : Nat) {c : Nat} {fs : Fs}, Geometry fs →
    (∀ x ∈ cs, fs.clusterValid x = true) → Closed fs cs →
    (c ∈ cs ∨ c < 2 ∨ clusterEnd ≤ c) →
    SameLayout fs (releaseFrom steps c fs) ∧ (releaseFrom steps c fs).rootDir = fs.rootDir
      ∧ ∀ x, x ∉ cs → SameEntry (releaseFrom steps c fs).fat fs.fat x
  | 0, _, fs, _, _, _, _ => ⟨SameLayout.refl, rfl, fun _ _ _ _ => rfl⟩
  | steps + 1, c, fs, g, hvalid, hclosed, hc => by
    rw [releaseFrom]
    split
    · have hmem : c ∈ cs := by
        rcases hc with hc | hc | hc
        · exact hc
        · omega
        · omega
      obtain ⟨hl, hroot⟩ := setCluster_layout
      -- a cluster that was freed leads nowhere, so the list stays closed
      have hclosed' : Closed (fs.setCluster c clusterFree) cs := by
        intro x hx
        rw [g.getCluster_set (hvalid c hmem) (hvalid x hx) (by decide)]
        split
        · exact .inr (by decide)
        · exact hclosed x hx
      obtain ⟨hl', hroot', hother⟩ := releaseFrom_spec steps (hl.geometry g)
        (fun x hx => (hl.clusterValid x).trans (hvalid x hx)) hclosed' (hclosed c hmem)
      refine ⟨hl.trans hl', hroot'.trans hroot, fun x hx => ?_⟩
      exact (hother x hx).trans (setCluster_other (by decide) fun he => hx (he ▸ hmem))
    · exact ⟨SameLayout.refl, rfl, fun _ _ _ _ => rfl⟩

/-- The clusters of a chain are not free. -/
theorem ChainOf.used (g : Geometry fs) : ∀ {cs : List Nat} {c : Nat}, ChainOf fs c cs →
    (∀ x ∈ cs, fs.getCluster x ≠ clusterFree)
  | [], _, _, x, hx => absurd hx not_mem_nil
  | y :: cs, c, ⟨_, _, hrest⟩, x, hx => by
    rcases mem_cons.mp hx with rfl | hx
    · cases cs with
      | nil =>
        have hend : clusterEnd ≤ fs.getCluster x := hrest
        intro h0
        rw [h0] at hend
        exact absurd hend (by decide)
      | cons z cs =>
        obtain ⟨hz, hv, _⟩ := hrest
        intro h0
        have := (g.valid_iff.mp hv).1
        rw [← hz, h0] at this
        exact absurd this (by decide)
    · exact hrest.used g x hx

end Chains

end ZephyrOS.Fat12
