import Mathlib.Data.List.Nodup
import Mathlib.Data.List.Pairwise
import ZephyrOS.Fs.StorageCheckProof
import ZephyrOS.Fs.StorageMount

/-!
# Soundness of the consistency check

What `storage_check` answering `OK` says about the volume: the copies of the
allocation table agree, every directory that can be reached is readable, every chain
is one of distinct clusters of the volume, a file's has the length its size calls
for, and two entries never share a cluster.

Names are compared along the disk: an entry is held against those at a smaller
`entry_offset`, a 32-bit number of bytes from the start of the disk. Two slots a
multiple of 4 GiB apart have the same offset, so neither is held against the other.
The names of a directory are distinct up to exactly these pairs, and without
exception on a volume of at most 4 GiB.
-/

namespace ZephyrOS.Storage

open Lib List Nat

section

variable (read : Nat → Except Err Sector) (vol : Volume) (mnt : Mount)

/-! ### A consistent volume -/

/-- Every copy of the allocation table holds what the first does. -/
def FatCopiesEqual : Prop :=
  ∀ sector < mnt.sectorsPerFat, ∀ copy < mnt.fatCount, ∃ s,
    readRelative read vol (mnt.fatStart + sector) = .ok s ∧
    readRelative read vol (mnt.fatStart + copy * mnt.sectorsPerFat + sector) = .ok s

/-- The directories one gets to from the root. -/
inductive Reachable : Dir → Prop where
  | root : Reachable (rootDir mnt)
  | child {dir : Dir} {es : List LongEntry} {e : LongEntry} : Reachable dir →
      dirEntries read vol mnt dir = .ok es → e ∈ es → e.isDirectory = true → e.isDot = false →
      Reachable ⟨e.firstCluster, false⟩

/-- What owns a chain: the root directory of a FAT32 volume, or an entry of a directory. -/
inductive Owner where
  | root
  | entry (dir : Dir) (index : Nat)

inductive Owns : Owner → List Nat → Prop where
  | root {cs : List Nat} : mnt.fsType = .fat32 →
      Chain mnt (checkNextCluster read vol mnt) mnt.rootCluster cs → Owns .root cs
  | entry {dir : Dir} {es : List LongEntry} {i : Nat} {e : LongEntry} {cs : List Nat} :
      Reachable read vol mnt dir → dirEntries read vol mnt dir = .ok es → es[i]? = some e →
      e.isDot = false → Chain mnt (checkNextCluster read vol mnt) e.firstCluster cs →
      Owns (.entry dir i) cs

/-- The structure of an accepted volume. -/
structure Sound : Prop where
  copies : FatCopiesEqual read vol mnt
  readable : ∀ dir, Reachable read vol mnt dir → ∃ es, dirEntries read vol mnt dir = .ok es
  directories : ∀ dir, Reachable read vol mnt dir → dir.fixedRoot = true ∨
    ∃ cs, Chain mnt (checkNextCluster read vol mnt) dir.cluster cs ∧ cs.Nodup
  files : ∀ dir es e, Reachable read vol mnt dir → dirEntries read vol mnt dir = .ok es → e ∈ es →
    e.isDirectory = false → ∃ cs, cs.Nodup ∧
      cs.length = (e.size + (mnt.sectorsPerCluster * 512 - 1)) / (mnt.sectorsPerCluster * 512) ∧
      (cs = [] ∧ e.firstCluster = 0 ∨ Chain mnt (checkNextCluster read vol mnt) e.firstCluster cs)
  disjoint : ∀ o o' cs cs', Owns read vol mnt o cs → Owns read vol mnt o' cs' → o ≠ o' →
    ∀ c ∈ cs, c ∉ cs'

/-- No two entries of a directory have the same name. -/
def NamesDistinct (es : List LongEntry) : Prop :=
  ∀ (i j : Nat) (e e' : LongEntry), es[i]? = some e → es[j]? = some e' → i ≠ j → sameName e e' = false

/-- No two entries of a directory at the same 32-bit offset have the same name. -/
def NamesDistinctAtOffset (es : List LongEntry) : Prop :=
  ∀ (i j : Nat) (e e' : LongEntry), es[i]? = some e → es[j]? = some e' → i ≠ j → e.entryOffset = e'.entryOffset →
    sameName e e' = false

end

section

variable {read : Nat → Except Err Sector} {vol : Volume} {mnt : Mount} {check check' : Check}
  {rounds sector : Nat} {dir : Dir} {es : List LongEntry} {cs : List Nat} {cluster : Nat}

/-! ### The copies of the table -/

theorem eq_of_buffersEqual {a b : Sector} (h : buffersEqual a b = true) : a = b := by
  funext k
  have := all_eq_true.mp h k (mem_range.mpr k.2)
  unfold Sector.byte at this
  simpa [mod_eq_of_lt k.2] using this

theorem checkFatCopies_ok {copy : Nat} {first : Sector}
    (h : checkFatCopies read vol mnt sector first rounds copy check = .ok check') : ∀ k < rounds,
      readRelative read vol (mnt.fatStart + (copy + k) * mnt.sectorsPerFat + sector) = .ok first := by
  induction rounds generalizing copy check with
  | zero => exact fun k hk => absurd hk (not_lt_zero k)
  | succ rounds ih =>
    rw [checkFatCopies, bind_eq_ok] at h
    obtain ⟨offset, hoff, h⟩ := h
    obtain ⟨base, hbase, h⟩ := bind_eq_ok.mp h
    obtain ⟨lba, hlba, h⟩ := bind_eq_ok.mp h
    obtain ⟨other, hother, h⟩ := bind_eq_ok.mp h
    obtain ⟨heq, h⟩ := ite_error_eq_ok.mp h
    intro k hk
    cases k with
    | zero =>
      have hsame : first = other := eq_of_buffersEqual (by simpa using heq)
      rw [hsame, ← hother, addU32_ok hlba, addU32_ok hbase, mulU32_ok hoff, add_zero]
    | succ k =>
      rw [show copy + (k + 1) = copy + 1 + k by omega]
      exact ih h k (by omega)

theorem checkFatSectors_ok (h : checkFatSectors read vol mnt rounds sector check = .ok check') :
    ∀ k < rounds, ∀ copy < mnt.fatCount, ∃ s,
      readRelative read vol (mnt.fatStart + (sector + k)) = .ok s ∧
      readRelative read vol (mnt.fatStart + copy * mnt.sectorsPerFat + (sector + k)) = .ok s := by
  induction rounds generalizing sector check with
  | zero => exact fun k hk => absurd hk (not_lt_zero k)
  | succ rounds ih =>
    rw [checkFatSectors] at h
    by_cases h0 : mnt.fatCount = 0
    · exact fun k _ copy hc => absurd hc (by omega)
    rw [if_neg h0] at h
    obtain ⟨lba, hlba, h⟩ := bind_eq_ok.mp h
    obtain ⟨first, hfirst, h⟩ := bind_eq_ok.mp h
    obtain ⟨mid, hmid, h⟩ := bind_eq_ok.mp h
    rw [addU32_ok hlba] at hfirst
    intro k hk copy hc
    cases k with
    | zero =>
      refine ⟨first, hfirst, ?_⟩
      rcases Nat.eq_zero_or_pos copy with rfl | hpos
      · rw [zero_mul]; exact hfirst
      · have := checkFatCopies_ok hmid (copy - 1) (by omega)
        rwa [show 1 + (copy - 1) = copy by omega] at this
    | succ k =>
      obtain ⟨s, hs⟩ := ih h k (by omega) copy hc
      rw [show sector + (k + 1) = sector + 1 + k by omega]
      exact ⟨s, hs⟩

theorem checkValidateFat_ok (h : checkValidateFat read vol mnt check = .ok check') :
    FatCopiesEqual read vol mnt := by
  obtain ⟨_, h⟩ := ite_error_eq_ok.mp h
  obtain ⟨mid, hmid, h⟩ := bind_eq_ok.mp h
  intro sector hs copy hc
  have := checkFatSectors_ok hmid sector hs copy hc
  rwa [zero_add] at this

/-! ### The tree from the root -/

/-- The record of an accepted run over the tree. -/
structure Record (read : Nat → Except Err Sector) (vol : Volume) (mnt : Mount)
    (rootChain : List Nat) (items : List Item) (dirs : List Dir) : Prop where
  nodup : (rootChain ++ itemClusters items).Nodup
  walked : ∀ d ∈ dirs, DirOk read vol mnt items dirs d
  root : rootDir mnt ∈ dirs
  rootChain : mnt.fsType ≠ .fat12 →
    Chain mnt (checkNextCluster read vol mnt) mnt.rootCluster rootChain

theorem checkTree_ok (h : checkTree read vol mnt check = .ok check') :
    ∃ rootChain items dirs, Record read vol mnt rootChain items dirs := by
  obtain ⟨owned, ⟨chain, below, hchain, htree, rfl⟩, hmarks⟩ := checkTree_decides.sound h
  obtain ⟨items, dirs, hl, hroot⟩ := htree.listed
  refine ⟨chain, items, dirs, hl.clusters ▸ hmarks.nodup, hl.walked, hroot, fun hne => ?_⟩
  rwa [if_neg hne] at hchain

namespace Record

variable {rootChain cs : List Nat} {items : List Item} {dirs : List Dir}

section

variable (h : Record read vol mnt rootChain items dirs)
include h

theorem mem_dirs (hr : Reachable read vol mnt dir) : dir ∈ dirs := by
  induction hr with
  | root => exact h.root
  | child _ hes he hdir hdot ih =>
    obtain ⟨es, hes', _, hok⟩ := h.walked _ ih
    rw [hes] at hes'
    cases hes'
    obtain ⟨i, hi⟩ := mem_iff_getElem?.mp he
    obtain ⟨_, _, _, hmem⟩ := (hok i _ hi).directory hdir hdot
    exact hmem

theorem item_nodup {item : Item}
    (hi : item ∈ items) : item.chain.Nodup :=
  (nodup_flatMap.mp (nodup_append.mp h.nodup).2.1).1 item hi

theorem item_disjoint {a b : Item}
    (ha : a ∈ items) (hb : b ∈ items) (hab : a ≠ b) : ∀ c ∈ a.chain, c ∉ b.chain := by
  have hpair := (nodup_flatMap.mp (nodup_append.mp h.nodup).2.1).2
  have hsymm : Std.Symm (Function.onFun Disjoint Item.chain) :=
    ⟨fun _ _ hd c hc hc' => hd hc' hc⟩
  intro c hc hc'
  exact hpair.forall ha hb hab hc hc'

/-- The chain of an entry is the one on record. -/
theorem owns_entry {i : Nat} (ho : Owns read vol mnt (.entry dir i) cs) : ⟨dir, i, cs⟩ ∈ items := by
  cases ho with
  | entry hr hes hie hdot hc =>
    rename_i es e
    obtain ⟨es', hes', _, hok⟩ := h.walked _ (h.mem_dirs hr)
    rw [hes] at hes'
    cases hes'
    have hentry := hok i e hie
    cases hdir : e.isDirectory with
    | false =>
      rcases hentry.file hdir with ⟨h0, _⟩ | ⟨cs', hmem, hc', _⟩
      · have := (clusterValid_iff.mp (hc.valid _ hc.head_mem)).1
        omega
      · rw [hc.unique hc']; exact hmem
    | true =>
      obtain ⟨cs', hmem, hc', _⟩ := hentry.directory hdir hdot
      rw [hc.unique hc']; exact hmem

theorem owns_root (ho : Owns read vol mnt .root cs) :
    cs = rootChain := by
  cases ho with
  | root h32 hc => exact hc.unique (h.rootChain (by rw [h32]; decide))

theorem disjoint {o o' : Owner} {cs' : List Nat}
    (ho : Owns read vol mnt o cs) (ho' : Owns read vol mnt o' cs') (hne : o ≠ o') :
    ∀ c ∈ cs, c ∉ cs' := by
  have hcross := (nodup_append.mp h.nodup).2.2
  have hin : ∀ {item : Item} {c : Nat}, item ∈ items → c ∈ item.chain → c ∈ itemClusters items :=
    fun hi hc => mem_flatMap.mpr ⟨_, hi, hc⟩
  intro c hc hc'
  cases o with
  | root =>
    rw [h.owns_root ho] at hc
    cases o' with
    | root => exact hne rfl
    | entry dir i => exact hcross c hc c (hin (h.owns_entry ho') hc') rfl
  | entry dir i =>
    cases o' with
    | root =>
      rw [h.owns_root ho'] at hc'
      exact hcross c hc' c (hin (h.owns_entry ho) hc) rfl
    | entry dir' i' =>
      refine h.item_disjoint (h.owns_entry ho) (h.owns_entry ho') (fun heq => hne ?_) c hc hc'
      injection heq with h1 h2 h3
      rw [h1, h2]

theorem sound (hg : Geometry vol mnt)
    (hcopies : FatCopiesEqual read vol mnt) : Sound read vol mnt := by
  refine ⟨hcopies, ?_, ?_, ?_, fun o o' cs cs' ho ho' hne => h.disjoint ho ho' hne⟩
  · intro dir hr
    obtain ⟨es, hes, _⟩ := h.walked dir (h.mem_dirs hr)
    exact ⟨es, hes⟩
  · intro dir hr
    cases hr with
    | root =>
      unfold rootDir
      by_cases h12 : mnt.fsType = .fat12
      · rw [if_pos h12]; exact .inl rfl
      · rw [if_neg h12]
        exact .inr ⟨rootChain, h.rootChain h12, (nodup_append.mp h.nodup).1⟩
    | child hr hes he hdir hdot =>
      obtain ⟨es', hes', _, hok⟩ := h.walked _ (h.mem_dirs hr)
      rw [hes] at hes'
      cases hes'
      obtain ⟨i, hi⟩ := mem_iff_getElem?.mp he
      obtain ⟨cs, hmem, hc, _⟩ := (hok i _ hi).directory hdir hdot
      exact .inr ⟨cs, hc, h.item_nodup hmem⟩
  · intro dir es e hr hes he hfile
    obtain ⟨es', hes', _, hok⟩ := h.walked _ (h.mem_dirs hr)
    rw [hes] at hes'
    cases hes'
    obtain ⟨i, hi⟩ := mem_iff_getElem?.mp he
    rw [← requiredClusters_eq hg.sectorsPerCluster_pos]
    rcases (hok i e hi).file hfile with ⟨h0, hsize⟩ | ⟨cs, hmem, hc, hlen⟩
    · refine ⟨[], nodup_nil, ?_, .inl ⟨rfl, h0⟩⟩
      rw [hsize]
      simp [requiredClusters]
    · exact ⟨cs, h.item_nodup hmem, hlen, .inr hc⟩

end

end Record

/-! ### Names -/

theorem sameName_comm (a b : LongEntry) : sameName a b = sameName b a := by
  have htext : ∀ l r : List UInt8, textEqual l r = textEqual r l := fun l r =>
    Bool.eq_iff_iff.mpr (by rw [textEqual_iff, textEqual_iff, eq_comm])
  unfold sameName
  rw [htext a.shortName, htext a.name]

/-- Of two entries at different offsets one was held against the other. -/
theorem namesDistinct_iff (h : NamesChecked es) : NamesDistinct es ↔ NamesDistinctAtOffset es := by
  constructor
  · intro hd i j e e' hi hj hij _
    exact hd i j e e' hi hj hij
  · intro hd i j e e' hi hj hij
    have he := mem_iff_getElem?.mpr ⟨i, hi⟩
    have he' := mem_iff_getElem?.mpr ⟨j, hj⟩
    rcases lt_trichotomy e.entryOffset e'.entryOffset with hlt | heq | hgt
    · exact h e' he' e he hlt
    · exact hd i j e e' hi hj hij heq
    · rw [sameName_comm]; exact h e he e' he' hgt

/-- Slots of different sectors of a volume of at most 4 GiB have different offsets. -/
theorem slotOffsets_nodup {lbas : List Nat} (h : lbas.Nodup) (hlt : ∀ l ∈ lbas, l < 8388608) :
    (slotOffsets vol lbas).Nodup := by
  refine nodup_flatMap.mpr ⟨fun lba _ => ?_, ?_⟩
  · refine Nodup.map (fun a b hab => ?_) nodup_range
    omega
  · refine Pairwise.imp_of_mem ?_ h
    intro a b ha hb hab x hx hx'
    obtain ⟨i, hi, rfl⟩ := mem_map.mp hx
    obtain ⟨j, hj, hij⟩ := mem_map.mp hx'
    have h1 := hlt a ha
    have h2 := hlt b hb
    have h3 := mem_range.mp hi
    have h4 := mem_range.mp hj
    unfold sectorOffset u32 at hij
    omega

theorem chainSectors_lt (hg : Geometry vol mnt)
    (hv : ∀ c ∈ cs, clusterValid mnt c = true) : ∀ l ∈ chainSectors mnt cs, l < mnt.totalSectors := by
  intro l hl
  obtain ⟨c, hc, hl⟩ := mem_flatMap.mp hl
  have hend := hg.dataEnd_le
  obtain ⟨h2, _, hlt⟩ := clusterValid_iff.mp (hv c hc)
  have hlast := cluster_end_le h2 hlt
  have hl := mem_range'_1.mp hl
  unfold clusterLba at hl
  omega

theorem chainSectors_nodup (h : cs.Nodup)
    (hv : ∀ c ∈ cs, clusterValid mnt c = true) : (chainSectors mnt cs).Nodup := by
  refine nodup_flatMap.mpr ⟨fun c _ => nodup_range', ?_⟩
  refine Pairwise.imp_of_mem ?_ h
  intro a b ha hb hab x hx hx'
  have ha2 := (clusterValid_iff.mp (hv a ha)).1
  have hb2 := (clusterValid_iff.mp (hv b hb)).1
  have hx := mem_range'_1.mp hx
  have hx' := mem_range'_1.mp hx'
  unfold clusterLba at hx hx'
  -- the clusters of a sector are counted in order, so the later one starts past the earlier
  rcases lt_or_gt_of_ne hab with hlt | hlt
  · have := mul_le_mul_right mnt.sectorsPerCluster (show a - 2 + 1 ≤ b - 2 by omega)
    rw [succ_mul] at this
    omega
  · have := mul_le_mul_right mnt.sectorsPerCluster (show b - 2 + 1 ≤ a - 2 by omega)
    rw [succ_mul] at this
    omega

/-- On a volume of at most 4 GiB no two entries of a directory have the same offset. -/
theorem Sound.offsets_nodup (hs : Sound read vol mnt) (hg : Geometry vol mnt)
    (hspan : mnt.totalSectors ≤ 8388608) (hr : Reachable read vol mnt dir)
    (hes : dirEntries read vol mnt dir = .ok es) : (es.map LongEntry.entryOffset).Nodup := by
  have hsub := fun offsets => @dirEntries_offsets read vol mnt dir es offsets hes
  cases hroot : dir.fixedRoot with
  | true =>
    refine (slotOffsets_nodup ?_ ?_).sublist (hsub _ (.inl ⟨hroot, rfl⟩))
    · exact nodup_range'
    · intro l hl
      have hl := mem_range'_1.mp hl
      have h1 := hg.dataStart_eq
      have h2 := hg.dataEnd_le
      omega
  | false =>
    rcases hs.directories dir hr with ht | ⟨cs, hc, hnodup⟩
    · rw [hroot] at ht; cases ht
    refine (slotOffsets_nodup ?_ ?_).sublist (hsub _ (.inr ⟨hroot, cs, hc, rfl⟩))
    · exact chainSectors_nodup hnodup hc.valid
    · intro l hl
      exact lt_of_lt_of_le (chainSectors_lt hg hc.valid l hl) hspan

theorem namesDistinctAtOffset_of_nodup (h : (es.map LongEntry.entryOffset).Nodup) :
    NamesDistinctAtOffset es := by
  intro i j e e' hi hj hij heq
  refine absurd ((getElem?_inj ?_ h).mp ?_) hij
  · rw [length_map]; exact (List.getElem?_eq_some_iff.mp hi).1
  · rw [getElem?_map, getElem?_map, hi, hj, Option.map_some, Option.map_some, heq]

/-! ### When the loops over the table succeed -/

theorem checkFatSectors_of_single (hone : mnt.fatCount = 1) {check : Check}
    (h : ∀ k < rounds, ∃ s, (addU32 mnt.fatStart (sector + k) >>= readRelative read vol) = .ok s) :
    checkFatSectors read vol mnt rounds sector check
      = .ok { check with
          report.structuresVerified := check.report.structuresVerified + rounds } := by
  induction rounds generalizing sector check with
  | zero => rfl
  | succ rounds ih =>
    obtain ⟨s, hs⟩ := h 0 (succ_pos _)
    obtain ⟨lba, hlba, hs⟩ := bind_eq_ok.mp hs
    rw [add_zero] at hlba
    rw [checkFatSectors, if_neg (by omega), hlba, ok_bind, hs, hone]
    have hrest := @ih (sector + 1) check.recordStructure fun k hk => by
      rw [show sector + 1 + k = sector + (k + 1) by omega]
      exact h (k + 1) (by omega)
    refine hrest.trans ?_
    simp only [Check.recordStructure]
    rw [show check.report.structuresVerified + 1 + rounds
      = check.report.structuresVerified + (rounds + 1) by omega]

/-- The free entries among `rounds` from `cluster` on. -/
def freeEntries (value : Nat → Nat) (cluster rounds : Nat) : Nat :=
  ((List.range' cluster rounds).filter fun c => value c == 0).length

theorem checkFatEntries_of_valid {value : Nat → Nat} {check : Check}
    (h : ∀ c, cluster ≤ c → c < cluster + rounds → checkReadFatEntry read vol mnt c = .ok (value c) ∧
    (value c = 0 ∨ clusterIsEnd mnt (value c) = true ∨ clusterValid mnt (value c) = true)) :
    checkFatEntries read vol mnt rounds cluster check
      = .ok ⟨check.ownership, { check.report with
          structuresVerified := check.report.structuresVerified + rounds
          freeClusters := check.report.freeClusters + freeEntries value cluster rounds }⟩ := by
  induction rounds generalizing cluster check with
  | zero => rfl
  | succ rounds ih =>
    obtain ⟨hv, hok⟩ := h cluster (le_refl _) (by omega)
    have hrest := fun check => @ih (cluster + 1) check fun c hc hlt => h c (by omega) (by omega)
    rw [checkFatEntries, hv, ok_bind, freeEntries, range'_succ, filter_cons]
    by_cases h0 : value cluster = 0
    · rw [if_pos h0, if_pos (by simp [h0]), hrest]
      simp only [Check.recordStructure, length_cons, freeEntries]
      congr 3 <;> omega
    have hgood : ¬ (clusterIsEnd mnt (value cluster) = false ∧
        clusterIsBad mnt (value cluster) = false ∧ clusterValid mnt (value cluster) = false) := by
      rintro ⟨h1, -, h2⟩
      rcases hok with hz | he | hv
      · exact h0 hz
      · rw [h1] at he; cases he
      · rw [h2] at hv; cases hv
    rw [if_neg h0, if_neg hgood, if_neg (by simp [h0]), hrest]
    simp only [Check.recordStructure, freeEntries]
    congr 3; omega

theorem checkOrphans_of_readable {check : Check}
    (h : ∀ c, cluster ≤ c → c < cluster + rounds → ∃ v, checkReadFatEntry read vol mnt c = .ok v) :
    ∃ check', checkOrphans read vol mnt rounds cluster check = .ok check' := by
  induction rounds generalizing cluster check with
  | zero => exact ⟨check, rfl⟩
  | succ rounds ih =>
    obtain ⟨v, hv⟩ := h cluster (le_refl _) (by omega)
    rw [checkOrphans, hv, ok_bind]
    split <;> exact ih fun c hc hlt => h c (by omega) (by omega)

/-! ### The check -/

theorem storageCheck_record {device : Except Err BlockDevice} {heap : Option (Nat → UInt8)}
    {report : Report} (h : storageCheck read device vol (some mnt) heap = .ok report) :
    FatCopiesEqual read vol mnt ∧
      ∃ rootChain items dirs, Record read vol mnt rootChain items dirs := by
  obtain ⟨_, h⟩ := ite_error_eq_ok.mp h
  obtain ⟨_, h⟩ := ite_error_eq_ok.mp h
  obtain ⟨_, h⟩ := ite_error_eq_ok.mp h
  cases heap with
  | none => cases h
  | some ownership =>
    obtain ⟨_, _, h⟩ := bind_eq_ok.mp h
    obtain ⟨_, _, h⟩ := bind_eq_ok.mp h
    obtain ⟨_, hfat, h⟩ := bind_eq_ok.mp h
    obtain ⟨_, htree, _⟩ := bind_eq_ok.mp h
    exact ⟨checkValidateFat_ok hfat, checkTree_ok htree⟩

/-- **An accepted volume is sound, up to names 4 GiB apart.** If `storage_check` accepts a
volume mounted from `boot`, the copies of the table agree, every reachable directory
and file has a proper chain of its own, and the names of the entries of each reachable
directory are distinct exactly if those at equal 32-bit offsets are; on a volume of
at most 4 GiB they always are. -/
theorem storageCheck_sound {device : Except Err BlockDevice} {heap : Option (Nat → UInt8)}
    {report : Report} {boot : Sector} (hmount : parseBpb vol boot = .ok mnt)
    (h : storageCheck read device vol (some mnt) heap = .ok report) :
    Sound read vol mnt ∧
      (∀ dir es, Reachable read vol mnt dir → dirEntries read vol mnt dir = .ok es →
        (NamesDistinct es ↔ NamesDistinctAtOffset es)) ∧
      (mnt.totalSectors ≤ 8388608 → ∀ dir es, Reachable read vol mnt dir →
        dirEntries read vol mnt dir = .ok es → NamesDistinct es) := by
  obtain ⟨hcopies, rootChain, items, dirs, hrec⟩ := storageCheck_record h
  obtain ⟨hg, _⟩ := parseBpb_ok hmount
  have hsound := hrec.sound hg hcopies
  have hnames : ∀ dir es, Reachable read vol mnt dir → dirEntries read vol mnt dir = .ok es →
      (NamesDistinct es ↔ NamesDistinctAtOffset es) := by
    intro dir es hr hes
    obtain ⟨es', hes', hn, _⟩ := hrec.walked dir (hrec.mem_dirs hr)
    rw [hes] at hes'
    cases hes'
    exact namesDistinct_iff hn
  refine ⟨hsound, hnames, fun hspan dir es hr hes => ?_⟩
  exact (hnames dir es hr hes).mpr
    (namesDistinctAtOffset_of_nodup (hsound.offsets_nodup hg hspan hr hes))

end

/-- A sector of zeros but for some bytes. -/
def sectorBytes (table : List (Nat × UInt8)) : Sector := fun k =>
  match table.find? (fun p => p.1 == k.val) with
  | some p => p.2
  | none => 0

/-! A FAT12 volume of two clusters, with one file `A` of one byte. -/

namespace Floppy

def boot : Sector := sectorBytes
  [(12, 2), (13, 1), (14, 1), (16, 1), (17, 16), (19, 5), (22, 1), (510, 0x55), (511, 0xAA)]

def image (lba : Nat) : Sector :=
  if lba = 0 then boot
  else if lba = 1 then sectorBytes [(0, 0xFF), (1, 0xFF), (2, 0xFF), (3, 0xFF), (4, 0x0F)]
  else if lba = 2 then
    fun k => if k.val = 0 then 65 else if k.val < 11 then 32 else if k.val = 11 then 0x20
      else if k.val = 26 then 2 else if k.val = 28 then 1 else 0
  else fun _ => 0

def volume : Volume := ⟨.raw, 0, 0, true, false, 0, 5⟩

def mount : Mount := ⟨.fat12, 1, 1, 16, 5, 1, 1, 2, 1, 3, 2, 0⟩

end Floppy

theorem storageCheck_sound_floppy :
    (storageCheck (fun lba => .ok (Floppy.image lba)) (.error .notFound) Floppy.volume
      (some Floppy.mount) (some fun _ => 0)).isOk = true ∧
    Sound (fun lba => .ok (Floppy.image lba)) Floppy.volume Floppy.mount := by
  have hok : (storageCheck (fun lba => .ok (Floppy.image lba)) (.error .notFound) Floppy.volume
      (some Floppy.mount) (some fun _ => 0)).isOk = true := by decide +kernel
  have hparse : parseBpb Floppy.volume Floppy.boot = .ok Floppy.mount := by decide +kernel
  obtain ⟨report, hreport⟩ := exists_eq_ok hok
  exact ⟨hok, (storageCheck_sound hparse hreport).1⟩

/-! ### Two namesakes 4 GiB apart

A FAT32 volume of 8396817 sectors, eight to a cluster. Its root directory has two
clusters, 1048576 apart, and each starts with an entry `A`; everything between the two
is deleted. The two slots are 2^32 bytes apart. -/

namespace Apart

def boot : Sector := sectorBytes
  [(12, 2), (13, 8), (14, 8), (16, 1), (32, 0x11), (33, 0x20), (34, 0x80), (36, 0x01), (37, 0x20),
    (44, 2), (48, 1), (50, 6), (510, 0x55), (511, 0xAA)]

def fsinfo : Sector := sectorBytes
  [(0, 0x52), (1, 0x52), (2, 0x61), (3, 0x41), (484, 0x72), (485, 0x72), (486, 0x41), (487, 0x61),
    (510, 0x55), (511, 0xAA)]

/-- The first sector of the table: cluster 2 leads to cluster 1048578. -/
def fatFirst : Sector := sectorBytes
  [(0, 0xF8), (1, 0xFF), (2, 0xFF), (3, 0x0F), (4, 0xFF), (5, 0xFF), (6, 0xFF), (7, 0x0F),
    (8, 0x02), (10, 0x10)]

/-- Its last: cluster 1048578 ends the chain. -/
def fatLast : Sector := sectorBytes [(8, 0xFF), (9, 0xFF), (10, 0xFF), (11, 0x0F)]

def deleted : Sector := fun k => if k.val % 32 = 0 then 0xE5 else 0

/-- An entry `A` without data; `rest` is the first byte of the other slots. -/
def named (rest : UInt8) : Sector := fun k =>
  if k.val = 0 then 65 else if k.val < 11 then 32 else if k.val = 11 then 0x20
  else if k.val % 32 = 0 then rest else 0

def image (lba : Nat) : Sector :=
  if lba = 0 ∨ lba = 6 then boot
  else if lba = 1 ∨ lba = 7 then fsinfo
  else if lba = 8 then fatFirst
  else if lba = 8200 then fatLast
  else if lba = 8201 then named 0xE5
  else if 8202 ≤ lba ∧ lba < 8209 then deleted
  else if lba = 8396809 then named 0
  else fun _ => 0

def read (lba : Nat) : Except Err Sector := .ok (image lba)

def volume : Volume := ⟨.raw, 0, 0, true, false, 0, 8396817⟩

def mount : Mount := ⟨.fat32, 8, 1, 0, 8396817, 8, 8193, 8201, 0, 8201, 1048577, 2⟩

theorem parseBpb_boot : parseBpb volume boot = .ok mount := by decide +kernel

/-- The value of an entry of the table. -/
def value (c : Nat) : Nat := read32 (Sector.byte (image (8 + c / 128))) (4 * c % 512) &&& 0x0FFFFFFF

variable {c : Nat}

theorem checkReadFatEntry_eq (h : c < 1048579) :
    checkReadFatEntry read volume mount c = .ok (value c) := by
  unfold checkReadFatEntry
  rw [if_neg (show ¬ mount.totalClusters + 1 < c from not_lt.mpr (le_of_lt_succ h))]
  have hrel : relativeRange volume (8 + c / 128) 1 = .ok (volume.startLba + (8 + c / 128)) :=
    relativeRange_of_lt (show 8 + c / 128 < 8396817 by omega) (by decide)
  refine fatValue_entry rfl (show c < 8193 * 128 by omega) (by decide) ?_
  show (relativeRange volume (8 + c / 128) 1 >>= read) = _
  rw [hrel, show volume.startLba + (8 + c / 128) = 8 + c / 128 from zero_add _]
  rfl

theorem value_valid (h2 : 2 ≤ c) (h : c < 1048579) :
    value c = 0 ∨ clusterIsEnd mount (value c) = true ∨ clusterValid mount (value c) = true := by
  -- only the first and the last sector of the table hold anything
  rcases lt_or_ge c 128 with hlow | hlow
  · have hfirst : ∀ k : Fin 128, 2 ≤ k.val → value k = 0 ∨ clusterIsEnd mount (value k) = true ∨
        clusterValid mount (value k) = true := by decide +kernel
    exact hfirst ⟨c, hlow⟩ h2
  rcases lt_or_ge c 1048576 with hmid | hhigh
  · refine .inl ?_
    unfold value image
    rw [if_neg (by omega), if_neg (by omega), if_neg (by omega), if_neg (by omega),
      if_neg (by omega), if_neg (by omega), if_neg (by omega)]
    have hzero : ∀ p, read32 (Sector.byte fun _ => 0) p = 0 := by
      simp [read32, read16, Sector.byte]
    rw [hzero, zero_and]
  · have hlast : ∀ k : Fin 3, value (1048576 + k) = 0 ∨
        clusterIsEnd mount (value (1048576 + k)) = true ∨
        clusterValid mount (value (1048576 + k)) = true := by decide +kernel
    obtain ⟨k, rfl⟩ := Nat.exists_eq_add_of_le hhigh
    exact hlast ⟨k, by omega⟩

theorem checkValidateBpb_eq : checkValidateBpb read volume mount ⟨fun _ => 0, {}⟩
    = .ok (⟨fun _ => 0, { structuresVerified := 2 }⟩, 0) := by
  have hsame : ∀ s : Sector, buffersEqual s s = true := fun s => by simp [buffersEqual]
  have hboot : ∀ lba, lba = 0 ∨ lba = 6 → readRelative read volume lba = .ok boot := by
    rintro lba (rfl | rfl) <;> rfl
  have hinfo : ∀ lba, lba = 1 ∨ lba = 7 → readRelative read volume lba = .ok fsinfo := by
    rintro lba (rfl | rfl) <;> rfl
  have hmul : (mulU32 mount.totalClusters mount.sectorsPerCluster).mapError (fun _ => Err.invalid)
      = .ok 8388616 := by decide
  have hadd : (addU32 mount.dataStart 8388616).mapError (fun _ => Err.invalid) = .ok 8396817 := by
    decide
  have hfsinfo : read16 (Sector.byte boot) 48 = 1 ∧ read16 (Sector.byte boot) 50 = 6 ∧
      fsinfoValid fsinfo = true ∧ read32 (Sector.byte fsinfo) 488 = 0 := by decide +kernel
  obtain ⟨h48, h50, hvalid, hhint⟩ := hfsinfo
  unfold checkValidateBpb
  rw [hboot 0 (.inl rfl), ok_bind, parseBpb_boot, ok_bind, if_neg (by decide), hmul, ok_bind, hadd,
    ok_bind, if_neg (by decide)]
  rw [if_neg (by decide)]
  unfold checkValidateFsinfo
  rw [h48, h50, if_neg (by decide), hboot 6 (.inr rfl), ok_bind, hinfo 1 (.inl rfl), ok_bind,
    hinfo (6 + 1) (.inr rfl), ok_bind, hsame, hsame]
  rfl

theorem checkValidateFat_checkTree : ∃ check check',
    checkValidateFat read volume mount ⟨fun _ => 0, { structuresVerified := 2 }⟩ = .ok check ∧
      checkTree read volume mount check = .ok check' := by
  have hread : ∀ k < 8193, ∃ s,
      (addU32 mount.fatStart (0 + k) >>= readRelative read volume) = .ok s := by
    intro k hk
    rw [addU32_of_lt (by
      rw [show mount.fatStart = 8 from rfl]; omega), ok_bind]
    exact ⟨_, bind_eq_ok.mpr ⟨_, relativeRange_of_lt (show 8 + (0 + k) < 8396817 by omega)
      (by decide), rfl⟩⟩
  have hends : clusterIsEnd mount (value 0) = true ∧ clusterIsEnd mount (value 1) = true := by
    decide +kernel
  have hentries : ∀ c, 2 ≤ c → c < 2 + 1048577 →
      checkReadFatEntry read volume mount c = .ok (value c) ∧
      (value c = 0 ∨ clusterIsEnd mount (value c) = true ∨ clusterValid mount (value c) = true) := by
    intro c h2 hc
    have hc' : c < 1048579 := hc
    exact ⟨checkReadFatEntry_eq hc', value_valid h2 hc'⟩
  have hrun : ∀ check, (checkTree read volume mount check).isOk = true →
      ∃ c c', Except.ok check = (Except.ok c : Except Err Check) ∧
        checkTree read volume mount c = .ok c' := fun check hok => by
    obtain ⟨c', hc'⟩ := exists_eq_ok hok
    exact ⟨check, c', rfl, hc'⟩
  unfold checkValidateFat
  rw [if_neg (by decide), show mount.sectorsPerFat = 8193 from rfl,
    checkFatSectors_of_single rfl hread, ok_bind, checkReadFatEntry_eq (by decide), ok_bind,
    checkReadFatEntry_eq (by decide), show mount.totalClusters = 1048577 from rfl,
    checkFatEntries_of_valid hentries]
  refine hrun _ ?_
  decide +kernel

end Apart

/-- The check accepts the volume, and its root directory has two entries `A`. -/
theorem storageCheck_misses_far_namesake :
    (∃ report, storageCheck Apart.read (.error .notFound) Apart.volume (some Apart.mount)
      (some fun _ => 0) = .ok report) ∧
    parseBpb Apart.volume Apart.boot = .ok Apart.mount ∧
    ∃ es, dirEntries Apart.read Apart.volume Apart.mount (rootDir Apart.mount) = .ok es ∧
      ¬ NamesDistinct es := by
  refine ⟨?_, Apart.parseBpb_boot, ?_⟩
  · obtain ⟨check, check', hfat, htree⟩ := Apart.checkValidateFat_checkTree
    obtain ⟨last, horphans⟩ := @checkOrphans_of_readable Apart.read Apart.volume Apart.mount
      1048577 2 check' fun c _ hc => ⟨_, Apart.checkReadFatEntry_eq (hc)⟩
    unfold storageCheck
    rw [if_neg (by decide)]
    dsimp only
    rw [if_neg (by decide), if_neg (by decide), show checkValidateMbr Apart.read (.error .notFound)
      Apart.volume ⟨fun _ => 0, {}⟩ = .ok ⟨fun _ => 0, {}⟩ from rfl, ok_bind,
      Apart.checkValidateBpb_eq, ok_bind, hfat, ok_bind, htree, ok_bind,
      show Apart.mount.totalClusters = 1048577 from rfl, horphans, ok_bind]
    split
    · exact ⟨_, rfl⟩
    · exact ⟨_, rfl⟩
  · have hlist : ((dirEntries Apart.read Apart.volume Apart.mount (rootDir Apart.mount)).toOption.map
        fun es => (es[0]?, es[1]?)) =
        some (some ⟨[65], [65], 0x20, 0, 0, 4198912, 4198912, []⟩,
          some ⟨[65], [65], 0x20, 0, 0, 4198912, 4198912, []⟩) := by decide +kernel
    cases hes : dirEntries Apart.read Apart.volume Apart.mount (rootDir Apart.mount) with
    | error e => rw [hes] at hlist; cases hlist
    | ok es =>
      rw [hes] at hlist
      have hpair := Option.some.inj hlist
      refine ⟨es, rfl, fun hd => ?_⟩
      exact absurd (hd 0 1 _ _ (congrArg Prod.fst hpair) (congrArg Prod.snd hpair) (by decide))
        (by decide)

end ZephyrOS.Storage
