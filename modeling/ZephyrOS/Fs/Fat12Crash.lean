import ZephyrOS.Fs.Fat12Atomic

/-!
# Every crash leaves the old file or the new one

The call step by step, each step keeping the reference of its phase, and the
conclusion: after any prefix of the writes it issues, with any of them failing,
the remounted volume has the file as it was or as it was to become, and every other
file as it was.

This needs a device whose word about the root directory can be trusted. The call takes back
the new chain when the write of the root sector is reported failed; if the sector is on the
disk all the same, the entry names clusters that are free again.
-/

namespace ZephyrOS.Fat12

open Lib List Nat

/-- An entry a search can find. -/
def Live (fs : Fs) (i : Nat) : Prop :=
  i < fs.bpb.rootEntries ∧ InUse fs.rootDir 0 i ∧ entryByte fs.rootDir i 0 ≠ 0xE5
    ∧ entryAttributes fs.rootDir i &&& 0x08 = 0

/-- The chains of the root entries are in range, ended, and pairwise disjoint. -/
structure WellFormed (fs : Fs) (chain : Nat → List Nat) : Prop where
  chains : ∀ i, Live fs i → FileChain fs i (chain i)
  disjoint : ∀ i j, Live fs i → Live fs j → i ≠ j → ∀ c ∈ chain i, c ∉ chain j

/-- Every root file other than `filename` reads in `fs'` and `d` as in `fs` and `d0`. -/
def OthersUnchanged (fs : Fs) (d0 : Image) (filename : List UInt8) (fs' : Fs) (d : Image) : Prop :=
  ∀ other, entryName other ≠ entryName filename → fat12FindEntry fs other ≠ none →
    ∀ maxSize, fat12ReadFile fs' (healthy d) other maxSize
      = fat12ReadFile fs (healthy d0) other maxSize

/-- `d` mounts, `filename` reads as before, and so do the others. -/
def ReadsOld (device : Option Nat) (fs : Fs) (d0 : Image) (filename : List UInt8) (d : Image) :
    Prop :=
  ∀ fatHeap rootHeap, ∃ fs', fat12Init device (healthy d) fatHeap rootHeap = .ok fs'
    ∧ (∀ maxSize, fat12ReadFile fs' (healthy d) filename maxSize
        = fat12ReadFile fs (healthy d0) filename maxSize)
    ∧ OthersUnchanged fs d0 filename fs' d

/-- `d` mounts, `filename` reads as `data`, and the others as before. -/
def ReadsNew (device : Option Nat) (fs : Fs) (d0 : Image) (filename data : List UInt8) (d : Image) :
    Prop :=
  ∀ fatHeap rootHeap, ∃ fs', fat12Init device (healthy d) fatHeap rootHeap = .ok fs'
    ∧ (∀ maxSize, fat12ReadFile fs' (healthy d) filename maxSize = some (data.take maxSize))
    ∧ OthersUnchanged fs d0 filename fs' d

variable {i : Nat} {fs : Fs}

theorem live_of_find {filename : List UInt8}
    (h : fat12FindEntry fs filename = some i) : Live fs i := by
  have hf := findEntry_found fs filename
  rw [h] at hf
  obtain ⟨_, h2, huse, hhit, _⟩ := hf
  exact ⟨by omega, huse, hhit.1, hhit.2.1⟩

theorem FileChain.used (g : Geometry fs) {cs : List Nat}
    (h : FileChain fs i cs) : ∀ x ∈ cs, fs.getCluster x ≠ clusterFree := by
  intro x hx
  rcases h with ⟨_, rfl⟩ | h
  · exact absurd hx not_mem_nil
  · exact h.used g x hx

/-- The device does not tear sectors of the FAT and the root directory, and a write of a root
sector that it reports failed has left the sector as it was. -/
structure Honest (fs : Fs) (io : Nat → Nat → Ending) : Prop where
  whole : ∀ n lba, lba < fs.dataStart → (io n lba).Whole
  root : ∀ n lba, fs.rootStart ≤ lba → lba < fs.dataStart → io n lba ≠ .stored

section Phases

variable {device : Option Nat} {fs : Fs} {d0 : Image} {chain : Nat → List Nat}
  {filename data : List UInt8} {clusters : List Nat} {d : Image} {old : List Nat} {dPub : Image}
  {pub : Fs} {maxSize : Nat} {io : Nat → Nat → Ending} {log : List Write} {r : Outcome} {e : Err} {fs' : Fs}

/-- The first phase: only clusters that were free have changed. -/
theorem Keeps.readsOld (hm : Mounted device d0 fs) (hwf : WellFormed fs chain)
    (hfree : ∀ c ∈ clusters, fs.getCluster c = clusterFree)
    (h : Keeps fs d0 (fun c => c ∉ clusters) d) : ReadsOld device fs d0 filename d := by
  intro fatHeap rootHeap
  obtain ⟨fs', hinit, hl, hroot, hagree⟩ := h.remount hm.toPlaced fatHeap rootHeap
  have hread : ∀ name maxSize, fat12ReadFile fs' (healthy d) name maxSize
      = fat12ReadFile fs (healthy d0) name maxSize := by
    intro name maxSize
    refine Keeps.read hm.toPlaced hl hroot hagree name (fun i hi => ?_) maxSize
    have hc := hwf.chains i (live_of_find hi)
    exact ⟨chain i, hc, fun c hc' hin => hc.used hm.geometry c hc' (hfree c hin)⟩
  exact ⟨fs', hinit, hread filename, fun other _ _ => hread other⟩

/-- The volume once the new entry is on the disk: `pub`, on `dPub`. The clusters `old` are
those of the entry it replaced. -/
structure Published (device : Option Nat) (fs : Fs) (d0 : Image) (filename data : List UInt8)
    (clusters old : List Nat) (pub : Fs) (dPub : Image) : Prop where
  placed : Placed device dPub pub
  found : ∃ i, fat12FindEntry pub filename = some i
    ∧ entryClusterLow pub.rootDir i = clusters.headD clusterEnd
    ∧ entryFileSize pub.rootDir i = data.length
  nonempty : clusters ≠ []
  short : clusters.length ≤ fat12ChainLimit
  linked : ChainOf pub (clusters.headD clusterEnd) clusters
  payload : PayloadOn pub dPub data 0 clusters
  fresh : ∀ c ∈ clusters, c ∉ old
  others : ∀ other i, entryName other ≠ entryName filename → fat12FindEntry fs other = some i →
    ∃ cs, FileChain pub i cs ∧ (∀ c ∈ cs, c ∉ old) ∧ fat12FindEntry pub other = some i
      ∧ ∀ maxSize, fat12ReadFile pub (healthy dPub) other maxSize
          = fat12ReadFile fs (healthy d0) other maxSize

theorem Published.read_new (h : Published device fs d0 filename data clusters old pub dPub) :
    fat12ReadFile pub (healthy dPub) filename maxSize = some (data.take maxSize) := by
  obtain ⟨i, hfind, hcluster, hsize⟩ := h.found
  unfold fat12ReadFile
  rw [hfind]
  dsimp only
  rw [hcluster, hsize]
  have hvalid : pub.clusterValid (clusters.headD clusterEnd) = true := by
    cases hc : clusters with
    | nil => exact absurd hc h.nonempty
    | cons c cs => exact h.linked.valid c (by rw [hc]; exact mem_cons_self)
  rw [if_neg (fun hc => by rw [hvalid] at hc; exact absurd hc.2 (by decide))]
  have := @readChain_payload pub data dPub maxSize h.placed.geometry _ _ _ _ h.linked
    h.payload h.short
  rwa [zero_mul, mul_zero] at this

/-- The second phase: only clusters of the replaced file have changed. -/
theorem Published.readsNew (hpub : Published device fs d0 filename data clusters old pub dPub)
    (h : Keeps pub dPub (fun c => c ∉ old) d) : ReadsNew device fs d0 filename data d := by
  intro fatHeap rootHeap
  obtain ⟨fs', hinit, hl, hroot, hagree⟩ := h.remount hpub.placed fatHeap rootHeap
  refine ⟨fs', hinit, fun maxSize => ?_, fun other hne hsome maxSize => ?_⟩
  · rw [← hpub.read_new]
    refine Keeps.read hpub.placed hl hroot hagree filename (fun i hi => ?_) maxSize
    obtain ⟨i', hfind, hcluster, _⟩ := hpub.found
    rw [hfind] at hi
    cases hi
    exact ⟨clusters, .inr (by rw [hcluster]; exact hpub.linked), hpub.fresh⟩
  · obtain ⟨i, hi⟩ := Option.ne_none_iff_exists'.mp hsome
    obtain ⟨cs, hcs, hnotin, hfind, hread⟩ := hpub.others other i hne hi
    rw [← hread maxSize]
    refine Keeps.read hpub.placed hl hroot hagree other (fun j hj => ?_) maxSize
    rw [hfind] at hj
    cases hj
    exact ⟨cs, hcs, hnotin⟩

/-! ### The call -/

/-- What the call is to do from `log` on, where `r` is its outcome: every disk on the way reads as before
or as the new data, and the result says which of them the last one is. -/
structure Verdict (device : Option Nat) (fs : Fs) (d0 : Image) (filename data : List UInt8)
    (log : List Write) (r : Outcome) : Prop where
  always : Extends (fun d => ReadsOld device fs d0 filename d ∨ ReadsNew device fs d0 filename data d)
    d0 log r.2.2
  ok : r.1 = .ok () → ReadsNew device fs d0 filename data (replay d0 r.2.2)
  error : r.1 ≠ .ok () → ReadsOld device fs d0 filename (replay d0 r.2.2)

/-- A failure that leaves the volume as it was. -/
theorem Verdict.of_error (herr : r.1 = .error e)
    (h : Extends (ReadsOld device fs d0 filename) d0 log r.2.2) :
    Verdict device fs d0 filename data log r :=
  ⟨h.mono fun _ => .inl, fun hok => (nomatch herr.symm.trans hok), fun _ => h.last⟩

/-- What the selection of clusters provides. -/
structure Allocated (fs : Fs) (data : List UInt8) (clusters : List Nat) : Prop where
  nonempty : clusters ≠ []
  short : clusters.length ≤ fat12AtomicMaxClusters
  nodup : clusters.Nodup
  valid : ∀ c ∈ clusters, fs.clusterValid c = true
  free : ∀ c ∈ clusters, fs.getCluster c = clusterFree
  enough : Enough fs data 0 clusters

/-- Giving up: the new chain goes out of the FAT again. -/
theorem undo_extends (hm : Mounted device d0 fs) (ha : Allocated fs data clusters)
    (h : Keeps fs d0 (fun c => c ∉ clusters) (replay d0 log)) (hio : Honest fs io) :
    Extends (Keeps fs d0 fun c => c ∉ clusters) d0 log
      (undo io (linkClusters fs clusters) (clusters.headD 0) log).2.2 := by
  obtain ⟨hl, _, hother, hchain⟩ := linkClusters_spec hm.geometry ha.nodup ha.valid
  obtain ⟨hstart, hclosed⟩ := hchain.closed
  have hhead : clusters.headD 0 ∈ clusters ∨ clusters.headD 0 < 2 ∨ clusterEnd ≤ clusters.headD 0 := by
    cases clusters with
    | nil => exact .inr (.inl (by decide))
    | cons c cs => exact .inl mem_cons_self
  obtain ⟨hl', _, hother'⟩ := releaseFrom_spec fat12ChainLimit (hl.geometry hm.geometry)
    hchain.valid hclosed hhead
  exact h.flush hm.geometry (hl.trans hl') (fun c _ hc => (hother' c hc).trans (hother c hc)) hio.whole

theorem PayloadOn.congr {d' : Image} (hl : SameLayout fs fs') :
    ∀ {cs : List Nat} {n : Nat}, PayloadOn fs d data n cs →
    (∀ c ∈ cs, ∀ s, s < fs.bpb.sectorsPerCluster → d' (fs.lbaOf c + s) = d (fs.lbaOf c + s)) →
    PayloadOn fs' d' data n cs
  | [], n, h, _ => by
    unfold PayloadOn at h ⊢
    rw [hl.bpb]; exact h
  | x :: cs, n, ⟨h1, h2, h3⟩, hd => by
    have hlba : fs'.lbaOf x = fs.lbaOf x := by unfold Fs.lbaOf; rw [hl.dataStart, hl.bpb]
    unfold PayloadOn
    rw [hl.bpb, hlba]
    refine ⟨h1, fun s hs hlt => ?_, h3.congr hl fun c hc => hd c (mem_cons_of_mem _ hc)⟩
    rw [hd x mem_cons_self s hs]
    exact h2 s hs hlt

/-- The volume in memory with the new entry in place. -/
def withEntry (fs : Fs) (clusters : List Nat) (index : Nat) (entry : Nat → UInt8) : Fs :=
  { linkClusters fs clusters with rootDir := setEntry (linkClusters fs clusters).rootDir index entry }

/-- The disk `d` with the root sector of that entry written. -/
def withRootSector (pub : Fs) (index : Nat) (d : Image) : Image :=
  Function.update d (pub.rootStart + index / 16) (sectorOf pub.rootDir (index / 16 * 512))

section Publish

variable {encoded : List UInt8} {index : Nat} {existing : Bool} {attributes : UInt8} {d : Image}

/-- The whole FAT and the payload are on the disk `d`, and otherwise nothing has changed. -/
structure Ready (fs : Fs) (d0 : Image) (data : List UInt8) (clusters : List Nat) (d : Image) :
    Prop where
  keeps : Keeps fs d0 (fun c => c ∉ clusters) d
  fat : ∀ i, i < fs.bpb.sectorsPerFat →
    d (fs.fatStart + i) = sectorOf (linkClusters fs clusters).fat (i * 512)
  payload : PayloadOn fs d data 0 clusters

/-- The regions a root sector is not in. -/
theorem rootSector_outside (g : Geometry fs) (hindex : index < fs.bpb.rootEntries) :
    fs.fatStart + fs.bpb.sectorsPerFat ≤ fs.rootStart + index / 16
      ∧ fs.rootStart + index / 16 < fs.dataStart := by
  have h1 := g.root_fits
  have h2 := g.copy_end_le g.numFats_pos
  exact ⟨by omega, by omega⟩

/-- The disk with the root sector written is the new volume, whole. -/
theorem Ready.keeps_new (hm : Mounted device d0 fs) (ha : Allocated fs data clusters)
    (hr : Ready fs d0 data clusters d) (hindex : index < fs.bpb.rootEntries)
    (entry : Nat → UInt8) :
    Keeps (withEntry fs clusters index entry)
      (withRootSector (withEntry fs clusters index entry) index d) (fun _ => True)
      (withRootSector (withEntry fs clusters index entry) index d) := by
  obtain ⟨hl, hroot, _, _⟩ := linkClusters_spec hm.geometry ha.nodup ha.valid
  obtain ⟨hout1, hout2⟩ := rootSector_outside hm.geometry hindex
  have hb : (withEntry fs clusters index entry).bpb = fs.bpb := hl.bpb
  have hfs : (withEntry fs clusters index entry).fatStart = fs.fatStart := hl.fatStart
  have hrs : (withEntry fs clusters index entry).rootStart = fs.rootStart := hl.rootStart
  refine ⟨rfl, fun k hk => ?_, fun c hv _ => ?_, fun _ _ _ _ _ => rfl⟩
  · rw [hb] at hk
    unfold withRootSector
    rw [byteAt_update, hrs]
    split
    · exact byte_sectorOf (by omega) (by omega)
    rw [hr.keeps.root k hk]
    show fs.rootDir k = setEntry (linkClusters fs clusters).rootDir index entry k
    unfold setEntry
    rw [if_neg (by omega), hroot]
  · have hv' : fs.clusterValid c = true := (SameLayout.clusterValid hl c).symm.trans hv
    refine SameEntry.mix (fun _ _ => rfl) (fun _ _ => rfl) fun k _ hk => .inl ?_
    have hk' := hm.geometry.entry_bytes hv' hk
    unfold withRootSector
    rw [byteAt_update, hfs, if_neg (by omega)]
    unfold byteAt
    rw [show (512 * fs.fatStart + k) / 512 = fs.fatStart + k / 512 by omega,
      hr.fat (k / 512) (by omega)]
    exact byte_sectorOf rfl (by omega)

theorem Slot.live (hslot : Slot fs.rootDir encoded fs.bpb.rootEntries index true) :
    Live fs index := by
  obtain ⟨h0, hhit⟩ := hslot.found rfl
  refine ⟨hslot.lt, fun j _ hj => ?_, hhit.1, hhit.2.1⟩
  rcases eq_or_lt_of_le hj with rfl | hj
  · exact h0
  · exact hslot.before j hj

/-- Clusters that were free are in no chain. -/
theorem Allocated.not_mem (hm : Mounted device d0 fs) (hwf : WellFormed fs chain)
    (ha : Allocated fs data clusters) (hi : Live fs i) : ∀ c ∈ chain i, c ∉ clusters :=
  fun c hc hin => (hwf.chains i hi).used hm.geometry c hc (ha.free c hin)

section Entry

variable {entry : Nat → UInt8} (hm : Mounted device d0 fs) (ha : Allocated fs data clusters)
include hm ha

theorem withEntry_layout : SameLayout fs (withEntry fs clusters index entry) :=
  { (linkClusters_spec hm.geometry ha.nodup ha.valid).1 with }

theorem withEntry_rootDir :
    (withEntry fs clusters index entry).rootDir = setEntry fs.rootDir index entry := by
  unfold withEntry
  rw [(linkClusters_spec hm.geometry ha.nodup ha.valid).2.1]

/-- Outside the new clusters the FAT is the old one. -/
theorem withEntry_getCluster {x : Nat} (hv : fs.clusterValid x = true) (hx : x ∉ clusters) :
    (withEntry fs clusters index entry).getCluster x = fs.getCluster x := by
  obtain ⟨hl, -, hother, -⟩ := linkClusters_spec hm.geometry ha.nodup ha.valid
  show (linkClusters fs clusters).getCluster x = fs.getCluster x
  rw [(hl.geometry hm.geometry).getCluster_eq ((hl.clusterValid x).trans hv), hm.geometry.getCluster_eq hv]
  exact (hother x hx).get12_eq

/-- The root sector is not in the data area. -/
theorem withRootSector_data (hindex : index < fs.bpb.rootEntries) (c s : Nat) :
    withRootSector (withEntry fs clusters index entry) index d (fs.lbaOf c + s) = d (fs.lbaOf c + s) := by
  have hout := (rootSector_outside hm.geometry hindex).2
  unfold withRootSector
  rw [(withEntry_layout hm ha).rootStart, Function.update_of_ne]
  unfold Fs.lbaOf
  omega

/-- The boot sector is the one that was there. -/
theorem placed_withEntry (hr : Ready fs d0 data clusters d) (hindex : index < fs.bpb.rootEntries) :
    Placed device (withRootSector (withEntry fs clusters index entry) index d)
      (withEntry fs clusters index entry) := by
  have hlp : SameLayout fs (withEntry fs clusters index entry) := withEntry_layout hm ha
  have hboot : withRootSector (withEntry fs clusters index entry) index d 0 = d0 0 := by
    have hout := (rootSector_outside hm.geometry hindex).1
    have hpos := hm.geometry.fatStart_pos
    unfold withRootSector
    rw [hlp.rootStart, Function.update_of_ne (by omega)]
    exact hr.keeps.boot
  have hlayout := hm.layout
  refine ⟨?_, ?_, ⟨rfl, ?_, ?_, ?_⟩, hlp.geometry hm.geometry⟩
  · rw [hlp.bpb, hboot]; exact hm.bpb
  · rw [hlp.bpb]; exact hm.valid
  · rw [hlp.fatStart, hlp.bpb]; exact hlayout.fatStart
  · rw [hlp.rootStart, hlp.bpb]; exact hlayout.rootStart
  · rw [hlp.dataStart, hlp.bpb]; exact hlayout.dataStart

/-- A file whose entry is another one reads as before. -/
theorem withEntry_other (hwf : WellFormed fs chain) (hr : Ready fs d0 data clusters d)
    (hindex : index < fs.bpb.rootEntries) {other : List UInt8} (hi : fat12FindEntry fs other = some i)
    (hne : i ≠ index) (hfind : fat12FindEntry (withEntry fs clusters index entry) other = some i) :
    FileChain (withEntry fs clusters index entry) i (chain i)
      ∧ ∀ maxSize, fat12ReadFile (withEntry fs clusters index entry)
          (healthy (withRootSector (withEntry fs clusters index entry) index d)) other maxSize
        = fat12ReadFile fs (healthy d0) other maxSize := by
  have hli := live_of_find hi
  have hlp : SameLayout fs (withEntry fs clusters index entry) := withEntry_layout hm ha
  obtain ⟨hcl, hsz⟩ := entry_fields_setEntry fs.rootDir entry hne
  rw [← withEntry_rootDir hm ha] at hcl hsz
  have hcs := hwf.chains i hli
  have hold := ha.not_mem hm hwf hli
  constructor
  · unfold FileChain at hcs ⊢
    rw [hcl]
    exact hcs.imp_right fun h =>
      h.congr hlp fun x hx => withEntry_getCluster hm ha (h.valid x hx) (hold x hx)
  · refine fun maxSize => readFile_congr hm.geometry hlp hi hfind hcl hsz hcs (fun x hx => ?_) maxSize
    have hv := hcs.valid x hx
    refine ⟨withEntry_getCluster hm ha hv (hold x hx), fun s hs => ?_⟩
    rw [withRootSector_data hm ha hindex]
    exact hr.keeps.data x hv (hold x hx) s hs

end Entry

/-- And it is published: the new file reads as the payload, the others as before. -/
theorem Ready.published (hm : Mounted device d0 fs) (hwf : WellFormed fs chain)
    (ha : Allocated fs data clusters) (hr : Ready fs d0 data clusters d)
    (henc : fat12EncodeRootName filename = .ok encoded)
    (hslot : Slot fs.rootDir encoded fs.bpb.rootEntries index existing)
    (hattr : attributes &&& 0x08 = 0) (hsize : data.length < 4294967296) :
    Published device fs d0 filename data clusters (if existing then chain index else [])
      (withEntry fs clusters index (newEntry encoded attributes (clusters.headD 0) data.length))
      (withRootSector (withEntry fs clusters index
        (newEntry encoded attributes (clusters.headD 0) data.length)) index d) := by
  have hchain := (linkClusters_spec hm.geometry ha.nodup ha.valid).2.2.2
  have hname := entryName_of_encode henc
  have hname0 := encode_first henc
  have hlen : encoded.length = 11 := hname ▸ entryName_spec.1
  generalize hentry : newEntry encoded attributes (clusters.headD 0) data.length = entry
  have hbytes : ∀ k, k < 11 → entry k = encoded.getD k 0 := by
    intro k hk; rw [← hentry]; unfold newEntry; rw [if_pos hk]
  have hentry0 : entry 0 ≠ 0 ∧ entry 0 ≠ 0xE5 := by rw [hbytes 0 (by decide)]; exact hname0
  have hlp : SameLayout fs (withEntry fs clusters index entry) := withEntry_layout hm ha
  have hrootdir : (withEntry fs clusters index entry).rootDir = _ := withEntry_rootDir hm ha
  have hheadD : clusters.headD 0 = clusters.headD clusterEnd := by
    cases hc : clusters with
    | nil => exact absurd hc ha.nonempty
    | cons c cs => rfl
  have hheadlt : clusters.headD 0 < 65536 := by
    cases hc : clusters with
    | nil => decide
    | cons c cs =>
      have h1 := (hm.geometry.valid_iff.mp (ha.valid c (by rw [hc]; simp))).2
      have h2 := hm.geometry.clusters_lt
      show c < 65536
      omega
  refine
    { placed := placed_withEntry hm ha hr hslot.lt
      found := ⟨index, ?_, ?_, ?_⟩
      nonempty := ha.nonempty
      short := le_trans ha.short (by decide)
      linked := @ChainOf.congr (linkClusters fs clusters) (withEntry fs clusters index entry)
        ⟨rfl, rfl, rfl, rfl⟩ _ _ hchain fun _ _ => rfl
      payload := hr.payload.congr hlp fun c _ s _ => withRootSector_data hm ha hslot.lt c s
      fresh := ?_
      others := ?_ }
  -- the name leads to the new entry, which has the new chain and size
  · refine (findEntry_found _ filename).unique ?_
    rw [hname, hrootdir, hlp.bpb]
    refine hslot.found_self hbytes hentry0.1 hentry0.2 ?_
    rw [← hentry]; exact hattr
  · rw [hrootdir, ← hentry, ← hheadD]
    exact (newEntry_fields hheadlt hsize).1
  · rw [hrootdir, ← hentry]
    exact (newEntry_fields hheadlt hsize).2
  · intro c hc hin
    cases existing with
    | false => exact absurd hin not_mem_nil
    | true => exact ha.not_mem hm hwf hslot.live c hin hc
  -- any other name leads where it led before
  · intro other i hne hi
    have hfound := findEntry_found fs other
    rw [hi] at hfound
    rw [hname] at hne
    obtain ⟨hii, hfound'⟩ := hslot.found_other hbytes hentry0.1 hlen entryName_spec.1 hne
      hfound
    have hfind : fat12FindEntry (withEntry fs clusters index entry) other = some i := by
      refine (findEntry_found _ other).unique ?_
      rw [hrootdir, hlp.bpb]
      exact hfound'
    obtain ⟨hcs, hread⟩ := withEntry_other hm ha hwf hr hslot.lt hi hii hfind
    refine ⟨chain i, hcs, fun c hc hin => ?_, hfind, hread⟩
    cases existing with
    | false => exact absurd hin not_mem_nil
    | true => exact hwf.disjoint i index (live_of_find hi) hslot.live hii c hc hin

/-- The attributes given to the new entry leave it visible. -/
theorem newAttributes_visible (hslot : Slot fs.rootDir encoded fs.bpb.rootEntries index existing)
    (hattr : attributes = 0xFF ∨ attributes &&& 0x08 = 0) (hroot : fs'.rootDir = fs.rootDir) :
    newAttributes fs' index existing attributes &&& 0x08 = 0 := by
  unfold newAttributes
  split
  · rw [hroot]
    cases existing with
    | true => exact (hslot.found rfl).2.2.1
    | false => show 0x20 &&& 0x08 = 0; decide
  rename_i hne
  rcases hattr with h | h
  · exact absurd h hne
  · exact h

/-- Releasing the old chain, or failing to, is harmless. -/
theorem releaseOld_extends {previous : Nat}
    (hpub : Published device fs d0 filename data clusters old pub dPub)
    (hkeep : Keeps pub dPub (fun _ => True) dPub) (hlog : replay d0 log = dPub)
    (hio : ∀ n lba, lba < pub.dataStart → (io n lba).Whole)
    (hchain : existing = true → 2 ≤ previous → ChainOf pub previous old) :
    Extends (ReadsNew device fs d0 filename data) d0 log
        (releaseOld io pub existing previous log).2.2
      ∧ (releaseOld io pub existing previous log).1 = .ok () := by
  have hk : Keeps pub dPub (fun c => c ∉ old) (replay d0 log) := by
    rw [hlog]; exact hkeep.mono fun _ _ => trivial
  unfold releaseOld
  split
  · rename_i hex
    have hc := hchain hex.1 hex.2
    obtain ⟨hstart, hclosed⟩ := hc.closed
    obtain ⟨hl, _, hother⟩ := releaseFrom_spec fat12ChainLimit hpub.placed.geometry hc.valid hclosed
      (hstart.imp_right .inr)
    exact ⟨(hk.flush hpub.placed.geometry hl (fun c _ hc => hother c hc) hio).mono
      fun d h => hpub.readsNew h, rfl⟩
  · exact ⟨Extends.refl (hpub.readsNew hk), rfl⟩

/-- The last part of the call, from a disk that is ready for it. -/
theorem publish_spec (hm : Mounted device d0 fs) (hwf : WellFormed fs chain)
    (ha : Allocated fs data clusters) (hr : Ready fs d0 data clusters (replay d0 log))
    (henc : fat12EncodeRootName filename = .ok encoded)
    (hslot : Slot fs.rootDir encoded fs.bpb.rootEntries index existing)
    (hattr : attributes = 0xFF ∨ attributes &&& 0x08 = 0) (hsize : data.length < 4294967296)
    (hio : Honest fs io) (hres : publish io (linkClusters fs clusters) encoded index existing attributes
    (clusters.headD 0) data.length log = r) : Verdict device fs d0 filename data log r := by
  obtain ⟨hl, hroot, hother, hchain⟩ := linkClusters_spec hm.geometry ha.nodup ha.valid
  have hold : ∀ d, Keeps fs d0 (fun c => c ∉ clusters) d → ReadsOld device fs d0 filename d :=
    fun d h => h.readsOld hm hwf ha.free
  have hpub := hr.published hm hwf ha henc hslot (newAttributes_visible hslot hattr hroot) hsize
  have hkeep := hr.keeps_new hm ha hslot.lt (newEntry encoded
    (newAttributes (linkClusters fs clusters) index existing attributes) (clusters.headD 0)
    data.length)
  unfold publish fat12FlushRootSector at hres
  generalize newEntry encoded (newAttributes (linkClusters fs clusters) index existing attributes)
    (clusters.headD 0) data.length = entry at hpub hkeep hres
  change (let w := writeAll io [((withEntry fs clusters index entry).rootStart + index / 16,
      sectorOf (withEntry fs clusters index entry).rootDir (index / 16 * 512))] log
    if w.1 = false then undo io (linkClusters fs clusters) (clusters.headD 0) w.2
    else releaseOld io (withEntry fs clusters index entry) existing
      (entryClusterLow (linkClusters fs clusters).rootDir index) w.2) = r at hres
  have hlp : SameLayout fs (withEntry fs clusters index entry) := withEntry_layout hm ha
  obtain ⟨hout1, hout2⟩ := rootSector_outside hm.geometry hslot.lt
  rw [writeAll] at hres
  have hwhole := hio.whole log.length ((withEntry fs clusters index entry).rootStart + index / 16)
    (by rw [hlp.rootStart]; omega)
  have hroot' := hio.root log.length ((withEntry fs clusters index entry).rootStart + index / 16)
    (by rw [hlp.rootStart]; omega) (by rw [hlp.rootStart]; omega)
  cases hd : io log.length ((withEntry fs clusters index entry).rootStart + index / 16) with
  | done =>
    rw [hd, Ending.ok, if_pos rfl, writeAll] at hres
    dsimp only at hres
    rw [if_neg (by decide)] at hres
    have hreplay : replay d0 (log ++ [⟨(withEntry fs clusters index entry).rootStart + index / 16,
          sectorOf (withEntry fs clusters index entry).rootDir (index / 16 * 512), .done⟩])
        = withRootSector (withEntry fs clusters index entry) index (replay d0 log) := by
      rw [replay_append]; rfl
    have hprev : existing = true → 2 ≤ entryClusterLow (linkClusters fs clusters).rootDir index →
        ChainOf (withEntry fs clusters index entry)
          (entryClusterLow (linkClusters fs clusters).rootDir index)
          (if existing then chain index else []) := by
      intro hex hge
      subst hex
      rw [hroot] at hge ⊢
      rcases hwf.chains index hslot.live with ⟨hlt, _⟩ | hc
      · omega
      exact hc.congr hlp fun x hx =>
        withEntry_getCluster hm ha (hc.valid x hx) (ha.not_mem hm hwf hslot.live x hx)
    obtain ⟨hext, hok⟩ := releaseOld_extends hpub hkeep hreplay
      (by rw [hlp.dataStart]; exact hio.whole) hprev
    rw [hres] at hext hok
    refine ⟨?_, fun _ => hext.last, fun hne => absurd hok hne⟩
    -- the write of the root sector is the step from the old volume to the new one
    refine (Extends.done (.inl (hold _ hr.keeps)) (.inr ?_)).trans (hext.mono fun d => .inr)
    exact hpub.readsNew (hkeep.mono fun _ _ => trivial)
  | unchanged =>
    simp only [hd, Ending.ok, Bool.false_eq_true, if_false, if_true] at hres
    have hfail := Extends.unchanged hr.keeps ((withEntry fs clusters index entry).rootStart + index / 16)
      (sectorOf (withEntry fs clusters index entry).rootDir (index / 16 * 512))
    have hext := hfail.trans (undo_extends hm ha hfail.last hio)
    rw [hres] at hext
    exact .of_error (by rw [← hres]; rfl) (hext.mono hold)
  | stored => exact absurd hd hroot'
  | torn left => exact absurd hd (hwhole left)

end Publish

/-- The selection gives what the rest of the call needs. -/
theorem allocated_of_select (g : Geometry fs) {count : Nat}
    (hcount : count = (data.length + fs.bpb.sectorsPerCluster * fs.bpb.bytesPerSector - 1)
      / (fs.bpb.sectorsPerCluster * fs.bpb.bytesPerSector))
    (hpos : count ≠ 0) (hmax : count ≤ fat12AtomicMaxClusters)
    (h : fat12SelectAtomicClusters fs count = .ok clusters) : Allocated fs data clusters := by
  have hspc := g.spc_pos
  rw [g.bytesPerSector] at hcount
  unfold fat12SelectAtomicClusters at h
  dsimp only at h
  split at h
  swap
  · cases h
  rename_i hlen
  cases h
  have htotal : (fs.bpb.sectors - fs.dataStart) / fs.bpb.sectorsPerCluster = fs.totalClusters := by
    unfold Fs.totalClusters
    rw [if_neg (by omega), if_neg (by have := g.data_lt; omega)]
  rw [htotal] at hlen ⊢
  obtain ⟨hmem, hnd⟩ := selectFrom_spec fs fs.totalClusters 2 count
  have hsize : 0 < fs.bpb.sectorsPerCluster * 512 := by omega
  have hdm := div_add_mod (data.length + fs.bpb.sectorsPerCluster * 512 - 1)
    (fs.bpb.sectorsPerCluster * 512)
  have hmod := mod_lt (data.length + fs.bpb.sectorsPerCluster * 512 - 1) hsize
  rw [← hcount] at hdm
  have hcomm : ∀ n, 512 * (n * fs.bpb.sectorsPerCluster) = fs.bpb.sectorsPerCluster * 512 * n := by
    intro n; rw [mul_comm n, ← mul_assoc, mul_comm 512]
  refine ⟨fun hc => ?_, by omega, hnd, fun c hc => ?_, fun c hc => (hmem c hc).2.2, ?_, fun _ => ?_⟩
  · rw [hc] at hlen; exact hpos hlen.symm
  · obtain ⟨h1, h2, _⟩ := hmem c hc
    exact g.valid_iff.mpr ⟨h1, by omega⟩
  · rw [zero_add, hlen, hcomm]
    omega
  · have hone := mul_le_mul_left (fs.bpb.sectorsPerCluster * 512) (Nat.pos_of_ne_zero hpos)
    rw [zero_add, hlen, hcomm, mul_sub_one]
    omega

/-- Once the payload and the FAT are written, the disk is ready. -/
theorem ready_of_writes (hm : Mounted device d0 fs) (ha : Allocated fs data clusters) {d1 d2 : Image}
    (hdata : d1 = writes d0 (payloadWrites fs data 0 clusters).1)
    (hfats : d2 = writes d1 (fatWrites (linkClusters fs clusters)))
    (hkeeps : Keeps fs d0 (fun c => c ∉ clusters) d2) : Ready fs d0 data clusters d2 := by
  obtain ⟨hl, -, -, -⟩ := linkClusters_spec hm.geometry ha.nodup ha.valid
  refine ⟨hkeeps, fun i hi => ?_, ?_⟩
  · rw [hfats]
    refine writes_of_mem (fun v hv he => ?_) ?_
    · obtain ⟨copy, sector, _, hsector, rfl⟩ := mem_fatWrites hv
      rw [hl.fatStart, hl.bpb] at he
      obtain rfl : copy = 0 :=
        lt_one_iff.mp (@Nat.lt_of_mul_lt_mul_right fs.bpb.sectorsPerFat _ _ (by omega))
      rw [show sector = i by omega]
    · refine mem_flatMap.mpr ⟨0, mem_range.mpr ?_, mem_map.mpr ⟨i, ?_, ?_⟩⟩
      · rw [hl.bpb]; exact hm.geometry.numFats_pos
      · rw [hl.bpb]; exact mem_range.mpr hi
      · rw [hl.fatStart, zero_mul, add_zero]
  · have hpay := payloadOn_writes (d := d0) hm.geometry ha.enough ha.nodup ha.valid
    rw [zero_mul, mul_zero, ← hdata] at hpay
    refine hpay.congr .refl fun c hc s hs => ?_
    rw [hfats, writes_of_notMem]
    intro v hv he
    obtain ⟨copy, sector, hcopy, hsector, rfl⟩ := mem_fatWrites hv
    rw [hl.fatStart, hl.bpb] at he
    rw [hl.bpb] at hcopy hsector
    have h1 := hm.geometry.root_fits
    have h2 := hm.geometry.copy_end_le hcopy
    unfold Fs.lbaOf at he
    omega

/-- An error before the first write. -/
theorem verdict_early (hm : Mounted device d0 fs) (hwf : WellFormed fs chain)
    (hres : (.error e, fs, []) = r) : Verdict device fs d0 filename data [] r := by
  subst hres
  exact .of_error rfl (.refl ((hm.keeps _).readsOld hm hwf fun c hc => absurd hc not_mem_nil))

/-- From the chosen entry on. -/
theorem replaceEntry_spec (hm : Mounted device d0 fs) (hwf : WellFormed fs chain)
    {encoded : List UInt8} {index : Nat} {existing : Bool} {attributes : UInt8}
    (henc : fat12EncodeRootName filename = .ok encoded)
    (hslot : Slot fs.rootDir encoded fs.bpb.rootEntries index existing)
    (hattr : attributes = 0xFF ∨ attributes &&& 0x08 = 0) (hsize : data.length < 4294967296)
    (hio : Honest fs io) (hres : replaceEntry io fs encoded index existing data attributes = r) :
    Verdict device fs d0 filename data [] r := by
  unfold replaceEntry at hres
  dsimp only at hres
  split at hres
  · exact verdict_early hm hwf hres
  split at hres
  · exact verdict_early hm hwf hres
  rename_i hcount
  split at hres
  · exact verdict_early hm hwf hres
  rename_i clusters hselect
  have ha := allocated_of_select hm.geometry rfl (fun h0 => hcount (.inl h0))
    (not_lt.mp fun hlt => hcount (.inr hlt)) hselect
  have hold : ∀ d, Keeps fs d0 (fun c => c ∉ clusters) d → ReadsOld device fs d0 filename d :=
    fun d h => h.readsOld hm hwf ha.free
  -- the payload goes to clusters nobody has
  have hpayload : Extends (Keeps fs d0 fun c => c ∉ clusters) d0 []
      (fat12WriteAtomicClusters io fs clusters data []).2 := by
    refine writeAll_extends (hm.keeps _) fun w hw n d hd => ?_
    have hen := ha.enough
    obtain ⟨c, hc, s, hs, hlba⟩ := mem_payloadWrites hen w (by rw [zero_mul]; exact hw)
    rw [hlba]
    exact hd.update_data hm.geometry (ha.valid c hc) (fun hn => hn hc) hs
  generalize hw : fat12WriteAtomicClusters io fs clusters data [] = w at hres hpayload
  split at hres
  · rw [← hres]
    exact .of_error rfl (hpayload.mono hold)
  rename_i hwritten
  obtain ⟨hl, _, hother, _⟩ := linkClusters_spec hm.geometry ha.nodup ha.valid
  -- the FAT with the new chain has every other entry as it was
  have hflush := hpayload.trans (hpayload.last.flush hm.geometry hl (fun c _ hc => hother c hc) hio.whole)
  generalize hf : fat12FlushFats io (linkClusters fs clusters) w.2 = f at hres hflush
  split at hres
  · have hext := hflush.trans (undo_extends hm ha hflush.last hio)
    rw [hres] at hext
    exact .of_error (by rw [← hres]; rfl) (hext.mono hold)
  rename_i hflushed
  have hdone : (writeAll io (payloadWrites fs data 0 clusters).1 []).1 = true := by
    unfold fat12WriteAtomicClusters at hw
    rw [← hw] at hwritten
    simp only [Bool.and_eq_false_iff, not_or, Bool.not_eq_false] at hwritten
    exact hwritten.1
  have hfats : replay d0 f.2 = writes (replay d0 w.2) (fatWrites (linkClusters fs clusters)) := by
    rw [← hf]
    refine replay_writeAll ?_
    rw [← hf] at hflushed
    exact Bool.not_eq_false _ ▸ hflushed
  have hready := ready_of_writes hm ha (by rw [← hw]; exact replay_writeAll hdone) hfats hflush.last
  have hpublish := publish_spec hm hwf ha hready henc hslot hattr hsize hio hres
  exact { hpublish with always := (hflush.mono fun d h => .inl (hold d h)).trans hpublish.always }

end Phases

/-- **Crash atomicity.** Take a volume that mounts and whose root chains are well formed,
and call `fat12_atomic_write_root` with any name and data, any of its writes failing, on a
device that is honest about the root directory. Whenever the machine stops, the disk mounts
again, the name reads as it did before (or is as absent), or as the new data, and every other
root file reads as it did. If the call returned `OK` it is the new data; if it returned an
error, the old state. -/
theorem atomicWriteRoot_crash_atomic (device : Option Nat) (d : Image)
    (fatHeap rootHeap : Nat → UInt8) (fs : Fs)
    (hmount : fat12Init device (healthy d) fatHeap rootHeap = .ok fs) (chain : Nat → List Nat)
    (hwf : WellFormed fs chain) (filename data : List UInt8) (attributes : UInt8)
    (hattr : attributes = 0xFF ∨ attributes &&& 0x08 = 0) (requireExisting : Bool)
    (io : Nat → Nat → Ending) (hio : Honest fs io) :
    let r := fat12AtomicWriteRoot io fs filename data attributes requireExisting
    (∀ k, ReadsOld device fs d filename (replay d (r.2.2.take k))
        ∨ ReadsNew device fs d filename data (replay d (r.2.2.take k)))
      ∧ (r.1 = .ok () → ReadsNew device fs d filename data (replay d r.2.2))
      ∧ (r.1 ≠ .ok () → ReadsOld device fs d filename (replay d r.2.2)) := by
  intro r
  have hm := mounted_of_init hmount
  suffices Verdict device fs d filename data [] r from ⟨this.always.always, this.ok, this.error⟩
  have hdef : fat12AtomicWriteRoot io fs filename data attributes requireExisting = r := rfl
  unfold fat12AtomicWriteRoot at hdef
  split at hdef
  · exact verdict_early hm hwf hdef
  split at hdef
  · exact verdict_early hm hwf hdef
  rename_i encoded henc
  have hfound := findEntry_found fs filename
  unfold fat12FindEntry at hfound
  rw [entryName_of_encode henc] at hfound
  unfold fat12FindRootIndex at hdef
  split at hdef
  · rename_i index hfind
    rw [hfind] at hfound
    exact replaceEntry_spec hm hwf henc (slot_of_found hfound) hattr (by omega) hio hdef
  rename_i hfind
  rw [hfind] at hfound
  split at hdef
  · exact verdict_early hm hwf hdef
  split at hdef
  · exact verdict_early hm hwf hdef
  rename_i index hslot
  unfold fat12FindRootSlot at hslot
  split at hslot
  · rename_i index' hfree
    cases hslot
    exact replaceEntry_spec hm hwf henc (slot_of_free hfound hfree) hattr (by omega) hio hdef
  · cases hslot

/-- A volume of eight sectors with one file, `A.B`, of one cluster. -/
def smallDisk : Image := fun lba j =>
  match lba with
  | 0 =>
    match j.val with
    | 12 => 2 | 13 => 1 | 14 => 1 | 16 => 1 | 17 => 16 | 19 => 8 | 22 => 1 | _ => 0
  | 1 =>
    match j.val with
    | 3 => 0xFF | 4 => 0x0F | _ => 0
  | 2 =>
    match j.val with
    | 0 => 65 | 8 => 66 | 11 => 0x20 | 26 => 2 | 28 => 5
    | k => if k < 11 then 32 else 0
  | _ => 7

theorem smallDisk_wellFormed {fs : Fs} (hinit : fat12Init (some 8) (healthy smallDisk) (fun _ => 0) (fun _ => 0)
    = .ok fs) : WellFormed fs (fun _ => [2]) ∧ fs.rootStart = 2 := by
  have hm := mounted_of_init hinit
  have hbpb := hm.bpb
  have hfat : fs.fatStart = 1 := by rw [hm.layout.fatStart, hbpb]; rfl
  have hroot : fs.rootStart = 2 := by rw [hm.layout.rootStart, hbpb]; rfl
  have hdata : fs.dataStart = 3 := by rw [hm.layout.dataStart, hbpb]; rfl
  have hrootDir : ∀ k, k < 512 → fs.rootDir k = byteAt smallDisk (1024 + k) := by
    intro k hk
    rw [hm.root k (by rw [hbpb]; exact lt_of_lt_of_le hk (by decide)), hroot]
  have hlive : ∀ i, Live fs i → i = 0 := by
    intro i hi
    rcases Nat.eq_zero_or_pos i with h0 | hpos
    · exact h0
    · exact absurd (hrootDir 32 (by decide)) (hi.2.1 1 (zero_le _) hpos)
  have hvalid : fs.clusterValid 2 = true := by
    unfold Fs.clusterValid Fs.totalClusters
    rw [hdata, hbpb]
    decide
  refine ⟨⟨fun i hi => ?_, fun i j hi hj hne => ?_⟩, hroot⟩
  · rw [hlive i hi]
    refine .inr ⟨?_, hvalid, ?_⟩
    · unfold entryClusterLow read16
      rw [hrootDir _ (by decide), hrootDir _ (by decide)]
      decide
    · show clusterEnd ≤ fs.getCluster 2
      rw [hm.geometry.getCluster_eq hvalid]
      unfold get12 read16
      rw [hm.fat _ (by rw [hbpb]; decide), hm.fat _ (by rw [hbpb]; decide), hfat]
      decide
  · exact absurd ((hlive i hi).trans (hlive j hj).symm) hne

/-- The root sector is not written, and the FAT is when the call takes the chain back, though that
write is reported failed. -/
def smallIo (n lba : Nat) : Ending :=
  if n = 2 then .unchanged else if n = 3 ∧ lba = 1 then .stored else .done

theorem atomicWriteRoot_small : ∃ fs,
    fat12Init (some 8) (healthy smallDisk) (fun _ => 0) (fun _ => 0) = .ok fs
      ∧ ∀ k, ReadsOld (some 8) fs smallDisk [97, 46, 98] (replay smallDisk
            ((fat12AtomicWriteRoot smallIo fs [97, 46, 98] [1, 2, 3] 0x20 true).2.2.take k))
          ∨ ReadsNew (some 8) fs smallDisk [97, 46, 98] [1, 2, 3] (replay smallDisk
            ((fat12AtomicWriteRoot smallIo fs [97, 46, 98] [1, 2, 3] 0x20 true).2.2.take k)) := by
  obtain ⟨fs, hinit, -⟩ := @init_of_valid (some 8) smallDisk (fun _ => 0) (fun _ => 0) (by decide)
  obtain ⟨hwf, hroot⟩ := smallDisk_wellFormed hinit
  refine ⟨fs, hinit, (atomicWriteRoot_crash_atomic (some 8) smallDisk _ _ fs hinit _ hwf _ _ 0x20
    (.inr (by decide)) true smallIo ⟨fun n lba _ left => ?_, fun n lba hge _ => ?_⟩).1⟩
  · unfold smallIo
    split
    · exact nofun
    · split <;> exact nofun
  · unfold smallIo
    split
    · exact nofun
    · rw [if_neg (by omega)]
      exact nofun

/-- What the file reads as, before it is replaced and after. -/
def smallReads (io : Nat → Nat → Ending) (data : List UInt8) :
    Option (Option (List UInt8) × Option (List UInt8)) := do
  let fs ← (fat12Init (some 8) (healthy smallDisk) (fun _ => 0) (fun _ => 0)).toOption
  let d := replay smallDisk (fat12AtomicWriteRoot io fs [97, 46, 98] data 0x20 true).2.2
  let fs' ← (fat12Init (some 8) (healthy d) (fun _ => 0) (fun _ => 0)).toOption
  pure (fat12ReadFile fs (healthy smallDisk) [97, 46, 98] 1024, fat12ReadFile fs' (healthy d) [97, 46, 98] 1024)

/-- Six hundred bytes go to clusters 3 and 4, and the root sector is stored but reported failed. The
call takes the chain back, and the entry, which is on the disk, finds one cluster of two. -/
theorem atomicWriteRoot_stored_failed :
    (∀ fs, fat12Init (some 8) (healthy smallDisk) (fun _ => 0) (fun _ => 0) = .ok fs →
      WellFormed fs (fun _ => [2]))
    ∧ smallReads (fun n _ => if n = 3 then .stored else .done) (replicate 600 9)
      = some (some [7, 7, 7, 7, 7], some (replicate 512 9)) :=
  ⟨fun _ hinit => (smallDisk_wellFormed hinit).1, by decide +kernel⟩

/-- A mounted FAT is an array of entries. -/
theorem setCluster_getCluster {device : Option Nat} {boot : Sector} (fat rootDir : Nat → UInt8)
    (h : fat12ValidateBpb (parseBpb boot) device = .ok ()) (i j v : Nat) (hv : v < 4096) :
    let fs := Fs.layout (parseBpb boot) fat rootDir
    let fs' := fs.setCluster i v
    fs.clusterValid i = true → fs.clusterValid j = true →
      fs'.getCluster j = (if i = j then v else fs.getCluster j) ∧ fs' = { fs with fat := fs'.fat } ∧
        ∀ k, fs.bpb.sectorsPerFat * fs.bpb.bytesPerSector ≤ k → fs'.fat k = fat k := by
  intro fs fs' hi hj
  have g : Geometry fs := geometry_of_valid (sectors_parse_lt boot) h fat rootDir
  have hset : fs' = { fs with fat := set12 fat i v } := g.setCluster_eq hi v
  have hin := g.entryInFat hi
  rw [Fs.entryInFat, decide_eq_true_eq] at hin
  refine ⟨g.getCluster_set hi hj hv, by rw [hset], fun k hk => ?_⟩
  rw [hset]
  exact (Function.update_of_ne (by omega) ..).trans (Function.update_of_ne (by omega) ..)

theorem setCluster_getCluster_small :
    let fs := Fs.layout (parseBpb (smallDisk 0)) (byteAt smallDisk) fun _ => 0
    (fs.setCluster 2 5).getCluster 3 = fs.getCluster 3 :=
  (@setCluster_getCluster (some 8) (smallDisk 0) _ _ (by decide) 2 3 5 (by decide) (by decide)
    (by decide)).1

end ZephyrOS.Fat12
