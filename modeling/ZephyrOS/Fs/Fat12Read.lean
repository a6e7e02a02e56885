import ZephyrOS.Fs.Fat12Mount

/-!
# Reading a chain

Two facts about `fat12_read_file`. Between two volumes that agree on a file's entry,
on the FAT entries of its chain and on the sectors of its chain, it reads the same.
And from a chain whose sectors hold a payload, it reads the payload.
-/

namespace ZephyrOS.Fat12

open Lib List Nat

/-- The chain that starts at `c`: clusters of the volume, each the successor of the one
before, and after the last an end mark. -/
def ChainOf (fs : Fs) : Nat → List Nat → Prop
  | c, [] => clusterEnd ≤ c
  | c, x :: xs => c = x ∧ fs.clusterValid x = true ∧ ChainOf fs (fs.getCluster x) xs

/-- A cluster has the same successor and the same sectors in both volumes. -/
structure Agree (fs fs' : Fs) (d d' : Image) (c : Nat) : Prop where
  next : fs'.getCluster c = fs.getCluster c
  data : ∀ s, s < fs.bpb.sectorsPerCluster → d' (fs.lbaOf c + s) = d (fs.lbaOf c + s)

variable {fs : Fs} {cs : List Nat} {data : List UInt8} {fs' : Fs} {d d' : Image} {i n m x : Nat}

theorem ChainOf.valid : ∀ {cs : List Nat} {c : Nat}, ChainOf fs c cs →
    ∀ x ∈ cs, fs.clusterValid x = true
  | [], _, _ => nofun
  | _ :: _, _, ⟨_, hy, hrest⟩ => forall_mem_cons.mpr ⟨hy, hrest.valid⟩

/-- An end mark is no cluster. -/
theorem Geometry.end_invalid {c : Nat} (g : Geometry fs) (hc : clusterEnd ≤ c) :
    fs.clusterValid c ≠ true := by
  intro hv
  have h1 := (g.valid_iff.mp hv).2
  have h2 := g.clusters_lt
  unfold clusterEnd at hc
  omega

theorem ChainOf.congr (hl : SameLayout fs fs') : ∀ {cs : List Nat} {c : Nat}, ChainOf fs c cs →
    (∀ x ∈ cs, fs'.getCluster x = fs.getCluster x) → ChainOf fs' c cs
  | [], _, h, _ => h
  | x :: cs, c, ⟨he, hv, hrest⟩, h => by
    refine ⟨he, (hl.clusterValid x).trans hv, ?_⟩
    rw [h x mem_cons_self]
    exact hrest.congr hl fun y hy => h y (mem_cons_of_mem _ hy)

theorem readSectors_congr {read read' : Nat → Option Sector} {fileSize maxSize lba : Nat} :
    ∀ {n s : Nat} {acc : List UInt8}, (∀ j, s ≤ j → j < s + n → read' (lba + j) = read (lba + j)) →
    readSectors read' fileSize maxSize lba s acc n = readSectors read fileSize maxSize lba s acc n
  | 0, _, _, _ => rfl
  | n + 1, s, acc, h => by
    rw [readSectors, readSectors, h s (le_refl _) (by omega)]
    cases read (lba + s) with
    | none => rfl
    | some sector =>
      dsimp only
      split
      · rfl
      split
      · rfl
      · exact readSectors_congr fun j h1 h2 => h j (by omega) (by omega)

/-- Reading down a chain the two volumes agree on. -/
theorem readChain_congr {fileSize maxSize : Nat} (g : Geometry fs) (hl : SameLayout fs fs') :
    ∀ {steps : Nat} {cs : List Nat} {c : Nat} {acc : List UInt8}, ChainOf fs c cs →
    (∀ x ∈ cs, Agree fs fs' d d' x) →
    readChain fs' (healthy d') fileSize maxSize steps c acc
      = readChain fs (healthy d) fileSize maxSize steps c acc
  | 0, _, _, _, _, _ => rfl
  | steps + 1, [], c, acc, hc, _ => by
    have hinvalid := g.end_invalid hc
    rw [readChain, readChain, hl.clusterValid, if_neg (fun hc => hinvalid hc.1),
      if_neg (fun hc => hinvalid hc.1)]
  | steps + 1, x :: cs, c, acc, ⟨hcx, hv, hrest⟩, hagree => by
    subst hcx
    have ha := hagree c mem_cons_self
    rw [readChain, readChain, hl.clusterValid, hl.clusterLba, g.clusterLba_eq hv, hl.bpb, ha.next]
    split
    · dsimp only
      rw [@readSectors_congr (healthy d) (healthy d') fileSize maxSize (fs.lbaOf c)
        fs.bpb.sectorsPerCluster 0 acc fun j _ hj => by unfold healthy; rw [ha.data j (by omega)]]
      cases readSectors (healthy d) fileSize maxSize (fs.lbaOf c) 0 acc
          fs.bpb.sectorsPerCluster with
      | none => rfl
      | some acc' =>
        exact readChain_congr g hl hrest fun y hy => hagree y (mem_cons_of_mem _ hy)
    · rfl

/-- The chain of entry `i`; an entry whose cluster is 0 or 1 has none. -/
def FileChain (fs : Fs) (i : Nat) (cs : List Nat) : Prop :=
  (entryClusterLow fs.rootDir i < 2 ∧ cs = []) ∨ ChainOf fs (entryClusterLow fs.rootDir i) cs

theorem FileChain.valid (h : FileChain fs i cs) : ∀ x ∈ cs, fs.clusterValid x = true := by
  intro x hx
  rcases h with ⟨_, rfl⟩ | h
  · exact absurd hx not_mem_nil
  · exact h.valid x hx

/-- Reading a file whose entry is found in both places with the same fields. -/
theorem readFile_congr {filename : List UInt8}
    (g : Geometry fs) (hl : SameLayout fs fs') (hfind : fat12FindEntry fs filename = some i)
    (hfind' : fat12FindEntry fs' filename = some i)
    (hcluster : entryClusterLow fs'.rootDir i = entryClusterLow fs.rootDir i)
    (hsize : entryFileSize fs'.rootDir i = entryFileSize fs.rootDir i)
    (hchain : FileChain fs i cs) (hagree : ∀ x ∈ cs, Agree fs fs' d d' x) (maxSize : Nat) :
    fat12ReadFile fs' (healthy d') filename maxSize
      = fat12ReadFile fs (healthy d) filename maxSize := by
  unfold fat12ReadFile
  rw [hfind, hfind']
  dsimp only
  rw [hcluster, hsize, hl.clusterValid]
  split
  · rfl
  rcases hchain with ⟨hlt, _⟩ | hchain
  · -- no chain: the walk ends before its first cluster
    have hinvalid : fs.clusterValid (entryClusterLow fs.rootDir i) ≠ true := fun hv => by
      have := (g.valid_iff.mp hv).1
      omega
    rw [show fat12ChainLimit = 4095 + 1 from rfl, readChain, readChain, hl.clusterValid,
      if_neg (fun hc => hinvalid hc.1), if_neg (fun hc => hinvalid hc.1)]
  · exact readChain_congr g hl hchain hagree

/-! ### Reading a payload back -/

/-- Sector `k` of the payload, zeros after its end. -/
def payloadAt (data : List UInt8) (k : Nat) : Sector := fun j => data.getD (512 * k + j) 0

/-- What is copied out of one sector of the payload. -/
theorem payload_chunk (maxSize : Nat) :
    (List.range (min (min 512 (data.length - 512 * n)) (maxSize - 512 * n))).map
        (Sector.byte (payloadAt data n))
      = ((data.take maxSize).drop (512 * n)).take 512 := by
  generalize hp : 512 * n = p
  apply ext_getElem
  · simp only [length_map, length_range, length_take, length_drop]
    omega
  · intro k hk _
    rw [length_map, length_range] at hk
    simp only [getElem_map, getElem_range, getElem_take, getElem_drop]
    have hk' : k < 512 := by omega
    simp only [Sector.byte, payloadAt]
    rw [mod_eq_of_lt hk', hp, getD_eq_getElem _ _ (by omega)]

/-- The sectors of one cluster, when they are those of the payload from the `n`-th on. -/
theorem readSectors_payload {read : Nat → Option Sector} {maxSize lba : Nat} :
    ∀ {s n : Nat}, (∀ j, j < m → 512 * (n + j) < data.length →
        read (lba + s + j) = some (payloadAt data (n + j))) →
    512 * n < data.length → 512 * n < maxSize →
    readSectors read data.length maxSize lba s ((data.take maxSize).take (512 * n)) m
      = some ((data.take maxSize).take (512 * (n + m))) := by
  induction m with
  | zero => intro s n _ _ _; rw [readSectors, add_zero]
  | succ m ih =>
    intro s n h hn hn'
    have hlen : ((data.take maxSize).take (512 * n)).length = 512 * n := by
      simp only [length_take]; omega
    have hread := h 0 (by omega) hn
    rw [add_zero, add_zero] at hread
    rw [readSectors, hread]
    dsimp only
    rw [hlen, if_neg (by omega), payload_chunk, ← take_add, ← mul_succ]
    by_cases hdone : data.length ≤ 512 * (n + 1) ∨ maxSize ≤ 512 * (n + 1)
    · -- the payload, or the buffer, ends in this sector
      have hall : ∀ q, n + 1 ≤ q → (data.take maxSize).take (512 * q) = data.take maxSize := by
        intro q hq
        apply take_of_length_le
        rw [length_take]
        omega
      rw [hall (n + 1) (le_refl _), hall (n + (m + 1)) (by omega), if_pos]
      rw [length_take]
      omega
    · obtain ⟨hdata, hmax⟩ := not_or.mp hdone
      rw [if_neg (by simp only [length_take]; omega)]
      have hnext : ∀ j, j < m → 512 * (n + 1 + j) < data.length →
          read (lba + (s + 1) + j) = some (payloadAt data (n + 1 + j)) := by
        intro j hj hlt
        have hj' : n + (j + 1) = n + 1 + j := by omega
        have := h (j + 1) (by omega) (by rw [hj']; exact hlt)
        rwa [show lba + s + (j + 1) = lba + (s + 1) + j by omega, hj'] at this
      rw [ih hnext (not_le.mp hdata) (not_le.mp hmax), show n + 1 + m = n + (m + 1) by omega]

/-- The clusters `cs` hold the payload from its cluster `n` on, and no cluster is idle. -/
def PayloadOn (fs : Fs) (d : Image) (data : List UInt8) : Nat → List Nat → Prop
  | n, [] => data.length ≤ 512 * (n * fs.bpb.sectorsPerCluster)
  | n, x :: xs =>
    512 * (n * fs.bpb.sectorsPerCluster) < data.length
      ∧ (∀ s, s < fs.bpb.sectorsPerCluster →
          512 * (n * fs.bpb.sectorsPerCluster + s) < data.length →
          d (fs.lbaOf x + s) = payloadAt data (n * fs.bpb.sectorsPerCluster + s))
      ∧ PayloadOn fs d data (n + 1) xs

/-- Reading down a chain that holds a payload. -/
theorem readChain_payload {maxSize : Nat}
    (g : Geometry fs) : ∀ {cs : List Nat} {steps c n : Nat}, ChainOf fs c cs →
    PayloadOn fs d data n cs → cs.length ≤ steps →
    readChain fs (healthy d) data.length maxSize steps c
        ((data.take maxSize).take (512 * (n * fs.bpb.sectorsPerCluster)))
      = some (data.take maxSize)
  | [], steps, c, n, hc, hp, _ => by
    have hall : (data.take maxSize).take (512 * (n * fs.bpb.sectorsPerCluster))
        = data.take maxSize := by
      apply take_of_length_le
      have hlen : data.length ≤ 512 * (n * fs.bpb.sectorsPerCluster) := hp
      rw [length_take]
      omega
    rw [hall]
    cases steps with
    | zero => rfl
    | succ steps => rw [readChain, if_neg (fun hv => g.end_invalid hc hv.1)]
  | x :: cs, 0, c, n, _, _, hsteps => absurd hsteps (by simp)
  | x :: cs, steps + 1, c, n, ⟨hcx, hv, hrest⟩, ⟨hn, hdata, hp⟩, hsteps => by
    subst hcx
    rw [readChain]
    by_cases hmax : 512 * (n * fs.bpb.sectorsPerCluster) < maxSize
    · rw [if_pos ⟨hv, by simp only [length_take]; omega⟩, g.clusterLba_eq hv]
      dsimp only
      rw [readSectors_payload ?_ hn hmax]
      · rw [← succ_mul]
        exact readChain_payload g hrest hp (le_of_succ_le_succ hsteps)
      · intro j hj hlt
        unfold healthy
        rw [add_zero, hdata j hj hlt]
    · -- the buffer is full
      have hall : (data.take maxSize).take (512 * (n * fs.bpb.sectorsPerCluster))
          = data.take maxSize := by
        apply take_of_length_le
        rw [length_take]
        omega
      rw [hall, if_neg]
      rintro ⟨_, hlt⟩
      rw [length_take] at hlt
      omega

/-! ### Writing a payload -/

theorem payloadSector_eq :
    payloadSector data (512 * n) (min (data.length - 512 * n) 512) = payloadAt data n := by
  funext j
  unfold payloadSector payloadAt
  split
  · rfl
  · rw [getD_eq_default _ _ (by omega)]

/-- The writes of one cluster from its sector `s` on: the payload from its sector `n` on,
up to the end of either. -/
theorem clusterWrites_spec {lba : Nat} (m : Nat) : ∀ {s n : Nat}, 512 * n < data.length →
    (∀ w, w ∈ (clusterWrites data lba s (512 * n) m).1 ↔
      ∃ j, j < m ∧ 512 * (n + j) < data.length ∧ w = (lba + s + j, payloadAt data (n + j)))
    ∧ (clusterWrites data lba s (512 * n) m).2 = min (512 * (n + m)) data.length := by
  induction m with
  | zero =>
    intro s n hn
    refine ⟨fun w => ⟨fun h => absurd h (by simp [clusterWrites]), ?_⟩, ?_⟩
    · omega
    · rw [clusterWrites, add_zero]
      rw [min_eq_left (le_of_lt hn)]
  | succ m ih =>
    intro s n hn
    rw [clusterWrites, payloadSector_eq]
    by_cases hlast : 512 * n + min (data.length - 512 * n) 512 = data.length
    · rw [if_pos hlast]
      refine ⟨fun w => ?_, by omega⟩
      rw [mem_singleton]
      refine ⟨fun h => ⟨0, by omega, hn, h⟩, ?_⟩
      rintro ⟨j, hj, hlt, rfl⟩
      have hj0 : j = 0 := by omega
      rw [hj0]
      rfl
    · rw [if_neg hlast]
      have hchunk : 512 * n + min (data.length - 512 * n) 512 = 512 * (n + 1) := by omega
      rw [hchunk]
      obtain ⟨hmem, hwritten⟩ := @ih (s + 1) (n + 1) (by omega)
      refine ⟨fun w => ?_, ?_⟩
      · -- the first write of the payload, or one of those that follow
        rw [mem_cons, hmem, exists_lt_succ_left]
        refine or_congr (and_iff_right hn).symm (exists_congr fun j => ?_)
        rw [show n + (j + 1) = n + 1 + j by omega, show lba + s + (j + 1) = lba + (s + 1) + j by omega]
      · rw [hwritten, show n + 1 + m = n + (m + 1) by omega]

/-- The clusters are just enough for what is left of the payload from cluster `n` on. -/
def Enough (fs : Fs) (data : List UInt8) (n : Nat) (cs : List Nat) : Prop :=
  data.length ≤ 512 * ((n + cs.length) * fs.bpb.sectorsPerCluster)
    ∧ (cs ≠ [] → 512 * ((n + cs.length - 1) * fs.bpb.sectorsPerCluster) < data.length)

theorem Enough.tail (h : Enough fs data n (x :: cs)) : Enough fs data (n + 1) cs := by
  obtain ⟨h1, h2⟩ := h
  rw [length_cons, show n + (cs.length + 1) = n + 1 + cs.length by omega] at h1
  refine ⟨h1, fun _ => ?_⟩
  have h2' := h2 (by simp)
  rwa [length_cons, show n + (cs.length + 1) - 1 = n + 1 + cs.length - 1 by omega] at h2'

theorem Enough.head (h : Enough fs data n (x :: cs)) :
    512 * (n * fs.bpb.sectorsPerCluster) < data.length := by
  have h2 := h.2 (by simp)
  have hle : 512 * (n * fs.bpb.sectorsPerCluster)
      ≤ 512 * ((n + (x :: cs).length - 1) * fs.bpb.sectorsPerCluster) :=
    mul_le_mul_left _ (mul_le_mul_right _ (by rw [length_cons]; omega))
  omega

/-- The writes of the first cluster, and of the others from the next cluster of the payload on. -/
theorem payloadWrites_cons (hen : Enough fs data n (x :: cs)) :
    (payloadWrites fs data (512 * (n * fs.bpb.sectorsPerCluster)) (x :: cs)).1
      = (clusterWrites data (fs.lbaOf x) 0 (512 * (n * fs.bpb.sectorsPerCluster))
          fs.bpb.sectorsPerCluster).1
        ++ (payloadWrites fs data (512 * ((n + 1) * fs.bpb.sectorsPerCluster)) cs).1 := by
  rw [payloadWrites]
  dsimp only
  rw [(clusterWrites_spec _ hen.head).2, ← succ_mul]
  cases cs with
  | nil => rfl
  | cons y cs => rw [min_eq_left (le_of_lt hen.tail.head), Fs.lbaOf]

/-- Where a payload write goes. -/
theorem mem_payloadWrites : ∀ {cs : List Nat} {n : Nat},
    Enough fs data n cs →
    ∀ w ∈ (payloadWrites fs data (512 * (n * fs.bpb.sectorsPerCluster)) cs).1,
      ∃ c ∈ cs, ∃ s, s < fs.bpb.sectorsPerCluster ∧ w.1 = fs.lbaOf c + s
  | [], _, _, w, hw => absurd hw (by simp [payloadWrites])
  | x :: cs, n, hen, w, hw => by
    rw [payloadWrites_cons hen, mem_append] at hw
    rcases hw with hw | hw
    · obtain ⟨j, hj, _, rfl⟩ := ((clusterWrites_spec _ hen.head).1 w).mp hw
      exact ⟨x, mem_cons_self, j, hj, rfl⟩
    · obtain ⟨c, hc, hrest⟩ := mem_payloadWrites hen.tail w hw
      exact ⟨c, mem_cons_of_mem _ hc, hrest⟩

/-- All the payload writes made, the clusters hold the payload. -/
theorem payloadOn_writes (g : Geometry fs) :
    ∀ {cs : List Nat} {n : Nat} {d : Image}, Enough fs data n cs → cs.Nodup →
    (∀ c ∈ cs, fs.clusterValid c = true) →
    PayloadOn fs (writes d (payloadWrites fs data (512 * (n * fs.bpb.sectorsPerCluster)) cs).1) data
      n cs
  | [], n, d, hen, _, _ => hen.1
  | x :: cs, n, d, hen, hnd, hvalid => by
    have hmem := (@clusterWrites_spec data (fs.lbaOf x) fs.bpb.sectorsPerCluster 0 _ hen.head).1
    rw [payloadWrites_cons hen, writes_append]
    refine ⟨hen.head, fun s hs hlt => ?_, payloadOn_writes g hen.tail (nodup_cons.mp hnd).2
      fun c hc => hvalid c (mem_cons_of_mem _ hc)⟩
    -- the later clusters are others, so this sector is as the writes of `x` left it
    rw [writes_of_notMem]
    · refine writes_of_mem (fun w hw he => ?_) ((hmem _).mpr ⟨s, hs, hlt, rfl⟩)
      obtain ⟨j, _, _, rfl⟩ := (hmem w).mp hw
      rw [show j = s from Nat.add_left_cancel he]
    · intro w hw he
      obtain ⟨c, hc, s', hs', hlba⟩ := mem_payloadWrites hen.tail w hw
      have := (g.lba_inj (hvalid x mem_cons_self) (hvalid c (mem_cons_of_mem _ hc)) hs hs'
        (he.symm.trans hlba)).1
      subst this
      exact (nodup_cons.mp hnd).1 hc

end ZephyrOS.Fat12
