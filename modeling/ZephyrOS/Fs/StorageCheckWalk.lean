import ZephyrOS.Fs.StorageCheck
import ZephyrOS.Lib.Outcome

/-!
# A walk is a fold over the entries

Whatever the visitor does, a walk that succeeds has read the directory to its end.
So the directory has a list of entries, the same one for every visitor, and the
walk is that visitor folded over it. This is what lets the check re-walk a directory
for each of its entries and still be understood one entry at a time.

The offsets of the entries are those of distinct slots, in the order of the walk.
-/

namespace ZephyrOS.Storage

open Lib List

/-- The visitor that only remembers. -/
def collect (e : LongEntry) (seen : List LongEntry) : Except Err (List LongEntry) :=
  .ok (seen ++ [e])

section

variable {σ : Type} {mnt : Mount} {visitor : LongEntry → σ → Except Err σ} {lfn : Lfn} {c c' : σ}
  {ended : Bool} {lfn' : Lfn} {read : Nat → Except Err Sector} {vol : Volume} {count : Nat}

/-- The only entry a slot gives is the one parsed at its own offset. -/
theorem readSlot_entryOffset {source : Nat → UInt8} {offset : Nat} {e : LongEntry}
    (h : readSlot mnt lfn source offset = .ok (.entry e)) : e.entryOffset = offset := by
  unfold readSlot at h
  split_ifs at h
  · cases h
  · cases h
  · obtain ⟨_, _, h⟩ := map_eq_ok.mp h; cases h
  · cases h
  · obtain ⟨e', he', h⟩ := map_eq_ok.mp h
    cases h
    unfold shortSlot at he'
    split_ifs at he' with hact hsum
    · split at he'
      · cases he'
      · cases he'; rfl
    · cases he'; rfl

theorem foldlM_collect (es seen : List LongEntry) :
    es.foldlM (fun seen e => collect e seen) seen = .ok (seen ++ es) := by
  induction es generalizing seen with
  | nil => rw [append_nil]; rfl
  | cons e es ih => rw [foldlM_cons, collect, ok_bind, ih, ← append_cons]

/-- The slots give some entries and then an outcome, whatever the visitor. -/
theorem visitSlots_scan (mnt : Mount) (slots : List (Nat × (Nat → UInt8))) (lfn : Lfn) :
    ∃ (es : List LongEntry) (out : Except Err (Lfn × Bool)),
      (es.map LongEntry.entryOffset).Sublist (slots.map Prod.fst) ∧
      ∀ {σ : Type} (visitor : LongEntry → σ → Except Err σ) (c : σ),
        visitSlots mnt visitor slots lfn c = es.foldlM (fun c e => visitor e c) c >>= fun c =>
          out.map fun r => (r.1, c, r.2) := by
  induction slots generalizing lfn with
  | nil => exact ⟨[], .ok (lfn, false), Sublist.refl _, fun _ _ => rfl⟩
  | cons slot slots ih =>
    cases hr : readSlot mnt lfn slot.2 slot.1 with
    | error err =>
      exact ⟨[], .error err, nil_sublist _, fun _ _ => by rw [visitSlots, hr]; rfl⟩
    | ok r =>
      cases r with
      | finish =>
        exact ⟨[], .ok (lfn, true), nil_sublist _, fun _ _ => by rw [visitSlots, hr]; rfl⟩
      | skip l =>
        obtain ⟨es, out, hsub, heq⟩ := ih l
        exact ⟨es, out, hsub.cons _, fun visitor c => by rw [visitSlots, hr]; exact heq visitor c⟩
      | entry e =>
        obtain ⟨es, out, hsub, heq⟩ := ih Lfn.reset
        refine ⟨e :: es, out, ?_, fun visitor c => ?_⟩
        · rw [map_cons, readSlot_entryOffset hr]; exact hsub.cons_cons _
        · rw [visitSlots, hr, foldlM_cons, bind_assoc]
          exact bind_congr (heq visitor)

theorem visitSlots_fold {slots : List (Nat × (Nat → UInt8))}
    (h : visitSlots mnt visitor slots lfn c = .ok (lfn', c', ended)) :
    ∃ es, (∀ seen, visitSlots mnt collect slots lfn seen = .ok (lfn', seen ++ es, ended)) ∧
      es.foldlM (fun c e => visitor e c) c = .ok c' ∧
      (es.map LongEntry.entryOffset).Sublist (slots.map Prod.fst) := by
  obtain ⟨es, out, hsub, heq⟩ := visitSlots_scan mnt slots lfn
  rw [heq, bind_eq_ok] at h
  obtain ⟨d, hd, h⟩ := h
  obtain ⟨r, hr, h⟩ := map_eq_ok.mp h
  cases h
  exact ⟨es, fun seen => by rw [heq, foldlM_collect, hr]; rfl, hd, hsub⟩

/-- The offsets of the slots of a list of sectors. -/
def slotOffsets (vol : Volume) (lbas : List Nat) : List Nat :=
  lbas.flatMap fun lba => (List.range 16).map fun k => sectorOffset vol lba + 32 * k

theorem visitSectors_scan (mnt : Mount) (read : Nat → Except Err Sector) (lba : Nat) (lfn : Lfn) :
    ∃ (es : List LongEntry) (out : Except Err (Lfn × Bool)),
      (es.map LongEntry.entryOffset).Sublist (slotOffsets vol (List.range' lba count)) ∧
      ∀ {σ : Type} (visitor : LongEntry → σ → Except Err σ) (c : σ),
        visitSectors mnt visitor read vol lba count lfn c
          = es.foldlM (fun c e => visitor e c) c >>= fun c =>
            out.map fun r => (r.1, c, r.2) := by
  induction count generalizing lba lfn with
  | zero => exact ⟨[], .ok (lfn, false), nil_sublist _, fun _ _ => rfl⟩
  | succ count ih =>
    cases hsec : readRelative read vol lba with
    | error err =>
      exact ⟨[], .error err, nil_sublist _, fun _ _ => by rw [visitSectors, hsec]; rfl⟩
    | ok sector =>
      obtain ⟨es, out, hsub, heq⟩ := visitSlots_scan mnt (sectorSlots sector (sectorOffset vol lba)) lfn
      have hfirst : (es.map LongEntry.entryOffset).Sublist
          ((range 16).map fun k => sectorOffset vol lba + 32 * k) := by
        exact hsub
      match out with
      | .error err =>
        refine ⟨es, .error err, sublist_append_of_sublist_left hfirst, fun visitor c => ?_⟩
        rw [visitSectors, hsec, ok_bind, visitLongSector, heq, bind_assoc]; rfl
      | .ok (l, true) =>
        refine ⟨es, .ok (l, true), sublist_append_of_sublist_left hfirst, fun visitor c => ?_⟩
        rw [visitSectors, hsec, ok_bind, visitLongSector, heq, bind_assoc]; rfl
      | .ok (l, false) =>
        obtain ⟨es', out', hsub', heq'⟩ := ih (lba + 1) l
        refine ⟨es ++ es', out', ?_, fun visitor c => ?_⟩
        · rw [map_append]; exact hfirst.append hsub'
        · rw [visitSectors, hsec, ok_bind, visitLongSector, heq, bind_assoc, foldlM_append,
            bind_assoc]
          exact bind_congr (heq' visitor)

theorem visitSectors_fold {lba count : Nat}
    (h : visitSectors mnt visitor read vol lba count lfn c = .ok (lfn', c', ended)) :
    ∃ es, (∀ seen, visitSectors mnt collect read vol lba count lfn seen
        = .ok (lfn', seen ++ es, ended)) ∧
      es.foldlM (fun c e => visitor e c) c = .ok c' ∧
      (es.map LongEntry.entryOffset).Sublist (slotOffsets vol (List.range' lba count)) := by
  obtain ⟨es, out, hsub, heq⟩ := visitSectors_scan mnt read lba lfn
  rw [heq, bind_eq_ok] at h
  obtain ⟨d, hd, h⟩ := h
  obtain ⟨r, hr, h⟩ := map_eq_ok.mp h
  cases h
  exact ⟨es, fun seen => by rw [heq, foldlM_collect, hr]; rfl, hd, hsub⟩

/-! ### Chains -/

theorem clusterValid_iff {c : Nat} :
    clusterValid mnt c = true ↔ 2 ≤ c ∧ mnt.totalClusters ≤ 4294967293 ∧ c < mnt.totalClusters + 2 := by
  simp only [clusterValid, Bool.and_eq_true, decide_eq_true_eq, and_assoc]

/-- `Chain mnt next c cs`: from cluster `c` the table `next` leads through the clusters `cs`
of the volume, in this order, to an end-of-chain value. -/
inductive Chain (mnt : Mount) (next : Nat → Except Err Nat) : Nat → List Nat → Prop where
  | last {c v : Nat} : clusterValid mnt c = true → next c = .ok v → clusterIsEnd mnt v = true →
      Chain mnt next c [c]
  | cons {c n : Nat} {cs : List Nat} : clusterValid mnt c = true → next c = .ok n →
      clusterIsEnd mnt n = false → n ≠ 0 → clusterIsBad mnt n = false →
      Chain mnt next n cs → Chain mnt next c (c :: cs)

namespace Chain

variable {next : Nat → Except Err Nat} {c : Nat} {cs : List Nat}

theorem valid (h : Chain mnt next c cs) : ∀ x ∈ cs, clusterValid mnt x = true := by
  induction h with
  | last hv _ _ => exact forall_mem_singleton.mpr hv
  | cons hv _ _ _ _ _ ih => exact forall_mem_cons.mpr ⟨hv, ih⟩

theorem head_mem (h : Chain mnt next c cs) : c ∈ cs := by
  cases h with
  | last => exact mem_singleton.mpr rfl
  | cons => exact mem_cons_self

theorem length_pos (h : Chain mnt next c cs) : 0 < cs.length :=
  length_pos_of_mem h.head_mem

theorem unique {cs' : List Nat} (h : Chain mnt next c cs) (h' : Chain mnt next c cs') :
    cs = cs' := by
  induction h generalizing cs' with
  | last _ hn he =>
    cases h' with
    | last => rfl
    | cons _ hn' he' => rw [hn] at hn'; cases hn'; exact absurd he (by simp [he'])
  | cons _ hn he _ _ _ ih =>
    cases h' with
    | last _ hn' he' => rw [hn] at hn'; cases hn'; exact absurd he' (by simp [he])
    | cons _ hn' _ _ _ hc => rw [hn] at hn'; cases hn'; rw [ih hc]

end Chain

/-! ### Directories -/

/-- The sectors of a chain of clusters. -/
def chainSectors (mnt : Mount) (cs : List Nat) : List Nat :=
  cs.flatMap fun c => List.range' (clusterLba mnt c) mnt.sectorsPerCluster

theorem slotOffsets_cons (c : Nat) (cs : List Nat) :
    slotOffsets vol (chainSectors mnt (c :: cs))
      = slotOffsets vol (List.range' (clusterLba mnt c) mnt.sectorsPerCluster)
        ++ slotOffsets vol (chainSectors mnt cs) := by
  unfold slotOffsets chainSectors
  rw [flatMap_cons, flatMap_append]

theorem checkWalkLoop_scan (mnt : Mount) (rounds cluster : Nat) (lfn : Lfn) :
    ∃ (es : List LongEntry) (out : Except Err Unit),
      (∀ cs, Chain mnt (checkNextCluster read vol mnt) cluster cs →
        (es.map LongEntry.entryOffset).Sublist (slotOffsets vol (chainSectors mnt cs))) ∧
      ∀ {σ : Type} (visitor : LongEntry → σ → Except Err σ) (c : σ),
        checkWalkLoop read vol mnt visitor rounds cluster lfn c
          = es.foldlM (fun c e => visitor e c) c >>= fun c => out.map fun _ => c := by
  induction rounds generalizing cluster lfn with
  | zero => exact ⟨[], .error .overflow, fun _ _ => nil_sublist _, fun _ _ => rfl⟩
  | succ rounds ih =>
    by_cases hvalid : clusterValid mnt cluster = false
    · exact ⟨[], .error .invalid, fun _ _ => nil_sublist _,
        fun _ _ => by rw [checkWalkLoop, if_pos hvalid]; rfl⟩
    obtain ⟨es, out, hsub, heq⟩ :=
      visitSectors_scan mnt read (clusterLba mnt cluster) lfn
    -- the first cluster's slots come first, whatever the chain goes on with
    have hfirst : ∀ cs, Chain mnt (checkNextCluster read vol mnt) cluster cs →
        (es.map LongEntry.entryOffset).Sublist (slotOffsets vol (chainSectors mnt cs)) := by
      intro cs hc
      cases hc <;> rw [slotOffsets_cons] <;> exact sublist_append_of_sublist_left hsub
    -- what the walk stops with if this is its last cluster
    have hlast : ∀ (l : Lfn) {σ : Type} (c : σ), (if l.active then .error .invalid else .ok c)
        = (if l.active then .error .invalid else .ok () : Except Err Unit).map fun _ => c := by
      intro l σ c
      split <;> rfl
    match out with
    | .error err =>
      refine ⟨es, .error err, hfirst, fun visitor c => ?_⟩
      rw [checkWalkLoop, if_neg hvalid, heq, bind_assoc]; rfl
    | .ok (l, true) =>
      refine ⟨es, if l.active then .error .invalid else .ok (), hfirst, fun visitor c => ?_⟩
      rw [checkWalkLoop, if_neg hvalid, heq, bind_assoc]
      exact bind_congr fun c => hlast l c
    | .ok (l, false) =>
      cases hn : checkNextCluster read vol mnt cluster with
      | error err =>
        refine ⟨es, .error err, hfirst, fun visitor c => ?_⟩
        rw [checkWalkLoop, if_neg hvalid, heq, bind_assoc, hn]; rfl
      | ok n =>
        by_cases hend : clusterIsEnd mnt n = true
        · refine ⟨es, if l.active then .error .invalid else .ok (), hfirst, fun visitor c => ?_⟩
          rw [checkWalkLoop, if_neg hvalid, heq, bind_assoc, hn]
          refine bind_congr fun c => Eq.trans ?_ (hlast l c)
          exact if_pos hend
        by_cases hbad : n = 0 ∨ clusterIsBad mnt n = true ∨ clusterValid mnt n = false
        · refine ⟨es, .error .invalid, hfirst, fun visitor c => ?_⟩
          rw [checkWalkLoop, if_neg hvalid, heq, bind_assoc, hn]
          exact bind_congr fun c => (if_neg hend).trans (if_pos hbad)
        obtain ⟨es', out', hsub', heq'⟩ := ih n l
        refine ⟨es ++ es', out', fun cs hc => ?_, fun visitor c => ?_⟩
        · cases hc with
          | last _ hn' he => rw [hn] at hn'; cases hn'; exact absurd he hend
          | cons _ hn' _ _ _ hc =>
            rw [hn] at hn'; cases hn'
            rw [map_append, slotOffsets_cons]
            exact hsub.append (hsub' _ hc)
        · rw [checkWalkLoop, if_neg hvalid, heq, bind_assoc, hn, foldlM_append, bind_assoc]
          refine bind_congr fun c => ?_
          exact (if_neg hend).trans ((if_neg hbad).trans (heq' visitor c))

end

/-- The entries of a directory. -/
def dirEntries (read : Nat → Except Err Sector) (vol : Volume) (mnt : Mount) (dir : Dir) :
    Except Err (List LongEntry) := checkWalkDirectory read vol mnt dir collect []

/-- The offsets a directory has room for. -/
def DirOffsets (read : Nat → Except Err Sector) (vol : Volume) (mnt : Mount) (dir : Dir)
    (offsets : List Nat) : Prop :=
  (dir.fixedRoot = true ∧ offsets = slotOffsets vol (List.range' mnt.rootStart mnt.rootSectors)) ∨
    (dir.fixedRoot = false ∧ ∃ cs, Chain mnt (checkNextCluster read vol mnt) dir.cluster cs ∧
      offsets = slotOffsets vol (chainSectors mnt cs))

variable {read : Nat → Except Err Sector} {vol : Volume} {mnt : Mount} {dir : Dir} {σ : Type}

theorem checkWalkDirectory_scan :
    ∃ (es : List LongEntry) (out : Except Err Unit),
      (∀ offsets, DirOffsets read vol mnt dir offsets →
        (es.map LongEntry.entryOffset).Sublist offsets) ∧
      ∀ {σ : Type} (visitor : LongEntry → σ → Except Err σ) (c : σ),
        checkWalkDirectory read vol mnt dir visitor c
          = es.foldlM (fun c e => visitor e c) c >>= fun c => out.map fun _ => c := by
  by_cases hroot : dir.fixedRoot = true
  · obtain ⟨es, out, hsub, heq⟩ :=
      visitSectors_scan mnt read mnt.rootStart Lfn.reset
    refine ⟨es, out >>= fun r => if r.1.active then .error .invalid else .ok (), ?_, ?_⟩
    · intro offsets hoff
      rcases hoff with ⟨_, rfl⟩ | ⟨hf, _⟩
      · exact hsub
      · exact absurd hroot (by simp [hf])
    · intro σ visitor c
      rw [checkWalkDirectory, if_pos hroot, heq, bind_assoc]
      refine bind_congr fun c => ?_
      match out with
      | .error _ => rfl
      | .ok (l, _) =>
        show (if l.active then .error .invalid else .ok c)
          = (if l.active then .error .invalid else .ok () : Except Err Unit).map fun _ => c
        split <;> rfl
  · obtain ⟨es, out, hsub, heq⟩ :=
      checkWalkLoop_scan mnt mnt.totalClusters dir.cluster Lfn.reset
    refine ⟨es, out, ?_, fun visitor c => ?_⟩
    · intro offsets hoff
      rcases hoff with ⟨ht, _⟩ | ⟨_, cs, hc, rfl⟩
      · exact absurd ht hroot
      · exact hsub cs hc
    · rw [checkWalkDirectory, if_neg hroot]; exact heq visitor c

/-- **A walk is a fold.** A walk succeeds exactly if the directory can be read to its end and
its visitor folded over the entries. -/
theorem checkWalkDirectory_iff {visitor : LongEntry → σ → Except Err σ}
    {c c' : σ} : checkWalkDirectory read vol mnt dir visitor c = .ok c' ↔
      ∃ es, dirEntries read vol mnt dir = .ok es ∧
        es.foldlM (fun c e => visitor e c) c = .ok c' := by
  obtain ⟨es, out, _, heq⟩ := checkWalkDirectory_scan
  rw [dirEntries, heq, heq, foldlM_collect]
  cases out with
  | error err =>
    refine ⟨fun h => ?_, fun h => ?_⟩
    · obtain ⟨_, _, h⟩ := bind_eq_ok.mp h
      cases h
    · obtain ⟨_, h, _⟩ := h
      cases h
  | ok _ =>
    rw [bind_eq_ok]
    refine ⟨fun h => ?_, fun h => ?_⟩
    · obtain ⟨d, hd, h⟩ := h
      cases h
      exact ⟨es, rfl, hd⟩
    · obtain ⟨_, h, hfold⟩ := h
      cases h
      exact ⟨c', hfold, rfl⟩

/-- The entries are found in distinct slots, in the order of the walk. -/
theorem dirEntries_offsets {es : List LongEntry} {offsets : List Nat}
    (h : dirEntries read vol mnt dir = .ok es) (hoff : DirOffsets read vol mnt dir offsets) :
    (es.map LongEntry.entryOffset).Sublist offsets := by
  obtain ⟨es', out, hsub, heq⟩ := checkWalkDirectory_scan
  rw [dirEntries, heq, foldlM_collect] at h
  obtain ⟨_, _, h⟩ := map_eq_ok.mp h
  cases h
  exact hsub offsets hoff

end ZephyrOS.Storage
