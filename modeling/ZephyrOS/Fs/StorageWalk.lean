import ZephyrOS.Fs.StorageCheckWalk

/-!
# The walk over a directory

`storage_walk_directory_long` is the walk of ordinary access. It differs from the one of the
consistency check in what it forgives: it follows at most 4096 clusters, reports every failure
of the allocation table as a disk error, and does not mind a long name left open at the end.
-/

namespace ZephyrOS.Storage

open Lib

section

variable (read : Nat → Except Err Sector) (vol : Volume) (mnt : Mount)

/-- The cluster loop of `storage_walk_directory_long`. -/
def walkLoop {σ : Type} (visitor : LongEntry → σ → Except Err σ) :
    Nat → Nat → Lfn → σ → Except Err σ
  | 0, _, _, _ => .error .overflow
  | rounds + 1, cluster, lfn, context => do
    if cluster < 2 ∨ mnt.totalClusters + 2 ≤ cluster then .error .invalid
    else
      match ← visitSectors mnt visitor read vol (clusterLba mnt cluster)
          mnt.sectorsPerCluster lfn context with
      | (_, context, true) => .ok context
      | (lfn, context, false) =>
        let next ← (nextCluster read vol mnt cluster).mapError fun _ => .disk
        if clusterIsBad mnt next then .error .disk
        else if clusterIsEnd mnt next then .ok context
        else walkLoop visitor rounds next lfn context

/-- `STORAGE_MAX_CHAIN_STEPS`. -/
def maxChainSteps : Nat := 4096

/-- `storage_walk_directory_long`. -/
def walkDirectoryLong {σ : Type} (dir : Dir) (visitor : LongEntry → σ → Except Err σ)
    (context : σ) : Except Err σ :=
  if dir.fixedRoot then do
    let (_, context, _) ←
      visitSectors mnt visitor read vol mnt.rootStart mnt.rootSectors Lfn.reset context
    .ok context
  else walkLoop read vol mnt visitor maxChainSteps dir.cluster Lfn.reset context

end

section

variable {σ : Type} {read : Nat → Except Err Sector} {vol : Volume} {mnt : Mount}
  {visitor : LongEntry → σ → Except Err σ} {c c' : σ}

theorem walkLoop_fold {rounds cluster : Nat} {lfn : Lfn}
    (h : walkLoop read vol mnt visitor rounds cluster lfn c = .ok c') :
    ∃ es, (∀ seen, walkLoop read vol mnt collect rounds cluster lfn seen = .ok (seen ++ es)) ∧
      es.foldlM (fun c e => visitor e c) c = .ok c' := by
  induction rounds generalizing cluster lfn c with
  | zero => cases h
  | succ rounds ih =>
    rw [walkLoop, ite_error_eq_ok] at h
    obtain ⟨hvalid, h⟩ := h
    obtain ⟨⟨l, d, ended⟩, hvis, h⟩ := bind_eq_ok.mp h
    obtain ⟨es, hes, hfold, -⟩ := visitSectors_fold hvis
    cases ended with
    | true =>
      cases h
      refine ⟨es, fun seen => ?_, hfold⟩
      exact ite_error_eq_ok.mpr ⟨hvalid, bind_eq_ok.mpr ⟨_, hes seen, rfl⟩⟩
    | false =>
      obtain ⟨n, hn, h⟩ := bind_eq_ok.mp h
      obtain ⟨hbad, h⟩ := ite_error_eq_ok.mp h
      by_cases hend : clusterIsEnd mnt n = true
      · rw [if_pos hend] at h
        cases h
        refine ⟨es, fun seen => ?_, hfold⟩
        refine ite_error_eq_ok.mpr
          ⟨hvalid, bind_eq_ok.mpr ⟨_, hes seen, bind_eq_ok.mpr ⟨n, hn, ?_⟩⟩⟩
        exact ite_error_eq_ok.mpr ⟨hbad, if_pos hend⟩
      · rw [if_neg hend] at h
        obtain ⟨es', hes', hfold'⟩ := ih h
        refine ⟨es ++ es', fun seen => ?_, ?_⟩
        · refine ite_error_eq_ok.mpr
            ⟨hvalid, bind_eq_ok.mpr ⟨_, hes seen, bind_eq_ok.mpr ⟨n, hn, ?_⟩⟩⟩
          rw [if_neg hend, ← List.append_assoc]
          exact ite_error_eq_ok.mpr ⟨hbad, hes' (seen ++ es)⟩
        · rw [List.foldlM_append, bind_eq_ok]
          exact ⟨d, hfold, hfold'⟩

/-- **A walk is a fold** over the entries of the directory, here too. -/
theorem walkDirectoryLong_fold {dir : Dir}
    (h : walkDirectoryLong read vol mnt dir visitor c = .ok c') :
    ∃ es, walkDirectoryLong read vol mnt dir collect [] = .ok es ∧
      es.foldlM (fun c e => visitor e c) c = .ok c' := by
  unfold walkDirectoryLong at h ⊢
  by_cases hroot : dir.fixedRoot = true
  · rw [if_pos hroot] at h ⊢
    obtain ⟨⟨l, d, ended⟩, hvis, h⟩ := bind_eq_ok.mp h
    cases h
    obtain ⟨es, hes, hfold, -⟩ := visitSectors_fold hvis
    exact ⟨es, bind_eq_ok.mpr ⟨_, hes [], rfl⟩, hfold⟩
  · rw [if_neg hroot] at h ⊢
    obtain ⟨es, hes, hfold⟩ := walkLoop_fold h
    exact ⟨es, hes [], hfold⟩

end

end ZephyrOS.Storage
