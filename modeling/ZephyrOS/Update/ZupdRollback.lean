import ZephyrOS.Update.ZupdApply

/-!
# Rolling an update back

`update_rollback` from a machine that has nothing to do. The journal is built from the state and the
backups of the last update, and recovery carries on what was begun, so a rollback passes only volumes
of the transaction that replaces the targets by their backups.

A file can be rolled back only if the state has it now: of a file that is missing there would be no
record that can be read back. Every state the updater writes is such a state.
-/

namespace ZephyrOS.Zupd

open Lib RootFiles List
open Update (Version Base Slot bySlot)

variable {P : Scene → Prop} {s : State} {env : Env} {target : Target} {v₀ : Scene} {options : Options}

/-! ### The transaction of a rollback -/

/-- The targets that can be rolled back. -/
def rollbackTargets (s : State) : List Target := [0, 1, 2].filter fun target => (s.rollback target).present

theorem mem_rollbackTargets : target ∈ rollbackTargets s ↔ (s.rollback target).present = true := by
  rw [rollbackTargets, mem_filter]
  exact ⟨fun h => h.2, fun h => ⟨mem_targets target, h⟩⟩

def rollbackEntries (s : State) : List JournalEntry :=
  (rollbackTargets s).map fun target => ⟨target, s.current target, s.rollback target⟩

theorem mem_rollbackEntries {entry : JournalEntry} : entry ∈ rollbackEntries s ↔
    (s.rollback entry.target).present = true
      ∧ entry = ⟨entry.target, s.current entry.target, s.rollback entry.target⟩ := by
  rw [rollbackEntries, mem_map]
  constructor
  · rintro ⟨target, htarget, rfl⟩
    exact ⟨mem_rollbackTargets.mp htarget, rfl⟩
  · rintro ⟨hpresent, heq⟩
    exact ⟨entry.target, mem_rollbackTargets.mpr hpresent, heq.symm⟩

theorem targets_rollbackEntries :
    (rollbackEntries s).map JournalEntry.target = rollbackTargets s := by
  rw [rollbackEntries, map_map]
  exact map_id' _

theorem nodup_rollbackEntries : ((rollbackEntries s).map JournalEntry.target).Nodup := by
  rw [targets_rollbackEntries]
  exact Pairwise.filter _ (by decide)

/-- The journal of a rollback. -/
def rollbackJournal (memory : Memory) : Journal :=
  { sequence := memory.journal.sequence, kind := .rollback, phase := .prepared
    slot := memory.state.rollbackSlot, progress := 0, baseStateSequence := memory.state.sequence
    base := memory.state.installed, target := memory.state.previous
    entries := rollbackEntries memory.state }

/-- The contents of the targets after a rollback. -/
def rolledBack (s : State) (files : Files Path) (target : Target) : Option (List UInt8) :=
  if (s.rollback target).present = true then files (.backup s.rollbackSlot target)
  else files (.target target)

/-- Everything that has to hold for a rollback to be journaled. -/
structure Reversible (env : Env) (v₀ : Scene) : Prop where
  settled : Settled env v₀
  /-- The files that can be rolled back are there now. -/
  present : ∀ target, (v₀.memory.state.rollback target).present = true →
    (v₀.memory.state.current target).present = true
  available : v₀.memory.state.rollbackAvailable = true
  ne : rollbackEntries v₀.memory.state ≠ []
  backups : ∀ target, (v₀.memory.state.rollback target).present = true →
    Describes env (v₀.memory.state.rollback target)
      (v₀.files (.backup v₀.memory.state.rollbackSlot target))

section Reversible

variable {env : Env} {v₀ : Scene} (h : Reversible env v₀)
include h

/-- There is a state record, since the baseline has nothing to roll back. -/
theorem Reversible.stateOk : StateOk v₀.memory.state := by
  cases hslot : v₀.memory.stateSlot with
  | some slot =>
    have hstate := h.settled.state
    rw [hslot] at hstate
    exact hstate.ok
  | none =>
    have havailable := h.available
    rw [(h.settled.baseline hslot).fields] at havailable
    cases havailable

theorem Reversible.journal_ok : JournalOk (rollbackJournal v₀.memory) where
  sequence_lt := h.settled.journal.ok.sequence_lt
  baseSequence_lt := h.stateOk.sequence_lt
  base := h.stateOk.installed
  target := h.stateOk.previous
  entries entry hentry := by
    obtain ⟨hpresent, heq⟩ := mem_rollbackEntries.mp hentry
    rw [heq, JournalEntry.consistent, h.present _ hpresent, hpresent, h.stateOk.current,
      h.stateOk.rollback]
    rfl
  count_le := by
    show (rollbackEntries v₀.memory.state).length ≤ 3
    rw [rollbackEntries, length_map]
    exact length_filter_le _ _
  nodup := nodup_rollbackEntries
  progress_le := Nat.zero_le _
  consistent := by simp [Journal.consistent, rollbackJournal, h.ne]

theorem Reversible.next_ok {sequence : Nat} (hseq : sequence < 4294967296) :
    StateOk { rollbackStateFromJournal (rollbackJournal v₀.memory) v₀.memory.state with
      sequence := sequence } where
  sequence_lt := hseq
  installed := h.stateOk.previous
  previous := baseOk_zero
  current := withEntries_cases nodup_rollbackEntries (p := fun _ file => file.consistent = true)
    (fun entry hentry => by
      rw [(mem_rollbackEntries.mp hentry).2]
      exact h.stateOk.rollback _)
    (fun target _ => h.stateOk.current target)
  rollback _ := show FileState.absent.consistent = true by decide
  consistent := rfl

/-- The transaction of the rollback. -/
def Reversible.task (h : Reversible env v₀) : Task env where
  state := v₀.memory.state
  stateSlot := v₀.memory.stateSlot
  journal := rollbackJournal v₀.memory
  next := rollbackStateFromJournal (rollbackJournal v₀.memory) v₀.memory.state
  old := fun target => v₀.files (.target target)
  new := rolledBack v₀.memory.state v₀.files
  kind_ne := nofun
  journal_ok := h.journal_ok
  next_eq := rfl
  next_ok _ hseq := h.next_ok hseq
  described := h.settled.described
  oldFile_eq entry hentry := by rw [(mem_rollbackEntries.mp hentry).2]
  newFile entry hentry := by
    obtain ⟨hpresent, heq⟩ := mem_rollbackEntries.mp hentry
    rw [rolledBack, if_pos hpresent, heq]
    exact h.backups _ hpresent
  same target htarget := by
    have hmem : target ∉ rollbackTargets v₀.memory.state := by
      rw [← targets_rollbackEntries]
      exact htarget
    rw [rolledBack, if_neg fun hpresent => hmem (mem_rollbackTargets.mpr hpresent)]
  baseline hslot := by
    have havailable := h.available
    rw [(h.settled.baseline hslot).fields] at havailable
    cases havailable

theorem Reversible.leads : h.task.Leads v₀
    (rolledBack v₀.memory.state v₀.files) v₀.memory.state.previous := ⟨rfl, rfl, rfl, rfl, rfl⟩

end Reversible

/-! ### Building the journal -/

theorem calm_rollbackEntry :
    Calmly P (rollbackEntry env s target)
      (fun entry v => P v ∧ entry = ⟨target, s.current target, s.rollback target⟩
        ∧ Describes env (s.rollback target) (v.files (.backup s.rollbackSlot target)))
      (fun _ => P) :=
  .attempt_bind
    (.bind (.postError calm_verifyRootFile
      (fun _ _ h => h.1)) fun _ => .conseq calm_verifyRootFile
      (fun _ _ h => h.1) (fun _ _ h => h.1.1))
    (fun _ => .lift_bind nofun fun _ _ => .pure fun _ h => ⟨h.1, rfl, h.2⟩)
    fun _ => .lift_bind (fun _ _ _ h => h) nofun

theorem forall₂_eq_map {α β : Type} {f : α → β} {R : α → Prop} {xs : List α} {ys : List β}
    (h : List.Forall₂ (fun x y => y = f x ∧ R x) xs ys) : ys = xs.map f ∧ ∀ x ∈ xs, R x := by
  induction h with
  | nil => exact ⟨rfl, nofun⟩
  | cons hx _ ih =>
    rw [map_cons, ← hx.1, ← ih.1]
    exact ⟨rfl, forall_mem_cons.mpr ⟨hx.2, ih.2⟩⟩

theorem calm_buildRollbackJournal (hsettled : Settled env v₀)
    (hpresent : ∀ target, (v₀.memory.state.rollback target).present = true →
    (v₀.memory.state.current target).present = true) :
    Calmly (Resting env v₀) (buildRollbackJournal env)
      (fun j v => Resting env v₀ v ∧ j = rollbackJournal v₀.memory ∧ Reversible env v₀)
      (fun _ => Resting env v₀) := by
  refine .inspect_bind fun memory => ?_
  refine .known (c := memory.state = v₀.memory.state ∧ memory.journal = v₀.memory.journal) ?_ ?_
  · rintro v ⟨hv, rfl⟩
    exact ⟨hv.1.same.1, hv.1.same.2.2.1⟩
  rintro ⟨hstate, hjournal⟩
  rw [hstate, hjournal]
  refine .pre ?_ fun _ h => h.1
  refine .ensure_bind (fun _ _ h => h) fun havailable => .bind (.collect (S := fun target entry =>
      entry = ⟨target, v₀.memory.state.current target, v₀.memory.state.rollback target⟩
        ∧ Describes env (v₀.memory.state.rollback target)
          (v₀.files (.backup v₀.memory.state.rollbackSlot target)))
    (fun target => calm_rollbackEntry.post ?_) _) fun entries => .learn fun h => ?_
  · rintro entry v ⟨hv, heq, hdescribes⟩
    rw [hv.2] at hdescribes
    exact ⟨hv, heq, hdescribes⟩
  obtain ⟨hentries, hbackups⟩ := forall₂_eq_map h
  refine .ensure_bind (fun _ _ h => h) fun hcount => .bind .read fun files =>
    .lift_bind (fun _ _ _ h => h) fun _ _ => .pure fun v hv =>
      ⟨hv, ?_, hsettled, hpresent, havailable, ?_, fun target htarget => ?_⟩
  · rw [hentries]; rfl
  · rw [hentries] at hcount
    exact hcount.2
  · exact hbackups target (mem_rollbackTargets.mpr htarget)

/-! ### Replacing the targets -/

namespace Task

variable {env : Env} {task : Task env} {done rest : List JournalEntry}

/-- Some targets are replaced; before the first one, all are old. -/
structure Reverting (task : Task env) (done : List JournalEntry) (v : Scene) : Prop where
  working : task.Working v
  fresh : done = [] → ∀ target, v.files (.target target) = task.old target
  targets : ∀ entry ∈ done, v.files (.target entry.target) = task.new entry.target

theorem careless_reverting : Careless (task.Reverting done) :=
  fun v memory hsame h => ⟨careless_working v memory hsame h.working, h.fresh, h.targets⟩

/-- Without a target replaced, nothing is left of the transaction once the journal is cleared. -/
theorem Working.cleared {v : Scene} (h : task.Working v) (hseq : v.memory.journal.sequence ≠ maxSequence)
    (hold : ∀ target, v.files (.target target) = task.old target) :
    ∀ files ∈ (Zupd.journaled env (withBlank v)).trail, task.Before files := by
  obtain ⟨j, hj, -, -, hjseq⟩ := h.synced
  exact forall_mem_cons.mpr ⟨.inl ⟨⟨_, _, journalAt_cleared hj hjseq hseq, rfl⟩,
    h.recorded.of_ne (.journal _) nofun _, hold⟩, h.trail⟩

theorem calm_rollbackCancelled :
    Calmly (task.Reverting done) (rollbackCancelled env done.length)
      (fun _ _ => False) (fun _ v => ∀ files ∈ v.trail, task.Before files) := by
  have hcareless := careless_forall task.Before
  refine .ite (fun hzero => ?_) (fun _ => ?_)
  · refine .bind (Q := fun _ v => ∀ files ∈ v.trail, task.Before files)
      (.attempt (calm_clearJournal ?_ ?_)) fun cleared => ?_
    -- nothing is replaced yet, so without its journal the transaction never was
    · rintro v hv -
      exact hv.working.trail
    · intro v hv hroom
      exact hv.working.cleared hroom (hv.fresh (length_eq_zero_iff.mp hzero))
    · cases cleared with
      | ok u => exact calm_actionFail hcareless _ _
      | error e => exact calm_markRecoveryPending hcareless
  · exact .postError (calm_markRecoveryPending careless_reverting)
      (fun _ _ h => h.working.trail)

theorem calm_replaceRollbackTargets (hkind : task.journal.kind = .rollback) (options : Options) :
    ∀ done, task.journal.entries = done ++ rest →
      Calmly (task.Reverting done)
        (replaceRollbackTargets env options task.journal.slot done.length rest)
        (fun _ => task.Reverting task.journal.entries)
        (fun _ v => ∀ files ∈ v.trail, task.Before files) := by
  have hne : task.journal.kind ≠ .apply := by rw [hkind]; exact nofun
  induction rest with
  | nil =>
    intro done hentries
    rw [append_nil] at hentries
    rw [hentries]
    exact .pure fun _ h => h
  | cons entry rest ih =>
    intro done hentries
    have hmem : entry ∈ task.journal.entries := by rw [hentries]; simp
    obtain ⟨bytes, hbytes, hsize, hnew⟩ := (task.newFile entry hmem).size_ok (task.oldFile_present hmem).2
    refine .bind (calm_cancelled careless_reverting options) fun stop =>
      .ite (fun _ => ?_) (fun _ => ?_)
    · exact .post task.calm_rollbackCancelled fun _ _ h => h.elim
    refine .attempt_bind (Q := fun _ => task.Reverting (done ++ [entry]))
      (.bind
      (calm_replaceFromAlias bytes ?_ ⟨hsize, hnew⟩ ?_ ?_) fun _ => .post
        (task.calm_recordProgress done.length (by rw [hentries]; simp) (R := fun files =>
          ∀ other ∈ done ++ [entry], files (.target other.target) = task.new other.target)
          fun _ _ _ h => h) ?_)
      (fun _ => ?_) fun _ => .postError (calm_markRecoveryPending careless_working)
        (fun _ _ h => h.trail)
    · intro v hv
      -- for a rollback the backups are the new contents
      rw [hv.working.backups entry hmem, safe, if_neg hne, hbytes]
    · intro v hv
      exact task.isSome_of_eq_or hmem (hv.working.targets entry.target)
    · intro v hv
      rw [← hbytes]
      exact ⟨hv.working.replaced (.inr rfl), replaced_targets hv.targets⟩
    · rintro _ v ⟨hw, htargets⟩
      exact ⟨hw, by simp, htargets⟩
    · have hnext := ih (done ++ [entry]) (by rw [hentries]; simp)
      rwa [length_append] at hnext

end Task

/-! ### The operation -/

/-- **A rollback passes only volumes of its transaction.** -/
theorem calm_rollback (hsettled : Settled env v₀)
    (hpresent : ∀ target, (v₀.memory.state.rollback target).present = true →
    (v₀.memory.state.current target).present = true) :
    Calmly (Resting env v₀) (rollback env options)
      (fun _ v => Course env v₀ (rolledBack v₀.memory.state v₀.files) v₀.memory.state.previous v.trail)
      (fun _ v => Course env v₀ (rolledBack v₀.memory.state v₀.files) v₀.memory.state.previous v.trail) := by
  have hstay : ∀ {Q : Unit → Scene → Prop} {reason : ActionReason} {e : Err}, Calmly (Resting env v₀)
      (actionFail reason e) Q
      (fun _ v => Course env v₀ (rolledBack v₀.memory.state v₀.files) v₀.memory.state.previous v.trail) :=
    .postError (calm_actionFail careless_resting _ _)
      (fun _ _ h => h.1.course)
  refine .bind (calm_report careless_resting _) fun _ => .bind (Q := fun _ => Resting env v₀)
    (.inspect fun _ h => h) fun memory => ?_
  -- up to the journal nothing is written, and the volume stays the old one
  refine .ite (fun _ => hstay) fun _ => .ite (fun _ => hstay) fun _ =>
    .ite (fun _ => hstay) fun _ => ?_
  refine .attempt_bind (calm_buildRollbackJournal hsettled hpresent) (fun prepared => .learn ?_)
    fun e => hstay
  · rintro ⟨rfl, h⟩
    refine .bind (calm_report careless_resting _) fun _ => .ite
      (fun _ => .pure fun _ hv => hv.1.course) fun _ => .intro fun v hv => ?_
    refine .bind (Q := fun _ w => w = { v with memory := { v.memory with journal := h.task.journal } })
      (.remember ?_) fun _ => ?_
    · rintro w rfl; rfl
    have hbackups : ∀ entry ∈ h.task.journal.entries,
        v.files (.backup h.task.journal.slot entry.target) = h.task.safe entry.target := by
      intro entry hentry
      rw [hv.2]
      exact (if_pos (mem_rollbackEntries.mp hentry).1).symm
    refine .attempt_bind (Q := fun _ => h.task.Reverting [])
      (calm_writeJournalRecord ?_ ?_ ?_)
      (fun _ => ?_) fun e => .postError (calm_actionFail
        (careless_forall (OldQuiet env v₀)) _ _)
        (fun _ _ h => .inl h)
    · rintro w rfl
      exact h.journal_ok.count_le
    · rintro w rfl -
      exact hv.1.quiet
    · rintro w hw hroom
      refine ⟨Task.start h.leads rfl rfl rfl hv.1 hbackups hw hroom, fun _ target => ?_, nofun⟩
      rw [journaled_files_of_ne env w (.target target) nofun, show w.files = v.files by rw [hw]]
      exact hv.1.target_eq target
    · refine .bind (.postError (h.task.calm_replaceRollbackTargets rfl _ [] rfl)
        (fun _ w hw => .inr ⟨h.task, h.leads, Task.history_of_before hw⟩))
        fun _ => .weaken h.task.calm_commitTransaction ?_
          (fun _ w hw => .inr ⟨h.task, h.leads, hw⟩) (fun _ w hw => .inr ⟨h.task, h.leads, hw⟩)
      intro w hw
      exact ⟨hw.working, h.task.targets_of_entries _ hw.working.targets (.inr rfl) hw.targets⟩

end ZephyrOS.Zupd
