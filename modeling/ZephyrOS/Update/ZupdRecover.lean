import ZephyrOS.Update.ZupdTask

/-!
# Recovery

`update_init` on a volume that a power loss left behind. An update that was not committed is undone
from its backups, a rollback is carried on, and what is committed is finished; each of these is a
program that may be interrupted itself, so the triples below say of every volume passed on the way
which stage it is in, as well as where the program ends. They fail only when a sequence is exhausted.
-/

namespace ZephyrOS.Zupd

open Lib RootFiles Function List Except
open Update (Version Base Slot bySlot)

variable {P : Scene → Prop} {E : Err → Scene → Prop} {env : Env} {files : Files Path} {target : Target}
  {entry : JournalEntry} {Q : Unit → Scene → Prop} {path : Path} {v : Scene} {j : Journal}
  {slot : Option Slot} {memory : Memory} {s : State} {passed : List (Files Path)}

/-! ### Files by entries -/

section WithEntries

variable {file : JournalEntry → FileState} {entries : List JournalEntry} {files : Target → FileState}

theorem withEntries_of_not_mem (h : target ∉ entries.map JournalEntry.target) :
    withEntries file entries files target = files target := by
  induction entries generalizing files with
  | nil => rfl
  | cons entry entries ih =>
    rw [map_cons, mem_cons, not_or] at h
    exact (ih h.2).trans (update_of_ne h.1 _ _)

section

variable (hnodup : (entries.map JournalEntry.target).Nodup)
include hnodup

theorem withEntries_of_mem
    (h : entry ∈ entries) : withEntries file entries files entry.target = file entry := by
  induction entries generalizing files with
  | nil => cases h
  | cons first entries ih =>
    rw [map_cons, nodup_cons] at hnodup
    rcases mem_cons.mp h with rfl | h
    · exact (withEntries_of_not_mem hnodup.1).trans (update_self ..)
    · exact ih hnodup.2 h

/-- A property of all files, from the entries' files and the others. -/
theorem withEntries_cases
    {p : Target → FileState → Prop} (hin : ∀ entry ∈ entries, p entry.target (file entry))
    (hout : ∀ target, target ∉ entries.map JournalEntry.target → p target (files target))
    (target : Target) : p target (withEntries file entries files target) := by
  by_cases hmem : target ∈ entries.map JournalEntry.target
  · obtain ⟨entry, hentry, rfl⟩ := mem_map.mp hmem
    rw [withEntries_of_mem hnodup hentry]
    exact hin entry hentry
  · rw [withEntries_of_not_mem hmem]
    exact hout target hmem

theorem withEntries_withEntries :
    withEntries file entries (withEntries file entries files) = withEntries file entries files :=
  funext (withEntries_cases hnodup (p := fun target f => f = withEntries file entries files target)
    (fun _ hentry => (withEntries_of_mem hnodup hentry).symm) (fun _ _ => rfl))

end

end WithEntries

/-! ### Writing target files -/

theorem calm_replaceFromAlias {expected : FileState}
    (contents : List UInt8) (hP : ∀ v, P v → v.files path = some contents)
    (hexpected : Describes env expected (some contents))
    (htarget : ∀ v, P v → (v.files (.target target)).isSome = true)
    (h : ∀ v, P v → Q () (v.replaced (.target target) (some contents))) :
    Calmly P (replaceFromAlias env path target expected) Q E := by
  refine .bind (calm_loadRootFile hP hexpected) fun bytes => .learn ?_
  rintro rfl
  refine .bind (Q := fun _ v => Q () v ∧ v.files (.target target) = some bytes)
    (calm_atomicWriteRoot ?_ (fun v hv => .inr (htarget v hv))
      (fun v hv => ⟨h v hv, update_self ..⟩)) fun _ => ?_
  · exact ⟨hexpected.1.1, hexpected.1.2⟩
  · refine .conseq calm_verifyRootFile (fun _ v hv => hv.1.1) ?_
    rintro e v ⟨⟨-, hfile⟩, hbad⟩
    rw [hfile] at hbad
    exact absurd hexpected hbad

/-- The journal in memory says that there is nothing to do. -/
def withBlank (v : Scene) : Scene :=
  { v with memory := { v.memory with journal := Journal.blank v.memory.journal.sequence } }

/-- The cleared journal is the one on the volume. -/
theorem journalAt_cleared
    (hj : JournalAt env v.files v.memory.journalSlot j) (hjseq : j.sequence = v.memory.journal.sequence)
    (hseq : v.memory.journal.sequence ≠ maxSequence) :
    JournalAt env (journaled env (withBlank v)).files (journaled env (withBlank v)).memory.journalSlot
      (journaled env (withBlank v)).memory.journal := by
  have hlt : v.memory.journal.sequence + 1 < 4294967296 := by
    have := hj.ok.sequence_lt
    unfold maxSequence at hseq
    omega
  exact hj.written (journalOk_blank hlt) (congrArg (· + 1) hjseq.symm)

theorem calm_clearJournal
    (hfull : ∀ v, P v → v.memory.journal.sequence = maxSequence → E .overflow v)
    (h : ∀ v, P v → v.memory.journal.sequence ≠ maxSequence → Q () (journaled env (withBlank v))) :
    Calmly P (clearJournal env) Q E := by
  refine .intro fun v hv => .inspect_eq (fun w hw => by rw [hw]) ?_
  refine .bind (Q := fun _ w => w = withBlank v) (.remember ?_) fun _ => .attempt_bind
    (F := fun e w => w = withBlank v ∧ e = .overflow
      ∧ v.memory.journal.sequence = maxSequence) (calm_writeJournalRecord ?_ ?_ ?_)
    (fun _ => .pure fun _ hw => hw) fun e => .learn ?_
  · rintro w rfl; rfl
  · rintro w rfl
    exact Nat.zero_le _
  · rintro w rfl hseq
    exact ⟨rfl, rfl, hseq⟩
  · rintro w rfl hseq
    exact h v hv hseq
  · rintro ⟨rfl, hseq⟩
    refine .bind (Q := fun _ w => w = v) (.remember ?_) fun _ => .fail ?_
    · rintro w rfl; rfl
    · rintro w rfl
      exact hfull w hv hseq

namespace Task

variable {env : Env} {task : Task env} {entry : JournalEntry} {file : Option (List UInt8)}
  {contents : Target → Option (List UInt8)} {expected : JournalEntry → FileState}

/-! ### The transaction's files -/

theorem oldFile_present (h : entry ∈ task.journal.entries) :
    entry.oldFile.present = true ∧ entry.newFile.present = true := by
  have hc := task.journal_ok.entries entry h
  simp only [JournalEntry.consistent, Bool.and_eq_true] at hc
  exact ⟨hc.1.1.1, hc.1.1.2⟩

theorem oldFile (h : entry ∈ task.journal.entries) :
    Describes env entry.oldFile (task.old entry.target) := by
  rw [task.oldFile_eq entry h]
  exact task.described entry.target

/-- The file recovery takes an entry's target to. -/
def safeFile (task : Task env) (entry : JournalEntry) : FileState :=
  if task.journal.kind = .apply then entry.oldFile else entry.newFile

theorem safe_spec (h : entry ∈ task.journal.entries) :
    ∃ bytes, task.safe entry.target = some bytes ∧ Describes env (task.safeFile entry) (some bytes) := by
  unfold safe safeFile
  split
  · obtain ⟨bytes, heq, hsize, hfile⟩ := (task.oldFile h).size_ok (task.oldFile_present h).1
    exact ⟨bytes, heq, hsize, hfile⟩
  · obtain ⟨bytes, heq, hsize, hfile⟩ := (task.newFile entry h).size_ok (task.oldFile_present h).2
    exact ⟨bytes, heq, hsize, hfile⟩

theorem safe_apply (h : task.journal.kind = .apply) : task.safe = task.old := by
  funext target
  rw [safe, if_pos h]

theorem safe_rollback (h : task.journal.kind ≠ .apply) : task.safe = task.new := by
  funext target
  rw [safe, if_neg h]

theorem safe_eq_or (task : Task env) : task.safe = task.old ∨ task.safe = task.new := by
  by_cases h : task.journal.kind = .apply
  · exact .inl (safe_apply h)
  · exact .inr (safe_rollback h)

theorem isSome_of_eq_or (h : entry ∈ task.journal.entries)
    (hfile : file = task.old entry.target ∨ file = task.new entry.target) : file.isSome = true := by
  rcases hfile with rfl | rfl
  · obtain ⟨bytes, heq, -⟩ := (task.oldFile h).size_ok (task.oldFile_present h).1
    rw [heq]; rfl
  · obtain ⟨bytes, heq, -⟩ := (task.newFile entry h).size_ok (task.oldFile_present h).2
    rw [heq]; rfl

/-- Contents that agree with the old or the new ones everywhere, and with one of them at the entries,
are those. -/
theorem targets_of_entries (files : Target → Option (List UInt8))
    (hor : ∀ target, files target = task.old target ∨ files target = task.new target)
    (hcontents : contents = task.old ∨ contents = task.new)
    (h : ∀ entry ∈ task.journal.entries, files entry.target = contents entry.target) (target : Target) :
    files target = contents target := by
  by_cases hmem : target ∈ task.journal.entries.map JournalEntry.target
  · obtain ⟨entry, hentry, rfl⟩ := mem_map.mp hmem
    exact h entry hentry
  -- a target without an entry is the same before and after
  have hsame := task.same target hmem
  rcases hor target with hfile | hfile <;> rcases hcontents with rfl | rfl
  · exact hfile
  · exact hfile.trans hsame.symm
  · exact hfile.trans hsame
  · exact hfile

/-! ### Under way -/

/-- The transaction is under way: the memory knows it, and the backups are all there. -/
structure Working (task : Task env) (v : Scene) : Prop where
  state : v.memory.state = task.state
  stateSlot : v.memory.stateSlot = task.stateSlot
  recorded : StateAt env v.files task.stateSlot task.state
  names : task.Names v.memory.journal
  progress_le : v.memory.journal.progress ≤ task.journal.entries.length
  phase_ne : v.memory.journal.phase ≠ .none
  /-- The last record that was written is not committed, and has the sequence of the one in memory. -/
  synced : ∃ j, JournalAt env v.files v.memory.journalSlot j ∧ task.Names j ∧ j.phase ≠ .committed
    ∧ j.sequence = v.memory.journal.sequence
  targets : ∀ target, v.files (.target target) = task.old target ∨ v.files (.target target) = task.new target
  backups : ∀ entry ∈ task.journal.entries,
    v.files (.backup task.journal.slot entry.target) = task.safe entry.target
  passed : ∀ files ∈ v.passed, task.Before files

section Working

variable {v : Scene} {phase : Phase} {progress sequence : Nat}

theorem Working.pending (h : task.Working v) : task.Pending v.files where
  journal := by
    obtain ⟨j, hj, hnames, hphase, -⟩ := h.synced
    exact ⟨_, j, hj, hnames, hphase⟩
  state := h.recorded
  targets := h.targets
  backups entry hentry := .inl (h.backups entry hentry)

theorem Working.trail (h : task.Working v) : ∀ files ∈ v.trail, task.Before files :=
  forall_mem_cons.mpr ⟨.inr h.pending, h.passed⟩

theorem Working.sequence_lt (h : task.Working v) : v.memory.journal.sequence ≤ maxSequence := by
  obtain ⟨j, hj, -, -, hseq⟩ := h.synced
  have := hj.ok.sequence_lt
  unfold maxSequence
  omega

/-- Records of a transaction differ in sequence, phase and progress. -/
theorem Names.edit (h : task.Names j) :
    task.Names { j with sequence := sequence, phase := phase, progress := progress } :=
  { h with }

/-- The journal in memory can be written. -/
theorem Names.next_ok (h : task.Names j) (hprogress : j.progress ≤ task.journal.entries.length)
    (hphase : j.phase ≠ .none) (hseq : j.sequence < maxSequence) : JournalOk { j with sequence := j.sequence + 1 } where
  sequence_lt := by unfold maxSequence at hseq; dsimp only; omega
  baseSequence_lt := by rw [h.baseStateSequence]; exact task.journal_ok.baseSequence_lt
  base := by rw [h.base]; exact task.journal_ok.base
  target := by rw [h.target]; exact task.journal_ok.target
  entries := by rw [h.entries]; exact task.journal_ok.entries
  count_le := by rw [h.entries]; exact task.journal_ok.count_le
  nodup := by rw [h.entries]; exact task.journal_ok.nodup
  progress_le := by rw [h.entries]; exact hprogress
  consistent := by
    have hentries := task.journal_ok.consistent
    have hkind := task.kind_ne
    rw [Journal.consistent] at hentries ⊢
    rw [h.kind, h.entries]
    cases hk : task.journal.kind with
    | none => exact absurd hk hkind
    | apply => simp_all
    | rollback => simp_all

/-- Only the phase, the progress and what concerns no transaction changes in memory. -/
theorem Working.remember (h : task.Working v) (hstate : memory.state = v.memory.state)
    (hslot : memory.stateSlot = v.memory.stateSlot) (hjslot : memory.journalSlot = v.memory.journalSlot)
    (hnames : task.Names memory.journal) (hseq : memory.journal.sequence = v.memory.journal.sequence)
    (hprogress : memory.journal.progress ≤ task.journal.entries.length)
    (hphase : memory.journal.phase ≠ .none) : task.Working { v with memory := memory } :=
  { h with
    state := hstate.trans h.state
    stateSlot := hslot.trans h.stateSlot
    names := hnames
    progress_le := hprogress
    phase_ne := hphase
    synced := by
      obtain ⟨j, hj, hrest, hphase, hjseq⟩ := h.synced
      exact ⟨j, by rw [hjslot]; exact hj, hrest, hphase, hjseq.trans hseq.symm⟩ }

/-- A target is replaced by its old or its new contents. -/
theorem Working.replaced (h : task.Working v)
    (hfile : file = task.old target ∨ file = task.new target) :
    task.Working (v.replaced (.target target) file) :=
  { h with
    recorded := h.recorded.of_ne (.target target) nofun file
    synced := by
      obtain ⟨j, hj, hrest⟩ := h.synced
      exact ⟨j, hj.of_ne (.target target) nofun file, hrest⟩
    targets := fun other => by
      by_cases heq : other = target
      · subst heq
        rw [View.replaced_files, update_self]
        exact hfile
      · rw [View.replaced_files, update_of_ne (by simpa using heq)]
        exact h.targets other
    passed := h.trail }

/-- The journal in memory is written. -/
theorem Working.journaled (h : task.Working v) (hphase : v.memory.journal.phase ≠ .committed)
    (hseq : v.memory.journal.sequence ≠ maxSequence) : task.Working (journaled env v) :=
  { h with
    recorded := h.recorded.of_ne (.journal _) nofun _
    names := h.names.edit
    synced := by
      obtain ⟨j, hj, hrest, -, hjseq⟩ := h.synced
      have hok : JournalOk (nextJournal v) :=
        h.names.next_ok h.progress_le h.phase_ne (lt_of_le_of_ne h.sequence_lt hseq)
      exact ⟨nextJournal v, hj.written hok (congrArg (· + 1) hjseq.symm), h.names.edit, hphase, rfl⟩
    passed := h.trail }

end Working

/-! ### Back to the backups -/

/-- A target replaced before stays, or is replaced by the same contents again. -/
theorem replaced_targets {done : List JournalEntry}
    (h : ∀ other ∈ done, v.files (.target other.target) = contents other.target) :
    ∀ other ∈ done ++ [entry], (v.replaced (.target entry.target) (contents entry.target)).files
      (.target other.target) = contents other.target :=
  View.replaced_append v (f := fun e : JournalEntry => .target e.target)
    (fun _ _ heq => congrArg contents (Path.target.inj heq)) h

/-- Some targets are taken back, and the journal is at that sequence. -/
structure Rewinding (task : Task env) (done : List JournalEntry) (sequence : Nat) (v : Scene) : Prop where
  working : task.Working v
  phase : v.memory.journal.phase = .replacing
  sequence : v.memory.journal.sequence = sequence
  targets : ∀ entry ∈ done, v.files (.target entry.target) = task.safe entry.target

/-- The loop of recovery. It stops only at the last sequence. -/
theorem calm_replaceFromBackups
    (hexpected : ∀ entry ∈ task.journal.entries, expected entry = task.safeFile entry)
    (rest : List JournalEntry) :
    ∀ (done : List JournalEntry) (sequence : Nat), task.journal.entries = done ++ rest →
      Calmly (task.Rewinding done sequence)
        (replaceFromBackups env task.journal.slot expected done.length rest)
        (fun _ => task.Rewinding task.journal.entries (sequence + rest.length))
        (fun _ v => (∀ files ∈ v.trail, task.Before files) ∧ maxSequence < sequence + rest.length) := by
  -- on the entries that are left; those done are back at their safe contents
  induction rest with
  | nil =>
    intro done sequence hentries
    rw [append_nil] at hentries
    rw [hentries]
    exact .pure fun _ h => h
  | cons entry rest ih =>
    intro done sequence hentries
    have hmem : entry ∈ task.journal.entries := by rw [hentries]; simp
    obtain ⟨bytes, hsafe, hbytes⟩ := task.safe_spec hmem
    refine .bind (Q := fun _ => task.Rewinding (done ++ [entry]) sequence)
      (calm_replaceFromAlias bytes ?_ ?_ ?_ ?_) fun _ => ?_
    · intro v hv
      rw [hv.working.backups entry hmem, hsafe]
    · rw [hexpected entry hmem]
      exact hbytes
    · intro v hv
      exact task.isSome_of_eq_or hmem (hv.working.targets entry.target)
    · intro v hv
      rw [← hsafe]
      exact ⟨hv.working.replaced (task.safe_eq_or.imp (congrFun · _) (congrFun · _)), hv.phase, hv.sequence,
        replaced_targets hv.targets⟩
    refine .bind (Q := fun _ => task.Rewinding (done ++ [entry]) sequence)
      (.remember ?_) fun _ => ?_
    · intro v hv
      -- the progress is recorded after the target, so a target may be replaced twice
      have hlength : done.length + 1 ≤ task.journal.entries.length := by rw [hentries]; simp
      exact ⟨hv.working.remember rfl rfl rfl hv.working.names.edit rfl hlength hv.working.phase_ne,
        hv.phase, hv.sequence, hv.targets⟩
    · refine .bind (Q := fun _ => task.Rewinding (done ++ [entry]) (sequence + 1))
        (.mapError (calm_writeJournalRecord ?_ ?_ ?_)) fun _ => ?_
      · intro v hv
        rw [hv.working.names.entries]
        exact task.journal_ok.count_le
      · intro v hv hfull
        refine ⟨hv.working.trail, ?_⟩
        rw [length_cons, ← hv.sequence]
        omega
      · intro v hv hroom
        exact ⟨hv.working.journaled (by rw [hv.phase]; decide) hroom, hv.phase,
          congrArg (· + 1) hv.sequence, hv.targets⟩
      · have hnext := ih (done ++ [entry]) (sequence + 1) (by rw [hentries]; simp)
        rwa [length_append, add_right_comm] at hnext

/-- The beginning of both recoveries, up to where all targets are taken back. -/
theorem calm_rewind
    (hexpected : ∀ entry ∈ task.journal.entries, expected entry = task.safeFile entry) (sequence : Nat)
    {rest : Journal → Command Unit} (herr : ∀ e v, (∀ files ∈ v.trail, task.Before files) →
    maxSequence < sequence + task.journal.entries.length → E e v)
    (h : ∀ j, j.slot = task.journal.slot → Calmly (fun v => task.Working v
    ∧ v.memory.journal.sequence = sequence + task.journal.entries.length
    ∧ ∀ target, v.files (.target target) = task.safe target) (rest j) Q E) :
    Calmly (fun v => task.Working v ∧ v.memory.journal.sequence = sequence) (do
      setJournal fun j => { j with phase := .replacing }
      let j ← Session.inspect Memory.journal
      replaceFromBackups env j.slot expected 0 j.entries
      rest j) Q E := by
  refine .bind (Q := fun _ => task.Rewinding [] sequence) (.remember ?_) fun _ => ?_
  · rintro v ⟨hw, hseq⟩
    exact ⟨hw.remember rfl rfl rfl hw.names.edit rfl hw.progress_le (by simp), rfl, hseq, nofun⟩
  refine .inspect_bind fun j =>
    .known (c := j.slot = task.journal.slot ∧ j.entries = task.journal.entries) ?_ ?_
  · rintro v ⟨hv, rfl⟩
    exact ⟨hv.working.names.slot, hv.working.names.entries⟩
  rintro ⟨hslot, hentries⟩
  rw [hslot, hentries]
  refine .bind (.weaken (task.calm_replaceFromBackups hexpected _ [] sequence rfl)
    (fun _ hv => hv.1) ?_ fun e v hv => herr e v hv.1 hv.2) fun _ => h j hslot
  intro _ v hv
  exact ⟨hv.working, hv.sequence, task.targets_of_entries (fun target => v.files (.target target))
    hv.working.targets task.safe_eq_or hv.targets⟩

/-- The old contents are back, and the backups are being deleted. -/
structure Unwinding (task : Task env) (v : Scene) : Prop where
  state : v.memory.state = task.state
  stateSlot : v.memory.stateSlot = task.stateSlot
  synced : ∃ j, JournalAt env v.files v.memory.journalSlot j ∧ j.sequence = v.memory.journal.sequence
  pending : task.Pending v.files
  targets : ∀ target, v.files (.target target) = task.old target
  passed : ∀ files ∈ v.passed, task.Before files

theorem Unwinding.delete (h : task.Unwinding v) (hkind : task.journal.kind = .apply)
    (hpath : Neutral path) : task.Unwinding (v.replaced path none) :=
  { h with
    synced := by
      obtain ⟨j, hj, hseq⟩ := h.synced
      exact ⟨j, hj.of_ne path hpath.2.1 none, hseq⟩
    pending := h.pending.delete hkind h.targets hpath
    targets := fun target => by
      rw [View.replaced_files, update_of_ne (hpath.1 target)]
      exact h.targets target
    passed := forall_mem_cons.mpr ⟨.inr h.pending, h.passed⟩ }

/-- The update was undone. -/
structure Restored (task : Task env) (v : Scene) : Prop where
  state : v.memory.state = task.state
  stateSlot : v.memory.stateSlot = task.stateSlot
  journal : JournalAt env v.files v.memory.journalSlot v.memory.journal
  kind : v.memory.journal.kind = .none
  quiet : Quiet env task.stateSlot task.state task.old v.files
  passed : ∀ files ∈ v.passed, task.Before files
  /-- The last volume before this one had the journal, but no backups. -/
  lost : ∃ files ∈ v.passed, task.Pending files ∧ ∀ target, files (.backup task.journal.slot target) = none

theorem Unwinding.cleared (h : task.Unwinding v)
    (hlost : ∀ target, v.files (.backup task.journal.slot target) = none)
    (hseq : v.memory.journal.sequence ≠ maxSequence) : task.Restored (journaled env (withBlank v)) := by
  obtain ⟨j, hj, hjseq⟩ := h.synced
  have hwritten := journalAt_cleared hj hjseq hseq
  exact
    { state := h.state
      stateSlot := h.stateSlot
      journal := hwritten
      kind := rfl
      quiet :=
        { journal := ⟨_, _, hwritten, rfl⟩
          state := h.pending.state.of_ne (.journal _) nofun _
          targets := h.targets }
      passed := forall_mem_cons.mpr ⟨.inr h.pending, h.passed⟩
      lost := ⟨v.files, mem_cons_self, h.pending, hlost⟩ }

/-- **An interrupted update is undone**, unless the sequence runs out. -/
theorem calm_restoreInterruptedApply (hkind : task.journal.kind = .apply) (sequence : Nat) :
    Calmly (fun v => task.Working v ∧ v.memory.journal.sequence = sequence) (restoreInterruptedApply env)
      (fun _ v => task.Restored v)
      (fun _ v => (∀ files ∈ v.trail, task.Before files)
        ∧ maxSequence < sequence + task.journal.entries.length + 1) := by
  refine task.calm_rewind (fun entry _ => by rw [safeFile, if_pos hkind]) sequence
    (fun _ _ htrail hfull => ⟨htrail, by omega⟩) fun j hslot => ?_
  rw [safe_apply hkind, hslot]
  refine .bind (Q := fun _ v => task.Unwinding v ∧ v.memory.journal.sequence
      = sequence + task.journal.entries.length)
    (.mapError (.conseq (calm_validateCurrentState (s := task.state) ?_) ?_ ?_))
    fun _ => ?_
  · rintro v ⟨hw, -⟩
    exact hw.state
  · rintro _ v ⟨⟨hw, hseq, hold⟩, -⟩
    obtain ⟨j', hj, -, -, hjseq⟩ := hw.synced
    exact ⟨⟨hw.state, hw.stateSlot, ⟨j', hj, hjseq⟩, hw.pending, hold, hw.passed⟩, hseq⟩
  · rintro e v ⟨⟨hw, hseq, hold⟩, hbad⟩
    refine absurd (fun target => ?_) hbad
    rw [hold target]
    exact task.described target
  -- from here on there are no backups, and the journal still names them
  refine .bind (calm_cleanupSlot_all fun v target hv =>
    ⟨⟨hv.1.delete hkind (neutral_stage _), hv.2⟩, ⟨hv.1.delete hkind (neutral_backup _), hv.2⟩⟩)
    fun _ => calm_clearJournal ?_ ?_
  · rintro v ⟨⟨hu, hseq⟩, -⟩ hfull
    exact ⟨forall_mem_cons.mpr ⟨.inr hu.pending, hu.passed⟩, by omega⟩
  · rintro v ⟨⟨hu, -⟩, hlost⟩ hroom
    exact hu.cleared (fun target => (hlost target).2) hroom

/-! ### Finishing what is committed -/

theorem next_current (task : Task env) :
    task.next.current = withEntries JournalEntry.newFile task.journal.entries task.state.current := by
  have h := task.next_eq
  rw [stateFromJournal] at h
  split at h
  · rw [← ok.inj h]; rfl
  · rw [← ok.inj h]; rfl
  · cases h

/-- The state after it describes the new contents. -/
theorem next_described (task : Task env) (target : Target) :
    Describes env (task.next.current target) (task.new target) := by
  rw [task.next_current]
  refine withEntries_cases task.journal_ok.nodup
    (p := fun target file => Describes env file (task.new target)) (fun entry hentry => ?_)
    (fun target hmem => ?_) target
  · exact task.newFile entry hentry
  · rw [task.same target hmem]
    exact task.described target

/-- From either state, the journal leads to the one after it. -/
theorem stateFromJournal_eq (hj : task.Names j)
    (hs : task.Current slot s) : stateFromJournal j s = .ok { task.next with sequence := s.sequence } := by
  have h := task.next_eq
  have hnodup := task.journal_ok.nodup
  rw [stateFromJournal] at h ⊢
  rw [hj.kind]
  cases hk : task.journal.kind with
  | none => exact absurd hk task.kind_ne
  | apply =>
    rw [hk] at h
    have hnext := (ok.inj h).symm
    rcases hs with ⟨-, rfl⟩ | ⟨-, sequence, rfl⟩
    · simp only [hnext, applyStateFromJournal, hj.target, hj.base, hj.slot, hj.entries]
    -- the state is recorded already, and the entries change nothing more
    · simp only [hnext, applyStateFromJournal, hj.target, hj.base, hj.slot, hj.entries,
        withEntries_withEntries hnodup]
  | rollback =>
    rw [hk] at h
    have hnext := (ok.inj h).symm
    rcases hs with ⟨-, rfl⟩ | ⟨-, sequence, rfl⟩
    · simp only [hnext, rollbackStateFromJournal, hj.target, hj.entries]
    · simp only [hnext, rollbackStateFromJournal, hj.target, hj.entries,
        withEntries_withEntries hnodup]

/-- The transaction is committed, and the memory knows it. -/
structure Closing (task : Task env) (v : Scene) : Prop where
  current : task.Current v.memory.stateSlot v.memory.state
  recorded : StateAt env v.files v.memory.stateSlot v.memory.state
  names : task.Names v.memory.journal
  phase : v.memory.journal.phase = .committed
  journal : JournalAt env v.files v.memory.journalSlot v.memory.journal
  targets : ∀ target, v.files (.target target) = task.new target
  history : task.History v.passed

section Closing

variable {v : Scene}

theorem Closing.committed (h : task.Closing v) : task.Committed v.files :=
  ⟨⟨_, _, h.journal, h.names, h.phase⟩, ⟨_, _, h.recorded, h.current⟩, h.targets⟩

theorem Closing.trail (h : task.Closing v) : task.History v.trail :=
  .inr ⟨.inl h.committed, h.history⟩

theorem Closing.neutral (h : task.Closing v) (hpath : Neutral path) :
    task.Closing (v.replaced path file) :=
  { h with
    recorded := h.recorded.of_ne path hpath.2.2 file
    journal := h.journal.of_ne path hpath.2.1 file
    targets := fun target => by
      rw [View.replaced_files, update_of_ne (hpath.1 target)]
      exact h.targets target
    history := h.trail }

theorem Closing.slotFree (slot : Slot) (Q : Memory → Prop) :
    SlotFree slot fun v => task.Closing v ∧ Q v.memory := fun _ _ hv =>
  ⟨⟨hv.1.neutral (neutral_stage _), hv.2⟩, ⟨hv.1.neutral (neutral_backup _), hv.2⟩⟩

theorem Closing.sequence_le (h : task.Closing v) : v.memory.state.sequence ≤ maxSequence := by
  have hrecorded := h.recorded
  unfold maxSequence
  cases hslot : v.memory.stateSlot with
  | some slot =>
    rw [hslot] at hrecorded
    have := hrecorded.ok.sequence_lt
    omega
  | none =>
    rcases h.current with ⟨hnone, hstate⟩ | ⟨hsome, -⟩
    -- without a record the state is the baseline
    · rw [hstate, (task.baseline (hnone.symm.trans hslot)).2.2.1]
      exact Nat.zero_le _
    · exact absurd hslot hsome

/-- The state after the transaction is recorded. -/
theorem Closing.stateWritten (h : task.Closing v) (hseq : v.memory.state.sequence < maxSequence)
    {next : State} (hnext : next = { task.next with sequence := v.memory.state.sequence + 1 }) :
    task.Closing { Zupd.recorded env v next with
      memory := { (Zupd.recorded env v next).memory with state := next } } :=
  { h with
    current := .inr ⟨nofun, _, hnext⟩
    recorded := by
      refine StateAt.written h.recorded ?_ (by rw [hnext])
      rw [hnext]
      exact task.next_ok _ (by unfold maxSequence at hseq; omega)
    journal := h.journal.of_ne (.state _) nofun _
    history := h.trail }

end Closing

/-- The transaction is finished. -/
structure Closed (task : Task env) (v : Scene) : Prop where
  state : ∃ slot sequence, v.memory.stateSlot = some slot
    ∧ v.memory.state = { task.next with sequence := sequence }
    ∧ Quiet env (some slot) { task.next with sequence := sequence } task.new v.files
  journal : JournalAt env v.files v.memory.journalSlot v.memory.journal
  kind : v.memory.journal.kind = .none
  history : task.History v.passed

theorem Closed.trail (h : task.Closed v) : task.History v.trail := by
  obtain ⟨slot, sequence, -, -, hquiet⟩ := h.state
  exact .inr ⟨.inr ⟨slot, sequence, hquiet⟩, h.history⟩

theorem Closing.cleared (h : task.Closing v) {sequence : Nat} {slot : Slot}
    (hslot : v.memory.stateSlot = some slot)
    (hstate : v.memory.state = { task.next with sequence := sequence })
    (hseq : v.memory.journal.sequence ≠ maxSequence) : task.Closed (journaled env (withBlank v)) := by
  have hwritten := journalAt_cleared h.journal rfl hseq
  refine ⟨⟨slot, sequence, hslot, hstate, ⟨_, _, hwritten, rfl⟩, ?_, h.targets⟩, hwritten, rfl,
    h.trail⟩
  have hrecorded := h.recorded
  rw [hslot, hstate] at hrecorded
  exact hrecorded.of_ne (.journal _) nofun _

/-- **What is committed is finished**, unless a sequence runs out. -/
theorem calm_finalizeCommitted (stateSequence sequence : Nat) :
    Calmly (fun v => task.Closing v ∧ v.memory.state.sequence = stateSequence
        ∧ v.memory.journal.sequence = sequence) (finalizeCommitted env)
      (fun _ v => task.Closed v)
      (fun _ v => task.History v.trail
        ∧ (maxSequence ≤ stateSequence ∨ maxSequence ≤ sequence)) := by
  refine .intro fun v₀ hv₀ => ?_
  obtain ⟨hclosing, hstateSeq, hseq⟩ := hv₀
  refine .inspect_eq (fun v hv => by rw [hv]) (.inspect_eq
    (fun v hv => by rw [hv]) ?_)
  refine .bind (Q := fun _ v => v = v₀) ?_ fun _ => ?_
  · -- Every target holds its new contents.
    refine .forEach_done (I := fun _ v => v = v₀) fun done entry rest heq =>
      .conseq calm_verifyRootFile (fun _ _ h => h.1) ?_
    rintro _ v ⟨rfl, hbad⟩
    have hmem : entry ∈ v.memory.journal.entries := by rw [heq]; simp
    rw [hclosing.names.entries] at hmem
    rw [hclosing.targets] at hbad
    exact absurd (task.newFile entry hmem) hbad
  rw [task.stateFromJournal_eq hclosing.names hclosing.current]
  refine .lift_bind nofun ?_
  rintro _ ⟨⟩
  refine .bind (Q := fun next v => v = recorded env v₀ next
      ∧ next = { task.next with sequence := v₀.memory.state.sequence + 1 }
      ∧ v₀.memory.state.sequence < maxSequence)
    (calm_writeStateRecord ?_ ?_) fun next => .learn ?_
  · rintro v rfl hfull
    exact ⟨hclosing.trail, .inl (by rw [← hstateSeq]; exact le_of_eq hfull.symm)⟩
  · rintro v rfl hroom
    exact ⟨rfl, rfl, lt_of_le_of_ne hclosing.sequence_le hroom⟩
  rintro ⟨hnext, hroom⟩
  refine .bind (Q := fun _ v => task.Closing v ∧ (v.memory.stateSlot ≠ none
      ∧ v.memory.state = next ∧ v.memory.journal.sequence = sequence)) (.remember ?_) fun _ => ?_
  · rintro v rfl
    exact ⟨hclosing.stateWritten hroom hnext, nofun, rfl, hseq⟩
  -- the end is the same whether one slot is cleaned or two
  have hend : Calmly (fun v => task.Closing v ∧ (v.memory.stateSlot ≠ none
      ∧ v.memory.state = next ∧ v.memory.journal.sequence = sequence))
      (do clearJournal env; validateCurrentState env) (fun _ v => task.Closed v)
      (fun _ v => task.History v.trail ∧ (maxSequence ≤ stateSequence ∨ maxSequence ≤ sequence)) := by
    refine .bind (Q := fun _ v => task.Closed v ∧ v.memory.state = next)
      (calm_clearJournal ?_ ?_) fun _ => ?_
    · rintro v ⟨hv, -, -, hjseq⟩ hfull
      exact ⟨hv.trail, .inr (by rw [← hjseq]; exact le_of_eq hfull.symm)⟩
    · rintro v ⟨hv, hslot, hstate, -⟩ hjseq
      obtain ⟨slot, hslot⟩ := Option.ne_none_iff_exists'.mp hslot
      exact ⟨hv.cleared hslot (hstate.trans hnext) hjseq, hstate⟩
    · refine .conseq (calm_validateCurrentState fun v hv => hv.2)
        (fun _ v hv => hv.1.1) ?_
      rintro e v ⟨⟨hv, -⟩, hbad⟩
      obtain ⟨slot, q, -, -, hquiet⟩ := hv.state
      refine absurd (fun target => ?_) hbad
      rw [hquiet.targets, hnext]
      exact task.next_described target
  refine .bind (calm_cleanupSlot (Closing.slotFree _ fun memory => memory.stateSlot ≠ none
    ∧ memory.state = next ∧ memory.journal.sequence = sequence)) fun _ => ?_
  refine .ite (fun _ => .bind (calm_cleanupSlot (Closing.slotFree _ fun memory =>
    memory.stateSlot ≠ none ∧ memory.state = next ∧ memory.journal.sequence = sequence))
    fun _ => hend) (fun _ => hend)

theorem history_of_before {passed : List (Files Path)} (h : ∀ files ∈ passed, task.Before files) :
    task.History passed := by
  cases passed with
  | nil => trivial
  | cons files passed => exact .inl (forall_mem_cons.mp h)

/-- The committed journal is written once all targets are new. -/
theorem Working.commit (h : task.Working v) (hphase : v.memory.journal.phase = .committed)
    (hnew : ∀ target, v.files (.target target) = task.new target)
    (hseq : v.memory.journal.sequence ≠ maxSequence) : task.Closing (Zupd.journaled env v) where
  current := .inl ⟨h.stateSlot, h.state⟩
  recorded := by
    have hrecorded := h.recorded
    rw [← h.stateSlot, ← h.state] at hrecorded
    exact hrecorded.of_ne (.journal _) nofun _
  names := h.names.edit
  phase := hphase
  journal := by
    obtain ⟨j, hj, -, -, hjseq⟩ := h.synced
    exact hj.written (h.names.next_ok h.progress_le h.phase_ne (lt_of_le_of_ne h.sequence_lt hseq))
      (congrArg (· + 1) hjseq.symm)
  targets target := (journaled_files_of_ne env v (.target target) nofun).trans (hnew target)
  history := history_of_before h.trail

/-- An interrupted rollback is carried on. -/
theorem calm_continueInterruptedRollback (hkind : task.journal.kind = .rollback)
    (stateSequence sequence : Nat) :
    Calmly (fun v => task.Working v ∧ v.memory.state.sequence = stateSequence
        ∧ v.memory.journal.sequence = sequence) (continueInterruptedRollback env)
      (fun _ v => task.Closed v)
      (fun _ v => task.History v.trail ∧ (maxSequence ≤ stateSequence
        ∨ maxSequence < sequence + task.journal.entries.length + 2)) := by
  have hne : task.journal.kind ≠ .apply := by rw [hkind]; decide
  refine .known (c := task.state.sequence = stateSequence) ?_ fun hstate => ?_
  · rintro v ⟨hw, hstate, -⟩
    rw [← hw.state]
    exact hstate
  refine .pre (task.calm_rewind (fun entry _ => by rw [safeFile, if_neg hne]) sequence
    (fun _ _ htrail hfull => ⟨history_of_before htrail, .inr (by omega)⟩) fun j _ => ?_)
    fun _ hv => ⟨hv.1, hv.2.2⟩
  rw [safe_rollback hne]
  -- all targets are new, and from here on it ends like an update
  refine .bind (Q := fun _ v => task.Working v ∧ v.memory.journal.phase = .committed
      ∧ v.memory.journal.sequence = sequence + task.journal.entries.length
      ∧ ∀ target, v.files (.target target) = task.new target) (.remember ?_) fun _ => ?_
  · rintro v ⟨hw, hseq, hnew⟩
    exact ⟨hw.remember rfl rfl rfl hw.names.edit rfl hw.progress_le (by simp), rfl, hseq, hnew⟩
  refine .bind (Q := fun _ v => task.Closing v ∧ v.memory.state.sequence = stateSequence
      ∧ v.memory.journal.sequence = sequence + task.journal.entries.length + 1)
    (.mapError (calm_writeJournalRecord ?_ ?_ ?_)) fun _ => ?_
  · rintro v ⟨hw, -⟩
    rw [hw.names.entries]
    exact task.journal_ok.count_le
  · rintro v ⟨hw, -, hseq, -⟩ hfull
    exact ⟨history_of_before hw.trail, .inr (by omega)⟩
  · rintro v ⟨hw, hphase, hseq, hnew⟩ hroom
    refine ⟨hw.commit hphase hnew hroom, ?_, congrArg (· + 1) hseq⟩
    rw [← hstate, ← hw.state]
    rfl
  · refine .postError (task.calm_finalizeCommitted stateSequence _) ?_
    rintro _ v ⟨htrail, hfull⟩
    exact ⟨htrail, hfull.imp id fun h => by omega⟩

end Task

/-! ### Starting up -/

theorem Baseline.unique {first second : State}
    (hfirst : Baseline env files first) (hsecond : Baseline env files second) : first = second := by
  have hcurrent : first.current = second.current := by
    funext target
    exact (hfirst.described target).unique (hsecond.described target) (hfirst.present target)
  rw [hfirst.fields, hsecond.fields, hcurrent]

/-- Files of sizes the updater handles have a baseline. -/
theorem exists_baseline (env : Env)
    (h : ∀ target, ∃ bytes, files (.target target) = some bytes ∧ SizeOk bytes) :
    ∃ s, Baseline env files s := by
  choose bytes hfile hsize using h
  refine ⟨{ State.compileTime with
    current := fun target => ⟨true, (bytes target).length, env.crypto.sha256 (bytes target)⟩ },
    rfl, fun _ => rfl, fun target => ?_⟩
  rw [hfile target]
  exact ⟨hsize target, rfl⟩

/-- The memory after loading. -/
def loadedMemory (memory : Memory) (slot : Option Slot) (s : State) (jslot : Option Slot) (j : Journal) :
    Memory :=
  adoptJournal { memory with state := s, stateSlot := slot, journal := j, journalSlot := jslot }

theorem calm_loadAndRecover {jslot : Option Slot}
    (hstate : StateAt env files slot s) (hbaseline : slot = none → Baseline env files s)
    (hjournal : JournalAt env files jslot j)
    (h : Calmly (fun v => v = ⟨files, passed, loadedMemory memory slot s jslot j⟩)
    (do recoverPending env; validateCurrentState env) Q E) :
    Calmly (fun v => v = ⟨files, passed, memory⟩) (loadAndRecover env) Q E := by
  refine .attempt_bind (Q := fun _ v => v = withState ⟨files, passed, memory⟩ slot s)
    (.conseq calm_loadStateRecords ?_ ?_) (fun _ => ?_)
    fun _ => .never
  -- the newest record is the only one that is found, and so is the baseline
  · rintro _ v ⟨u, slot', s', rfl, hs', hbase', rfl⟩
    have heq := hs'.unique hstate
    cases slot' <;> cases slot <;> simp only [Option.map_some, Option.map_none, reduceCtorEq,
      Option.some.injEq, Prod.mk.injEq] at heq
    · rw [(hbase' rfl).unique (hbaseline rfl)]
    · rw [heq.1, heq.2]
  · rintro e v ⟨rfl, hbad⟩
    obtain ⟨hnone, hno⟩ := hbad slot s hstate
    exact absurd (hbaseline hnone) (hno s)
  refine .attempt_bind (Q := fun _ v => v = withJournal (withState ⟨files, passed, memory⟩ slot s) jslot j)
    (.conseq calm_loadJournalRecords ?_ ?_) (fun _ => ?_)
    fun _ => .never
  · rintro _ v ⟨u, jslot', j', rfl, hj', rfl⟩
    obtain ⟨rfl, rfl⟩ := JournalAt.unique hj' hjournal
    rfl
  · rintro e v ⟨rfl, hbad⟩
    exact absurd hjournal (hbad jslot j)
  refine .lift_bind nofun fun _ _ => .lift_bind nofun fun _ _ => .bind
    (.remember ?_) fun _ => h
  rintro v rfl
  rfl

/-- Self test passed, and a FAT12 volume. -/
structure Env.Ready (env : Env) : Prop where
  selfTest : env.selfTest = true
  fat12 : env.fat12 = true

/-- A record of the runtime that fits these contents has this version. -/
def Agrees (env : Env) (runtime : Option Runtime) (contents : Target → Option (List UInt8))
    (version : Base) : Prop :=
  ∀ record ∈ runtime, (∀ target, Describes env (record.current target) (contents target)) →
    record.installed = version

theorem agrees_none {contents : Target → Option (List UInt8)} {version : Base} :
    Agrees env none contents version := fun _ hrecord => absurd hrecord (Option.not_mem_none _)

/-- The runtime has nothing to record where it agrees. -/
theorem calm_runtimeInit {runtime : Option Runtime} {v : Scene}
    (h : Agrees env runtime (fun target => v.files (.target target)) v.memory.state.installed) :
    Calmly (fun w => w = v) (runtimeInit env runtime) (fun _ w => w = v) E := by
  cases runtime with
  | none => exact .pure fun _ hw => hw
  | some record =>
    refine .attempt_bind calm_currentFiles (fun actual => .inspect_bind fun installed => ?_)
      fun _ => .bind (.inspect fun _ hw => hw) fun _ => .pure fun _ hw => hw
    refine .intro fun w hw => ?_
    obtain ⟨⟨rfl, hactual⟩, rfl⟩ := hw
    refine .ite (fun hask => ?_) fun _ => .pure fun _ hw => hw
    -- it asks only where its record fits the targets and has another version
    exact absurd (h record rfl fun target => (hactual target).of_same (hask.1 target)) hask.2

/-- The memory once the updater has started. -/
def startMemory : Memory := { Memory.blank with ready := true }

/-- Its memory once the records are read. -/
abbrev heldMemory (slot : Option Slot) (s : State) (jslot : Option Slot) (j : Journal) : Memory :=
  { startMemory with state := s, stateSlot := slot, journal := j, journalSlot := jslot }

/-- What was found, and the state is healthy. -/
def Healthy (Q : Scene → Prop) (v : Scene) : Prop :=
  ∃ u, Q u ∧ v = { u with memory := { u.memory with healthy := true } }

variable {Q : Scene → Prop}

/-- `update_init` where loading and recovery succeed or fail. -/
theorem calm_init_cases (henv : env.Ready) {runtime : Option Runtime} {F : Scene → Prop}
    (hagrees : ∀ u, Q u →
      Agrees env runtime (fun target => u.files (.target target)) u.memory.state.installed)
    (h : Calmly (fun v => v = ⟨files, passed, startMemory⟩) (loadAndRecover env)
    (fun _ => Q) (fun _ => F)) :
    Calmly (fun v => v.files = files ∧ v.passed = passed) (init env runtime)
      (fun _ v => Healthy Q v ∨ F v) E := by
  refine .bind (Q := fun _ v => v = ⟨files, passed, Memory.blank⟩) (.remember ?_) fun _ => ?_
  · rintro ⟨f, past, memory⟩ ⟨rfl, rfl⟩
    rfl
  refine .ensure_bind (fun hbad => absurd henv.selfTest hbad) fun _ => .bind
    (Q := fun _ v => v = ⟨files, passed, startMemory⟩) (.remember ?_) fun _ => ?_
  · rintro v rfl
    rfl
  rw [if_pos henv.fat12]
  refine .attempt_bind h (fun _ => ?_) fun _ => .pure fun _ hv => .inr hv
  refine .bind (Q := fun _ => Healthy Q) (.remember fun v hv => ⟨v, hv, rfl⟩) fun _ => ?_
  refine .intro fun v hv => (calm_runtimeInit ?_).post fun _ w hw => .inl (hw ▸ hv)
  obtain ⟨u, hu, rfl⟩ := hv
  exact hagrees u hu

theorem calm_init (henv : env.Ready) {runtime : Option Runtime}
    (hagrees : ∀ u, Q u →
      Agrees env runtime (fun target => u.files (.target target)) u.memory.state.installed)
    (h : Calmly (fun v => v = ⟨files, passed, startMemory⟩) (loadAndRecover env) (fun _ v => Q v)
    (fun _ _ => False)) :
    Calmly (fun v => v.files = files ∧ v.passed = passed) (init env runtime) (fun _ v => Healthy Q v) E :=
  (calm_init_cases henv hagrees h).post fun _ _ hv => hv.resolve_right id

end ZephyrOS.Zupd
