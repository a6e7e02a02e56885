import ZephyrOS.Update.ZupdRecover

/-!
# What starting up makes of a volume

`update_init` on the volumes of each stage. From a quiet volume it starts as from any other, from a
pending or committed one it ends in a quiet one, provided that the volume is `Recoverable`: the
backups of an update that is to be undone are there, and no sequence runs out on the way.
-/

namespace ZephyrOS.Zupd

open Lib RootFiles
open Update (Version Base Slot bySlot)

variable {E : Err → Scene → Prop} {s : State} {runtime : Option Runtime}

/-- How many journal records recovery writes. -/
def journalWrites (j : Journal) : Nat :=
  if j.phase = .committed then 1
  else if j.kind = .apply then j.entries.length + 1
  else j.entries.length + 2

/-- Recovery has what it needs. -/
structure Recoverable (env : Env) (files : Files Path) : Prop where
  /-- The backups of an update that was not committed. -/
  backups : ∀ slot j, JournalAt env files slot j → j.kind = .apply → j.phase ≠ .committed →
    ∀ entry ∈ j.entries, (files (.backup j.slot entry.target)).isSome = true
  journalRoom : ∀ slot j, JournalAt env files slot j → j.kind ≠ .none →
    j.sequence + journalWrites j ≤ maxSequence
  stateRoom : ∀ slot j, JournalAt env files slot j → j.kind ≠ .none →
    j.phase = .committed ∨ j.kind = .rollback →
    ∀ stateSlot s, StateAt env files (some stateSlot) s → s.sequence < maxSequence

/-- Nothing is adopted from a journal that says nothing, or if there is a state. -/
theorem adoptJournal_eq {memory : Memory}
    (h : memory.stateSlot ≠ none ∨ memory.journal.kind ≠ .apply) : adoptJournal memory = memory := by
  rw [adoptJournal, if_neg]
  rintro ⟨hslot, hkind⟩
  rcases h with h | h
  · exact h hslot
  · exact h hkind

/-- A quiet volume stays as it is. -/
theorem calm_init_quiet {env : Env} (henv : env.Ready) {files : Files Path} {passed : List (Files Path)}
    {slot : Option Slot} {contents : Target → Option (List UInt8)}
    (hquiet : Quiet env slot s contents files)
    (hdescribed : ∀ target, Describes env (s.current target) (contents target))
    (hbaseline : slot = none → Baseline env files s) (hagrees : Agrees env runtime contents s.installed) :
    Calmly (fun v => v.files = files ∧ v.passed = passed) (init env runtime)
      (fun _ v => ∃ jslot j, JournalAt env files jslot j ∧ j.kind = .none
        ∧ v = ⟨files, passed, { heldMemory slot s jslot j with healthy := true }⟩) E := by
  obtain ⟨jslot, j, hj, hkind⟩ := hquiet.journal
  refine (calm_init henv (Q := fun v => v = ⟨files, passed, heldMemory slot s jslot j⟩) ?_
    (calm_loadAndRecover hquiet.state hbaseline hj ?_)).post ?_
  · rintro u rfl
    exact (funext hquiet.targets : (fun target => files (.target target)) = contents) ▸ hagrees
  · rw [loadedMemory, adoptJournal_eq (.inr (by rw [hkind]; decide))]
    refine .bind (Q := fun _ v => v = ⟨files, passed, heldMemory slot s jslot j⟩) ?_ fun _ => ?_
    · refine .inspect_eq (fun v hv => by rw [hv]) ?_
      rw [if_pos hkind]
      exact .pure fun _ h => h
    · refine calm_validateCurrentState_ok s ?_ ?_
      · rintro v rfl; rfl
      · rintro v rfl target
        dsimp only
        rw [hquiet.targets]
        exact hdescribed target
  · rintro _ v ⟨u, rfl, rfl⟩
    exact ⟨jslot, j, hj, hkind, rfl⟩

namespace Task

variable {env : Env} {task : Task env} {files : Files Path} {j : Journal} {v : Scene}
  {passed : List (Files Path)}

/-! ### Loading -/

theorem file_ok (hpresent : ∀ target, (task.state.current target).present = true)
    {target : Target}
    (hfile : files (.target target) = task.old target ∨ files (.target target) = task.new target) :
    ∃ bytes, files (.target target) = some bytes ∧ SizeOk bytes := by
  have hold : ∃ bytes, task.old target = some bytes ∧ SizeOk bytes := by
    obtain ⟨bytes, heq, hsize, -⟩ := (task.described target).size_ok (hpresent target)
    exact ⟨bytes, heq, hsize⟩
  rcases hfile with hfile | hfile
  · rw [hfile]
    exact hold
  by_cases hmem : target ∈ task.journal.entries.map JournalEntry.target
  · obtain ⟨entry, hentry, rfl⟩ := List.mem_map.mp hmem
    obtain ⟨bytes, heq, hsize, -⟩ := (task.newFile entry hentry).size_ok (task.oldFile_present hentry).2
    exact ⟨bytes, hfile.trans heq, hsize⟩
  · rw [hfile, task.same target hmem]
    exact hold

/-- What the files do not tell any more is in the journal. -/
theorem adopted_eq (hslot : task.stateSlot = none) (hbaseline : Baseline env files s)
    (hj : task.Names j)
    (htargets : ∀ target, files (.target target) = task.old target ∨ files (.target target) = task.new target) :
    { s with installed := j.base, current := withEntries JournalEntry.oldFile j.entries s.current }
      = task.state := by
  obtain ⟨-, hbase, hfields, hpresent⟩ := task.baseline hslot
  have hcurrent : withEntries JournalEntry.oldFile j.entries s.current = task.state.current := by
    rw [hj.entries]
    refine funext (withEntries_cases task.journal_ok.nodup
      (p := fun target file => file = task.state.current target) (fun entry hentry => ?_)
      (fun target hmem => ?_))
    · exact task.oldFile_eq entry hentry
    · have hfile : files (.target target) = task.old target := by
        rcases htargets target with h | h
        · exact h
        · exact h.trans (task.same target hmem)
      have hs := hbaseline.described target
      rw [hfile] at hs
      exact hs.unique (task.described target) (hbaseline.present target)
  rw [hcurrent, hj.base, hbase, hbaseline.fields, hfields]

/-- The memory after the files of the transaction were loaded, while the old state is recorded. -/
theorem exists_loaded (jslot : Option Slot) (memory : Memory)
    (hstate : StateAt env files task.stateSlot task.state) (hj : task.Names j)
    (htargets : ∀ target, files (.target target) = task.old target ∨ files (.target target) = task.new target) :
    ∃ s, StateAt env files task.stateSlot s ∧ (task.stateSlot = none → Baseline env files s)
      ∧ loadedMemory memory task.stateSlot s jslot j = { memory with
        state := task.state, stateSlot := task.stateSlot, journal := j, journalSlot := jslot } := by
  cases hslot : task.stateSlot with
  | some slot =>
    rw [hslot] at hstate
    exact ⟨task.state, hstate, nofun, adoptJournal_eq (.inl nofun)⟩
  | none =>
    obtain ⟨hkind, -, -, hpresent⟩ := task.baseline hslot
    obtain ⟨s, hs⟩ := exists_baseline env fun target => task.file_ok hpresent (htargets target)
    rw [hslot] at hstate
    refine ⟨s, hstate, fun _ => hs, ?_⟩
    have hadopt : (none : Option Slot) = none ∧ j.kind = .apply := ⟨rfl, hj.kind.trans hkind⟩
    rw [loadedMemory, adoptJournal, if_pos hadopt]
    simp only [task.adopted_eq hslot hs hj htargets]

/-! ### The stages -/

/-- Everything is as before the transaction. -/
structure AllOld (task : Task env) (v : Scene) : Prop where
  state : v.memory.state = task.state
  recorded : StateAt env v.files v.memory.stateSlot v.memory.state
  journal : JournalAt env v.files v.memory.journalSlot v.memory.journal
  kind : v.memory.journal.kind = .none
  targets : ∀ target, v.files (.target target) = task.old target
  history : task.History v.trail

/-- Everything is as the transaction has it. -/
structure AllNew (task : Task env) (v : Scene) : Prop where
  state : ∃ sequence, v.memory.state = { task.next with sequence := sequence }
  recorded : StateAt env v.files v.memory.stateSlot v.memory.state
  journal : JournalAt env v.files v.memory.journalSlot v.memory.journal
  kind : v.memory.journal.kind = .none
  targets : ∀ target, v.files (.target target) = task.new target
  history : task.History v.trail

theorem AllOld.agrees (h : task.AllOld v) (hagrees : Agrees env runtime task.old task.state.installed) :
    Agrees env runtime (fun target => v.files (.target target)) v.memory.state.installed := by
  rw [h.state, show (fun target => v.files (.target target)) = task.old from funext h.targets]
  exact hagrees

theorem AllNew.agrees (h : task.AllNew v) (hagrees : Agrees env runtime task.new task.next.installed) :
    Agrees env runtime (fun target => v.files (.target target)) v.memory.state.installed := by
  obtain ⟨sequence, hstate⟩ := h.state
  rw [hstate, show (fun target => v.files (.target target)) = task.new from funext h.targets]
  exact hagrees

theorem Restored.allOld (h : task.Restored v) : task.AllOld v :=
  ⟨h.state, by rw [h.state, h.stateSlot]; exact h.quiet.state, h.journal, h.kind, h.quiet.targets,
    history_of_before (List.forall_mem_cons.mpr ⟨.inl h.quiet, h.passed⟩)⟩

theorem Closed.allNew (h : task.Closed v) : task.AllNew v := by
  obtain ⟨slot, sequence, hslot, hstate, hquiet⟩ := h.state
  exact ⟨⟨sequence, hstate⟩, by rw [hslot, hstate]; exact hquiet.state, h.journal, h.kind, hquiet.targets,
    h.trail⟩

theorem Closed.calm_validate (h : task.Closed v) :
    Calmly (fun w => w = v) (validateCurrentState env) (fun _ w => w = v) E := by
  obtain ⟨slot, sequence, -, hstate, hquiet⟩ := h.state
  refine calm_validateCurrentState_ok { task.next with sequence := sequence } ?_ ?_
  · rintro w rfl; exact hstate
  · rintro w rfl target
    rw [hquiet.targets]
    exact task.next_described target

theorem Pending.working (h : task.Pending files) (hbackups : ∀ entry ∈ task.journal.entries,
      files (.backup task.journal.slot entry.target) = task.safe entry.target)
    (hpassed : ∀ earlier ∈ passed, task.Before earlier) (memory : Memory) {jslot : Option Slot}
    (hj : JournalAt env files jslot j) (hnames : task.Names j) (hphase : j.phase ≠ .committed) :
    task.Working ⟨files, passed, { memory with
      state := task.state, stateSlot := task.stateSlot, journal := j, journalSlot := jslot }⟩ where
  state := rfl
  stateSlot := rfl
  recorded := h.state
  names := hnames
  progress_le := by
    have := hj.ok.progress_le
    rwa [hnames.entries] at this
  phase_ne := by
    have hc := hj.ok.consistent
    have hkind := task.kind_ne
    rw [← hnames.kind] at hkind
    rw [Journal.consistent] at hc
    cases hk : j.kind with
    | none => exact absurd hk hkind
    | apply => simp_all
    | rollback => simp_all
  synced := ⟨j, hj, hnames, hphase, rfl⟩
  targets := h.targets
  backups := hbackups
  passed := hpassed

/-- A pending transaction is undone or carried on. -/
theorem calm_init_pending (henv : env.Ready) (h : task.Pending files)
    (hpassed : ∀ earlier ∈ passed, task.Before earlier) (hrecoverable : Recoverable env files)
    (hold : Agrees env runtime task.old task.state.installed)
    (hnew : Agrees env runtime task.new task.next.installed) :
    Calmly (fun v => v.files = files ∧ v.passed = passed) (init env runtime)
      (fun _ => Healthy fun u => task.AllOld u ∨ task.AllNew u) E := by
  obtain ⟨jslot, j, hj, hnames, hphase⟩ := h.journal
  have hkind : j.kind ≠ .none := by rw [hnames.kind]; exact task.kind_ne
  have hroom := hrecoverable.journalRoom jslot j hj hkind
  rw [journalWrites, if_neg hphase, hnames.entries] at hroom
  -- A backup that is there is the right one.
  have hbackups : ∀ entry ∈ task.journal.entries,
      files (.backup task.journal.slot entry.target) = task.safe entry.target := by
    intro entry hentry
    rcases h.backups entry hentry with hb | ⟨hnone, happly, -⟩
    · exact hb
    have hsome := hrecoverable.backups jslot j hj (hnames.kind.trans happly) hphase entry
      (by rw [hnames.entries]; exact hentry)
    rw [hnames.slot, hnone] at hsome
    exact absurd hsome (by simp)
  obtain ⟨s, hs, hbaseline, hloaded⟩ := task.exists_loaded jslot startMemory h.state hnames h.targets
  have hworking := h.working hbackups hpassed startMemory hj hnames hphase
  refine calm_init henv (fun u hu => hu.elim (·.agrees hold) (·.agrees hnew))
    (calm_loadAndRecover hs hbaseline hj ?_)
  rw [hloaded]
  refine .bind (Q := fun _ v => task.Restored v ∨ task.Closed v) ?_ fun _ => ?_
  · refine .inspect_eq (fun v hv => by rw [hv]) ?_
    rw [if_neg hkind, if_neg hphase]
    refine .ite (fun happly => ?_) (fun hrollback => ?_)
    · rw [if_pos happly] at hroom
      refine .weaken (task.calm_restoreInterruptedApply (hnames.kind.symm.trans happly) j.sequence)
        ?_ (fun _ _ h => .inl h) ?_
      · rintro v rfl
        exact ⟨hworking, rfl⟩
      · omega
    · rw [if_neg hrollback] at hroom
      have hrb : j.kind = .rollback := by
        cases hk : j.kind with
        | none => exact absurd hk hkind
        | apply => exact absurd hk hrollback
        | rollback => rfl
      refine .weaken (task.calm_continueInterruptedRollback (hnames.kind.symm.trans hrb)
        task.state.sequence j.sequence) ?_ (fun _ _ h => .inr h) ?_
      · rintro v rfl
        exact ⟨hworking, rfl, rfl⟩
      · rintro e v ⟨-, hfull | hfull⟩
        · -- A rollback has a recorded state.
          have hstate := h.state
          cases hslot : task.stateSlot with
          | none =>
            have := (task.baseline hslot).1
            rw [← hnames.kind, hrb] at this
            exact absurd this (by decide)
          | some slot =>
            rw [hslot] at hstate
            have := hrecoverable.stateRoom jslot j hj hkind (.inr hrb) slot _ hstate
            omega
        · omega
  · refine .intro fun v hv => ?_
    rcases hv with hv | hv
    · refine (calm_validateCurrentState_ok task.state ?_ ?_).post
        fun _ w hw => .inl (hw ▸ hv.allOld)
      · rintro w rfl; exact hv.state
      · rintro w rfl target
        rw [hv.quiet.targets]
        exact task.described target
    · exact hv.calm_validate.post fun _ w hw => .inr (hw ▸ hv.allNew)

/-- A committed transaction is finished. -/
theorem calm_init_committed (henv : env.Ready) (h : task.Committed files)
    (hpassed : task.History passed) (hrecoverable : Recoverable env files)
    (hnew : Agrees env runtime task.new task.next.installed) :
    Calmly (fun v => v.files = files ∧ v.passed = passed) (init env runtime)
      (fun _ => Healthy fun u => task.AllNew u) E := by
  obtain ⟨jslot, j, hj, hnames, hphase⟩ := h.journal
  obtain ⟨slot, s, hs, hcurrent⟩ := h.state
  have hkind : j.kind ≠ .none := by rw [hnames.kind]; exact task.kind_ne
  have hroom := hrecoverable.journalRoom jslot j hj hkind
  rw [journalWrites, if_pos hphase] at hroom
  -- The state that is loaded is the one before or the one after.
  have hload : ∃ s', StateAt env files slot s' ∧ (slot = none → Baseline env files s')
      ∧ loadedMemory startMemory slot s' jslot j = heldMemory slot s jslot j := by
    rcases hcurrent with ⟨rfl, rfl⟩ | ⟨hsome, -⟩
    · exact task.exists_loaded jslot startMemory hs hnames fun target => .inr (h.targets target)
    · exact ⟨s, hs, fun hnone => absurd hnone hsome, adoptJournal_eq (.inl hsome)⟩
  obtain ⟨s', hs', hbaseline, hloaded⟩ := hload
  have hclosing : task.Closing ⟨files, passed, heldMemory slot s jslot j⟩ :=
    ⟨hcurrent, hs, hnames, hphase, hj, h.targets, hpassed⟩
  refine calm_init henv (fun u hu => hu.agrees hnew) (calm_loadAndRecover hs' hbaseline hj ?_)
  rw [hloaded]
  refine .bind (Q := fun _ v => task.Closed v) ?_ fun _ => .intro fun v hv =>
    hv.calm_validate.post fun _ w hw => hw ▸ hv.allNew
  refine .inspect_eq (fun v hv => by rw [hv]) ?_
  rw [if_neg hkind, if_pos hphase]
  refine .weaken (task.calm_finalizeCommitted s.sequence j.sequence) ?_ (fun _ _ h => h) ?_
  · rintro v rfl
    exact ⟨hclosing, rfl, rfl⟩
  · rintro e v ⟨-, hfull | hfull⟩
    · cases slot with
      | some slot =>
        have := hrecoverable.stateRoom jslot j hj hkind (.inl hphase) slot s hs
        omega
      | none =>
        rcases hcurrent with ⟨hnone, rfl⟩ | ⟨hsome, -⟩
        · rw [(task.baseline hnone.symm).2.2.1] at hfull
          exact absurd (show maxSequence ≤ 0 from hfull) (by decide)
        · exact hsome rfl
    · omega

/-- The baseline of a volume without a state record is the state before the transaction. -/
theorem baseline_old (hslot : task.stateSlot = none)
    (htargets : ∀ target, files (.target target) = task.old target) :
    Baseline env files task.state := by
  obtain ⟨-, -, hfields, hpresent⟩ := task.baseline hslot
  refine ⟨hfields, hpresent, fun target => ?_⟩
  rw [htargets]
  exact task.described target

/-- **From every volume before the commit**, all is old or all is new. -/
theorem calm_init_before (henv : env.Ready) (h : task.Before files)
    (hpassed : ∀ earlier ∈ passed, task.Before earlier) (hrecoverable : Recoverable env files)
    (hold : Agrees env runtime task.old task.state.installed)
    (hnew : Agrees env runtime task.new task.next.installed) :
    Calmly (fun v => v.files = files ∧ v.passed = passed) (init env runtime)
      (fun _ => Healthy fun u => task.AllOld u ∨ task.AllNew u) E := by
  rcases h with hquiet | hpending
  · refine (calm_init_quiet henv hquiet task.described (fun hslot =>
      task.baseline_old hslot hquiet.targets) hold).post ?_
    rintro _ v ⟨jslot, j, hj, hkind, rfl⟩
    exact ⟨⟨files, passed, heldMemory _ _ jslot j⟩, .inl ⟨rfl, hquiet.state, hj, hkind, hquiet.targets,
      history_of_before (List.forall_mem_cons.mpr ⟨.inl hquiet, hpassed⟩)⟩, rfl⟩
  · exact calm_init_pending henv hpending hpassed hrecoverable hold hnew

/-- **From every volume after the commit**, all is new. -/
theorem calm_init_after (henv : env.Ready) (h : task.After files) (hpassed : task.History passed)
    (hrecoverable : Recoverable env files) (hnew : Agrees env runtime task.new task.next.installed) :
    Calmly (fun v => v.files = files ∧ v.passed = passed) (init env runtime)
      (fun _ => Healthy fun u => task.AllNew u) E := by
  rcases h with hcommitted | hdone
  · exact calm_init_committed henv hcommitted hpassed hrecoverable hnew
  obtain ⟨slot, sequence, hquiet⟩ := hdone
  refine (calm_init_quiet henv hquiet task.next_described nofun hnew).post ?_
  rintro _ v ⟨jslot, j, hj, hkind, rfl⟩
  exact ⟨⟨files, passed, heldMemory _ _ jslot j⟩, ⟨⟨sequence, rfl⟩, hquiet.state, hj, hkind, hquiet.targets,
    .inr ⟨.inr ⟨slot, sequence, hquiet⟩, hpassed⟩⟩, rfl⟩

end Task

end ZephyrOS.Zupd
