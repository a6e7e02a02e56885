import Mathlib.Data.List.Nodup
import ZephyrOS.Update.ZupdInit

/-!
# Applying an update

`update_apply_file` from a machine that has nothing to do. Until the journal says what is to be done,
every volume it passes is as quiet as the first one; from then on each is in a stage of the
transaction that replaces the targets by the payloads of the package.
-/

namespace ZephyrOS.Zupd

open Lib RootFiles Function List Program
open Update (Version Base Slot bySlot)

variable {P : Scene → Prop} {E : Err → Scene → Prop} {α : Type} {path : Path} {env : Env}
  {v v₀ w : Scene} {package : Package} {m m₁ : Board} {s : State} {item : Entry × JournalEntry}
  {entries : List JournalEntry} {target : Target} {options : Options}
  {new : Target → Option (List UInt8)}

/-! ### Reports -/

/-- What recovery needs is the same. -/
def TaskMemory (memory memory' : Memory) : Prop :=
  memory'.state = memory.state ∧ memory'.stateSlot = memory.stateSlot
    ∧ memory'.journal = memory.journal ∧ memory'.journalSlot = memory.journalSlot

/-- A property that results, counts and flags do not matter to. -/
def Careless (P : Scene → Prop) : Prop :=
  ∀ v memory, TaskMemory v.memory memory → P v → P { v with memory := memory }

section

variable (hP : Careless P)
include hP

theorem calm_remember {f : Memory → Memory} (hf : ∀ memory, TaskMemory memory (f memory)) :
    Calmly P (Session.remember f : Command Unit) (fun _ => P) E :=
  .remember fun v hv => hP v _ (hf v.memory) hv

theorem calm_report (f : ActionResult → ActionResult) :
    Calmly P (report f) (fun _ => P) E := calm_remember hP fun _ => ⟨rfl, rfl, rfl, rfl⟩

theorem calm_setHealthy (healthy : Bool) :
    Calmly P (setHealthy healthy) (fun _ => P) E := calm_remember hP fun _ => ⟨rfl, rfl, rfl, rfl⟩

theorem calm_actionFail {Q : α → Scene → Prop} (reason : ActionReason) (e : Err) :
    Calmly P (actionFail reason e : Command α) Q (fun _ => P) :=
  .bind (calm_report hP _) fun _ => .fail fun _ h => h

theorem calm_markRecoveryPending {Q : α → Scene → Prop} :
    Calmly P (markRecoveryPending : Command α) Q (fun _ => P) :=
  .bind (calm_report hP _) fun _ => .bind (calm_setHealthy hP _) fun _ =>
    calm_actionFail hP _ _

theorem calm_cancelled (options : Options) :
    Calmly P (cancelled options) (fun _ => P) E :=
  .bind .read fun _ =>
    .bind (calm_remember hP fun _ => ⟨rfl, rfl, rfl, rfl⟩) fun _ => .pure fun _ h => h

end

theorem careless_trail (H : List (Files Path) → Prop) : Careless fun v => H v.trail := fun _ _ _ h => h

theorem careless_forall (B : Files Path → Prop) : Careless fun v => ∀ files ∈ v.trail, B files :=
  careless_trail fun trail => ∀ files ∈ trail, B files

/-! ### A machine with nothing to do -/

structure Settled (env : Env) (v : Scene) : Prop where
  ready : v.memory.ready = true
  healthy : v.memory.healthy = true
  journal : JournalAt env v.files v.memory.journalSlot v.memory.journal
  kind : v.memory.journal.kind = .none
  state : StateAt env v.files v.memory.stateSlot v.memory.state
  described : ∀ target, Describes env (v.memory.state.current target) (v.files (.target target))
  baseline : v.memory.stateSlot = none → Baseline env v.files v.memory.state

/-- The state and the contents are those of `v₀`, and there is no journal. -/
def OldQuiet (env : Env) (v₀ : Scene) (files : Files Path) : Prop :=
  Quiet env v₀.memory.stateSlot v₀.memory.state (fun target => v₀.files (.target target)) files

/-- Nothing has happened yet that matters. -/
structure Idle (env : Env) (v₀ v : Scene) : Prop where
  same : TaskMemory v₀.memory v.memory
  journal : JournalAt env v.files v.memory.journalSlot v.memory.journal
  quiet : ∀ files ∈ v.trail, OldQuiet env v₀ files

section Idle

variable {env : Env} {v₀ v : Scene} {file : Option (List UInt8)}

theorem Settled.quiet (h : Settled env v₀) : OldQuiet env v₀ v₀.files :=
  ⟨⟨_, _, h.journal, h.kind⟩, h.state, fun _ => rfl⟩

theorem Settled.idle (h : Settled env v₀) (hpassed : v₀.passed = []) : Idle env v₀ v₀ := by
  refine ⟨⟨rfl, rfl, rfl, rfl⟩, h.journal, fun files hfiles => ?_⟩
  rw [View.trail, hpassed, mem_singleton] at hfiles
  rw [hfiles]
  exact h.quiet

theorem careless_idle : Careless (Idle env v₀) := by
  intro v memory hsame h
  obtain ⟨hstate, hslot, hjournal, hjslot⟩ := hsame
  refine ⟨⟨hstate.trans h.same.1, hslot.trans h.same.2.1, hjournal.trans h.same.2.2.1,
    hjslot.trans h.same.2.2.2⟩, ?_, h.quiet⟩
  rw [hjournal, hjslot]
  exact h.journal

theorem Idle.neutral (h : Idle env v₀ v) (hpath : Neutral path) :
    Idle env v₀ (v.replaced path file) := by
  refine ⟨h.same, h.journal.of_ne path hpath.2.1 file, forall_mem_cons.mpr ⟨?_, h.quiet⟩⟩
  exact (h.quiet v.files mem_cons_self).of_neutral hpath

theorem Idle.target_eq (h : Idle env v₀ v) (target : Target) :
    v.files (.target target) = v₀.files (.target target) :=
  (h.quiet v.files mem_cons_self).targets target

/-- Not even a file was changed. -/
def Resting (env : Env) (v₀ v : Scene) : Prop := Idle env v₀ v ∧ v.files = v₀.files

theorem careless_resting : Careless (Resting env v₀) :=
  fun v memory hsame h => ⟨careless_idle v memory hsame h.1, h.2⟩

end Idle

/-! ### Starting a transaction -/

/-- The transaction leads from the machine's state and contents to the new contents and version. -/
structure Task.Leads {env : Env} (task : Task env) (v₀ : Scene) (new : Target → Option (List UInt8))
    (version : Base) : Prop where
  state : task.state = v₀.memory.state
  stateSlot : task.stateSlot = v₀.memory.stateSlot
  old : task.old = fun target => v₀.files (.target target)
  new : task.new = new
  version : task.next.installed = version

/-- The first record is written, and the transaction is under way. -/
theorem Task.start {task : Task env} {new : Target → Option (List UInt8)}
    {version : Base} (hleads : task.Leads v₀ new version)
    (hsequence : task.journal.sequence = v₀.memory.journal.sequence)
    (hphase : task.journal.phase = .prepared) (hprogress : task.journal.progress = 0)
    (hidle : Idle env v₀ v) (hbackups : ∀ entry ∈ task.journal.entries,
    v.files (.backup task.journal.slot entry.target) = task.safe entry.target)
    (hw : w = { v with memory := { v.memory with journal := task.journal } })
    (hseq : w.memory.journal.sequence ≠ maxSequence) : task.Working (journaled env w) := by
  subst hw
  have hquiet := hidle.quiet v.files mem_cons_self
  have hnone : task.journal.phase ≠ .none := by rw [hphase]; exact nofun
  have hnames : task.Names { task.journal with sequence := task.journal.sequence + 1 } :=
    ⟨rfl, rfl, rfl, rfl, rfl, rfl⟩
  have hlt : task.journal.sequence < maxSequence := by
    have := task.journal_ok.sequence_lt
    unfold maxSequence at hseq ⊢
    dsimp only at hseq
    omega
  have hat := hidle.journal
  rw [hidle.same.2.2.1] at hat
  have hwritten := hat.written (Names.next_ok ⟨rfl, rfl, rfl, rfl, rfl, rfl⟩
    task.journal_ok.progress_le hnone hlt) (congrArg (· + 1) hsequence)
  exact
    { state := hidle.same.1.trans hleads.state.symm
      stateSlot := hidle.same.2.1.trans hleads.stateSlot.symm
      recorded := by
        rw [hleads.state, hleads.stateSlot]
        exact hquiet.state.of_ne (.journal _) nofun _
      names := hnames
      progress_le := hprogress.trans_le (Nat.zero_le _)
      phase_ne := hnone
      synced := ⟨_, hwritten, hnames, hphase.trans_ne nofun, rfl⟩
      targets := fun target => by
        rw [hleads.old]
        exact .inl (hquiet.targets target)
      backups := hbackups
      passed := fun files hmem => by
        have hold := hidle.quiet files hmem
        rw [OldQuiet, ← hleads.state, ← hleads.stateSlot, ← hleads.old] at hold
        exact .inl hold }

/-! ### Preparing an update -/

/-- The journal of an update. -/
def preparedJournal (memory : Memory) (package : Package) (entries : List JournalEntry) : Journal :=
  { sequence := memory.journal.sequence, kind := .apply, phase := .prepared
    slot := if memory.state.rollbackAvailable then memory.state.rollbackSlot.other else .a
    progress := 0, baseStateSequence := memory.state.sequence, base := package.parsed.base
    target := package.parsed.target, entries := entries }

theorem calm_buildApplyJournal (hP : ∀ v, P v → TaskMemory v₀.memory v.memory) :
    Calmly P (buildApplyJournal env package)
      (fun j v => P v ∧ ∃ entries, package.entries.mapM (journalEntry v₀.memory.state) = .ok entries
        ∧ package.parsed.entryCount ≤ 3 ∧ j = preparedJournal v₀.memory package entries)
      (fun _ => P) := by
  refine .inspect_bind fun memory => ?_
  refine .known (c := memory.state = v₀.memory.state ∧ memory.journal = v₀.memory.journal) ?_ ?_
  · rintro v ⟨hv, rfl⟩
    exact ⟨(hP v hv).1, (hP v hv).2.2.1⟩
  rintro ⟨hstate, hjournal⟩
  refine .pre ?_ fun _ h => h.1
  refine .ensure_bind (fun _ _ h => h) fun hcount => .lift_bind (fun _ _ _ h => h)
    fun entries hentries => .bind .read fun files => .lift_bind (fun _ _ _ h => h)
    fun _ _ => .pure fun v hv => ?_
  rw [hstate] at hentries
  refine ⟨hv, entries, hentries, hcount, ?_⟩
  rw [preparedJournal, ← hstate, ← hjournal]

/-- The package is verified, and the journal built. -/
theorem prepareApply_run (hcalm : m.Calm) (hsettled : Settled env m.view) (hpassed : m.passed = [])
    (hverify : verifyInternal env.crypto (some m.memory.state.installed) path m = (.ok package, m₁)) :
    Triple (fun s => s = m) (prepareApply env path)
      (fun r s => s.Calm ∧ Resting env m.view s.view ∧ r.1 = package ∧ ∃ entries,
        package.entries.mapM (journalEntry m.memory.state) = .ok entries
          ∧ package.parsed.entryCount ≤ 3 ∧ r.2 = preparedJournal m.memory package entries)
      (fun _ s => s.Calm ∧ Resting env m.view s.view) := by
  have hresting : Resting env m.view m.view := ⟨hsettled.idle hpassed, rfl⟩
  -- Reading changes nothing that can be seen.
  have hview : Steady fun s => s.Calm ∧ s.view = m.view := by
    rintro s ⟨hs, hv⟩
    have hmoved : s.moved = { s with operations := s.operations + 1 } := by
      rw [Machine.moved, hs.alone]
    rw [hmoved]
    exact ⟨⟨hs.alone, hs.sound⟩, hv⟩
  have hsame : m₁.Calm ∧ m₁.view = m.view := by
    have h := (keeps_verifyInternal hview env.crypto (some m.memory.state.installed) path).run m
      ⟨hcalm, rfl⟩
    rw [hverify] at h
    exact h
  refine .bind (Q := fun package' s => package' = package ∧ s.Calm ∧ Resting env m.view s.view)
    ⟨?_⟩ fun package' => ?_
  · rintro s rfl
    have hinstalled : s.memory.installed = some s.memory.state.installed := by
      have hhealthy : s.memory.healthy = true := hsettled.healthy
      rw [Memory.installed, if_pos hhealthy]
    have hrun : verifyPackage env path s = (.ok package, m₁) := by
      rw [verifyPackage, Session.inspect, run_bind, run_read]
      dsimp only
      rw [hinstalled, run_bind, mapError, run_attempt, hverify]
      rfl
    rw [hrun]
    exact ⟨rfl, hsame.1, by rw [hsame.2]; exact hresting⟩
  · refine .known (fun s hs => hs.1) ?_
    rintro rfl
    refine .pre ?_ fun _ h => h.2
    refine Calmly.bind
      (R := fun (r : Package × Journal) v => Resting env m.view v ∧ r.1 = package' ∧ ∃ entries,
        package'.entries.mapM (journalEntry m.memory.state) = .ok entries
          ∧ package'.parsed.entryCount ≤ 3 ∧ r.2 = preparedJournal m.memory package' entries)
      (calm_report careless_resting _) fun _ => ?_
    exact .attempt_bind (.bind (Calmly.conseq (calm_validateCurrentState
        fun v hv => hv.1.same.1)
        (fun _ _ h => h.1) (fun _ _ h => h.1)) fun _ =>
        calm_buildApplyJournal (fun v hv => hv.1.same))
      (fun j => Calmly.pure fun v hv => ⟨hv.1, rfl, hv.2⟩) fun e => calm_actionFail careless_resting _ _

/-! ### Staging -/

/-- The bytes of an entry in the package. -/
def payloadOf (contents : List UInt8) (entry : Entry) : List UInt8 :=
  (contents.drop entry.payloadOffset).take entry.payloadSize

/-- What was staged and backed up so far. -/
structure Staging (env : Env) (v₀ : Scene) (contents : List UInt8) (slot : Slot)
    (staged : List (Entry × JournalEntry)) (saved : List JournalEntry) (v : Scene) : Prop where
  idle : Idle env v₀ v
  stages : ∀ item ∈ staged, v.files (.stage slot item.2.target) = some (payloadOf contents item.1)
    ∧ Describes env item.2.newFile (some (payloadOf contents item.1))
  backups : ∀ entry ∈ saved, v.files (.backup slot entry.target) = v₀.files (.target entry.target)


section Staging

variable {env : Env} {v₀ : Scene} {contents : List UInt8} {slot : Slot}
  {staged : List (Entry × JournalEntry)} {saved : List JournalEntry}

theorem careless_staging : Careless (Staging env v₀ contents slot staged saved) :=
  fun v memory hsame h => ⟨careless_idle v memory hsame h.idle, h.stages, h.backups⟩

theorem calm_stageFile {options : Options} (hpath : ∀ target, path ≠ .stage slot target)
    (hok : EntryOk item.1) (hnew : item.2.newFile = ⟨true, item.1.payloadSize, item.1.payloadHash⟩)
    (hdistinct : ∀ other ∈ staged, other.2.target ≠ item.2.target) :
    Calmly (fun v => Staging env v₀ contents slot staged [] v ∧ v.files path = some contents)
      (stageFile env options path slot item)
      (fun _ v => Staging env v₀ contents slot (staged ++ [item]) [] v ∧ v.files path = some contents)
      (fun _ => Idle env v₀) := by
  have hcareless : Careless fun v => Staging env v₀ contents slot staged [] v
      ∧ v.files path = some contents := fun v memory hsame h => ⟨careless_staging v memory hsame h.1, h.2⟩
  refine .bind (calm_cancelled hcareless options) fun stop =>
    .ensure_bind (fun _ _ h => h.1.idle) fun _ => .bind (Q := fun bytes v =>
      (Staging env v₀ contents slot staged [] v ∧ v.files path = some contents)
        ∧ bytes = payloadOf contents item.1
        ∧ Describes env item.2.newFile (some (payloadOf contents item.1))) ?_ fun bytes => .learn ?_
  · -- The payload is read again, and checked again.
    refine .ensure_bind (fun _ _ h => h.1.idle) fun _ => .bind (.mapError
      (calm_readFileRangeAt contents (fun v hv => hv.2) _ _)) fun bytes => .learn ?_
    change bytes = payloadOf contents item.1 → _
    rintro rfl
    refine .ensure_bind (fun _ _ h => h.1.idle) fun hlength =>
      .ensure_bind (fun _ _ h => h.1.idle) fun hhash => .pure fun v hv => ⟨hv, rfl, ?_, ?_⟩
    · rw [SizeOk, hlength]
      exact ⟨hok.size_pos, hok.size_le⟩
    · rw [hnew, hlength, hhash]
  · rintro ⟨rfl, hdescribes⟩
    refine .bind (Q := fun _ v => Staging env v₀ contents slot (staged ++ [item]) [] v
        ∧ v.files path = some contents)
      (calm_atomicWriteRoot hdescribes.1 (fun _ _ => .inl rfl) ?_) fun _ => ?_
    · rintro v ⟨hv, hfile⟩
      refine ⟨⟨hv.idle.neutral (neutral_stage _), fun other hother => ⟨View.replaced_append v
        (fun other hother heq => ?_)
        (fun other hother => (hv.stages other hother).1) other hother, ?_⟩, nofun⟩, ?_⟩
      · exact absurd (Path.stage.inj heq).2 (hdistinct other hother)
      · rcases mem_append.mp hother with hother | hother
        · exact (hv.stages other hother).2
        · rw [mem_singleton.mp hother]
          exact hdescribes
      · rw [View.replaced_files, update_of_ne (hpath _)]
        exact hfile
    · exact .conseq calm_verifyRootFile (fun _ _ h => h.1)
        (fun _ _ h => h.1.1.idle)

theorem calm_backupFile (hsettled : Settled env v₀) {options : Options} {entry : JournalEntry}
    (hpresent : (v₀.memory.state.current entry.target).present = true)
    (hold : entry.oldFile = v₀.memory.state.current entry.target) :
    Calmly (Staging env v₀ contents slot staged saved) (backupFile env options slot entry)
      (fun _ => Staging env v₀ contents slot staged (saved ++ [entry])) (fun _ => Idle env v₀) := by
  obtain ⟨bytes, hfile, hsize, hcurrent⟩ := (hsettled.described entry.target).size_ok hpresent
  have hdescribes : Describes env entry.oldFile (some bytes) := ⟨hsize, hold.trans hcurrent⟩
  refine .bind (calm_cancelled careless_staging options) fun stop =>
    .ensure_bind (fun _ _ h => h.idle) fun _ => .bind (calm_loadRootFile
      (fun v hv => (hv.idle.target_eq entry.target).trans hfile) hdescribes) fun read => .learn ?_
  rintro rfl
  refine .bind (Q := fun _ => Staging env v₀ contents slot staged (saved ++ [entry]))
    (calm_atomicWriteRoot hsize (fun _ _ => .inl rfl) ?_) fun _ => ?_
  · intro v hv
    rw [← hfile]
    refine ⟨hv.idle.neutral (neutral_backup _), hv.stages, View.replaced_append v
      (f := fun e : JournalEntry => .backup slot e.target) (fun _ _ heq => ?_) hv.backups⟩
    rw [(Path.backup.inj heq).2]
  · exact .conseq calm_verifyRootFile (fun _ _ h => h.1)
      (fun _ _ h => h.1.idle)

/-- The journal's entries are those of the package. -/
abbrev Matching (s : State) (items : List Entry) (entries : List JournalEntry) : Prop :=
  List.Forall₂ (fun item entry => journalEntry s item = .ok entry) items entries

theorem targetPath_of_targetId {path : List UInt8} (h : targetId path = some target) :
    path = targetPath target := by
  simpa using find?_some h

theorem Matching.nodup {items : List Entry}
    (h : Matching s items entries) (hincreasing : items.Pairwise fun a b => a.path < b.path) :
    (entries.map JournalEntry.target).Nodup := by
  induction h with
  | nil => exact nodup_nil
  | @cons item entry items entries hentry hrest ih =>
    rw [pairwise_cons] at hincreasing
    rw [map_cons, nodup_cons]
    refine ⟨fun hmem => ?_, ih hincreasing.2⟩
    -- An entry for the same target has the same path.
    obtain ⟨other, hother, htarget⟩ := mem_map.mp hmem
    obtain ⟨item', hitem', hrelated⟩ := exists_left_of_forall₂ hrest hother
    have hlt := hincreasing.1 item' hitem'
    rw [targetPath_of_targetId (journalEntry_eq_ok hentry).1,
      targetPath_of_targetId (journalEntry_eq_ok hrelated).1, htarget] at hlt
    exact List.lt_irrefl _ hlt

theorem calm_stageApplyFiles (hsettled : Settled env v₀) {options : Options}
    {j : Journal} (hmatching : Matching v₀.memory.state package.entries j.entries)
    (hok : ∀ entry ∈ package.entries, EntryOk entry) (hne : package.entries ≠ [])
    (hnodup : (j.entries.map JournalEntry.target).Nodup) :
    Calmly (fun v => Idle env v₀ v ∧ v.files path = some contents)
      (stageApplyFiles env options path package j)
      (fun _ => Staging env v₀ contents j.slot (package.entries.zip j.entries) j.entries)
      (fun _ => Idle env v₀) := by
  have hlength := hmatching.length_eq
  by_cases hslot : ∃ target, path = .stage j.slot target ∨ path = .backup j.slot target
  · -- The package itself is deleted, so nothing can be staged.
    obtain ⟨target, hslot⟩ := hslot
    refine .bind (Q := fun _ v => Idle env v₀ v ∧ v.files path = none)
      (.weaken (calm_cleanupSlot_all fun v target hv =>
        ⟨hv.neutral (neutral_stage _), hv.neutral (neutral_backup _)⟩)
        (fun _ h => h.1) ?_ (fun _ _ h => h)) fun _ => ?_
    · rintro _ v ⟨hv, hgone⟩
      refine ⟨hv, ?_⟩
      rcases hslot with rfl | rfl
      · exact (hgone target).1
      · exact (hgone target).2
    · obtain ⟨item, items, hitems⟩ := exists_cons_of_ne_nil hne
      obtain ⟨entry, entries, hentries⟩ : ∃ entry entries, j.entries = entry :: entries :=
        exists_cons_of_ne_nil (by rintro hnil; rw [hnil, hitems] at hlength; cases hlength)
      rw [hitems, hentries]
      refine .bind (.bind ?_
        fun _ => .never) fun _ => .never
      refine .bind (calm_cancelled
        (fun v memory hsame h => ⟨careless_idle v memory hsame h.1, h.2⟩) options) fun stop =>
        .ensure_bind (fun _ _ h => h.1) fun _ => .bind ?_ fun _ => .never
      refine .ensure_bind (fun _ _ h => h.1) fun _ => .bind
        (.mapError (.bind
          (.conseq calm_contents ?_ ?_) fun _ => .never))
        fun _ => .never
      · rintro bytes v ⟨⟨-, hnone⟩, hfile⟩
        exact absurd (hnone.symm.trans hfile) (by simp)
      · rintro e v ⟨⟨hv, -⟩, -⟩
        exact hv
  · push Not at hslot
    refine .bind (calm_cleanupSlot
      (fun v target hv => ?_)) fun _ => ?_
    · refine ⟨⟨hv.1.neutral (neutral_stage _), ?_⟩,
        ⟨hv.1.neutral (neutral_backup _), ?_⟩⟩
      · rw [View.replaced_files, update_of_ne (hslot target).1]
        exact hv.2
      · rw [View.replaced_files, update_of_ne (hslot target).2]
        exact hv.2
    have htargets : ((package.entries.zip j.entries).map fun item => item.2.target).Nodup := by
      have hsnd : (package.entries.zip j.entries).map (fun item => item.2.target)
          = ((package.entries.zip j.entries).map Prod.snd).map JournalEntry.target := by
        rw [map_map]; rfl
      rw [hsnd, map_snd_zip (le_of_eq hlength.symm)]
      exact hnodup
    refine .bind (.weaken (.forEach_done (I := fun staged v =>
        Staging env v₀ contents j.slot staged [] v ∧ v.files path = some contents)
      fun staged item rest heq => ?_) (fun v hv => ⟨⟨hv.1, nofun, nofun⟩, hv.2⟩) (fun _ _ h => h.1)
      (fun _ _ h => h)) fun _ => .forEach_done fun saved entry rest heq => ?_
    · have hmem : item ∈ package.entries.zip j.entries := by rw [heq]; simp
      have hnew := (journalEntry_eq_ok (forall₂_zip hmatching hmem)).2.2.2
      rw [heq, map_append, nodup_append] at htargets
      exact calm_stageFile (fun target => (hslot target).1)
        (hok item.1 (of_mem_zip hmem).1) hnew fun other hother =>
        htargets.2.2 _ (mem_map_of_mem hother) _ mem_cons_self
    · have hmem : entry ∈ j.entries := by rw [heq]; simp
      obtain ⟨item, -, hentry⟩ := exists_left_of_forall₂ hmatching hmem
      obtain ⟨-, hpresent, hold, -⟩ := journalEntry_eq_ok hentry
      exact calm_backupFile hsettled hpresent hold

end Staging

/-! ### The transaction of an update -/

/-- The contents of the targets after an update. -/
def packaged (contents : List UInt8) (items : List Entry) (old : Target → Option (List UInt8))
    (target : Target) : Option (List UInt8) :=
  match items.find? fun item => targetId item.path = some target with
  | some item => some (payloadOf contents item)
  | none => old target

/-- Everything that has to hold for an update to be journaled. -/
structure Prepared (env : Env) (v₀ : Scene) (package : Package) (contents : List UInt8)
    (entries : List JournalEntry) : Prop where
  settled : Settled env v₀
  matching : Matching v₀.memory.state package.entries entries
  ok : ∀ item ∈ package.entries, EntryOk item
  ne : package.entries ≠ []
  increasing : package.entries.Pairwise fun a b => a.path < b.path
  count_le : package.entries.length ≤ 3
  base : package.parsed.base = v₀.memory.state.installed
  /-- The payloads that were staged are those the entries describe. -/
  payloads : ∀ item ∈ package.entries.zip entries,
    Describes env item.2.newFile (some (payloadOf contents item.1))

theorem Settled.consistent (h : Settled env v) (target : Target) :
    (v.memory.state.current target).consistent = true := by
  cases hslot : v.memory.stateSlot with
  | some slot =>
    have hstate := h.state
    rw [hslot] at hstate
    exact hstate.ok.current target
  | none =>
    obtain ⟨bytes, -, hsize, heq⟩ :=
      (h.described target).size_ok ((h.baseline hslot).present target)
    rw [heq]
    simpa [FileState.consistent, SizeOk] using hsize

/-- As many files can be rolled back as there are entries. -/
theorem rollbackCount_withEntries {file : JournalEntry → FileState}
    (hnodup : (entries.map JournalEntry.target).Nodup) (hpresent : ∀ entry ∈ entries, (file entry).present = true) :
    rollbackCount (withEntries file entries fun _ => FileState.absent) = entries.length := by
  have hmem : ∀ target, (withEntries file entries (fun _ => FileState.absent) target).present = true
      ↔ target ∈ entries.map JournalEntry.target := by
    intro target
    constructor
    · intro h
      by_contra hnot
      rw [withEntries_of_not_mem hnot] at h
      exact absurd h (by decide)
    · intro h
      obtain ⟨entry, hentry, rfl⟩ := mem_map.mp h
      rw [withEntries_of_mem hnodup hentry]
      exact hpresent entry hentry
  have hperm : ([0, 1, 2].filter fun target =>
      (withEntries file entries (fun _ => FileState.absent) target).present).Perm
      (entries.map JournalEntry.target) := by
    refine (perm_ext_iff_of_nodup (Pairwise.filter _ (by decide)) hnodup).mpr fun target => ?_
    rw [mem_filter, hmem]
    exact ⟨fun h => h.2, fun h => ⟨mem_targets target, h⟩⟩
  rw [rollbackCount, hperm.length_eq, length_map]

section Prepared

variable {env : Env} {v₀ : Scene} {package : Package} {contents : List UInt8} {entries : List JournalEntry}
  (h : Prepared env v₀ package contents entries)
include h

theorem Prepared.nodup :
    (entries.map JournalEntry.target).Nodup := h.matching.nodup h.increasing

theorem Prepared.entry {entry : JournalEntry}
    (hentry : entry ∈ entries) : entry.oldFile = v₀.memory.state.current entry.target
      ∧ entry.oldFile.present = true ∧ entry.newFile.present = true ∧ entry.newFile.consistent = true := by
  obtain ⟨item, hitem, hrelated⟩ := exists_left_of_forall₂ h.matching hentry
  obtain ⟨-, hpresent, hold, hnew⟩ := journalEntry_eq_ok hrelated
  refine ⟨hold, by rw [hold]; exact hpresent, by rw [hnew], ?_⟩
  have hok := h.ok item hitem
  rw [hnew]
  simp [FileState.consistent, hok.size_pos, hok.size_le]

theorem Prepared.exists_item {entry : JournalEntry} (hentry : entry ∈ entries) :
    ∃ item ∈ package.entries.zip entries, item.2 = entry := by
  refine mem_map.mp ?_
  rw [map_snd_zip (le_of_eq h.matching.length_eq.symm)]
  exact hentry

/-- The payload an entry of the journal stands for. -/
theorem Prepared.packaged_eq
    (hitem : item ∈ package.entries.zip entries) (old : Target → Option (List UInt8)) :
    packaged contents package.entries old item.2.target = some (payloadOf contents item.1) := by
  have htarget := (journalEntry_eq_ok (forall₂_zip h.matching hitem)).1
  have hfind : package.entries.find? (fun other => targetId other.path = some item.2.target) = some item.1 := by
    cases hfound : package.entries.find? fun other => targetId other.path = some item.2.target with
    | none => exact absurd htarget (by simpa using find?_eq_none.mp hfound _ (of_mem_zip hitem).1)
    | some other =>
      -- Two entries for one target would have the same path.
      have hpath : other.path = item.1.path :=
        (targetPath_of_targetId (by simpa using find?_some hfound)).trans
          (targetPath_of_targetId htarget).symm
      have hinjective : package.entries.Pairwise fun a b => a.path ≠ b.path := by
        refine h.increasing.imp ?_
        intro a b hlt heq
        rw [heq] at hlt
        exact List.lt_irrefl _ hlt
      rw [inj_on_of_nodup_map (pairwise_map.mpr hinjective)
        (mem_of_find?_eq_some hfound) (of_mem_zip hitem).1 hpath]
  rw [packaged, hfind]

theorem Prepared.packaged_same
    (htarget : target ∉ entries.map JournalEntry.target) (old : Target → Option (List UInt8)) :
    packaged contents package.entries old target = old target := by
  have hfind : package.entries.find? (fun other => targetId other.path = some target) = none := by
    refine find?_eq_none.mpr fun item hitem hfound => htarget ?_
    obtain ⟨entry, hentry, hrelated⟩ := exists_left_of_forall₂ h.matching.flip hitem
    have := (journalEntry_eq_ok hrelated).1
    rw [show targetId item.path = some target by simpa using hfound] at this
    exact mem_map.mpr ⟨entry, hentry, (Option.some.inj this).symm⟩
  rw [packaged, hfind]

theorem Prepared.journal_ok :
    JournalOk (preparedJournal v₀.memory package entries) where
  sequence_lt := h.settled.journal.ok.sequence_lt
  baseSequence_lt := by
    cases hslot : v₀.memory.stateSlot with
    | some slot =>
      have hstate := h.settled.state
      rw [hslot] at hstate
      exact hstate.ok.sequence_lt
    | none =>
      show v₀.memory.state.sequence < _
      rw [(h.settled.baseline hslot).fields]
      exact Nat.zero_lt_succ _
  base := baseOk_read ..
  target := baseOk_read ..
  entries entry hentry := by
    obtain ⟨hold, hpresent, hnew, hsize⟩ := h.entry hentry
    have hconsistent := h.settled.consistent entry.target
    rw [← hold] at hconsistent
    rw [JournalEntry.consistent, hpresent, hnew, hconsistent, hsize]
    rfl
  count_le := h.matching.length_eq.symm.trans_le h.count_le
  nodup := h.nodup
  progress_le := Nat.zero_le _
  consistent := by
    have hne : entries ≠ [] := by
      rintro rfl
      exact h.ne (length_eq_zero_iff.mp h.matching.length_eq)
    simp [Journal.consistent, preparedJournal, hne]

theorem Prepared.next_ok {sequence : Nat}
    (hseq : sequence < 4294967296) :
    StateOk { applyStateFromJournal (preparedJournal v₀.memory package entries) v₀.memory.state with
      sequence := sequence } where
  sequence_lt := hseq
  installed := baseOk_read ..
  previous := baseOk_read ..
  current := withEntries_cases h.nodup (p := fun _ file => file.consistent = true)
    (fun _ hentry => (h.entry hentry).2.2.2) (fun target _ => h.settled.consistent target)
  rollback := withEntries_cases h.nodup (p := fun _ file => file.consistent = true)
    (fun entry hentry => by rw [(h.entry hentry).1]; exact h.settled.consistent entry.target)
    (fun _ _ => by decide)
  consistent := by
    have hcount : rollbackCount (withEntries JournalEntry.oldFile entries fun _ => FileState.absent)
        = entries.length := rollbackCount_withEntries h.nodup fun _ hentry => (h.entry hentry).2.1
    have hne : entries.length ≠ 0 := by
      rw [← h.matching.length_eq]
      exact fun hzero => h.ne (length_eq_zero_iff.mp hzero)
    simp [State.consistent, applyStateFromJournal, preparedJournal, hcount, hne]

/-- The transaction of the update. -/
def Prepared.task : Task env where
  state := v₀.memory.state
  stateSlot := v₀.memory.stateSlot
  journal := preparedJournal v₀.memory package entries
  next := applyStateFromJournal (preparedJournal v₀.memory package entries) v₀.memory.state
  old := fun target => v₀.files (.target target)
  new := packaged contents package.entries fun target => v₀.files (.target target)
  kind_ne := nofun
  journal_ok := h.journal_ok
  next_eq := rfl
  next_ok _ hseq := h.next_ok hseq
  described := h.settled.described
  oldFile_eq _ hentry := (h.entry hentry).1
  newFile entry hentry := by
    obtain ⟨item, hitem, rfl⟩ := h.exists_item hentry
    rw [h.packaged_eq hitem]
    exact h.payloads item hitem
  same _ htarget := h.packaged_same htarget _
  baseline hslot :=
    ⟨rfl, h.base, (h.settled.baseline hslot).fields, (h.settled.baseline hslot).present⟩

/-! ### Journaling -/

/-- The transaction is under way, and the new contents are staged. -/
structure Prepared.Staged (v : Scene) : Prop where
  working : h.task.Working v
  stages : ∀ entry ∈ entries, v.files (.stage h.task.journal.slot entry.target) = h.task.new entry.target

theorem Prepared.stage_eq {slot : Slot}
    (hv : Staging env v₀ contents slot (package.entries.zip entries) entries v) {entry : JournalEntry}
    (hentry : entry ∈ entries) : v.files (.stage slot entry.target) = h.task.new entry.target := by
  obtain ⟨item, hitem, rfl⟩ := h.exists_item hentry
  rw [(hv.stages item hitem).1]
  exact (h.packaged_eq hitem fun target => v₀.files (.target target)).symm

/-- The first record is written. -/
theorem Prepared.start
    (hv : Staging env v₀ contents h.task.journal.slot (package.entries.zip entries) entries v)
    (hw : w = { v with memory := { v.memory with journal := h.task.journal } })
    (hseq : w.memory.journal.sequence ≠ maxSequence) : h.Staged (journaled env w) := by
  refine ⟨Task.start ⟨rfl, rfl, rfl, rfl, rfl⟩ rfl rfl rfl hv.idle (fun entry hentry => ?_) hw hseq,
    fun entry hentry => ?_⟩
  · rw [hv.backups entry hentry]
    exact (if_pos rfl).symm
  · rw [journaled_files_of_ne env w (.stage _ _) nofun, show w.files = v.files by rw [hw]]
    exact h.stage_eq hv hentry

omit h

/-- **Until the journal is written nothing matters**, and then the transaction is under way. -/
theorem calm_startApplyTransaction (contents : List UInt8) (hsettled : Settled env v₀)
    {options : Options} (hmatching : Matching v₀.memory.state package.entries entries)
    (hok : ∀ item ∈ package.entries, EntryOk item) (hne : package.entries ≠ [])
    (hincreasing : package.entries.Pairwise fun a b => a.path < b.path)
    (hcount : package.entries.length ≤ 3) (hbase : package.parsed.base = v₀.memory.state.installed) :
    Calmly (fun v => Idle env v₀ v ∧ v.files path = some contents)
      (startApplyTransaction env options path package (preparedJournal v₀.memory package entries))
      (fun _ v => ∃ h : Prepared env v₀ package contents entries, h.Staged v)
      (fun _ v => ∀ files ∈ v.trail, OldQuiet env v₀ files) := by
  have hfree : ∀ slot, SlotFree slot (Idle env v₀) := fun slot v target hv =>
    ⟨hv.neutral (neutral_stage _), hv.neutral (neutral_backup _)⟩
  refine .attempt_bind (calm_stageApplyFiles hsettled hmatching hok hne (hmatching.nodup hincreasing))
    (fun _ => .intro fun v hstaging => ?_) fun e => ?_
  · have h : Prepared env v₀ package contents entries :=
      ⟨hsettled, hmatching, hok, hne, hincreasing, hcount, hbase, fun item hitem =>
        (hstaging.stages item hitem).2⟩
    refine .bind (Q := fun _ w => w = { v with memory := { v.memory with journal := h.task.journal } })
      (.remember ?_) fun _ => ?_
    · rintro w rfl; rfl
    refine .attempt_bind
      (F := fun _ w => ∀ files ∈ w.trail, OldQuiet env v₀ files) (calm_writeJournalRecord ?_ ?_ ?_)
      (fun _ => .pure fun w hw => ⟨h, hw⟩) fun e => ?_
    · rintro w rfl
      exact h.journal_ok.count_le
    · rintro w rfl -
      exact hstaging.idle.quiet
    · rintro w hw hroom
      exact h.start hstaging hw hroom
    · refine .bind (calm_cleanupSlot (fun w target hw => ?_)) fun _ =>
        .bind (.remember fun _ h => h) fun _ => calm_actionFail
          (careless_forall (OldQuiet env v₀)) _ _
      have hnow := hw w.files mem_cons_self
      exact ⟨forall_mem_cons.mpr ⟨hnow.of_neutral (neutral_stage _), hw⟩,
        forall_mem_cons.mpr ⟨hnow.of_neutral (neutral_backup _), hw⟩⟩
  · exact .bind (calm_cleanupSlot (hfree _)) fun _ => .postError
      (.ite (fun _ => calm_actionFail careless_idle _ _) (fun _ => calm_actionFail careless_idle _ _))
      (fun _ _ h => h.quiet)

end Prepared

/-! ### Replacing the targets -/

namespace Task

variable {env : Env} {task : Task env} {e : Err} {done : List JournalEntry}

theorem careless_working : Careless task.Working := by
  intro v memory hsame h
  obtain ⟨hstate, hslot, hjournal, hjslot⟩ := hsame
  exact h.remember hstate hslot hjslot (by rw [hjournal]; exact h.names) (by rw [hjournal])
    (by rw [hjournal]; exact h.progress_le) (by rw [hjournal]; exact h.phase_ne)

/-- A property of files other than the journal. -/
def JournalFree (R : Files Path → Prop) : Prop :=
  ∀ files slot file, R files → R (update files (.journal slot) file)

theorem calm_recordProgress (index : Nat) (hindex : index < task.journal.entries.length)
    {R : Files Path → Prop} (hR : JournalFree R) :
    Calmly (fun v => task.Working v ∧ R v.files) (recordProgress env index)
      (fun _ v => task.Working v ∧ R v.files) (fun _ => task.Working) := by
  refine .bind (Q := fun _ v => (task.Working v ∧ R v.files) ∧ v.memory.journal.phase = .replacing)
    (.remember ?_) fun _ => ?_
  · rintro v ⟨hw, hv⟩
    exact ⟨⟨hw.remember rfl rfl rfl hw.names.edit rfl hindex nofun, hv⟩, rfl⟩
  refine .bind (calm_report ?_ _) fun _ => calm_writeJournalRecord ?_ ?_ ?_
  · intro v memory hsame h
    exact ⟨⟨careless_working v memory hsame h.1.1, h.1.2⟩, by rw [hsame.2.2.1]; exact h.2⟩
  · rintro v ⟨⟨hw, -⟩, -⟩
    rw [hw.names.entries]
    exact task.journal_ok.count_le
  · rintro v ⟨⟨hw, -⟩, -⟩ -
    exact hw
  · rintro v ⟨⟨hw, hv⟩, hphase⟩ hroom
    exact ⟨hw.journaled (by rw [hphase]; exact nofun) hroom, hR _ _ _ hv⟩

/-- A failure is undone at once, if it can be. -/
theorem calm_applyRecoverFailure {α : Type} {Q : α → Scene → Prop} (hkind : task.journal.kind = .apply)
    (reason : ActionReason) :
    Calmly task.Working (applyRecoverFailure env reason e) Q
      (fun _ v => ∀ files ∈ v.trail, task.Before files) := by
  have hcareless := careless_forall task.Before
  refine .bind (Q := fun _ v => ∀ files ∈ v.trail, task.Before files)
    (.attempt (.intro fun v hv => .weaken
      (task.calm_restoreInterruptedApply hkind v.memory.journal.sequence) ?_ ?_ (fun _ _ h => h.1)))
    fun recovered => ?_
  · rintro w rfl
    exact ⟨hv, rfl⟩
  · rintro _ w hw
    exact forall_mem_cons.mpr ⟨.inl hw.quiet, hw.passed⟩
  · cases recovered with
    | ok u => exact .bind (calm_setHealthy hcareless _) fun _ => calm_actionFail hcareless _ _
    | error e => exact calm_markRecoveryPending hcareless

/-- The new contents are staged, and some targets are replaced. -/
structure Replacing (task : Task env) (done : List JournalEntry) (v : Scene) : Prop where
  working : task.Working v
  stages : ∀ entry ∈ task.journal.entries,
    v.files (.stage task.journal.slot entry.target) = task.new entry.target
  targets : ∀ entry ∈ done, v.files (.target entry.target) = task.new entry.target

theorem careless_replacing : Careless (task.Replacing done) :=
  fun v memory hsame h => ⟨careless_working v memory hsame h.working, h.stages, h.targets⟩

theorem calm_replaceApplyTargets (hkind : task.journal.kind = .apply) (options : Options)
    (rest : List JournalEntry) :
    ∀ done, task.journal.entries = done ++ rest →
      Calmly (task.Replacing done)
        (replaceApplyTargets env options task.journal.slot done.length rest)
        (fun _ => task.Replacing task.journal.entries)
        (fun _ v => ∀ files ∈ v.trail, task.Before files) := by
  induction rest with
  | nil =>
    intro done hentries
    rw [append_nil] at hentries
    rw [hentries]
    exact .pure fun _ h => h
  | cons entry rest ih =>
    intro done hentries
    have hmem : entry ∈ task.journal.entries := by rw [hentries]; simp
    obtain ⟨bytes, hbytes, hsize, hnew⟩ := (task.newFile entry hmem).size_ok (task.oldFile_present hmem).2
    refine .bind (calm_cancelled careless_replacing options) fun stop =>
      .ite (fun _ => ?_) (fun _ => ?_)
    · exact (task.calm_applyRecoverFailure hkind _).pre fun _ h => h.working
    refine .attempt_bind (Q := fun _ => task.Replacing (done ++ [entry]))
      (calm_replaceFromAlias bytes ?_ ⟨hsize, hnew⟩ ?_ ?_) (fun _ => ?_) fun _ => .never
    · intro v hv
      rw [hv.stages entry hmem, hbytes]
    · intro v hv
      exact task.isSome_of_eq_or hmem (hv.working.targets entry.target)
    · intro v hv
      rw [← hbytes]
      exact ⟨hv.working.replaced (.inr rfl), hv.stages, replaced_targets hv.targets⟩
    refine .attempt_bind (Q := fun _ => task.Replacing (done ++ [entry])) (.weaken
      (task.calm_recordProgress done.length (R := fun files => (∀ other ∈ task.journal.entries,
          files (.stage task.journal.slot other.target) = task.new other.target)
        ∧ ∀ other ∈ done ++ [entry], files (.target other.target) = task.new other.target)
        (by rw [hentries]; simp) fun _ _ _ h => h) (fun v hv => ⟨hv.working, hv.stages, hv.targets⟩)
      (fun _ v hv => ⟨hv.1, hv.2.1, hv.2.2⟩) (fun _ _ h => h)) (fun _ => ?_)
      fun e => task.calm_applyRecoverFailure hkind _
    refine .bind (Q := fun _ => task.Replacing (done ++ [entry])) (.inspect fun _ h => h)
      fun failAfter => .ite (fun _ => ?_) (fun _ => ?_)
    · -- The failpoint leaves everything as it is.
      exact .bind (calm_remember careless_replacing fun _ => ⟨rfl, rfl, rfl, rfl⟩) fun _ =>
        .postError (calm_markRecoveryPending careless_replacing)
          (fun _ _ h => h.working.trail)
    · have hnext := ih (done ++ [entry]) (by rw [hentries]; simp)
      rwa [length_append] at hnext

/-- Once all targets are new, the transaction is committed and finished. -/
theorem calm_commitTransaction :
    Calmly (fun v => task.Working v ∧ ∀ target, v.files (.target target) = task.new target)
      (commitTransaction env) (fun _ v => task.History v.trail) (fun _ v => task.History v.trail) := by
  have hcareless : Careless fun v => task.History v.trail := careless_trail task.History
  refine .bind (Q := fun _ v => (task.Working v ∧ ∀ target, v.files (.target target) = task.new target)
      ∧ v.memory.journal.phase = .committed) (.remember ?_) fun _ => ?_
  · rintro v ⟨hw, hnew⟩
    exact ⟨⟨hw.remember rfl rfl rfl hw.names.edit rfl hw.progress_le nofun, hnew⟩, rfl⟩
  refine .bind (Q := fun _ v => task.History v.trail) (.attempt (.bind
    (Q := fun _ v => task.Closing v) (calm_writeJournalRecord ?_ ?_ ?_) fun _ => ?_)) fun committed => ?_
  · rintro v ⟨⟨hw, -⟩, -⟩
    rw [hw.names.entries]
    exact task.journal_ok.count_le
  · rintro v ⟨⟨hw, -⟩, -⟩ -
    exact history_of_before hw.trail
  · rintro v ⟨⟨hw, hnew⟩, hphase⟩ hroom
    exact hw.commit hphase hnew hroom
  · refine .intro fun v hv => .weaken (task.calm_finalizeCommitted v.memory.state.sequence
      v.memory.journal.sequence) ?_ (fun _ _ h => h.trail) (fun _ _ h => h.1)
    rintro w rfl
    exact ⟨hv, rfl, rfl⟩
  · cases committed with
    | error e => exact calm_markRecoveryPending hcareless
    | ok u => exact .bind (calm_report hcareless _) fun _ => calm_setHealthy hcareless _

end Task

/-! ### The operation -/

/-- The volumes of a run, the latest first: all as quiet as the first, or those of a transaction. -/
def Course (env : Env) (v₀ : Scene) (new : Target → Option (List UInt8)) (version : Base)
    (trail : List (Files Path)) : Prop :=
  (∀ files ∈ trail, OldQuiet env v₀ files)
    ∨ ∃ task : Task env, task.Leads v₀ new version ∧ task.History trail

theorem Idle.course {version : Base} (h : Idle env v₀ v) : Course env v₀ new version v.trail :=
  .inl h.quiet

/-- A package is accepted only with entries. -/
theorem verifyInternal_ne_nil {ρ : Type} {crypto : Crypto} {installed : Installed}
    {m m' : Machine Path Err ρ}
    (h : (verifyInternal crypto installed path : Reading ρ _) m = (.ok package, m')) :
    package.parsed.entryCount ≠ 0 := by
  obtain ⟨package', t, hload, h⟩ := bind_eq_ok.mp h
  obtain ⟨_, u, -, h⟩ := bind_eq_ok.mp h
  obtain ⟨rfl, -⟩ := pure_eq_ok.mp h
  obtain ⟨header, t1, -, h⟩ := bind_eq_ok.mp hload
  obtain ⟨_, hlimits, h⟩ := lift_bind_eq_ok.mp h
  obtain ⟨_, -, h⟩ := lift_bind_eq_ok.mp h
  obtain ⟨_, -, h⟩ := lift_bind_eq_ok.mp h
  obtain ⟨_, t2, -, h⟩ := bind_eq_ok.mp h
  obtain ⟨table, t3, -, h⟩ := bind_eq_ok.mp h
  obtain ⟨entries, -, h⟩ := lift_bind_eq_ok.mp h
  obtain ⟨signature, t4, -, h⟩ := bind_eq_ok.mp h
  obtain ⟨rfl, -⟩ := pure_eq_ok.mp h
  rw [validateHeaderLimits, require_eq_ok] at hlimits
  exact hlimits.2.2.2.2.2.2.1

/-- **An update passes only volumes of its transaction.** -/
theorem applyFile_course (hcalm : m.Calm) (hsettled : Settled env m.view) (hpassed : m.passed = [])
    (hresult : m.memory.result = ActionResult.blank) {contents : List UInt8}
    (hverify : verifyInternal env.crypto (some m.memory.state.installed) path m = (.ok package, m₁))
    (hcontents : m.files path = some contents) :
    Triple (fun s => s = m) (applyFile env options path)
      (fun _ s => Course env m.view (packaged contents package.entries fun target => m.files (.target target))
        package.parsed.target s.view.trail)
      (fun _ s => Course env m.view (packaged contents package.entries fun target => m.files (.target target))
        package.parsed.target s.view.trail) := by
  obtain ⟨base, hbase, payloads, hverified⟩ := verifyInternal_eq_ok hverify
  have haccepted := hverified.accepted
  rw [← Option.some.inj hbase] at haccepted
  have hne : package.entries ≠ [] := by
    intro hnil
    have hcount := haccepted.count
    rw [hnil] at hcount
    exact verifyInternal_ne_nil hverify hcount.symm
  refine .bind (Q := fun _ s => s = m) (.modify ?_) fun _ => ?_
  · rintro s rfl
    rw [← hresult]
  refine .read_bind fun memory => .known (c := memory = m.memory) ?_ ?_
  · rintro s ⟨rfl, rfl⟩; rfl
  rintro rfl
  refine .pre ?_ fun _ h => h.1
  have hstay : ∀ {α : Type} {Q : α → Board → Prop} {reason : ActionReason} {e : Err},
      Triple (fun s => s.Calm ∧ Idle env m.view s.view) (actionFail reason e) Q
        (fun _ s => Course env m.view (packaged contents package.entries fun target => m.files (.target target))
          package.parsed.target s.view.trail) := fun {α Q reason e} =>
    .weaken (calm_actionFail careless_idle (Q := fun _ _ => False) reason e) (fun _ h => h)
      (fun _ _ h => h.2.elim) (fun _ _ h => h.2.course)
  have hidle : Idle env m.view m.view := hsettled.idle hpassed
  refine .ite (fun _ => hstay.pre ?_) fun _ => .ite (fun _ => hstay.pre ?_) fun _ => ?_
  · rintro s rfl; exact ⟨hcalm, hidle⟩
  · rintro s rfl; exact ⟨hcalm, hidle⟩
  refine .bind (.postError (prepareApply_run hcalm hsettled hpassed hverify)
    (fun _ _ h => h.2.1.course)) fun r => ?_
  obtain ⟨package', prepared⟩ := r
  refine .known (c := package' = package ∧ ∃ entries,
    package.entries.mapM (journalEntry m.memory.state) = .ok entries
      ∧ package.parsed.entryCount ≤ 3 ∧ prepared = preparedJournal m.memory package entries)
    (fun s hs => hs.2.2) ?_
  rintro ⟨rfl, entries, hentries, hcount, rfl⟩
  refine .pre (P := fun s => s.Calm ∧ Resting env m.view s.view) ?_ fun _ h => ⟨h.1, h.2.1⟩
  refine .ite (fun _ => .pure fun s hs => hs.2.1.course) fun _ => .ite (fun _ => ?_) fun _ => ?_
  · refine .bind (.postError (calm_remember
      (E := fun _ _ => False) careless_resting fun _ => ⟨rfl, rfl, rfl, rfl⟩)
      (fun _ _ h => h.2.elim)) fun _ => hstay.pre fun _ h => ⟨h.1, h.2.1⟩
  have hmatching : Matching m.memory.state package'.entries entries := mapM_eq_ok hentries
  refine .bind (.weaken (calm_startApplyTransaction contents hsettled hmatching
    haccepted.ok hne haccepted.increasing (by rw [haccepted.count]; exact hcount) haccepted.base) ?_
    (fun _ _ h => h) (fun _ _ h => .inl h.2)) fun _ => ?_
  · rintro s ⟨hs, hidle, hfiles⟩
    exact ⟨hs, hidle, by rw [hfiles]; exact hcontents⟩
  refine .known (c := ∃ h : Prepared env m.view package' contents entries, True) ?_ ?_
  · rintro s ⟨-, h, -⟩
    exact ⟨h, trivial⟩
  rintro ⟨h, -⟩
  have hleads : h.task.Leads m.view (packaged contents package'.entries fun target => m.files (.target target))
      package'.parsed.target := ⟨rfl, rfl, rfl, rfl, rfl⟩
  refine .bind (.weaken (h.task.calm_replaceApplyTargets rfl options entries [] rfl) ?_
    (fun _ _ h => h) (fun _ s hs => .inr ⟨h.task, hleads, Task.history_of_before hs.2⟩)) fun _ =>
    .weaken h.task.calm_commitTransaction ?_ (fun _ s hs => .inr ⟨h.task, hleads, hs.2⟩)
      (fun _ s hs => .inr ⟨h.task, hleads, hs.2⟩)
  · rintro s ⟨hs, h', hstaged⟩
    exact ⟨hs, hstaged.working, hstaged.stages, nofun⟩
  · rintro s ⟨hs, hreplaced⟩
    exact ⟨hs, hreplaced.working, h.task.targets_of_entries _ hreplaced.working.targets (.inr rfl)
      hreplaced.targets⟩

end ZephyrOS.Zupd
