import ZephyrOS.Update.ZupdCalm

/-!
# Transactions on the volume

What the control files say at any moment, and how far a transaction is: `Quiet` before it starts and
after it was undone, `Pending` while files are replaced, `Committed` once the new contents stay, and
`Done`. A power loss leaves the files of one of these stages, and everything the updater does leads
from stage to stage. `Before` and `After` are the stages on either side of the commit.
-/

namespace ZephyrOS.Zupd

open Lib RootFiles Function
open Update (Version Base Slot bySlot)

variable {P : Scene → Prop} {E : Err → Scene → Prop} {slot : Option Slot} {s : State} {v : Scene}
  {env : Env} {target : Target} {path : Path} {file : Option (List UInt8)}

/-! ### What the control files say -/

section Finds

variable {α : Type} {path : Slot → Path} {decode : List UInt8 → Option α} {sequence : α → Nat}
  {files files' : Files Path} {found found' : Option (Slot × α)}

section

variable (h : Finds path decode sequence files found)
include h

theorem Finds.unique
    (h' : Finds path decode sequence files found') : found = found' := h.1.symm.trans h'.1

theorem Finds.congr (hsame : ∀ slot, files' (path slot) = files (path slot)) :
    Finds path decode sequence files' found := by
  have hrecords : recordAt path decode files' = recordAt path decode files := by
    funext slot
    rw [recordAt, recordAt, hsame]
  exact ⟨by rw [hrecords]; exact h.1, fun hnone slot => by rw [hsame]; exact h.2 hnone slot⟩

theorem Finds.of_ne {other : Path}
    (hother : ∀ slot, path slot ≠ other) (file : Option (List UInt8)) :
    Finds path decode sequence (update files other file) found :=
  h.congr fun slot => update_of_ne (hother slot) _ _

end

/-- A record is written to the copy that does not count. -/
theorem Finds.written {x y : α} {bytes : List UInt8}
    (h : Finds path decode sequence files (slot.map fun slot => (slot, x)))
    (hpath : path .a ≠ path .b) (hlength : bytes.length = controlSize) (hdecode : decode bytes = some y)
    (hy : slot ≠ none → sequence y = sequence x + 1) :
    Finds path decode sequence (update files (path (nextSlot slot)) (some bytes))
      (some (nextSlot slot, y)) := by
  have hne : ∀ first second : Slot, first ≠ second → path first ≠ path second := by
    intro first second hslot
    cases first <;> cases second <;> first | exact absurd rfl hslot | exact hpath | exact hpath.symm
  have hrecords : recordAt path decode (update files (path (nextSlot slot)) (some bytes))
      = update (recordAt path decode files) (nextSlot slot) (some y) := by
    funext other
    by_cases hother : other = nextSlot slot
    · rw [hother, recordAt]
      simp [Option.filter, hlength, hdecode]
    · rw [update_of_ne hother, recordAt, update_of_ne (hne _ _ hother), recordAt]
  refine ⟨?_, nofun⟩
  rw [hrecords]
  cases slot with
  | some slot => exact latest_update h.1 (hy nofun)
  | none =>
    -- the first record ever goes to the first slot, and the other has none
    have hnone : recordAt path decode files .b = none := by rw [recordAt, h.2 rfl]; rfl
    simp [latest, nextSlot, update, hnone]

end Finds

/-- The journal on the volume, and the copy that holds it. -/
def JournalAt (env : Env) (files : Files Path) (slot : Option Slot) (j : Journal) : Prop :=
  Finds .journal (decodeJournal env.crypto) Journal.sequence files (slot.map fun slot => (slot, j))
    ∧ (slot = none → j = Journal.blank 0)

/-- The state on the volume. Without a record, nothing is said about the state. -/
def StateAt (env : Env) (files : Files Path) (slot : Option Slot) (s : State) : Prop :=
  Finds .state (decodeState env.crypto) State.sequence files (slot.map fun slot => (slot, s))

section Records

variable {env : Env} {files : Files Path} {slot slot' : Option Slot} {j : Journal} {α : Type} {x : α}

theorem JournalAt.unique {j' : Journal} (h : JournalAt env files slot j)
    (h' : JournalAt env files slot' j') : slot = slot' ∧ j = j' := by
  have heq := h.1.unique h'.1
  cases slot <;> cases slot' <;> simp only [Option.map_some, Option.map_none, reduceCtorEq,
    Option.some.injEq, Prod.mk.injEq] at heq
  · exact ⟨rfl, (h.2 rfl).trans (h'.2 rfl).symm⟩
  · exact ⟨by rw [heq.1], heq.2⟩

theorem recordAt_eq_some {path : Slot → Path} {decode : List UInt8 → Option α} {slot : Slot}
    (h : recordAt path decode files slot = some x) : ∃ bytes, decode bytes = some x := by
  obtain ⟨bytes, -, hdecode⟩ := Option.bind_eq_some_iff.mp h
  exact ⟨bytes, hdecode⟩

theorem latest_eq_some {sequence : α → Nat} {copies : Slot → Option α} {slot : Slot}
    (h : latest sequence copies = some (slot, x)) : copies slot = some x := by
  unfold latest at h
  split at h
  · split at h <;> (cases h; assumption)
  · cases h; assumption
  · cases h; assumption
  · cases h

theorem JournalAt.ok (h : JournalAt env files slot j) : JournalOk j := by
  cases slot with
  | none => rw [h.2 rfl]; exact journalOk_blank (by decide)
  | some slot =>
    obtain ⟨bytes, hbytes⟩ := recordAt_eq_some (latest_eq_some h.1.1)
    exact decodeJournal_ok hbytes

theorem StateAt.ok {slot : Slot} (h : StateAt env files (some slot) s) : StateOk s := by
  obtain ⟨bytes, hbytes⟩ := recordAt_eq_some (latest_eq_some h.1)
  exact decodeState_ok hbytes

theorem JournalAt.of_ne (h : JournalAt env files slot j) (other : Path)
    (hother : ∀ slot, Path.journal slot ≠ other) (file : Option (List UInt8)) :
    JournalAt env (update files other file) slot j := ⟨h.1.of_ne hother file, h.2⟩

theorem StateAt.of_ne (h : StateAt env files slot s) (other : Path)
    (hother : ∀ slot, Path.state slot ≠ other) (file : Option (List UInt8)) :
    StateAt env (update files other file) slot s := Finds.of_ne h hother file

theorem JournalAt.written {next : Journal} (h : JournalAt env files slot j) (hok : JournalOk next)
    (hnext : next.sequence = j.sequence + 1) :
    JournalAt env (update files (.journal (nextSlot slot))
      (some (encodeJournal env.crypto next))) (some (nextSlot slot)) next :=
  ⟨h.1.written (by simp) (length_encodeJournal hok.count_le) (decodeJournal_encodeJournal hok)
    fun _ => hnext, nofun⟩

theorem StateAt.written {next : State} (h : StateAt env files slot s) (hok : StateOk next)
    (hnext : next.sequence = s.sequence + 1) :
    StateAt env (update files (.state (nextSlot slot)) (some (encodeState env.crypto next)))
      (some (nextSlot slot)) next :=
  Finds.written h (by simp) length_encodeState (decodeState_encodeState hok) fun _ => hnext

end Records

/-! ### Writing and loading records -/

/-- The journal in memory with its next sequence. -/
def nextJournal (v : Scene) : Journal := { v.memory.journal with sequence := v.memory.journal.sequence + 1 }

/-- After the journal in memory was written. -/
def journaled (env : Env) (v : Scene) : Scene :=
  { v.replaced (.journal (nextSlot v.memory.journalSlot))
      (some (encodeJournal env.crypto (nextJournal v))) with
    memory := { v.memory with
      journal := nextJournal v, journalSlot := some (nextSlot v.memory.journalSlot) } }

@[simp] theorem journaled_files (env : Env) : (journaled env v).files =
    update v.files (.journal (nextSlot v.memory.journalSlot))
      (some (encodeJournal env.crypto (nextJournal v))) := rfl

theorem journaled_files_of_ne (env : Env) (v : Scene) (path : Path)
    (hpath : ∀ slot, path ≠ .journal slot) : (journaled env v).files path = v.files path := by
  rw [journaled_files, update_of_ne (hpath _)]

theorem calm_writeJournalRecord {Q : Unit → Scene → Prop}
    (hcount : ∀ v, P v → v.memory.journal.entries.length ≤ 3)
    (hfull : ∀ v, P v → v.memory.journal.sequence = maxSequence → E .overflow v)
    (h : ∀ v, P v → v.memory.journal.sequence ≠ maxSequence → Q () (journaled env v)) :
    Calmly P (writeJournalRecord env) Q E := by
  refine .intro fun v hv => .inspect_eq (fun w hw => by rw [hw]) ?_
  refine .ensure_bind (fun hbad w hw => ?_) fun hroom => .inspect_eq (fun w hw => by rw [hw]) ?_
  · rw [hw]
    exact hfull v hv (not_not.mp hbad)
  refine .bind (Q := fun _ w => w = v.replaced (.journal (nextSlot v.memory.journalSlot))
      (some (encodeJournal env.crypto (nextJournal v))))
    (calm_atomicWriteRoot ?_ (fun _ _ => .inl rfl) ?_) fun _ => .remember ?_
  · have hlength : (encodeJournal env.crypto (nextJournal v)).length = controlSize :=
      length_encodeJournal (hcount v hv)
    exact ⟨hlength.trans_ne (by decide), hlength.trans_le (by decide)⟩
  · rintro w ⟨rfl, -⟩; rfl
  · rintro w rfl
    exact h v hv hroom

/-- After a state was written. -/
def recorded (env : Env) (v : Scene) (s : State) : Scene :=
  { v.replaced (.state (nextSlot v.memory.stateSlot)) (some (encodeState env.crypto s)) with
    memory := { v.memory with stateSlot := some (nextSlot v.memory.stateSlot) } }

theorem calm_writeStateRecord {Q : State → Scene → Prop}
    (hfull : ∀ v, P v → s.sequence = maxSequence → E .overflow v)
    (h : ∀ v, P v → s.sequence ≠ maxSequence →
    Q { s with sequence := s.sequence + 1 } (recorded env v { s with sequence := s.sequence + 1 })) :
    Calmly P (writeStateRecord env s) Q E := by
  refine .intro fun v hv => .ensure_bind (fun hbad w hw => ?_) fun hroom =>
    .inspect_eq (fun w hw => by rw [hw]) ?_
  · rw [hw]
    exact hfull v hv (not_not.mp hbad)
  refine .bind (Q := fun _ w => w = v.replaced (.state (nextSlot v.memory.stateSlot))
      (some (encodeState env.crypto { s with sequence := s.sequence + 1 })))
    (calm_atomicWriteRoot ?_ (fun _ _ => .inl rfl) ?_) fun _ =>
    .bind (Q := fun _ w => w = recorded env v { s with sequence := s.sequence + 1 })
      (.remember ?_) fun _ => .pure ?_
  · rw [length_encodeState]
    decide
  · rintro w ⟨rfl, -⟩; rfl
  · rintro w rfl; rfl
  · rintro w rfl
    exact h v hv hroom

/-- After the journal was loaded. -/
def withJournal (v : Scene) (slot : Option Slot) (j : Journal) : Scene :=
  { v with memory := { v.memory with journal := j, journalSlot := slot } }

/-- After the state was loaded. -/
def withState (v : Scene) (slot : Option Slot) (s : State) : Scene :=
  { v with memory := { v.memory with state := s, stateSlot := slot } }

theorem calm_loadJournalRecords :
    Calmly P (loadJournalRecords env)
      (fun _ v => ∃ u slot j, P u ∧ JournalAt env u.files slot j ∧ v = withJournal u slot j)
      (fun _ v => P v ∧ ∀ slot j, ¬ JournalAt env v.files slot j) := by
  refine .bind (.postError (calm_loadRecords _) ?_) fun found => ?_
  · rintro e v ⟨hP, hnone⟩
    exact ⟨hP, fun slot j hj => hnone _ hj.1⟩
  · cases found with
    | none => exact .remember fun v hv =>
      ⟨v, none, Journal.blank 0, hv.1, ⟨hv.2, fun _ => rfl⟩, rfl⟩
    | some found => exact .remember fun v hv =>
      ⟨v, some found.1, found.2, hv.1, ⟨hv.2, nofun⟩, rfl⟩

/-- The state that is assumed without a record. -/
structure Baseline (env : Env) (files : Files Path) (s : State) : Prop where
  fields : s = { State.compileTime with current := s.current }
  present : ∀ target, (s.current target).present = true
  described : ∀ target, Describes env (s.current target) (files (.target target))

theorem calm_captureBaselineState :
    Calmly P (captureBaselineState env) (fun s v => P v ∧ Baseline env v.files s)
      (fun _ v => P v ∧ ∀ s, ¬ Baseline env v.files s) := by
  -- A target that cannot be hashed has no description.
  have hbad : ∀ target, ∀ e : Err, ∀ v : Scene, (P v ∧ ∀ bytes, v.files (.target target) = some bytes →
      ¬ SizeOk bytes) → P v ∧ ∀ s, ¬ Baseline env v.files s := by
    rintro target e v ⟨hP, hsize⟩
    refine ⟨hP, fun s hs => ?_⟩
    obtain ⟨bytes, hfile, hok, -⟩ := (hs.described target).size_ok (hs.present target)
    exact hsize bytes hfile hok
  refine .bind (.postError calm_hashRootFile
    (hbad 0)) fun first => ?_
  refine .bind (.postError calm_hashRootFile
    fun e v h => hbad 1 e v ⟨h.1.1, h.2⟩) fun second => ?_
  refine .bind (.postError calm_hashRootFile
    fun e v h => hbad 2 e v ⟨h.1.1.1, h.2⟩) fun third => .pure ?_
  rintro v ⟨⟨⟨hP, h0⟩, h1⟩, h2⟩
  refine ⟨hP, rfl, fun target => ?_, fun target => ?_⟩
  · match target with
    | 0 => exact h0.2
    | 1 => exact h1.2
    | 2 => exact h2.2
  · match target with
    | 0 => exact h0.1
    | 1 => exact h1.1
    | 2 => exact h2.1

theorem calm_loadStateRecords :
    Calmly P (loadStateRecords env)
      (fun _ v => ∃ u slot s, P u ∧ StateAt env u.files slot s
        ∧ (slot = none → Baseline env u.files s) ∧ v = withState u slot s)
      (fun _ v => P v ∧ ∀ slot s, StateAt env v.files slot s →
        slot = none ∧ ∀ s', ¬ Baseline env v.files s') := by
  refine .bind (.postError (calm_loadRecords _) ?_) fun found => ?_
  · rintro e v ⟨hP, hnone⟩
    exact ⟨hP, fun slot s hs => absurd hs (hnone _)⟩
  · cases found with
    | some found => exact .remember fun v hv =>
      ⟨v, some found.1, found.2, hv.1, hv.2, nofun, rfl⟩
    | none =>
      refine .bind (.postError calm_captureBaselineState
        ?_) fun s => .remember fun v hv =>
          ⟨v, none, s, hv.1.1, hv.1.2, fun _ => hv.2, rfl⟩
      rintro e v ⟨⟨hP, hfinds⟩, hbad⟩
      refine ⟨hP, fun slot s hs => ⟨?_, hbad⟩⟩
      have heq := hs.unique hfinds
      simpa using heq

/-! ### Transactions -/

/-- A transaction: the state and the contents before it, its journal, and the state and the contents
it leads to. -/
structure Task (env : Env) where
  state : State
  stateSlot : Option Slot
  journal : Journal
  next : State
  old : Target → Option (List UInt8)
  new : Target → Option (List UInt8)
  kind_ne : journal.kind ≠ .none
  journal_ok : JournalOk journal
  next_eq : stateFromJournal journal state = .ok next
  /-- The state after it can be recorded. -/
  next_ok : ∀ sequence, sequence < 4294967296 → StateOk { next with sequence := sequence }
  described : ∀ target, Describes env (state.current target) (old target)
  oldFile_eq : ∀ entry ∈ journal.entries, entry.oldFile = state.current entry.target
  newFile : ∀ entry ∈ journal.entries, Describes env entry.newFile (new entry.target)
  same : ∀ target, target ∉ journal.entries.map JournalEntry.target → new target = old target
  /-- Without a record of the state, the journal has what it takes to know it. -/
  baseline : stateSlot = none → journal.kind = .apply ∧ journal.base = state.installed
    ∧ state = { State.compileTime with current := state.current }
    ∧ ∀ target, (state.current target).present = true

/-- The journal is one of the transaction's records. -/
structure Task.Names {env : Env} (task : Task env) (j : Journal) : Prop where
  kind : j.kind = task.journal.kind
  slot : j.slot = task.journal.slot
  baseStateSequence : j.baseStateSequence = task.journal.baseStateSequence
  base : j.base = task.journal.base
  target : j.target = task.journal.target
  entries : j.entries = task.journal.entries

namespace Task

variable {env : Env} (task : Task env)

/-- The contents recovery goes to: back for an update, on for a rollback. -/
def safe (target : Target) : Option (List UInt8) :=
  if task.journal.kind = .apply then task.old target else task.new target

/-- The state before, or the one after. -/
def Current (slot : Option Slot) (s : State) : Prop :=
  (slot = task.stateSlot ∧ s = task.state)
    ∨ (slot ≠ none ∧ ∃ sequence, s = { task.next with sequence := sequence })

end Task

/-- There is nothing to do: no journal, the state and the contents. -/
structure Quiet (env : Env) (slot : Option Slot) (s : State) (contents : Target → Option (List UInt8))
    (files : Files Path) : Prop where
  journal : ∃ slot j, JournalAt env files slot j ∧ j.kind = .none
  state : StateAt env files slot s
  targets : ∀ target, files (.target target) = contents target

namespace Task

variable {env : Env} (task : Task env)

/-- Files are being replaced. The backups are there, or recovery went back to the old contents and
has started to delete them. -/
structure Pending (files : Files Path) : Prop where
  journal : ∃ slot j, JournalAt env files slot j ∧ task.Names j ∧ j.phase ≠ .committed
  state : StateAt env files task.stateSlot task.state
  targets : ∀ target, files (.target target) = task.old target ∨ files (.target target) = task.new target
  backups : ∀ entry ∈ task.journal.entries,
    files (.backup task.journal.slot entry.target) = task.safe entry.target
      ∨ (files (.backup task.journal.slot entry.target) = none ∧ task.journal.kind = .apply
        ∧ ∀ target, files (.target target) = task.old target)

/-- The new contents stay. -/
structure Committed (files : Files Path) : Prop where
  journal : ∃ slot j, JournalAt env files slot j ∧ task.Names j ∧ j.phase = .committed
  state : ∃ slot s, StateAt env files slot s ∧ task.Current slot s
  targets : ∀ target, files (.target target) = task.new target

def Before (files : Files Path) : Prop :=
  Quiet env task.stateSlot task.state task.old files ∨ task.Pending files

def Done (files : Files Path) : Prop :=
  ∃ slot sequence, Quiet env (some slot) { task.next with sequence := sequence } task.new files

def After (files : Files Path) : Prop := task.Committed files ∨ task.Done files

/-- The volumes of a run, the latest first: those before the commit, then those after it. -/
def History : List (Files Path) → Prop
  | [] => True
  | files :: passed =>
    (task.Before files ∧ ∀ earlier ∈ passed, task.Before earlier) ∨ (task.After files ∧ History passed)

end Task

/-! ### Files that do not matter -/

/-- No target, and no control file. -/
def Neutral (path : Path) : Prop :=
  (∀ target, Path.target target ≠ path) ∧ (∀ slot, Path.journal slot ≠ path)
    ∧ ∀ slot, Path.state slot ≠ path

theorem neutral_stage (slot : Slot) : Neutral (.stage slot target) :=
  ⟨nofun, nofun, nofun⟩

theorem neutral_backup (slot : Slot) : Neutral (.backup slot target) :=
  ⟨nofun, nofun, nofun⟩

theorem Quiet.of_neutral {contents : Target → Option (List UInt8)} {files : Files Path}
    (h : Quiet env slot s contents files) (hpath : Neutral path) :
    Quiet env slot s contents (update files path file) where
  journal := by
    obtain ⟨jslot, j, hj, hkind⟩ := h.journal
    exact ⟨jslot, j, hj.of_ne path hpath.2.1 file, hkind⟩
  state := h.state.of_ne path hpath.2.2 file
  targets target := by rw [update_of_ne (hpath.1 target)]; exact h.targets target

namespace Task

variable {env : Env} {task : Task env} {files : Files Path}

/-- A backup may go once the old contents are back. -/
theorem Pending.delete (h : task.Pending files) (hkind : task.journal.kind = .apply)
    (hold : ∀ target, files (.target target) = task.old target) (hpath : Neutral path) :
    task.Pending (update files path none) where
  journal := by
    obtain ⟨slot, j, hj, hrest⟩ := h.journal
    exact ⟨slot, j, hj.of_ne path hpath.2.1 none, hrest⟩
  state := h.state.of_ne path hpath.2.2 none
  targets target := by rw [update_of_ne (hpath.1 target)]; exact h.targets target
  backups entry hentry := by
    have hold' : ∀ target, update files path none (.target target) = task.old target :=
      fun target => by rw [update_of_ne (hpath.1 target)]; exact hold target
    by_cases heq : Path.backup task.journal.slot entry.target = path
    · rw [heq, update_self]
      exact .inr ⟨rfl, hkind, hold'⟩
    rw [update_of_ne heq]
    rcases h.backups entry hentry with hb | ⟨hb, -, -⟩
    · exact .inl hb
    · exact .inr ⟨hb, hkind, hold'⟩

end Task

end ZephyrOS.Zupd
