import ZephyrOS.Update.ZupdRecord

/-!
# Applying and rolling back updates

The transactions of `update.c`. An update replaces up to three system files. Their new contents
are staged and the old ones backed up; then a journal says what is to be done, the files are
replaced one after the other with a progress record after each, and a committed journal says that
the new contents stay. `update_init` goes back to the backups of an update that was not committed,
and finishes everything else.

State and journal are kept in two copies each, written alternately; the one with the higher
sequence counts. The event history is left out: nothing else reads it.
-/

namespace ZephyrOS.Zupd

open Lib RootFiles
open Update (Version Base Slot bySlot)

/-! ### The machine -/

/-- `update_action_reason_t`. -/
inductive ActionReason where
  | none | verify | unsupportedFs | state | space | io | cancelled | noRollback | recoveryPending
  deriving DecidableEq, Repr

/-- `update_action_result_t`. -/
structure ActionResult where
  reason : ActionReason
  verificationReason : Reason
  source : Base
  target : Base
  entryCount : Nat
  completedEntries : Nat
  rebootRequired : Bool
  recoveryPending : Bool
  deriving DecidableEq, Repr

def ActionResult.blank : ActionResult :=
  ⟨.none, .none, zeroBase, zeroBase, 0, 0, false, false⟩

/-- The version the kernel was compiled as. -/
def compileTimeBase : Base := ⟨⟨0, 1, 0⟩, 0⟩

/-- `update_set_compile_time_version`. -/
def State.compileTime : State :=
  { sequence := 0, installed := compileTimeBase, rollbackAvailable := false, rollbackSlot := .a
    rollbackEntryCount := 0, previous := zeroBase, current := fun _ => FileState.absent
    rollback := fun _ => FileState.absent }

/-- The variables of `update.c`. -/
structure Memory where
  /-- `update_initialized`. -/
  ready : Bool
  /-- `update_state_healthy`. -/
  healthy : Bool
  state : State
  /-- The copy that was read or written last. -/
  stateSlot : Option Slot
  journal : Journal
  journalSlot : Option Slot
  /-- `update_fail_after`, the failpoint. -/
  failAfter : Nat
  /-- How often `cancel_check` was called. -/
  polls : Nat
  /-- `result_out` of the last action. -/
  result : ActionResult

def Memory.blank : Memory :=
  { ready := false, healthy := false, state := State.compileTime, stateSlot := none
    journal := Journal.blank 0, journalSlot := none, failAfter := 0, polls := 0
    result := ActionResult.blank }

/-- `fs_info_t`. -/
structure FsInfo where
  bytesPerSector : Nat
  sectorsPerCluster : Nat
  freeClusters : Nat
  deriving DecidableEq, Repr

/-- What the code around the updater provides. -/
structure Env where
  crypto : Crypto
  /-- `crypto_self_test`, and the public key has the id it should have. -/
  selfTest : Bool
  /-- The system volume is FAT12. -/
  fat12 : Bool
  /-- `fs_get_info`. -/
  info : Files Path → Option FsInfo

/-- What `update_runtime.c` has on record once its own journal is settled: a version, and the targets
that go with it. -/
structure Runtime where
  installed : Base
  current : Target → FileState

abbrev Command := Session Path Err Memory

/-- `update_action_options_t`. -/
structure Options where
  dryRun : Bool
  /-- `cancel_check`, by the number of calls before. -/
  cancelCheck : Nat → Bool

/-- `update_cancelled`. -/
def cancelled (options : Options) : Command Bool := do
  let polls ← Session.inspect Memory.polls
  Session.remember fun m => { m with polls := polls + 1 }
  pure (options.cancelCheck polls)

def report (f : ActionResult → ActionResult) : Command Unit :=
  Session.remember fun m => { m with result := f m.result }

/-- `update_action_fail`. -/
def actionFail {α : Type} (reason : ActionReason) (error : Err) : Command α := do
  report fun r => { r with reason := reason }
  Program.fail error

def setHealthy (healthy : Bool) : Command Unit :=
  Session.remember fun m => { m with healthy := healthy }

/-! ### Files -/

/-- The reads of `update_hash_root_file`. Each round reads at least a byte, so the size is enough
fuel. -/
def readChunks (path : Path) (size : Nat) : Nat → Nat → Command (List UInt8)
  | 0, _ => pure []
  | fuel + 1, offset =>
    if offset < size then do
      let chunk := min (size - offset) ioBufferSize
      let bytes ← Program.mapError (fun _ => .disk) (readFileRangeAt path offset chunk)
      Program.ensure (bytes.length = chunk) .disk
      let rest ← readChunks path size fuel (offset + chunk)
      pure (bytes ++ rest)
    else pure []

/-- `update_hash_root_file`. -/
def hashRootFile (env : Env) (path : Path) : Command FileState := do
  let size ← getRootFileInfo path
  Program.ensure (size ≠ 0 ∧ size ≤ maxPayloadSize) .overflow
  let bytes ← readChunks path size size 0
  pure ⟨true, size, env.crypto.sha256 bytes⟩

/-- `update_load_root_file`: the bytes in the file buffer. -/
def loadRootFile (env : Env) (path : Path) (expected : FileState) : Command (List UInt8) := do
  Program.ensure (expected.present = true ∧ expected.size ≠ 0 ∧ expected.size ≤ maxPayloadSize) .invalid
  let bytes ← Program.mapError (fun _ => .disk) (readFileRangeAt path 0 expected.size)
  Program.ensure (bytes.length = expected.size) .disk
  Program.ensure (env.crypto.sha256 bytes = expected.hash) .invalid
  pure bytes

/-- A file that should not be there. -/
def verifyAbsent (path : Path) : Command Unit := do
  let info ← Program.attempt (getRootFileInfo path)
  match info with
  | .error .notFound => pure ()
  | .error e => Program.fail e
  | .ok _ => Program.fail .invalid

/-- `update_verify_root_file`. -/
def verifyRootFile (env : Env) (path : Path) (expected : FileState) : Command Unit :=
  if expected.present = false then verifyAbsent path
  else do
    let actual ← hashRootFile env path
    Program.ensure (actual.same expected = true) .invalid

/-- `update_remove_if_present`: a failure is only logged. -/
def removeIfPresent (path : Path) : Command Unit := do
  let _ ← Program.attempt (atomicDeleteRoot path)
  pure ()

/-- `update_cleanup_slot`. -/
def cleanupSlot (slot : Slot) (backups stages : Bool) : Command Unit :=
  Program.forEach (fun target => do
    if stages then removeIfPresent (.stage slot target) else pure ()
    if backups then removeIfPresent (.backup slot target) else pure ()) [0, 1, 2]

/-- `update_validate_current_state`. -/
def validateCurrentState (env : Env) : Command Unit := do
  let s ← Session.inspect Memory.state
  Program.forEach (fun target => verifyRootFile env (.target target) (s.current target)) [0, 1, 2]

/-! ### Redundant records -/

/-- The copy with the higher sequence, the first if they are equal. -/
def latest {α : Type} (sequence : α → Nat) (copies : Slot → Option α) : Option (Slot × α) :=
  match copies .a, copies .b with
  | some x, some y => if sequence x < sequence y then some (.b, y) else some (.a, x)
  | some x, none => some (.a, x)
  | none, some y => some (.b, y)
  | none, none => none

/-- Where the next copy goes. -/
def nextSlot : Option Slot → Slot
  | none => .a
  | some slot => slot.other

/-- `update_read_control`: whether the file is there, and the record in it. -/
def readControl (path : Path) : Command (Bool × Option (List UInt8)) := do
  let info ← Program.attempt (getRootFileInfo path)
  match info with
  | .error _ => pure (false, none)
  | .ok size =>
    if size ≠ controlSize then pure (true, none)
    else do
      let record ← Program.attempt (readFileRangeAt path 0 controlSize)
      match record with
      | .error _ => pure (true, none)
      | .ok bytes => pure (true, if bytes.length = controlSize then some bytes else none)

/-- The two loops that load redundant records: the copy that counts, if one can be read, and
otherwise an error if there is a copy at all. -/
def loadRecords {α : Type} (path : Slot → Path) (decode : List UInt8 → Option α)
    (sequence : α → Nat) : Command (Option (Slot × α)) := do
  let first ← readControl (path .a)
  let second ← readControl (path .b)
  match latest sequence (bySlot (first.2.bind decode) (second.2.bind decode)) with
  | some record => pure (some record)
  | none => do
    Program.ensure (first.1 = false ∧ second.1 = false) .invalid
    pure none

/-- `update_capture_baseline_state`. -/
def captureBaselineState (env : Env) : Command State := do
  let first ← hashRootFile env (.target 0)
  let second ← hashRootFile env (.target 1)
  let third ← hashRootFile env (.target 2)
  pure { State.compileTime with current := byTarget first second third }

/-- `update_load_state_records`. -/
def loadStateRecords (env : Env) : Command Unit := do
  let found ← loadRecords .state (decodeState env.crypto) State.sequence
  match found with
  | some (slot, s) => Session.remember fun m => { m with state := s, stateSlot := some slot }
  | none => do
    let s ← captureBaselineState env
    Session.remember fun m => { m with state := s, stateSlot := none }

/-- `update_load_journal_records`. -/
def loadJournalRecords (env : Env) : Command Unit := do
  let found ← loadRecords .journal (decodeJournal env.crypto) Journal.sequence
  match found with
  | some (slot, j) => Session.remember fun m => { m with journal := j, journalSlot := some slot }
  | none => Session.remember fun m => { m with journal := Journal.blank 0, journalSlot := none }

def maxSequence : Nat := 0xFFFFFFFF

/-- `update_write_state_record`: the state with its new sequence. -/
def writeStateRecord (env : Env) (s : State) : Command State := do
  Program.ensure (s.sequence ≠ maxSequence) .overflow
  let slot ← Session.inspect fun m => nextSlot m.stateSlot
  let next := { s with sequence := s.sequence + 1 }
  atomicWriteRoot (.state slot) (encodeState env.crypto next) .createOrReplace
  Session.remember fun m => { m with stateSlot := some slot }
  pure next

/-- `update_write_journal_record`. -/
def writeJournalRecord (env : Env) : Command Unit := do
  let j ← Session.inspect Memory.journal
  Program.ensure (j.sequence ≠ maxSequence) .overflow
  let slot ← Session.inspect fun m => nextSlot m.journalSlot
  let next := { j with sequence := j.sequence + 1 }
  atomicWriteRoot (.journal slot) (encodeJournal env.crypto next) .createOrReplace
  Session.remember fun m => { m with journal := next, journalSlot := some slot }

def setJournal (f : Journal → Journal) : Command Unit :=
  Session.remember fun m => { m with journal := f m.journal }

/-- `update_clear_journal`. -/
def clearJournal (env : Env) : Command Unit := do
  let previous ← Session.inspect Memory.journal
  setJournal fun j => Journal.blank j.sequence
  let written ← Program.attempt (writeJournalRecord env)
  match written with
  | .ok () => pure ()
  | .error e => do
    setJournal fun _ => previous
    Program.fail e

/-! ### Replacing -/

/-- `update_replace_from_alias`. -/
def replaceFromAlias (env : Env) (path : Path) (target : Target) (expected : FileState) :
    Command Unit := do
  let bytes ← loadRootFile env path expected
  atomicWriteRoot (.target target) bytes .replaceOnly
  verifyRootFile env (.target target) expected

/-- The two recovery loops: every target is replaced by its backup, with a progress record after
each. `index` counts the entries that are done. -/
def replaceFromBackups (env : Env) (slot : Slot) (expected : JournalEntry → FileState) :
    Nat → List JournalEntry → Command Unit
  | _, [] => pure ()
  | index, entry :: entries => do
    replaceFromAlias env (.backup slot entry.target) entry.target (expected entry)
    setJournal fun j => { j with progress := index + 1 }
    Program.mapError (fun _ => .disk) (writeJournalRecord env)
    replaceFromBackups env slot expected (index + 1) entries

/-- `update_restore_interrupted_apply`. -/
def restoreInterruptedApply (env : Env) : Command Unit := do
  setJournal fun j => { j with phase := .replacing }
  let j ← Session.inspect Memory.journal
  replaceFromBackups env j.slot JournalEntry.oldFile 0 j.entries
  Program.mapError (fun _ => .invalid) (validateCurrentState env)
  cleanupSlot j.slot true true
  clearJournal env

/-- The files the entries name, each with its new state. -/
def withEntries (file : JournalEntry → FileState) (entries : List JournalEntry)
    (files : Target → FileState) : Target → FileState :=
  entries.foldl (fun files entry => Function.update files entry.target (file entry)) files

/-- `update_apply_state_from_journal`. -/
def applyStateFromJournal (j : Journal) (s : State) : State :=
  { s with
    installed := j.target
    previous := j.base
    rollbackAvailable := true
    rollbackSlot := j.slot
    rollbackEntryCount := j.entries.length
    current := withEntries JournalEntry.newFile j.entries s.current
    rollback := withEntries JournalEntry.oldFile j.entries fun _ => FileState.absent }

/-- `update_rollback_state_from_journal`. -/
def rollbackStateFromJournal (j : Journal) (s : State) : State :=
  { s with
    installed := j.target
    previous := zeroBase
    rollbackAvailable := false
    rollbackSlot := .a
    rollbackEntryCount := 0
    current := withEntries JournalEntry.newFile j.entries s.current
    rollback := fun _ => FileState.absent }

/-- The state after the journal's transaction. -/
def stateFromJournal (j : Journal) (s : State) : Except Err State :=
  match j.kind with
  | .apply => .ok (applyStateFromJournal j s)
  | .rollback => .ok (rollbackStateFromJournal j s)
  | .none => .error .invalid

/-- `update_finalize_committed`. -/
def finalizeCommitted (env : Env) : Command Unit := do
  let s ← Session.inspect Memory.state
  let j ← Session.inspect Memory.journal
  Program.forEach (fun entry => verifyRootFile env (.target entry.target) entry.newFile) j.entries
  let next ← Program.lift (stateFromJournal j s)
  let next ← writeStateRecord env next
  Session.remember fun m => { m with state := next }
  cleanupSlot j.slot (j.kind = .rollback) true
  if j.kind = .apply ∧ s.rollbackAvailable = true ∧ s.rollbackSlot ≠ j.slot then
    cleanupSlot s.rollbackSlot true true
  else pure ()
  clearJournal env
  validateCurrentState env

/-- `update_continue_interrupted_rollback`. -/
def continueInterruptedRollback (env : Env) : Command Unit := do
  setJournal fun j => { j with phase := .replacing }
  let j ← Session.inspect Memory.journal
  replaceFromBackups env j.slot JournalEntry.newFile 0 j.entries
  setJournal fun j => { j with phase := .committed }
  Program.mapError (fun _ => .disk) (writeJournalRecord env)
  finalizeCommitted env

/-! ### Starting up -/

/-- `update_recover_pending`. -/
def recoverPending (env : Env) : Command Unit := do
  let j ← Session.inspect Memory.journal
  if j.kind = .none then pure ()
  else if j.phase = .committed then finalizeCommitted env
  else if j.kind = .apply then restoreInterruptedApply env
  else continueInterruptedRollback env

/-- One target as it is. -/
def currentFile (env : Env) (target : Target) : Command FileState := do
  let info ← Program.attempt (getRootFileInfo (.target target))
  match info with
  | .error .notFound => pure FileState.absent
  | .error e => Program.fail e
  | .ok _ => hashRootFile env (.target target)

/-- `runtime_refresh_current_files`, and the loop of `update_sync_runtime_state`. -/
def currentFiles (env : Env) : Command (Target → FileState) := do
  let first ← currentFile env 0
  let second ← currentFile env 1
  let third ← currentFile env 2
  pure (byTarget first second third)

/-- `update_sync_runtime_state`. -/
def syncRuntimeState (env : Env) (base : Base) : Command Unit := do
  let m ← Session.inspect id
  Program.ensure (m.ready = true ∧ env.fat12 = true ∧ m.journal.kind = .none) .state
  let current ← currentFiles env
  let next ← writeStateRecord env
    { m.state with
      installed := base, previous := zeroBase, rollbackAvailable := false, rollbackSlot := .a
      rollbackEntryCount := 0, current, rollback := fun _ => FileState.absent }
  Session.remember fun m => { m with state := next, healthy := true }

/-- What `update_runtime_init` does to the state here. A record that does not fit the targets is
replaced by this version; one that fits has its own version recorded here. -/
def runtimeInit (env : Env) : Option Runtime → Command Unit
  -- None, or one that was just made from this state.
  | none => pure ()
  | some runtime => do
    let actual ← Program.attempt (currentFiles env)
    let installed ← Session.inspect fun m => m.state.installed
    match actual with
    | .error _ => pure ()
    | .ok actual =>
      if (∀ target, (runtime.current target).same (actual target) = true)
          ∧ runtime.installed ≠ installed then do
        let _ ← Program.attempt (syncRuntimeState env runtime.installed)
        pure ()
      else pure ()

/-- Without a state record, the journal knows what was installed before an update that was not
finished: the files themselves may be new already. -/
def adoptJournal (m : Memory) : Memory :=
  if m.stateSlot = none ∧ m.journal.kind = .apply then
    { m with state := { m.state with
        installed := m.journal.base
        current := withEntries JournalEntry.oldFile m.journal.entries m.state.current } }
  else m

/-- Load, recover and check. -/
def loadAndRecover (env : Env) : Command Unit := do
  let state ← Program.attempt (loadStateRecords env)
  let journal ← Program.attempt (loadJournalRecords env)
  Program.lift state
  Program.lift journal
  Session.remember adoptJournal
  recoverPending env
  validateCurrentState env

/-- `update_init`. -/
def init (env : Env) (runtime : Option Runtime) : Command Unit := do
  Session.remember fun _ => Memory.blank
  Program.ensure (env.selfTest = true) .invalid
  Session.remember fun m => { m with ready := true }
  if env.fat12 then do
    let recovered ← Program.attempt (loadAndRecover env)
    if recovered.isOk then do
      setHealthy true
      runtimeInit env runtime
    else pure ()
  else setHealthy true

/-! ### Applying -/

/-- `update_clusters_for`. -/
def clustersFor (size clusterSize : Nat) : Nat := (size + clusterSize - 1) / clusterSize

/-- The clusters of every old and new file, of the largest of each again, and of the controls. -/
def applyClusters (entries : List JournalEntry) (clusterSize : Nat) : Nat :=
  8 + (entries.map fun e =>
      clustersFor e.oldFile.size clusterSize + clustersFor e.newFile.size clusterSize).sum
    + clustersFor controlSize clusterSize
    + clustersFor ((entries.map fun e => e.oldFile.size).foldl max 0) clusterSize
    + clustersFor ((entries.map fun e => e.newFile.size).foldl max 0) clusterSize

/-- The check of `update_check_apply_space` and of `update_check_rollback_space`. -/
def checkSpace (info : Option FsInfo) (required : Nat → Nat) : Except Err Unit :=
  match info with
  | none => .error .disk
  | some info =>
    if info.bytesPerSector = 0 ∨ info.sectorsPerCluster = 0 then .error .disk
    else if info.freeClusters < required (info.bytesPerSector * info.sectorsPerCluster) then
      .error .overflow
    else .ok ()

/-- The entry of the journal for an entry of the package. -/
def journalEntry (s : State) (entry : Entry) : Except Err JournalEntry :=
  match targetId entry.path with
  | none => .error .invalid
  | some target =>
    if (s.current target).present = false then .error .invalid
    else .ok ⟨target, s.current target, ⟨true, entry.payloadSize, entry.payloadHash⟩⟩

/-- `update_build_apply_journal`. -/
def buildApplyJournal (env : Env) (package : Package) : Command Journal := do
  let m ← Session.inspect id
  Program.ensure (package.parsed.entryCount ≤ 3) .invalid
  let entries ← Program.lift (package.entries.mapM (journalEntry m.state))
  let files ← Program.read Machine.files
  Program.lift (checkSpace (env.info files) (applyClusters entries))
  pure
    { sequence := m.journal.sequence, kind := .apply, phase := .prepared
      slot := if m.state.rollbackAvailable then m.state.rollbackSlot.other else .a
      progress := 0, baseStateSequence := m.state.sequence, base := package.parsed.base
      target := package.parsed.target, entries }

/-- `update_fill_action_result`. -/
def fillActionResult (source target : Base) (entryCount : Nat) : Command Unit :=
  report fun _ => { ActionResult.blank with source, target, entryCount }

/-- What is installed, as the verifier sees it. -/
def Memory.installed (m : Memory) : Installed := if m.healthy then some m.state.installed else none

/-- The reason an action reports for a failed preflight. -/
def preflightReason (e : Err) : ActionReason := if e = .overflow then .space else .state

/-- `update_verify_internal`, and what a failure reports. -/
def verifyPackage (env : Env) (path : Path) : Command Package := do
  let installed ← Session.inspect Memory.installed
  let verified ← Program.mapError Prod.snd
    (Program.attempt (verifyInternal env.crypto installed path))
  match verified with
  | .ok package => pure package
  | .error (reason, e) => do
    report fun r => { r with verificationReason := reason }
    actionFail .verify e

/-- `update_prepare_apply`. -/
def prepareApply (env : Env) (path : Path) : Command (Package × Journal) := do
  let package ← verifyPackage env path
  fillActionResult package.parsed.base package.parsed.target package.parsed.entryCount
  let prepared ← Program.attempt do
    validateCurrentState env
    buildApplyJournal env package
  match prepared with
  | .ok j => pure (package, j)
  | .error e => actionFail (preflightReason e) e

/-- `update_read_payload`. -/
def readPayloadAgain (env : Env) (path : Path) (entry : Entry) : Command (List UInt8) := do
  Program.ensure (entry.payloadSize ≤ maxPayloadSize) .invalid
  let bytes ← Program.mapError (fun _ => .disk)
    (readFileRangeAt path entry.payloadOffset entry.payloadSize)
  Program.ensure (bytes.length = entry.payloadSize) .disk
  Program.ensure (env.crypto.sha256 bytes = entry.payloadHash) .invalid
  pure bytes

/-- Stage one new file. -/
def stageFile (env : Env) (options : Options) (path : Path) (slot : Slot)
    (item : Entry × JournalEntry) : Command Unit := do
  let stop ← cancelled options
  Program.ensure (stop = false) .timeout
  let bytes ← readPayloadAgain env path item.1
  atomicWriteRoot (.stage slot item.2.target) bytes .createOrReplace
  verifyRootFile env (.stage slot item.2.target) item.2.newFile

/-- Back one old file up. -/
def backupFile (env : Env) (options : Options) (slot : Slot) (entry : JournalEntry) : Command Unit := do
  let stop ← cancelled options
  Program.ensure (stop = false) .timeout
  let bytes ← loadRootFile env (.target entry.target) entry.oldFile
  atomicWriteRoot (.backup slot entry.target) bytes .createOrReplace
  verifyRootFile env (.backup slot entry.target) entry.oldFile

/-- `update_stage_apply_files`. -/
def stageApplyFiles (env : Env) (options : Options) (path : Path) (package : Package) (j : Journal) :
    Command Unit := do
  cleanupSlot j.slot true true
  Program.forEach (stageFile env options path j.slot) (package.entries.zip j.entries)
  Program.forEach (backupFile env options j.slot) j.entries

/-- `update_start_apply_transaction`. -/
def startApplyTransaction (env : Env) (options : Options) (path : Path) (package : Package)
    (prepared : Journal) : Command Unit := do
  let staged ← Program.attempt (stageApplyFiles env options path package prepared)
  match staged with
  | .error e => do
    cleanupSlot prepared.slot true true
    if e = .timeout then actionFail .cancelled .state else actionFail .io e
  | .ok () => do
    setJournal fun _ => prepared
    let written ← Program.attempt (writeJournalRecord env)
    match written with
    | .error e => do
      cleanupSlot prepared.slot true true
      setJournal fun j => Journal.blank j.sequence
      actionFail .io e
    | .ok () => pure ()

/-- `update_mark_recovery_pending`. -/
def markRecoveryPending {α : Type} : Command α := do
  report fun r => { r with recoveryPending := true }
  setHealthy false
  actionFail .recoveryPending .state

/-- `update_apply_recover_failure`. -/
def applyRecoverFailure {α : Type} (env : Env) (reason : ActionReason) (error : Err) : Command α := do
  let recovered ← Program.attempt (restoreInterruptedApply env)
  match recovered with
  | .ok () => do
    setHealthy true
    actionFail reason error
  | .error _ => markRecoveryPending

/-- A target was replaced. -/
def recordProgress (env : Env) (index : Nat) : Command Unit := do
  setJournal fun j => { j with phase := .replacing, progress := index + 1 }
  report fun r => { r with completedEntries := index + 1 }
  writeJournalRecord env

/-- `update_replace_apply_targets`, with `index` entries done. -/
def replaceApplyTargets (env : Env) (options : Options) (slot : Slot) :
    Nat → List JournalEntry → Command Unit
  | _, [] => pure ()
  | index, entry :: entries => do
    let stop ← cancelled options
    if stop then applyRecoverFailure env .cancelled .state
    else do
      let replaced ← Program.attempt
        (replaceFromAlias env (.stage slot entry.target) entry.target entry.newFile)
      match replaced with
      | .error e => applyRecoverFailure env .io e
      | .ok () => do
        let recorded ← Program.attempt (recordProgress env index)
        match recorded with
        | .error _ => applyRecoverFailure env .io .disk
        | .ok () => do
          let failAfter ← Session.inspect Memory.failAfter
          if failAfter = index + 1 then do
            Session.remember fun m => { m with failAfter := 0 }
            markRecoveryPending
          else replaceApplyTargets env options slot (index + 1) entries

/-- `update_commit_transaction`. -/
def commitTransaction (env : Env) : Command Unit := do
  setJournal fun j => { j with phase := .committed }
  let committed ← Program.attempt do
    writeJournalRecord env
    finalizeCommitted env
  match committed with
  | .error _ => markRecoveryPending
  | .ok () => do
    report fun r => { r with rebootRequired := true }
    setHealthy true

/-- `update_apply_file`. -/
def applyFile (env : Env) (options : Options) (path : Path) : Command Unit := do
  report fun _ => ActionResult.blank
  let m ← Session.inspect id
  if ¬ (m.ready = true ∧ env.fat12 = true) then actionFail .unsupportedFs .unavailable
  else if m.healthy = false ∨ m.journal.kind ≠ .none then actionFail .state .state
  else do
    let (package, prepared) ← prepareApply env path
    if options.dryRun then pure ()
    else if prepared.entries.length < m.failAfter then do
      Session.remember fun m => { m with failAfter := 0 }
      actionFail .state .invalid
    else do
      startApplyTransaction env options path package prepared
      replaceApplyTargets env options prepared.slot 0 prepared.entries
      commitTransaction env

/-! ### Rolling back -/

/-- The clusters of the largest file and of the controls. -/
def rollbackClusters (entries : List JournalEntry) (clusterSize : Nat) : Nat :=
  clustersFor ((entries.map fun e => e.newFile.size).foldl max 0) clusterSize + 2
    + clustersFor controlSize clusterSize

/-- The journal's entry for one target that can be rolled back. -/
def rollbackEntry (env : Env) (s : State) (target : Target) : Command JournalEntry := do
  let entry : JournalEntry := ⟨target, s.current target, s.rollback target⟩
  let checked ← Program.attempt do
    verifyRootFile env (.backup s.rollbackSlot target) entry.newFile
    verifyRootFile env (.target target) entry.oldFile
  Program.lift (checked.mapError fun _ => .invalid)
  pure entry

/-- `update_build_rollback_journal`. -/
def buildRollbackJournal (env : Env) : Command Journal := do
  let m ← Session.inspect id
  Program.ensure (m.state.rollbackAvailable = true) .notFound
  let entries ← Program.collect (rollbackEntry env m.state)
    ([0, 1, 2].filter fun target => (m.state.rollback target).present)
  Program.ensure (entries.length = m.state.rollbackEntryCount ∧ entries ≠ []) .invalid
  let files ← Program.read Machine.files
  Program.lift (checkSpace (env.info files) (rollbackClusters entries))
  pure
    { sequence := m.journal.sequence, kind := .rollback, phase := .prepared
      slot := m.state.rollbackSlot, progress := 0, baseStateSequence := m.state.sequence
      base := m.state.installed, target := m.state.previous, entries }

/-- `update_rollback_cancelled`. -/
def rollbackCancelled (env : Env) (index : Nat) : Command Unit :=
  if index = 0 then do
    let cleared ← Program.attempt (clearJournal env)
    match cleared with
    | .error _ => markRecoveryPending
    | .ok () => actionFail .cancelled .state
  else markRecoveryPending

/-- `update_replace_rollback_targets`, with `index` entries done. -/
def replaceRollbackTargets (env : Env) (options : Options) (slot : Slot) :
    Nat → List JournalEntry → Command Unit
  | _, [] => pure ()
  | index, entry :: entries => do
    let stop ← cancelled options
    if stop then rollbackCancelled env index
    else do
      let replaced ← Program.attempt do
        replaceFromAlias env (.backup slot entry.target) entry.target entry.newFile
        recordProgress env index
      match replaced with
      | .error _ => markRecoveryPending
      | .ok () => replaceRollbackTargets env options slot (index + 1) entries

/-- `update_rollback`. -/
def rollback (env : Env) (options : Options) : Command Unit := do
  report fun _ => ActionResult.blank
  let m ← Session.inspect id
  if ¬ (m.ready = true ∧ env.fat12 = true) then actionFail .unsupportedFs .unavailable
  else if m.healthy = false ∨ m.journal.kind ≠ .none then actionFail .state .state
  else if m.state.rollbackAvailable = false then actionFail .noRollback .notFound
  else do
    let built ← Program.attempt (buildRollbackJournal env)
    match built with
    | .error e => actionFail (preflightReason e) e
    | .ok prepared => do
      fillActionResult prepared.base prepared.target prepared.entries.length
      if options.dryRun then pure ()
      else do
        setJournal fun _ => prepared
        let written ← Program.attempt (writeJournalRecord env)
        match written with
        | .error _ => actionFail .io .disk
        | .ok () => do
          replaceRollbackTargets env options prepared.slot 0 prepared.entries
          commitTransaction env

end ZephyrOS.Zupd
