import ZephyrOS.Update.ZupdPackage

/-!
# Control records of the updater

The installed state and the journal of `update.c`, in files of 512 bytes: fields at fixed
offsets and from offset 480 on the hash of what stands before. A record that satisfies `StateOk`
(`JournalOk`) is read back as it was written.
-/

namespace ZephyrOS.Zupd

open Lib List
open Update (Version Base Slot readVersion)

/-! ### The records -/

/-- `update_file_state_t`. -/
structure FileState where
  present : Bool
  size : Nat
  hash : Digest
  deriving DecidableEq, Repr

/-- A file state of zeros. -/
def FileState.absent : FileState := ⟨false, 0, Vector.replicate 32 0⟩

/-- `update_file_state_equal`. -/
def FileState.same (first second : FileState) : Bool :=
  first.present == second.present
    && (!first.present || (first.size == second.size && first.hash == second.hash))

/-- `update_state_t`. -/
structure State where
  sequence : Nat
  installed : Base
  rollbackAvailable : Bool
  rollbackSlot : Slot
  rollbackEntryCount : Nat
  previous : Base
  current : Target → FileState
  rollback : Target → FileState

/-- `update_journal_entry_t`. -/
structure JournalEntry where
  target : Target
  oldFile : FileState
  newFile : FileState
  deriving DecidableEq, Repr

inductive Kind where
  | none | apply | rollback
  deriving DecidableEq, Repr

inductive Phase where
  | none | prepared | replacing | committed
  deriving DecidableEq, Repr

/-- `update_journal_t`, with the entries in use. -/
structure Journal where
  sequence : Nat
  kind : Kind
  phase : Phase
  slot : Slot
  progress : Nat
  baseStateSequence : Nat
  base : Base
  target : Base
  entries : List JournalEntry
  deriving DecidableEq, Repr

def zeroBase : Base := ⟨⟨0, 0, 0⟩, 0⟩

/-- A journal of zeros but for its sequence. -/
def Journal.blank (sequence : Nat) : Journal :=
  { sequence, kind := .none, phase := .none, slot := .a, progress := 0, baseStateSequence := 0
    base := zeroBase, target := zeroBase, entries := [] }

/-! ### Bytes -/

def controlSize : Nat := 512
def hashOffset : Nat := 480

def flagByte (flag : Bool) : UInt8 := if flag then 1 else 0

def flagOf (b : UInt8) : Option Bool := if b = 0 then some false else if b = 1 then some true else none

def Kind.byte : Kind → UInt8
  | .none => 0
  | .apply => 1
  | .rollback => 2

def Kind.ofByte (b : UInt8) : Option Kind :=
  if b = 0 then some .none else if b = 1 then some .apply else if b = 2 then some .rollback
  else Option.none

def Phase.byte : Phase → UInt8
  | .none => 0
  | .prepared => 1
  | .replacing => 2
  | .committed => 3

def Phase.ofByte (b : UInt8) : Option Phase :=
  if b = 0 then some .none else if b = 1 then some .prepared else if b = 2 then some .replacing
  else if b = 3 then some .committed else Option.none

def targetByte (target : Target) : UInt8 := UInt8.ofNat target.val

def targetOf (b : UInt8) : Option Target := if h : b.toNat < 3 then some ⟨b.toNat, h⟩ else none

@[simp] theorem flagOf_flagByte (flag : Bool) : flagOf (flagByte flag) = some flag := by
  cases flag <;> rfl

@[simp] theorem Kind.ofByte_byte (kind : Kind) : Kind.ofByte kind.byte = some kind := by
  cases kind <;> rfl

@[simp] theorem Phase.ofByte_byte (phase : Phase) : Phase.ofByte phase.byte = some phase := by
  cases phase <;> rfl

@[simp] theorem targetOf_targetByte (target : Target) : targetOf (targetByte target) = some target := by
  revert target; decide

def versionBytes (version : Version) : List UInt8 :=
  le16 version.major ++ (le16 version.minor ++ le16 version.patch)

/-! ### Files -/

/-- `update_encode_file_state`. -/
def encodeFileState (file : FileState) : List UInt8 :=
  le32 file.size ++ (file.hash.toList ++ ([flagByte file.present] ++ List.replicate 3 0))

/-- A file that is there has a size within bounds, and one that is not has none. -/
def FileState.consistent (file : FileState) : Bool :=
  if file.present then file.size != 0 && file.size ≤ maxPayloadSize
  else file.size == 0 && file.hash == Vector.replicate 32 0

/-- `update_decode_file_state` and the checks of its result. -/
def decodeFileState (h : Nat → UInt8) (off : Nat) : Option FileState := do
  let present ← flagOf (h (off + 36))
  guard (zeros h (off + 37) 3 = true)
  let file : FileState := ⟨present, read32 h off, vectorAt h (off + 4) 32⟩
  guard (file.consistent = true)
  pure file

/-- Three values, by target. -/
def byTarget {α : Type} (first second third : α) : Target → α
  | 0 => first
  | 1 => second
  | 2 => third

theorem byTarget_eta {α : Type} (f : Target → α) : byTarget (f 0) (f 1) (f 2) = f := by
  funext target
  match target with
  | 0 => rfl
  | 1 => rfl
  | 2 => rfl

def encodeFiles (files : Target → FileState) : List UInt8 :=
  encodeFileState (files 0) ++ (encodeFileState (files 1) ++ encodeFileState (files 2))

def decodeFiles (h : Nat → UInt8) (off : Nat) : Option (Target → FileState) := do
  let first ← decodeFileState h off
  let second ← decodeFileState h (off + 40)
  let third ← decodeFileState h (off + 80)
  pure (byTarget first second third)

/-! ### The state -/

/-- `ZUST`. -/
def stateMagic : List UInt8 := [90, 85, 83, 84]

/-- The record up to its hash. -/
def stateBody (s : State) : List UInt8 :=
  stateMagic ++ (le16 1 ++ (le16 controlSize ++ (le32 s.sequence ++ (versionBytes s.installed.version
    ++ ([0, 0] ++ (le32 s.installed.epoch ++ ([flagByte s.rollbackAvailable, s.rollbackSlot.byte,
    UInt8.ofNat s.rollbackEntryCount, 0] ++ (versionBytes s.previous.version ++ ([0, 0]
    ++ (le32 s.previous.epoch ++ (encodeFiles s.current ++ (encodeFiles s.rollback
    ++ List.replicate 200 0))))))))))))

/-- `update_encode_state_record`. -/
def encodeState (crypto : Crypto) (s : State) : List UInt8 :=
  stateBody s ++ (crypto.sha256 (stateBody s)).toList

/-- The number of files that can be rolled back. -/
def rollbackCount (files : Target → FileState) : Nat :=
  ([0, 1, 2].filter fun target => (files target).present).length

/-- The checks on the rollback fields. -/
def State.consistent (s : State) : Bool :=
  (if s.rollbackAvailable then s.rollbackEntryCount != 0
    else s.rollbackEntryCount == 0 && s.previous == zeroBase)
    && s.rollbackEntryCount == rollbackCount s.rollback

/-- `update_decode_state_record`. -/
def decodeState (crypto : Crypto) (raw : List UInt8) : Option State := do
  let h := bufferOf raw
  guard (slice h 0 4 = stateMagic ∧ read16 h 4 = 1 ∧ read16 h 6 = controlSize)
  guard (zeros h 18 2 = true ∧ zeros h 27 1 = true ∧ zeros h 34 2 = true ∧ zeros h 280 200 = true)
  guard (crypto.sha256 (slice h 0 hashOffset) = vectorAt h hashOffset 32)
  let rollbackAvailable ← flagOf (h 24)
  let rollbackSlot ← Slot.ofByte (h 25)
  let current ← decodeFiles h 40
  let rollback ← decodeFiles h 160
  let s : State :=
    { sequence := read32 h 8, installed := ⟨readVersion h 12, read32 h 20⟩, rollbackAvailable
      rollbackSlot, rollbackEntryCount := (h 26).toNat
      previous := ⟨readVersion h 28, read32 h 36⟩, current, rollback }
  guard (s.consistent = true)
  pure s

/-! ### The journal -/

/-- `ZUJ1`. -/
def journalMagic : List UInt8 := [90, 85, 74, 49]

def encodeEntry (entry : JournalEntry) : List UInt8 :=
  [targetByte entry.target, flagByte entry.oldFile.present, flagByte entry.newFile.present, 0]
    ++ (le32 entry.oldFile.size ++ (le32 entry.newFile.size ++ (entry.oldFile.hash.toList
    ++ entry.newFile.hash.toList)))

/-- The entries, one after the other. -/
def encodeEntries : List JournalEntry → List UInt8
  | [] => []
  | entry :: entries => encodeEntry entry ++ encodeEntries entries

/-- The record up to its hash. -/
def journalBody (j : Journal) : List UInt8 :=
  journalMagic ++ (le16 1 ++ (le16 controlSize ++ (le32 j.sequence ++ ([j.kind.byte, j.phase.byte,
    j.slot.byte, UInt8.ofNat j.entries.length, UInt8.ofNat j.progress, 0, 0, 0]
    ++ (le32 j.baseStateSequence ++ (versionBytes j.base.version ++ (versionBytes j.target.version
    ++ (le32 j.base.epoch ++ (le32 j.target.epoch ++ ([0, 0, 0, 0] ++ (encodeEntries j.entries
    ++ (List.replicate (76 * (3 - j.entries.length)) 0 ++ List.replicate 204 0))))))))))))

/-- `update_encode_journal_record`. -/
def encodeJournal (crypto : Crypto) (j : Journal) : List UInt8 :=
  journalBody j ++ (crypto.sha256 (journalBody j)).toList

/-- Both files of an entry are there. -/
def JournalEntry.consistent (entry : JournalEntry) : Bool :=
  entry.oldFile.present && entry.newFile.present && entry.oldFile.consistent
    && entry.newFile.consistent

def decodeEntry (h : Nat → UInt8) (off : Nat) : Option JournalEntry := do
  guard (h (off + 3) = 0)
  let target ← targetOf (h off)
  let oldPresent ← flagOf (h (off + 1))
  let newPresent ← flagOf (h (off + 2))
  let entry : JournalEntry :=
    ⟨target, ⟨oldPresent, read32 h (off + 4), vectorAt h (off + 12) 32⟩,
      ⟨newPresent, read32 h (off + 8), vectorAt h (off + 44) 32⟩⟩
  guard (entry.consistent = true)
  pure entry

/-- That many entries, one after the other. -/
def decodeEntries (h : Nat → UInt8) : Nat → Nat → Option (List JournalEntry)
  | 0, _ => some []
  | count + 1, off => do
    let entry ← decodeEntry h off
    let entries ← decodeEntries h count (off + 76)
    pure (entry :: entries)

/-- A journal says that there is nothing to do, or what. -/
def Journal.consistent (j : Journal) : Bool :=
  match j.kind with
  | .none => j = Journal.blank j.sequence
  | _ => j.phase ≠ .none && j.entries ≠ []

/-- `update_decode_journal_record`. -/
def decodeJournal (crypto : Crypto) (raw : List UInt8) : Option Journal := do
  let h := bufferOf raw
  guard (slice h 0 4 = journalMagic ∧ read16 h 4 = 1 ∧ read16 h 6 = controlSize)
  guard (zeros h 17 3 = true ∧ zeros h 44 4 = true ∧ zeros h 276 204 = true)
  guard (crypto.sha256 (slice h 0 hashOffset) = vectorAt h hashOffset 32)
  let kind ← Kind.ofByte (h 12)
  let phase ← Phase.ofByte (h 13)
  let slot ← Slot.ofByte (h 14)
  let count := (h 15).toNat
  guard (count ≤ 3 ∧ (h 16).toNat ≤ count)
  let entries ← decodeEntries h count 48
  guard ((entries.map JournalEntry.target).Nodup)
  guard (zeros h (48 + 76 * count) (76 * (3 - count)) = true)
  let j : Journal :=
    { sequence := read32 h 8, kind, phase, slot, progress := (h 16).toNat
      baseStateSequence := read32 h 20, base := ⟨readVersion h 24, read32 h 36⟩
      target := ⟨readVersion h 30, read32 h 40⟩, entries }
  guard (j.consistent = true)
  pure j

/-! ### Read back as written: the state -/

structure VersionOk (version : Version) : Prop where
  major_lt : version.major < 65536
  minor_lt : version.minor < 65536
  patch_lt : version.patch < 65536

structure BaseOk (base : Base) : Prop where
  version : VersionOk base.version
  epoch_lt : base.epoch < 4294967296

theorem baseOk_zero : BaseOk zeroBase :=
  ⟨⟨Nat.zero_lt_succ _, Nat.zero_lt_succ _, Nat.zero_lt_succ _⟩, Nat.zero_lt_succ _⟩

theorem baseOk_read (h : Nat → UInt8) (off off' : Nat) : BaseOk ⟨readVersion h off, read32 h off'⟩ :=
  ⟨⟨read16_lt .., read16_lt .., read16_lt ..⟩, read32_lt ..⟩

@[simp] theorem length_versionBytes (version : Version) : (versionBytes version).length = 6 := rfl

variable {buf : Nat → UInt8} {off : Nat} {file : FileState} {j : Journal} {files : Target → FileState}
  {s : State} {crypto : Crypto} {raw : List UInt8} {entry : JournalEntry}

theorem Holds.readVersion {version : Version} (h : Holds buf off (versionBytes version))
    (ok : VersionOk version) : readVersion buf off = version := by
  simp only [versionBytes, holds_append, length_le16, add_assoc, Nat.reduceAdd] at h
  simp only [Update.readVersion, h.1.read16 ok.major_lt, h.2.1.read16 ok.minor_lt,
    h.2.2.read16 ok.patch_lt]

@[simp] theorem length_encodeFileState : (encodeFileState file).length = 40 := by
  simp [encodeFileState]

theorem size_lt_of_consistent (h : file.consistent = true) : file.size < 4294967296 := by
  unfold FileState.consistent maxPayloadSize at h
  split at h
  · simp only [Bool.and_eq_true, decide_eq_true_eq] at h
    omega
  · simp only [Bool.and_eq_true, beq_iff_eq] at h
    omega

theorem decodeFileState_of_holds (h : Holds buf off (encodeFileState file))
    (ok : file.consistent = true) : decodeFileState buf off = some file := by
  simp only [encodeFileState, holds_append, length_le32, Vector.length_toList, length_cons,
    length_nil, add_assoc, Nat.reduceAdd] at h
  obtain ⟨hsize, hhash, hflag, hzero⟩ := h
  simp only [decodeFileState, hflag.byte, flagOf_flagByte, hzero.zeros,
    hsize.read32 (size_lt_of_consistent ok), hhash.vectorAt, Option.bind_eq_bind, Option.bind_some,
    guard_true, Option.pure_def, ok]

theorem decodeFileState_ok (h : decodeFileState buf off = some file) : file.consistent = true := by
  simp only [decodeFileState, Option.bind_eq_bind, Option.bind_eq_some_iff, Option.guard_eq_some',
    Option.pure_def, Option.some.injEq] at h
  obtain ⟨present, -, -, -, -, hc, rfl⟩ := h
  exact hc

@[simp] theorem length_encodeFiles (files : Target → FileState) : (encodeFiles files).length = 120 := by
  simp [encodeFiles]

theorem decodeFiles_of_holds (h : Holds buf off (encodeFiles files))
    (ok : ∀ target, (files target).consistent = true) : decodeFiles buf off = some files := by
  simp only [encodeFiles, holds_append, length_encodeFileState, add_assoc, Nat.reduceAdd] at h
  simp only [decodeFiles, decodeFileState_of_holds h.1 (ok 0), decodeFileState_of_holds h.2.1 (ok 1),
    decodeFileState_of_holds h.2.2 (ok 2), Option.bind_eq_bind, Option.bind_some, byTarget_eta,
    Option.pure_def]

theorem decodeFiles_ok (h : decodeFiles buf off = some files)
    (target : Target) : (files target).consistent = true := by
  simp only [decodeFiles, Option.bind_eq_bind, Option.bind_eq_some_iff, Option.pure_def,
    Option.some.injEq] at h
  obtain ⟨first, h0, second, h1, third, h2, rfl⟩ := h
  match target with
  | 0 => exact decodeFileState_ok h0
  | 1 => exact decodeFileState_ok h1
  | 2 => exact decodeFileState_ok h2

/-- A state the decoder returns. -/
structure StateOk (s : State) : Prop where
  sequence_lt : s.sequence < 4294967296
  installed : BaseOk s.installed
  previous : BaseOk s.previous
  current : ∀ target, (s.current target).consistent = true
  rollback : ∀ target, (s.rollback target).consistent = true
  /-- The rollback fields agree with each other. -/
  consistent : s.consistent = true

theorem rollbackCount_le : rollbackCount files ≤ 3 :=
  length_filter_le _ _

theorem StateOk.count_le (ok : StateOk s) : s.rollbackEntryCount ≤ 3 := by
  have h := ok.consistent
  simp only [State.consistent, Bool.and_eq_true, beq_iff_eq] at h
  rw [h.2]
  exact rollbackCount_le

@[simp] theorem length_stateBody : (stateBody s).length = 480 := by
  simp only [stateBody, stateMagic, length_append, length_cons, length_nil,
    length_le16, length_le32, length_versionBytes, length_encodeFiles, length_replicate]

@[simp] theorem length_encodeState : (encodeState crypto s).length = controlSize := by
  simp [encodeState, controlSize]

/-- **A state is read back as written.** -/
theorem decodeState_encodeState (ok : StateOk s) :
    decodeState crypto (encodeState crypto s) = some s := by
  have hh := holds_bufferOf (encodeState crypto s)
  generalize hbuf : bufferOf (encodeState crypto s) = buf at hh
  rw [encodeState, holds_append, length_stateBody] at hh
  obtain ⟨hbody, hhash⟩ := hh
  have hdigest : vectorAt buf hashOffset 32 = crypto.sha256 (stateBody s) := hhash.vectorAt
  have hslice : slice buf 0 hashOffset = stateBody s := hbody.slice length_stateBody
  -- each field stands at its offset
  simp only [stateBody, holds_append, length_cons, length_nil, length_le16, length_le32,
    length_versionBytes, length_encodeFiles, show stateMagic.length = 4 from rfl, Nat.reduceAdd,
    holds_cons] at hbody
  obtain ⟨hmagic, hformat, hsize, hsequence, hversion, ⟨p0, p1, -⟩, hepoch,
    ⟨havailable, hslot, hcount, p2, -⟩, hprevious, ⟨p3, p4, -⟩, hpepoch, hcurrent, hrollback,
    htail⟩ := hbody
  have hmagic' : slice buf 0 4 = stateMagic := hmagic.slice rfl
  -- between the fields are the bytes that the decoder wants to be 0
  have hzero : zeros buf 18 2 = true ∧ zeros buf 27 1 = true ∧ zeros buf 34 2 = true := by
    simp [zeros, slice, range_succ, p0, p1, p2, p3, p4]
  have hnumber : (buf 26).toNat = s.rollbackEntryCount := by
    have := ok.count_le
    rw [hcount, UInt8.toNat_ofNat']
    omega
  -- so every check passes, and every field is read as it was written
  simp only [decodeState, hbuf, hmagic', hzero, hformat.read16 (by decide),
    hsize.read16 (by decide), hslice, hdigest, hsequence.read32 ok.sequence_lt,
    Holds.readVersion hversion ok.installed.version, hepoch.read32 ok.installed.epoch_lt,
    havailable, flagOf_flagByte, hslot, Update.Slot.ofByte_byte, hnumber,
    Holds.readVersion hprevious ok.previous.version, hpepoch.read32 ok.previous.epoch_lt,
    decodeFiles_of_holds hcurrent ok.current, decodeFiles_of_holds hrollback ok.rollback,
    htail.zeros, Option.bind_eq_bind, Option.bind_some, and_self, guard_true, Option.pure_def,
    ok.consistent]

theorem decodeState_ok (h : decodeState crypto raw = some s) : StateOk s := by
  simp only [decodeState, Option.bind_eq_bind, Option.bind_eq_some_iff, Option.guard_eq_some',
    Option.pure_def, Option.some.injEq] at h
  obtain ⟨-, -, -, -, -, -, available, -, slot, -, current, hcurrent, rollback, hrollback, -, hc, rfl⟩ :=
    h
  exact
    { sequence_lt := read32_lt .., installed := baseOk_read .., previous := baseOk_read ..
      current := decodeFiles_ok hcurrent, rollback := decodeFiles_ok hrollback, consistent := hc }

/-! ### Read back as written: the journal -/

@[simp] theorem length_encodeEntry (entry : JournalEntry) : (encodeEntry entry).length = 76 := by
  simp [encodeEntry]

@[simp] theorem length_encodeEntries (entries : List JournalEntry) :
    (encodeEntries entries).length = 76 * entries.length := by
  induction entries with
  | nil => rfl
  | cons entry entries ih =>
    rw [encodeEntries, length_append, length_encodeEntry, length_cons]
    omega

theorem decodeEntry_of_holds (h : Holds buf off (encodeEntry entry))
    (ok : entry.consistent = true) : decodeEntry buf off = some entry := by
  simp only [encodeEntry, holds_append, length_cons, length_nil, length_le32,
    Vector.length_toList, add_assoc, Nat.reduceAdd, holds_cons] at h
  obtain ⟨⟨htarget, hold, hnew, hpad, -⟩, hoSize, hnSize, hoHash, hnHash⟩ := h
  have hc := ok
  simp only [JournalEntry.consistent, Bool.and_eq_true] at hc
  simp only [decodeEntry, hpad, htarget, targetOf_targetByte, hold, hnew, flagOf_flagByte,
    hoSize.read32 (size_lt_of_consistent hc.1.2), hnSize.read32 (size_lt_of_consistent hc.2),
    hoHash.vectorAt, hnHash.vectorAt, Option.bind_eq_bind, Option.bind_some, guard_true, ok,
    Option.pure_def]

theorem decodeEntries_of_holds {entries : List JournalEntry} :
    ∀ {off : Nat}, Holds buf off (encodeEntries entries) →
      (∀ entry ∈ entries, entry.consistent = true) →
      decodeEntries buf entries.length off = some entries := by
  induction entries with
  | nil => intro off _ _; rfl
  | cons entry entries ih =>
    intro off h ok
    -- the entries behind the first stand 76 bytes further on
    rw [encodeEntries, holds_append, length_encodeEntry] at h
    rw [length_cons, decodeEntries, decodeEntry_of_holds h.1 (ok entry mem_cons_self)]
    simp only [Option.bind_eq_bind, Option.bind_some,
      ih h.2 fun e he => ok e (mem_cons_of_mem _ he), Option.pure_def]

/-- A journal the decoder returns. -/
structure JournalOk (j : Journal) : Prop where
  sequence_lt : j.sequence < 4294967296
  baseSequence_lt : j.baseStateSequence < 4294967296
  base : BaseOk j.base
  target : BaseOk j.target
  entries : ∀ entry ∈ j.entries, entry.consistent = true
  count_le : j.entries.length ≤ 3
  nodup : (j.entries.map JournalEntry.target).Nodup
  progress_le : j.progress ≤ j.entries.length
  /-- It says that there is nothing to do, or what. -/
  consistent : j.consistent = true

theorem journalOk_blank {sequence : Nat} (h : sequence < 4294967296) :
    JournalOk (Journal.blank sequence) where
  sequence_lt := h
  baseSequence_lt := Nat.zero_lt_succ _
  base := baseOk_zero
  target := baseOk_zero
  entries := by intro entry he; cases he
  count_le := Nat.zero_le _
  nodup := nodup_nil
  progress_le := le_refl _
  consistent := by simp [Journal.consistent, Journal.blank]

theorem length_journalBody (h : j.entries.length ≤ 3) : (journalBody j).length = 480 := by
  simp only [journalBody, journalMagic, length_append, length_cons, length_nil,
    length_le16, length_le32, length_versionBytes, length_encodeEntries, length_replicate]
  omega

theorem length_encodeJournal (h : j.entries.length ≤ 3) :
    (encodeJournal crypto j).length = controlSize := by
  rw [encodeJournal, length_append, length_journalBody h, Vector.length_toList]
  rfl

/-- **A journal is read back as written.** -/
theorem decodeJournal_encodeJournal (ok : JournalOk j) :
    decodeJournal crypto (encodeJournal crypto j) = some j := by
  have hh := holds_bufferOf (encodeJournal crypto j)
  generalize hbuf : bufferOf (encodeJournal crypto j) = buf at hh
  rw [encodeJournal, holds_append, length_journalBody ok.count_le] at hh
  obtain ⟨hbody, hhash⟩ := hh
  have hdigest : vectorAt buf hashOffset 32 = crypto.sha256 (journalBody j) := hhash.vectorAt
  have hslice : slice buf 0 hashOffset = journalBody j := hbody.slice (length_journalBody ok.count_le)
  simp only [journalBody, holds_append, length_cons, length_nil, length_le16, length_le32,
    length_versionBytes, length_encodeEntries, length_replicate,
    show journalMagic.length = 4 from rfl, Nat.reduceAdd, holds_cons] at hbody
  obtain ⟨hmagic, hformat, hsize, hsequence,
    ⟨hkind, hphase, hslot, hcount, hprogress, p0, p1, p2, -⟩, hbaseSequence, hbase, htarget, hepoch,
    htepoch, ⟨p3, p4, p5, p6, -⟩, hentries, hrest, htail⟩ := hbody
  have hcount' : (buf 15).toNat = j.entries.length := by
    have := ok.count_le
    rw [hcount, UInt8.toNat_ofNat']
    omega
  have hprogress' : (buf 16).toNat = j.progress := by
    have := ok.count_le
    have := ok.progress_le
    rw [hprogress, UInt8.toNat_ofNat']
    omega
  -- the places of the entries not in use end where the reserved bytes begin
  have hend : 48 + 76 * j.entries.length + 76 * (3 - j.entries.length) = 276 := by
    have := ok.count_le
    omega
  rw [hend] at htail
  have hmagic' : slice buf 0 4 = journalMagic := hmagic.slice rfl
  have hzero : zeros buf 17 3 = true ∧ zeros buf 44 4 = true := by
    simp [zeros, slice, range_succ, p0, p1, p2, p3, p4, p5, p6]
  simp only [decodeJournal, hbuf, hmagic', hformat.read16 (by decide),
    hsize.read16 (by decide), hslice, hdigest, hsequence.read32 ok.sequence_lt, hkind, hphase, hslot,
    Kind.ofByte_byte, Phase.ofByte_byte, Update.Slot.ofByte_byte, hcount', hprogress',
    hbaseSequence.read32 ok.baseSequence_lt, Holds.readVersion hbase ok.base.version,
    hepoch.read32 ok.base.epoch_lt, Holds.readVersion htarget ok.target.version,
    htepoch.read32 ok.target.epoch_lt, decodeEntries_of_holds hentries ok.entries, hrest.zeros,
    htail.zeros, hzero, ok.count_le, ok.progress_le, ok.nodup, Option.bind_eq_bind, Option.bind_some,
    and_self, guard_true, Option.pure_def, ok.consistent]

theorem decodeEntry_ok (h : decodeEntry buf off = some entry) : entry.consistent = true := by
  simp only [decodeEntry, Option.bind_eq_bind, Option.bind_eq_some_iff, Option.guard_eq_some',
    Option.pure_def, Option.some.injEq] at h
  obtain ⟨-, -, target, -, old, -, new, -, -, hc, rfl⟩ := h
  exact hc

theorem decodeEntries_ok {count : Nat} :
    ∀ {off : Nat} {entries : List JournalEntry}, decodeEntries buf count off = some entries →
      entries.length = count ∧ ∀ entry ∈ entries, entry.consistent = true := by
  induction count with
  | zero =>
    intro off entries h
    cases h
    exact ⟨rfl, nofun⟩
  | succ count ih =>
    intro off entries h
    simp only [decodeEntries, Option.bind_eq_bind, Option.bind_eq_some_iff, Option.pure_def,
      Option.some.injEq] at h
    obtain ⟨entry, hentry, rest, hrest, rfl⟩ := h
    obtain ⟨hlength, hall⟩ := ih hrest
    exact ⟨by rw [length_cons, hlength], forall_mem_cons.mpr ⟨decodeEntry_ok hentry, hall⟩⟩

theorem decodeJournal_ok (h : decodeJournal crypto raw = some j) : JournalOk j := by
  simp only [decodeJournal, Option.bind_eq_bind, Option.bind_eq_some_iff, Option.guard_eq_some',
    Option.pure_def, Option.some.injEq] at h
  obtain ⟨-, -, -, -, -, -, kind, -, phase, -, slot, -, -, hcount, entries, hentries, -, hnodup, -, -,
    -, hc, rfl⟩ := h
  obtain ⟨hlength, hall⟩ := decodeEntries_ok hentries
  exact
    { sequence_lt := read32_lt .., baseSequence_lt := read32_lt .., base := baseOk_read ..
      target := baseOk_read .., entries := hall, count_le := hlength.trans_le hcount.1, nodup := hnodup
      progress_le := hcount.2.trans_eq hlength.symm, consistent := hc }

end ZephyrOS.Zupd
