import ZephyrOS.Fs.RootFiles
import ZephyrOS.Update.Version

/-!
# Update packages

The reader and verifier of `update.c` for ZUPD files: a header of 128 bytes, a table with 128
bytes for each entry, the payloads in the order of the table, and a signature. The file is read
in pieces, and nothing says that two pieces come from the same contents: each read goes to the
volume again.
-/

namespace ZephyrOS.Zupd

open Lib RootFiles
open Update (Version Base Slot readVersion)

/-! ### Files -/

/-- The system files an update may replace, by their index in `update_target_paths`. -/
abbrev Target := Fin 3

-- One proof behind the numerals of `Target`, in whichever module they stand.
instance instNeZeroTargets : NeZero 3 := ⟨by decide⟩

/-- `update_target_paths`: `EXPLORER.BMP`, `SHELL.BMP` and `TASKMGR.BMP`. -/
def targetPath : Target → List UInt8
  | 0 => [69, 88, 80, 76, 79, 82, 69, 82, 46, 66, 77, 80]
  | 1 => [83, 72, 69, 76, 76, 46, 66, 77, 80]
  | 2 => [84, 65, 83, 75, 77, 71, 82, 46, 66, 77, 80]

/-- The root files by what they are for. -/
inductive Path where
  | target (target : Target)
  /-- `ZUPD0.STA`, `ZUPD1.STA`. -/
  | state (slot : Slot)
  /-- `ZUPD0.JRN`, `ZUPD1.JRN`. -/
  | journal (slot : Slot)
  /-- `ZBA0.BAK` to `ZBB2.BAK`. -/
  | backup (slot : Slot) (target : Target)
  /-- `ZSA0.NEW` to `ZSB2.NEW`. -/
  | stage (slot : Slot) (target : Target)
  /-- Any other. -/
  | other (name : String)
  deriving DecidableEq, Repr

/-- `update_target_id`. -/
def targetId (path : List UInt8) : Option Target :=
  [0, 1, 2].find? fun target => path == targetPath target

/-! ### Failures -/

/-- `zupd_reason_t`. -/
inductive Reason where
  | none | format | size | hash | unknownKey | signature | architecture | baseVersion | downgrade
  | pathPolicy | duplicateTarget | unsupported
  deriving DecidableEq, Repr

/-- `update_reason_error`. -/
def Reason.error : Reason → Err
  | .size => .overflow
  | .architecture | .baseVersion | .downgrade => .state
  | .unsupported => .unavailable
  | _ => .invalid

/-- A check that fails with a reason and an error. -/
abbrev Check := Except (Reason × Err)

/-- `update_reject` unless the condition holds. -/
def require (c : Prop) [Decidable c] (reason : Reason) : Check Unit :=
  if c then .ok () else .error (reason, reason.error)

/-! ### Layout -/

def headerSize : Nat := 128
def entrySize : Nat := 128
def maxEntries : Nat := 16
def maxTotalSize : Nat := 131072
def maxPayloadSize : Nat := 65536
def pathSize : Nat := 64
def signatureSize : Nat := 64
def ioBufferSize : Nat := 4096

/-- `update_domain`, `ZEPHYROS-UPDATE-V1` and a zero. -/
def domain : List UInt8 :=
  [90, 69, 80, 72, 89, 82, 79, 83, 45, 85, 80, 68, 65, 84, 69, 45, 86, 49, 0]

/-- `update_header_t`. -/
structure Header where
  architecture : Nat
  totalSize : Nat
  manifestSize : Nat
  payloadOffset : Nat
  payloadSize : Nat
  signatureOffset : Nat
  entryCount : Nat
  base : Base
  target : Base
  keyId : List UInt8
  contentHash : Digest
  deriving DecidableEq, Repr

/-- `update_decode_header`. -/
def decodeHeader (h : Nat → UInt8) : Header :=
  { architecture := read32 h 8
    totalSize := read32 h 16
    manifestSize := read32 h 24
    payloadOffset := read32 h 28
    payloadSize := read32 h 32
    signatureOffset := read32 h 36
    entryCount := read16 h 46
    base := ⟨readVersion h 52, read32 h 64⟩
    target := ⟨readVersion h 58, read32 h 68⟩
    keyId := slice h 72 16
    contentHash := vectorAt h 88 32 }

/-- `update_validate_header_limits`. -/
def validateHeaderLimits (h : Nat → UInt8) : Check Unit :=
  require (321 ≤ read32 h 16 ∧ read32 h 16 ≤ maxTotalSize ∧ read32 h 24 ≤ maxTotalSize
    ∧ read32 h 28 ≤ maxTotalSize ∧ read32 h 32 ≤ maxTotalSize ∧ read32 h 36 ≤ maxTotalSize
    ∧ read16 h 46 ≠ 0 ∧ read16 h 46 ≤ maxEntries ∧ read16 h 40 = signatureSize) .size

/-- `update_validate_header_algorithms`. -/
def validateHeaderAlgorithms (h : Nat → UInt8) : Check Unit :=
  require (read16 h 42 = 1 ∧ read16 h 44 = 1) .unsupported

/-- `update_validate_header_layout`. -/
def validateHeaderLayout (h : Nat → UInt8) : Check Unit :=
  require (slice h 0 4 = [90, 85, 80, 68] ∧ read16 h 4 = 1 ∧ read16 h 6 = headerSize
    ∧ read32 h 12 = 0 ∧ read32 h 20 = headerSize ∧ read32 h 24 = read16 h 46 * entrySize
    ∧ read32 h 28 = headerSize + read16 h 46 * entrySize
    ∧ read32 h 36 = read32 h 28 + read32 h 32 ∧ read32 h 16 = read32 h 36 + signatureSize
    ∧ read16 h 48 = entrySize ∧ read16 h 50 = 0 ∧ zeros h 120 8 = true) .format

/-! ### Entries -/

/-- `update_entry_t`. -/
structure Entry where
  path : List UInt8
  payloadOffset : Nat
  payloadSize : Nat
  payloadHash : Digest
  deriving DecidableEq, Repr

/-- `update_is_path_character`. -/
def isPathCharacter (b : UInt8) : Bool := (65 ≤ b && b ≤ 90) || (48 ≤ b && b ≤ 57) || b == 95

/-- `update_validate_path_syntax`: eight characters at most, a dot and three at most. -/
def validatePathSyntax (path : List UInt8) : Bool :=
  let base := path.takeWhile fun b => b != 46
  match path.drop base.length with
  | [] => false
  | _ :: extension =>
    base.all isPathCharacter && 0 < base.length && base.length ≤ 8
      && extension.all (fun b => isPathCharacter b && b != 95)
      && 0 < extension.length && extension.length ≤ 3

/-- `update_decode_path`. -/
def decodePath (field : List UInt8) : Check (List UInt8) := do
  let path := textOf field
  require (path ≠ [] ∧ path.length < field.length ∧ clean field = true) .format
  require (validatePathSyntax path = true) .pathPolicy
  pure path

/-- `update_compare_paths`: the difference of the first bytes that differ, or of the ends. -/
def comparePaths : List UInt8 → List UInt8 → Int
  | [], [] => 0
  | a :: _, [] => a.toNat
  | [], b :: _ => -b.toNat
  | a :: first, b :: second => if a = b then comparePaths first second else a.toNat - b.toNat

/-- `update_parse_entry`, of the table's record at `raw`. -/
def parseEntry (table : Nat → UInt8) (raw expectedOffset : Nat) : Check Entry := do
  let path ← decodePath (slice table raw pathSize)
  let entry : Entry :=
    ⟨path, read32 table (raw + 64), read32 table (raw + 68), vectorAt table (raw + 84) 32⟩
  require (entry.payloadSize ≠ 0 ∧ entry.payloadSize ≤ maxPayloadSize) .size
  require (read16 table (raw + 76) = 1 ∧ read16 table (raw + 78) = 0 ∧ read16 table (raw + 80) = 1)
    .unsupported
  require (read32 table (raw + 72) = entry.payloadSize ∧ entry.payloadOffset = expectedOffset
    ∧ read16 table (raw + 82) = 0 ∧ zeros table (raw + 116) 12 = true) .format
  pure entry

/-- The order of an entry and the one before it. -/
def checkOrder (previous : Option Entry) (entry : Entry) : Check Unit :=
  match previous with
  | none => .ok ()
  | some p => do
    require (comparePaths p.path entry.path ≠ 0) .duplicateTarget
    require (comparePaths p.path entry.path < 0) .format

/-- The loop of `update_parse_entries`: the entries from `index` on. -/
def parseEntriesLoop (signatureOffset : Nat) (table : Nat → UInt8) :
    Nat → Nat → Nat → Option Entry → Check (List Entry)
  | 0, _, expectedOffset, _ => do
    require (expectedOffset = signatureOffset) .format
    pure []
  | remaining + 1, index, expectedOffset, previous => do
    let entry ← parseEntry table (index * entrySize) expectedOffset
    checkOrder previous entry
    require (entry.payloadOffset ≤ signatureOffset
      ∧ entry.payloadSize ≤ signatureOffset - entry.payloadOffset) .size
    let rest ← parseEntriesLoop signatureOffset table remaining (index + 1)
      (entry.payloadOffset + entry.payloadSize) (some entry)
    pure (entry :: rest)

/-- `update_parse_entries`. -/
def parseEntries (parsed : Header) (table : Nat → UInt8) : Check (List Entry) :=
  parseEntriesLoop parsed.signatureOffset table parsed.entryCount 0 parsed.payloadOffset none

/-! ### Reading a package -/

variable {ρ : Type}

/-- Programs that fail with a reason. -/
abbrev Reading (ρ : Type) := Program (Machine Path Err ρ) (Reason × Err)

/-- A failure of the file system has no reason of its own. -/
def io {α : Type} (x : Session Path Err ρ α) : Reading ρ α := Program.mapError (fun e => (.none, e)) x

/-- `update_read_exact`. -/
def readExact (path : Path) (offset size : Nat) : Reading ρ (List UInt8) := do
  let bytes ← io (readFileRangeAt path offset size)
  Program.lift (require (bytes.length = size) .size)
  pure bytes

/-- `update_check_exact_file_size`. -/
def checkExactFileSize (path : Path) (parsed : Header) : Reading ρ Unit := do
  let bytes ← io (readFileRangeAt path parsed.totalSize 1)
  Program.lift (require (bytes = []) .size)

/-- What `update_load_structure` leaves in the workspace. -/
structure Package where
  header : List UInt8
  table : List UInt8
  signature : List UInt8
  entries : List Entry
  deriving DecidableEq, Repr

def Package.parsed (package : Package) : Header := decodeHeader (bufferOf package.header)

/-- `update_load_structure`. -/
def loadStructure (path : Path) : Reading ρ Package := do
  let header ← readExact path 0 headerSize
  let h := bufferOf header
  Program.lift (validateHeaderLimits h)
  Program.lift (validateHeaderAlgorithms h)
  Program.lift (validateHeaderLayout h)
  let parsed := decodeHeader h
  checkExactFileSize path parsed
  let table ← readExact path headerSize parsed.manifestSize
  let entries ← Program.lift (parseEntries parsed (bufferOf table))
  let signature ← readExact path parsed.signatureOffset signatureSize
  pure ⟨header, table, signature, entries⟩

/-! ### Verification -/

/-- The reads of `update_hash_payload`. Each round reads at least a byte, so what remains is enough
fuel. -/
def readPayload (path : Path) : Nat → Nat → Nat → Reading ρ (List UInt8)
  | 0, _, _ => pure []
  | fuel + 1, offset, remaining =>
    if remaining = 0 then pure []
    else do
      let bytes ← readExact path offset (min remaining ioBufferSize)
      let rest ← readPayload path fuel (offset + min remaining ioBufferSize)
        (remaining - min remaining ioBufferSize)
      pure (bytes ++ rest)

/-- `update_hash_payload`: the payload that was hashed. -/
def hashPayload (crypto : Crypto) (path : Path) (entry : Entry) : Reading ρ (List UInt8) := do
  let payload ← readPayload path entry.payloadSize entry.payloadOffset entry.payloadSize
  Program.lift (require (crypto.sha256 payload = entry.payloadHash) .hash)
  pure payload

/-- `update_hash_content`: the payloads that were hashed. -/
def hashContent (crypto : Crypto) (path : Path) (package : Package) : Reading ρ (List (List UInt8)) := do
  let payloads ← Program.collect (hashPayload crypto path) package.entries
  Program.lift (require
    (crypto.sha256 (package.table ++ payloads.flatten) = package.parsed.contentHash) .hash)
  pure payloads

/-- `update_target_exists`, of a path that must be allowed. -/
def targetExists (entry : Entry) : Reading ρ Unit :=
  match targetId entry.path with
  | none => Program.fail (.pathPolicy, .invalid)
  | some target => do
    let found ← Program.attempt (io (readFileRangeAt (Path.target target) 0 0))
    Program.lift (require (found.isOk = true) .pathPolicy)

/-- What is installed, if the updater's state is healthy. -/
abbrev Installed := Option Base

/-- `update_validate_applicability`. -/
def validateApplicability (installed : Installed) (package : Package) : Reading ρ Unit := do
  Program.lift (require (package.parsed.architecture = 1) .architecture)
  match installed with
  | none => Program.fail (.none, .state)
  | some current => do
    Program.lift (require (package.parsed.base = current) .baseVersion)
    Program.lift (require
      (package.parsed.target.version.compare package.parsed.base.version = .gt
        ∧ package.parsed.base.epoch ≤ package.parsed.target.epoch) .downgrade)
    Program.forEach targetExists package.entries

/-- The message whose signature is checked. -/
def signedMessage (package : Package) (payloads : List (List UInt8)) : List UInt8 :=
  domain ++ package.header ++ package.table ++ payloads.flatten

/-- `update_verify_loaded`. -/
def verifyLoaded (crypto : Crypto) (installed : Installed) (path : Path) (package : Package) :
    Reading ρ Unit := do
  let payloads ← hashContent crypto path package
  Program.lift (require
    (Trust.keyAllowed package.parsed.keyId package.parsed.target.epoch = true) .unknownKey)
  Program.lift (require
    (crypto.ed25519 package.signature Trust.publicKey (signedMessage package payloads) = true)
    .signature)
  validateApplicability installed package

/-- `update_verify_internal`. -/
def verifyInternal (crypto : Crypto) (installed : Installed) (path : Path) : Reading ρ Package := do
  let package ← loadStructure path
  verifyLoaded crypto installed path package
  pure package

end ZephyrOS.Zupd
