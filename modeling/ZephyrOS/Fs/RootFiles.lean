import ZephyrOS.Core.Errors
import ZephyrOS.Lib.Volume

/-!
# Root files

What the update services use of `fs.c`: a file's size, ranges of its bytes, and writing or
deleting it as a whole. Attributes are left out, since no caller reads them back.
-/

namespace ZephyrOS.RootFiles

open Lib

variable {κ ρ : Type}

/-- `FS_MAX_ATOMIC_FILE_SIZE`. -/
def maxAtomicSize : Nat := 65536

/-- `fs_atomic_mode_t`. -/
inductive AtomicMode where
  | createOrReplace | replaceOnly
  deriving DecidableEq, Repr

/-- The bytes of a file that is there. -/
def contents (name : κ) : Session κ Err ρ (List UInt8) := do
  let file ← Session.look name
  match file with
  | none => Program.fail .notFound
  | some bytes => pure bytes

/-- `fs_get_root_file_info`: the size. -/
def getRootFileInfo (name : κ) : Session κ Err ρ Nat := do
  let bytes ← contents name
  pure bytes.length

/-- `fs_read_file_range_at`: fewer bytes than asked for where the file ends. -/
def readFileRangeAt (name : κ) (offset size : Nat) : Session κ Err ρ (List UInt8) := do
  let bytes ← contents name
  pure ((bytes.drop offset).take size)

variable [DecidableEq κ]

/-- `fs_atomic_write_root`. -/
def atomicWriteRoot (name : κ) (data : List UInt8) (mode : AtomicMode) : Session κ Err ρ Unit := do
  Session.ask name data
  Program.ensure (data.length ≠ 0 ∧ data.length ≤ maxAtomicSize) .overflow
  let file ← Session.look name
  Program.ensure (mode = .createOrReplace ∨ file.isSome = true) .notFound
  Session.change name (some data)

/-- `fs_atomic_delete_root`. -/
def atomicDeleteRoot (name : κ) : Session κ Err ρ Unit := do
  let file ← Session.look name
  Program.ensure (file.isSome = true) .notFound
  Session.change name none

end ZephyrOS.RootFiles
