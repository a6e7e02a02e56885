import ZephyrOS.Core.Crypto
import ZephyrOS.Lib.Records
import ZephyrOS.Lib.Outcome

/-!
# Versions and slots

What the update modules have in common: versions with their epoch, and the two slots that
control files and saved files come in.
-/

namespace ZephyrOS.Update

open Lib

/-- `update_version_t`. -/
structure Version where
  major : Nat
  minor : Nat
  patch : Nat
  deriving DecidableEq, Repr

/-- `update_system_version_compare`, and the same function of the slots. -/
def Version.compare (first second : Version) : Ordering :=
  if first.major ≠ second.major then
    if first.major < second.major then .lt else .gt
  else if first.minor ≠ second.minor then
    if first.minor < second.minor then .lt else .gt
  else if first.patch ≠ second.patch then
    if first.patch < second.patch then .lt else .gt
  else .eq

def readVersion (h : Nat → UInt8) (off : Nat) : Version :=
  ⟨read16 h off, read16 h (off + 2), read16 h (off + 4)⟩

/-- `update_system_base_t`. -/
structure Base where
  version : Version
  epoch : Nat
  deriving DecidableEq, Repr

/-- The two slots. -/
inductive Slot where
  | a | b
  deriving DecidableEq, Repr

/-- `1 - slot`. -/
def Slot.other : Slot → Slot
  | .a => .b
  | .b => .a

def Slot.byte : Slot → UInt8
  | .a => 0
  | .b => 1

def Slot.ofByte (b : UInt8) : Option Slot :=
  if b = 0 then some .a else if b = 1 then some .b else none

@[simp] theorem Slot.ofByte_byte (slot : Slot) : Slot.ofByte slot.byte = some slot := by
  cases slot <;> rfl

/-- Two values, by slot. -/
def bySlot {α : Type} (first second : α) : Slot → α
  | .a => first
  | .b => second

end ZephyrOS.Update
