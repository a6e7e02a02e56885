import ZephyrOS.Fs.Storage

/-!
# Directories of `fs/storage.c`: slots, long names, visitors

A directory is a sequence of 32-byte slots. A file has one short entry, and before
it a group of long-name slots that hold its name backwards: the last piece of the
name comes first and carries the bit `0x40`, the piece numbered 1 stands right
before the short entry, and every piece repeats a checksum of the short name.

`visitLongSector` is the strict reader: a piece out of sequence, a group whose
checksum does not match or whose text does not decode is an error, not an entry
without a long name. A deleted slot between two groups resets the reader, and a
slot that starts with 0 ends the directory.
-/

namespace ZephyrOS.Storage

open Lib

/-! ### Text -/

/-- `storage_lower`. -/
def lower (c : UInt8) : UInt8 := if 65 ≤ c ∧ c ≤ 90 then c + 32 else c

/-- `storage_upper`. -/
def upper (c : UInt8) : UInt8 := if 97 ≤ c ∧ c ≤ 122 then c - 32 else c

/-- `storage_text_equal`, and `storage_check_compare`, which only calls it. -/
def textEqual : List UInt8 → List UInt8 → Bool
  | [], [] => true
  | a :: left, b :: right => lower a == lower b && textEqual left right
  | _, _ => false

theorem textEqual_iff {a b : List UInt8} : textEqual a b = true ↔ a.map lower = b.map lower := by
  induction a generalizing b with
  | nil => cases b <;> simp [textEqual]
  | cons x a ih => cases b <;> simp [textEqual, ih]

/-! ### Long names -/

/-- `storage_lfn_state_t`. `offsets` holds the slots of the group so far. -/
structure Lfn where
  units : Nat → Nat
  active : Bool
  expectedSequence : Nat
  checksum : UInt8
  highestUnit : Nat
  offset : Nat
  offsets : List Nat

/-- `storage_lfn_reset`. -/
def Lfn.reset : Lfn := ⟨fun _ => 0, false, 0, 0, 0, 0, []⟩

/-- `storage_lfn_checksum`. -/
def lfnChecksum (short : Nat → UInt8) : UInt8 :=
  (List.range 11).foldl (fun sum k => ((sum &&& 1) <<< 7) + (sum >>> 1) + short k) 0

/-- Where the thirteen units of a long-name slot lie. -/
def unitPositions : List Nat := [1, 3, 5, 7, 9, 14, 16, 18, 20, 22, 24, 28, 30]

/-- `storage_lfn_copy_units`. -/
def Lfn.copyUnits (lfn : Lfn) (source : Nat → UInt8) : Lfn :=
  let first := ((source 0 &&& 0x1F).toNat - 1) * 13
  { lfn with
    units := fun target =>
      if first ≤ target ∧ target < first + 13 ∧ target < 256 then
        read16 source (unitPositions.getD (target - first) 0)
      else lfn.units target
    highestUnit := max lfn.highestUnit (min (first + 13) 256) }

/-- The bytes of a code point, as `storage_lfn_append_utf8` computes them. -/
def utf8Bytes (codepoint : Nat) : List UInt8 :=
  if codepoint ≤ 0x7F then [UInt8.ofNat codepoint]
  else if codepoint ≤ 0x7FF then
    [UInt8.ofNat (0xC0 ||| (codepoint >>> 6)), UInt8.ofNat (0x80 ||| (codepoint &&& 0x3F))]
  else if codepoint ≤ 0xFFFF then
    [UInt8.ofNat (0xE0 ||| (codepoint >>> 12)),
      UInt8.ofNat (0x80 ||| ((codepoint >>> 6) &&& 0x3F)),
      UInt8.ofNat (0x80 ||| (codepoint &&& 0x3F))]
  else
    [UInt8.ofNat (0xF0 ||| (codepoint >>> 18)),
      UInt8.ofNat (0x80 ||| ((codepoint >>> 12) &&& 0x3F)),
      UInt8.ofNat (0x80 ||| ((codepoint >>> 6) &&& 0x3F)),
      UInt8.ofNat (0x80 ||| (codepoint &&& 0x3F))]

/-- `storage_lfn_append_utf8`. -/
def appendUtf8 (output : List UInt8) (capacity codepoint : Nat) : Except Err (List UInt8) :=
  if 0x10FFFF < codepoint ∨ (0xD800 ≤ codepoint ∧ codepoint ≤ 0xDFFF) then .error .invalid
  else if capacity < output.length + (utf8Bytes codepoint).length + 1 then .error .overflow
  else .ok (output ++ utf8Bytes codepoint)

/-- The codepoint that starts at unit `index`, and the index of its last unit. -/
def lfnCodepoint (lfn : Lfn) (index : Nat) : Except Err (Nat × Nat) :=
  let unit := lfn.units index
  if 0xD800 ≤ unit ∧ unit ≤ 0xDBFF then
    let low := lfn.units (index + 1)
    if lfn.highestUnit ≤ index + 1 ∨ low < 0xDC00 ∨ 0xDFFF < low then .error .invalid
    else .ok (0x10000 + ((unit - 0xD800) <<< 10) + (low - 0xDC00), index + 1)
  else .ok (unit, index)

/-- The loop of `storage_lfn_to_utf8` from unit `index` on. -/
def lfnUtf8Loop (lfn : Lfn) (capacity : Nat) : Nat → Nat → List UInt8 → Except Err (List UInt8)
  | 0, _, output => .ok output
  | rounds + 1, index, output =>
    let unit := lfn.units index
    if lfn.highestUnit ≤ index ∨ unit = 0 ∨ unit = 0xFFFF then .ok output
    else
      match lfnCodepoint lfn index with
      | .error e => .error e
      | .ok (codepoint, last) =>
        match appendUtf8 output capacity codepoint with
        | .ok output => lfnUtf8Loop lfn capacity rounds (last + 1) output
        | .error _ => .error .invalid

/-- `storage_lfn_to_utf8`. -/
def lfnToUtf8 (lfn : Lfn) (capacity : Nat) : Except Err (List UInt8) := do
  let output ← lfnUtf8Loop lfn capacity lfn.highestUnit 0 []
  if output = [] then .error .invalid else .ok output

/-! ### Entries -/

/-- `storage_long_raw_entry_t`. -/
structure LongEntry where
  name : List UInt8
  shortName : List UInt8
  attributes : UInt8
  firstCluster : Nat
  size : Nat
  entryOffset : Nat
  lfnOffset : Nat
  lfnOffsets : List Nat
  deriving DecidableEq

/-- The `STORAGE_ATTR_DIRECTORY` bit. -/
def LongEntry.isDirectory (e : LongEntry) : Bool := e.attributes &&& 0x10 != 0

/-- The short name of a slot as text: the characters up to the first blank of the base,
and of the extension when there is one. A zero byte adds nothing to the string. -/
def shortText (source : Nat → UInt8) : List UInt8 :=
  let part := fun first count =>
    (((List.range count).map fun k => source (first + k)).takeWhile (· != 32)).filter (· != 0)
  part 0 8 ++ if source 8 = 32 then [] else 46 :: part 8 3

/-- `storage_long_parse_entry`, with `storage_parse_raw_entry`. -/
def longParseEntry (mnt : Mount) (source : Nat → UInt8) (offset : Nat) (lfn : Lfn) : LongEntry :=
  { name := match lfnToUtf8 lfn 256 with
      | .ok name => name
      | .error _ => shortText source
    shortName := shortText source
    attributes := source 11
    firstCluster :=
      if mnt.fsType = .fat32 then read16 source 26 ||| (read16 source 20 <<< 16)
      else read16 source 26
    size := read32 source 28
    entryOffset := offset
    lfnOffset := if lfn.active then lfn.offset else offset
    lfnOffsets := if lfn.active then lfn.offsets else [] }

/-! ### The strict reader -/

/-- A long-name slot in `storage_visit_long_sector`. -/
def lfnSlot (lfn : Lfn) (source : Nat → UInt8) (offset : Nat) : Except Err Lfn :=
  let sequence := (source 0 &&& 0x1F).toNat
  let last := source 0 &&& 0x40 != 0
  if sequence = 0 ∨ 20 < sequence ∨ (last = false ∧
      (lfn.active = false ∨ lfn.expectedSequence ≠ sequence ∨ lfn.checksum ≠ source 13)) then
    .error .invalid
  else
    let lfn : Lfn := if last then ⟨fun _ => 0, true, sequence, source 13, 0, offset, []⟩ else lfn
    if 20 ≤ lfn.offsets.length then .error .overflow
    else
      .ok { Lfn.copyUnits lfn source with
            offsets := lfn.offsets ++ [offset]
            expectedSequence := lfn.expectedSequence - 1 }

/-- A short entry in `storage_visit_long_sector`: the group before it must belong to it
and decode. -/
def shortSlot (mnt : Mount) (lfn : Lfn) (source : Nat → UInt8) (offset : Nat) :
    Except Err LongEntry :=
  if lfn.active then
    if lfn.expectedSequence ≠ 0 ∨ lfn.checksum ≠ lfnChecksum source then .error .invalid
    else
      match lfnToUtf8 lfn 256 with
      | .error _ => .error .invalid
      | .ok _ => .ok (longParseEntry mnt source offset lfn)
  else .ok (longParseEntry mnt source offset Lfn.reset)

/-- What one slot is to the reader. -/
inductive SlotResult where
  | finish
  | skip (lfn : Lfn)
  | entry (e : LongEntry)

/-- One round of the loop of `storage_visit_long_sector`, up to the call of the visitor. -/
def readSlot (mnt : Mount) (lfn : Lfn) (source : Nat → UInt8) (offset : Nat) :
    Except Err SlotResult :=
  if source 0 = 0 then .ok .finish
  else if source 0 = 0xE5 then .ok (.skip Lfn.reset)
  else if source 11 = 0x0F then (lfnSlot lfn source offset).map .skip
  else if source 11 &&& 0x08 != 0 then .ok (.skip Lfn.reset)
  else (shortSlot mnt lfn source offset).map .entry

section Visit

variable {σ : Type} (mnt : Mount) (visitor : LongEntry → σ → Except Err σ)

/-- The loop over slots; the last component says whether the end marker was met. -/
def visitSlots : List (Nat × (Nat → UInt8)) → Lfn → σ → Except Err (Lfn × σ × Bool)
  | [], lfn, context => .ok (lfn, context, false)
  | (offset, source) :: slots, lfn, context => do
    match ← readSlot mnt lfn source offset with
    | .finish => .ok (lfn, context, true)
    | .skip lfn => visitSlots slots lfn context
    | .entry e => visitSlots slots Lfn.reset (← visitor e context)

/-- The sixteen slots of a sector, each with its offset on the disk. -/
def sectorSlots (sector : Sector) (base : Nat) : List (Nat × (Nat → UInt8)) :=
  (List.range 16).map fun k => (base + 32 * k, fun j => Sector.byte sector (32 * k + j))

/-- `storage_visit_long_sector`. -/
def visitLongSector (sector : Sector) (base : Nat) : Lfn → σ → Except Err (Lfn × σ × Bool) :=
  visitSlots mnt visitor (sectorSlots sector base)

/-- The 32-bit disk offset of a sector of the volume. -/
def sectorOffset (vol : Volume) (lba : Nat) : Nat := u32 (512 * (vol.startLba + lba))

/-- `count` sectors of a directory from `lba` on, until the end marker. -/
def visitSectors (read : Nat → Except Err Sector) (vol : Volume) (lba : Nat) :
    Nat → Lfn → σ → Except Err (Lfn × σ × Bool)
  | 0, lfn, context => .ok (lfn, context, false)
  | count + 1, lfn, context => do
    let sector ← readRelative read vol lba
    match ← visitLongSector mnt visitor sector (sectorOffset vol lba) lfn context with
    | (lfn, context, true) => .ok (lfn, context, true)
    | (lfn, context, false) => visitSectors read vol (lba + 1) count lfn context

end Visit

/-- The first sector of a cluster. On the geometry of a parsed boot sector every cluster ends
inside the volume, so the checked sums of the source do not overflow. -/
def clusterLba (mnt : Mount) (cluster : Nat) : Nat :=
  mnt.dataStart + (cluster - 2) * mnt.sectorsPerCluster

end ZephyrOS.Storage
