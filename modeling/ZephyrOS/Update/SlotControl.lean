import ZephyrOS.Core.Crypto
import ZephyrOS.Lib.Outcome
import ZephyrOS.Lib.Records
import ZephyrOS.Update.Version

/-!
# Two readers of the slot control

The kernel (`update_system_slots.c`) and the recovery loader (`recovery_loader.c`) read the
same control file of 512 bytes, each with its own reads and checks. They ask for the same of the
control as a whole. They differ on the records of the two slots, where the loader asks for
more, and on the flags of a control of the first format, which the loader does not look at.
Where both accept, the fields are the same and the loader's view of a record is what the kernel
made of it.
-/

namespace ZephyrOS.SlotControl

open Lib List
open Update (Version)

def slotNone : UInt8 := 0xFF
def headerSize : Nat := 1024
def slotMaxFileSize : Nat := headerSize + 8 * 1024 * 1024
def magic : List UInt8 := [90, 83, 73, 49]

/-- `update_system_slot_file_state_t`; no control holds the last one. -/
inductive FileState where
  | empty | valid | invalid
  deriving DecidableEq, Repr

/-- `update_system_slot_info_t`. -/
structure SlotInfo where
  state : FileState
  version : Version
  epoch : Nat
  size : Nat
  fileHash : Digest
  releaseId : List UInt8
  releaseTag : List UInt8

/-- `system_slots_state_t`. -/
structure SlotsState where
  sequence : Nat
  activeSlot : UInt8
  pendingSlot : UInt8
  flags : UInt8
  previousSlot : UInt8
  attemptSlot : UInt8
  bootState : UInt8
  bootReason : Nat
  bootAttemptSequence : Nat
  slots : UInt8 → SlotInfo

/-- `recovery_state_t`; where the file is on the volume is left out. -/
structure RecoveryState where
  sequence : Nat
  attemptSequence : Nat
  version : Nat
  reason : Nat
  active : UInt8
  pending : UInt8
  flags : UInt8
  previous : UInt8
  attempt : UInt8
  bootState : UInt8
  raw : Nat → UInt8

/-- Where the record of a slot starts. -/
def slotOffset (slot : UInt8) : Nat := 32 + slot.toNat * 176

/-! ### The kernel -/

/-- The text of a field of 64 bytes. -/
def textAt (raw : Nat → UInt8) (offset : Nat) : List UInt8 := textOf (slice raw offset 64)

/-- `system_slots_copy_fixed_text`. -/
def copyFixedText (raw : Nat → UInt8) (offset : Nat) : Except Err (List UInt8) :=
  if 64 ≤ (textAt raw offset).length then .error .overflow
  else if (textAt raw offset).any fun b => b < 0x20 || 0x7E < b then .error .invalid
  else if !clean (slice raw offset 64) then .error .invalid
  else .ok (textAt raw offset)

/-- `system_slots_decode_info`. -/
def decodeInfo (raw : Nat → UInt8) (offset : Nat) : Except Err SlotInfo :=
  if 1 < raw offset ∨ raw (offset + 1) ≠ 0 then .error .invalid
  else do
    let releaseId ← copyFixedText raw (offset + 48)
    let releaseTag ← copyFixedText raw (offset + 112)
    let epoch := read32 raw (offset + 8)
    let size := read32 raw (offset + 12)
    if raw offset = 0 ∧ (size ≠ 0 ∨ epoch ≠ 0 ∨ raw (offset + 16) ≠ 0 ∨ releaseId ≠ []
        ∨ releaseTag ≠ []) then .error .invalid
    else if raw offset = 1 ∧ (size = 0 ∨ releaseId = [] ∨ releaseTag = []) then .error .invalid
    else
      .ok ⟨if raw offset = 0 then .empty else .valid,
        ⟨read16 raw (offset + 2), read16 raw (offset + 4), read16 raw (offset + 6)⟩, epoch, size,
        vectorAt raw (offset + 16) 32, releaseId, releaseTag⟩

/-- The fields that `system_slots_decode_state` reads. -/
def SlotsState.read (raw : Nat → UInt8) (slots : UInt8 → SlotInfo) : SlotsState :=
  let current := read16 raw 4 = 2
  { sequence := read32 raw 8, activeSlot := raw 12, pendingSlot := raw 13, flags := raw 14
    previousSlot := if current then raw 15 else raw 12
    attemptSlot := if current then raw 16 else slotNone
    bootState := if current then raw 17 else 0
    bootReason := if current then read16 raw 18 else 0
    bootAttemptSequence := if current then read32 raw 20 else 0
    slots }

/-- Its checks on the fields it has read. -/
def SlotsState.consistent (s : SlotsState) : Bool :=
  (s.slots s.activeSlot).state == .valid
    && (s.pendingSlot == slotNone || (s.slots s.pendingSlot).state == .valid)
    && s.pendingSlot != s.activeSlot
    && !(s.bootState == 0 && (s.attemptSlot != slotNone || s.bootAttemptSequence != 0))
    && !(s.bootState != 0 && (2 ≤ s.attemptSlot || s.bootAttemptSequence == 0 || 2 ≤ s.previousSlot
      || 2 < s.bootAttemptSequence))

/-- `system_slots_decode_state`. -/
def decodeState (crypto : Crypto) (raw : Nat → UInt8) : Except Err SlotsState :=
  let version := read16 raw 4
  if slice raw 0 4 ≠ magic ∨ read16 raw 6 ≠ 512 ∨ read32 raw 8 = 0 ∨ 2 ≤ raw 12
      ∨ (raw 13 ≠ slotNone ∧ 2 ≤ raw 13) ∨ raw 14 &&& 0xFE ≠ 0 then .error .invalid
  else if version ≠ 1 ∧ version ≠ 2 then .error .invalid
  else if crypto.sha256 (slice raw 0 480) ≠ vectorAt raw 480 32 then .error .invalid
  else if (version = 1 ∧ !zeros raw 15 17)
      ∨ (version = 2 ∧ (!zeros raw 24 8 ∨ 2 ≤ raw 15 ∨ (raw 16 ≠ slotNone ∧ 2 ≤ raw 16)
        ∨ 2 < raw 17 ∨ 14 < read16 raw 18))
      ∨ !zeros raw 384 96 then .error .invalid
  else do
    let first ← decodeInfo raw (slotOffset 0)
    let second ← decodeInfo raw (slotOffset 1)
    let s := SlotsState.read raw fun slot => if slot = 0 then first else second
    if s.consistent then .ok s else .error .invalid

/-- `system_slots_load_state_locked`: the valid control with the larger sequence number, the
first one when there are two. A file that is not there or has another size is `none`. -/
def loadState (crypto : Crypto) (first second : Option (Nat → UInt8)) : Option SlotsState :=
  match first.bind fun raw => (decodeState crypto raw).toOption,
      second.bind fun raw => (decodeState crypto raw).toOption with
  | some s, some s' => if s.sequence < s'.sequence then some s' else some s
  | some s, none => some s
  | none, other => other

/-! ### The loader -/

/-- The alphabet of `recovery_identifier_valid`. -/
def identifierByte (b : UInt8) : Bool :=
  (65 ≤ b && b ≤ 90) || (97 ≤ b && b ≤ 122) || (48 ≤ b && b ≤ 57) || b == 46 || b == 95 || b == 45

/-- `recovery_identifier_valid`, for a field of 64 bytes. -/
def identifierValid (raw : Nat → UInt8) (offset : Nat) : Bool :=
  (textAt raw offset).all identifierByte && textAt raw offset != [] && (textAt raw offset).length != 64
    && clean (slice raw offset 64)

/-- `recovery_state_slot_record_valid`. -/
def slotRecordValid (raw : Nat → UInt8) (offset : Nat) : Bool :=
  raw offset ≤ 1 && raw (offset + 1) == 0
    && if raw offset = 0 then zeros raw (offset + 1) 175
      else
        let size := read32 raw (offset + 12)
        headerSize < size && size ≤ slotMaxFileSize && !zeros raw (offset + 16) 32
          && identifierValid raw (offset + 48) && identifierValid raw (offset + 112)

/-- The fields that `recovery_load_state` sets. -/
def RecoveryState.read (raw : Nat → UInt8) : RecoveryState :=
  let version := read16 raw 4
  { sequence := read32 raw 8, version, active := raw 12, pending := raw 13, flags := raw 14
    previous := if version = 2 then raw 15 else raw 12
    attempt := if version = 2 then raw 16 else slotNone
    bootState := if version = 2 then raw 17 else 0
    reason := if version = 2 then read16 raw 18 else 0
    attemptSequence := if version = 2 then read32 raw 20 else 0
    raw }

/-- `recovery_load_state`, once the file is read. -/
def recoveryLoadState (crypto : Crypto) (raw : Nat → UInt8) : Option RecoveryState :=
  let version := read16 raw 4
  if slice raw 0 4 ≠ magic ∨ (version ≠ 1 ∧ version ≠ 2) ∨ read16 raw 6 ≠ 512
      ∨ crypto.sha256 (slice raw 0 480) ≠ vectorAt raw 480 32 then none
  else
    let s := RecoveryState.read raw
    let valid := s.sequence != 0 && s.active < 2 && (s.pending == slotNone || s.pending < 2)
      && s.pending != s.active && slotRecordValid raw (slotOffset 0)
      && slotRecordValid raw (slotOffset 1) && zeros raw 384 96 && raw (slotOffset s.active) == 1
      && (s.pending == slotNone || raw (slotOffset s.pending) == 1)
    let valid := if version = 1 then valid && zeros raw 15 17 else valid
    let valid := if version = 2 then
        valid && raw 14 &&& 0xFE == 0 && raw 15 < 2 && (raw 16 == slotNone || raw 16 < 2)
          && raw 17 ≤ 2 && read16 raw 18 ≤ 14 && zeros raw 24 8
          && ((raw 17 == 0 && raw 16 == slotNone && read32 raw 20 == 0)
            || (raw 17 != 0 && raw 16 < 2 && raw 15 < 2 && read32 raw 20 != 0
              && read32 raw 20 ≤ 2))
      else valid
    if valid then some s else none

/-- `recovery_slot_record`: the bytes from where the record starts. -/
def recoverySlotRecord (s : RecoveryState) (slot : UInt8) : Option (Nat → UInt8) :=
  if 2 ≤ slot then none else some fun i => s.raw (slotOffset slot + i)

/-- `recovery_controls_load`: two controls with one sequence number must be the same. -/
def recoveryControlsLoad (crypto : Crypto) (first second : Option (Nat → UInt8)) :
    Option RecoveryState :=
  match first.bind (recoveryLoadState crypto), second.bind (recoveryLoadState crypto) with
  | some s, some s' =>
    if s.sequence = s'.sequence ∧ slice s.raw 0 512 ≠ slice s'.raw 0 512 then none
    else if s'.sequence ≤ s.sequence then some s else some s'
  | some s, none => some s
  | none, other => other

/-! ### Records -/

variable {raw : Nat → UInt8} {offset : Nat} {b : UInt8} {crypto : Crypto}

theorem eq_one_of_le (h : b ≤ 1) (h0 : b ≠ 0) : b = 1 := by
  simp only [UInt8.le_iff_toNat_le, ne_eq, ← UInt8.toNat_inj, UInt8.reduceToNat] at *
  omega

theorem zeros_add (m n : Nat) :
    zeros raw offset (m + n) = (zeros raw offset m && zeros raw (offset + m) n) := by
  simp only [zeros, slice, range_add, map_append, all_append, map_map]
  congr 3
  funext i
  simp [add_assoc]

theorem zeros_one : zeros raw offset 1 = (raw offset == 0) := by simp [zeros, slice]

theorem read32_eq_zero_iff : read32 raw offset = 0 ↔ zeros raw offset 4 = true := by
  simp only [read32_eq, read16_eq, add_assoc]
  simp [zeros, slice, range_succ, ← UInt8.toNat_inj]

/-- The field holds a printable text, and zeros after it. -/
def Text (raw : Nat → UInt8) (offset : Nat) : Prop :=
  (textAt raw offset).length < 64 ∧ clean (slice raw offset 64) = true
    ∧ ∀ b ∈ textAt raw offset, 0x20 ≤ b ∧ b ≤ 0x7E

theorem copyFixedText_ok_iff {text : List UInt8} : copyFixedText raw offset = .ok text
    ↔ Text raw offset ∧ text = textAt raw offset := by
  unfold copyFixedText Text
  simp only [ite_error_eq_ok, Except.ok.injEq]
  constructor
  · rintro ⟨hlen, hprint, hclean, rfl⟩
    simp_all
  · simp_all

/-- A field without text that holds nothing after it holds nothing. -/
theorem text_nil_iff : Text raw offset ∧ textAt raw offset = [] ↔ zeros raw offset 64 = true := by
  unfold Text textAt clean zeros
  generalize slice raw offset 64 = field
  constructor
  · rintro ⟨h, hnil⟩
    rw [hnil] at h
    exact h.2.1
  · intro h
    have htext : textOf field = [] := by
      cases field with
      | nil => rfl
      | cons b field => simp_all [textOf]
    rw [htext]
    exact ⟨⟨by decide, h, nofun⟩, rfl⟩

theorem identifierByte_printable (h : identifierByte b = true) : 0x20 ≤ b ∧ b ≤ 0x7E := by
  simp [identifierByte, UInt8.le_iff_toNat_le, ← UInt8.toNat_inj] at h ⊢
  omega

/-- What the kernel asks of a record. -/
def Plain (raw : Nat → UInt8) (offset : Nat) : Prop :=
  raw offset ≤ 1 ∧ raw (offset + 1) = 0 ∧ Text raw (offset + 48) ∧ Text raw (offset + 112)
    ∧ if raw offset = 0 then read32 raw (offset + 12) = 0 ∧ read32 raw (offset + 8) = 0
        ∧ raw (offset + 16) = 0 ∧ textAt raw (offset + 48) = [] ∧ textAt raw (offset + 112) = []
      else read32 raw (offset + 12) ≠ 0 ∧ textAt raw (offset + 48) ≠ [] ∧ textAt raw (offset + 112) ≠ []

/-- What the loader asks in addition: an empty one has no version and no hash, any other has a size
within limits, a hash, and identifiers of its alphabet. -/
def Strict (raw : Nat → UInt8) (offset : Nat) : Prop :=
  if raw offset = 0 then zeros raw (offset + 2) 6 = true ∧ zeros raw (offset + 17) 31 = true
  else headerSize < read32 raw (offset + 12) ∧ read32 raw (offset + 12) ≤ slotMaxFileSize
    ∧ zeros raw (offset + 16) 32 = false
    ∧ (∀ b ∈ textAt raw (offset + 48), identifierByte b = true)
    ∧ ∀ b ∈ textAt raw (offset + 112), identifierByte b = true

/-- What the kernel makes of a record. -/
def infoAt (raw : Nat → UInt8) (offset : Nat) : SlotInfo :=
  ⟨if raw offset = 0 then .empty else .valid,
    ⟨read16 raw (offset + 2), read16 raw (offset + 4), read16 raw (offset + 6)⟩,
    read32 raw (offset + 8), read32 raw (offset + 12), vectorAt raw (offset + 16) 32,
    textAt raw (offset + 48), textAt raw (offset + 112)⟩

theorem decodeInfo_ok_iff {info : SlotInfo} : decodeInfo raw offset = .ok info
    ↔ Plain raw offset ∧ info = infoAt raw offset := by
  unfold decodeInfo
  simp only [ite_error_eq_ok, bind_eq_ok, copyFixedText_ok_iff, not_or, not_and, UInt8.not_lt, ne_eq,
    not_not, Except.ok.injEq]
  constructor
  · rintro ⟨⟨hstate, hpad⟩, _, ⟨hid, rfl⟩, _, ⟨htag, rfl⟩, hempty, hvalid, rfl⟩
    refine ⟨⟨hstate, hpad, hid, htag, ?_⟩, rfl⟩
    split_ifs with h0
    · exact hempty h0
    · exact hvalid (eq_one_of_le hstate h0)
  · rintro ⟨⟨hstate, hpad, hid, htag, hrest⟩, rfl⟩
    refine ⟨⟨hstate, hpad⟩, _, ⟨hid, rfl⟩, _, ⟨htag, rfl⟩, fun h0 => ?_, fun h1 => ?_, rfl⟩
    · rwa [if_pos h0] at hrest
    · rwa [if_neg (by rw [h1]; decide)] at hrest

/-- The loader accepts an identifier when the kernel does, it is not empty and its alphabet is
right. -/
theorem identifierValid_iff : identifierValid raw offset = true
    ↔ Text raw offset ∧ textAt raw offset ≠ [] ∧ ∀ b ∈ textAt raw offset, identifierByte b = true := by
  have hle : (textAt raw offset).length ≤ 64 := by
    have := (takeWhile_sublist (fun b => b != 0) (l := slice raw offset 64)).length_le
    rwa [length_slice] at this
  simp only [identifierValid, Text, Bool.and_eq_true, all_eq_true, bne_iff_ne]
  constructor
  · rintro ⟨⟨⟨halphabet, hne⟩, hlen⟩, hclean⟩
    exact ⟨⟨by omega, hclean, fun b hb => identifierByte_printable (halphabet b hb)⟩, hne, halphabet⟩
  · rintro ⟨⟨hlen, hclean, -⟩, hne, halphabet⟩
    exact ⟨⟨⟨halphabet, hne⟩, by omega⟩, hclean⟩

theorem slotRecordValid_iff : slotRecordValid raw offset = true
    ↔ Plain raw offset ∧ Strict raw offset := by
  rw [Plain, Strict, slotRecordValid]
  simp only [Bool.and_eq_true, decide_eq_true_eq, beq_iff_eq]
  by_cases h0 : raw offset = 0
  -- the loader's one run of zeros, cut at the fields the kernel looks at
  · have hsplit : zeros raw (offset + 1) 175 = true ↔ raw (offset + 1) = 0
        ∧ zeros raw (offset + 2) 6 = true ∧ read32 raw (offset + 8) = 0
        ∧ read32 raw (offset + 12) = 0 ∧ raw (offset + 16) = 0 ∧ zeros raw (offset + 17) 31 = true
        ∧ zeros raw (offset + 48) 64 = true ∧ zeros raw (offset + 112) 64 = true := by
      rw [show 175 = 1 + (6 + (4 + (4 + (1 + (31 + (64 + 64)))))) from rfl, zeros_add, zeros_add,
        zeros_add, zeros_add, zeros_add, zeros_add, zeros_add]
      simp only [Bool.and_eq_true, read32_eq_zero_iff, zeros_one, beq_iff_eq, add_assoc,
        Nat.reduceAdd]
    simp only [if_pos h0, hsplit, ← text_nil_iff]
    tauto
  · simp only [if_neg h0, Bool.and_eq_true, decide_eq_true_eq, Bool.not_eq_true', identifierValid_iff]
    constructor
    · rintro ⟨hhead, ⟨⟨⟨hlow, hhigh⟩, hhash⟩, hid, hidne, hidletters⟩, htag, htagne, htagletters⟩
      exact ⟨⟨hhead.1, hhead.2, hid, htag, by omega, hidne, htagne⟩, hlow, hhigh, hhash,
        hidletters, htagletters⟩
    · tauto

/-- The record, as the loader reads it, is what the kernel holds. -/
structure Matches (info : SlotInfo) (record : Nat → UInt8) : Prop where
  state : record 0 = if info.state = .valid then 1 else 0
  version : info.version = ⟨read16 record 2, read16 record 4, read16 record 6⟩
  epoch : info.epoch = read32 record 8
  size : info.size = read32 record 12
  fileHash : info.fileHash = vectorAt record 16 32
  releaseId : padded 64 info.releaseId = slice record 48 64
  releaseTag : padded 64 info.releaseTag = slice record 112 64

theorem Plain.state_valid_iff (h : Plain raw offset) : (infoAt raw offset).state = .valid ↔ raw offset = 1 := by
  by_cases h0 : raw offset = 0
  · simp [infoAt, h0]
  · simp [infoAt, eq_one_of_le h.1 h0]

theorem Text.padded_textAt (h : Text raw offset) : padded 64 (textAt raw offset) = slice raw offset 64 := by
  have hpadded := padded_textOf h.2.1
  rwa [length_slice] at hpadded

theorem Plain.matches (h : Plain raw offset) : Matches (infoAt raw offset) fun i => raw (offset + i) where
  state := by
    have hvalid := h.state_valid_iff
    by_cases h0 : raw offset = 0
    · simp [infoAt, h0]
    · simp [hvalid.mpr (eq_one_of_le h.1 h0), eq_one_of_le h.1 h0]
  version := rfl
  epoch := rfl
  size := rfl
  fileHash := by simp [infoAt, vectorAt, add_assoc]
  releaseId := by
    rw [infoAt, h.2.2.1.padded_textAt]
    simp [slice, add_assoc]
  releaseTag := by
    rw [infoAt, h.2.2.2.1.padded_textAt]
    simp [slice, add_assoc]

/-! ### Controls -/

/-- What both ask of a control, its records and the flags of the first format apart. -/
def Shared (crypto : Crypto) (raw : Nat → UInt8) : Prop :=
  slice raw 0 4 = magic ∧ (read16 raw 4 = 1 ∨ read16 raw 4 = 2) ∧ read16 raw 6 = 512
    ∧ crypto.sha256 (slice raw 0 480) = vectorAt raw 480 32 ∧ read32 raw 8 ≠ 0 ∧ raw 12 < 2
    ∧ (raw 13 = slotNone ∨ raw 13 < 2) ∧ raw 13 ≠ raw 12 ∧ zeros raw 384 96 = true
    ∧ raw (slotOffset (raw 12)) = 1 ∧ (raw 13 = slotNone ∨ raw (slotOffset (raw 13)) = 1)
    ∧ (read16 raw 4 = 1 → zeros raw 15 17 = true)
    ∧ (read16 raw 4 = 2 → zeros raw 24 8 = true ∧ raw 15 < 2 ∧ (raw 16 = slotNone ∨ raw 16 < 2)
      ∧ raw 17 ≤ 2 ∧ read16 raw 18 ≤ 14
      ∧ (raw 17 = 0 ∧ raw 16 = slotNone ∧ read32 raw 20 = 0
        ∨ raw 17 ≠ 0 ∧ raw 16 < 2 ∧ read32 raw 20 ≠ 0 ∧ read32 raw 20 ≤ 2))

theorem recoveryLoadState_some_iff {r : RecoveryState} : recoveryLoadState crypto raw = some r
    ↔ Shared crypto raw ∧ (read16 raw 4 = 2 → raw 14 &&& 0xFE = 0)
      ∧ slotRecordValid raw (slotOffset 0) = true ∧ slotRecordValid raw (slotOffset 1) = true
      ∧ r = RecoveryState.read raw := by
  simp only [recoveryLoadState, Shared]
  -- each format has its own reserved bytes, and no other is accepted
  by_cases h1 : read16 raw 4 = 1
  · simp [h1, RecoveryState.read]
    grind
  · by_cases h2 : read16 raw 4 = 2
    · simp [h2, RecoveryState.read]
      grind
    · simp [h1, h2]

/-- What the kernel makes of the two records. -/
def infosOf (raw : Nat → UInt8) (slot : UInt8) : SlotInfo :=
  if slot = 0 then infoAt raw (slotOffset 0) else infoAt raw (slotOffset 1)

section

variable (hfirst : Plain raw (slotOffset 0)) (hsecond : Plain raw (slotOffset 1))
include hfirst hsecond

theorem infosOf_eq {slot : UInt8} (hslot : slot < 2) :
    infosOf raw slot = infoAt raw (slotOffset slot) ∧ Plain raw (slotOffset slot) := by
  by_cases h0 : slot = 0
  · rw [h0]
    exact ⟨rfl, hfirst⟩
  · have hle : slot ≤ 1 :=
      UInt8.le_iff_toNat_le.mpr (Nat.lt_succ_iff.mp (UInt8.lt_iff_toNat_lt.mp hslot))
    rw [eq_one_of_le hle h0]
    exact ⟨rfl, hsecond⟩

/-- The kernel's last checks. The records hold the states of the slots, and a control of the
first format has no boot attempt. -/
theorem consistent_iff (hactive : raw 12 < 2)
    (hpending : raw 13 = slotNone ∨ raw 13 < 2) (hprevious : read16 raw 4 = 2 → raw 15 < 2) :
    (SlotsState.read raw (infosOf raw)).consistent = true
      ↔ raw 13 ≠ raw 12 ∧ raw (slotOffset (raw 12)) = 1
        ∧ (raw 13 = slotNone ∨ raw (slotOffset (raw 13)) = 1)
        ∧ (read16 raw 4 = 2 → raw 17 = 0 ∧ raw 16 = slotNone ∧ read32 raw 20 = 0
          ∨ raw 17 ≠ 0 ∧ raw 16 < 2 ∧ read32 raw 20 ≠ 0 ∧ read32 raw 20 ≤ 2) := by
  have hvalid : ∀ slot, slot < 2 → ((infosOf raw slot).state = .valid ↔ raw (slotOffset slot) = 1) := by
    intro slot hslot
    obtain ⟨heq, hplain⟩ := infosOf_eq hfirst hsecond hslot
    rw [heq, hplain.state_valid_iff]
  have h12 := hvalid _ hactive
  have h13 : raw 13 = slotNone ∨ _ := hpending.imp_right (hvalid _)
  simp only [SlotsState.consistent, SlotsState.read]
  -- only the second format has a boot attempt
  by_cases h2 : read16 raw 4 = 2
  · grind
  · grind

end

theorem decodeState_ok_iff {s : SlotsState} : decodeState crypto raw = .ok s
    ↔ Shared crypto raw ∧ raw 14 &&& 0xFE = 0 ∧ Plain raw (slotOffset 0) ∧ Plain raw (slotOffset 1)
      ∧ s = SlotsState.read raw (infosOf raw) := by
  simp only [decodeState, ite_error_eq_ok, bind_eq_ok, decodeInfo_ok_iff, Shared]
  constructor
  · rintro ⟨h1, hversion, hhash, h4, _, ⟨hfirst, rfl⟩, _, ⟨hsecond, rfl⟩, h⟩
    split_ifs at h with hcons
    cases h
    have hlow : raw 12 < 2 ∧ (raw 13 = slotNone ∨ raw 13 < 2) ∧ (read16 raw 4 = 2 → raw 15 < 2) := by
      grind
    have hrest := (consistent_iff hfirst hsecond hlow.1 hlow.2.1 hlow.2.2).mp hcons
    refine ⟨?_, ?_, hfirst, hsecond, rfl⟩
    · grind
    · grind
  · rintro ⟨hshared, hflags, hfirst, hsecond, rfl⟩
    have hcons := (consistent_iff hfirst hsecond (by grind) (by grind) (by grind)).mpr (by grind)
    refine ⟨by grind, by grind, by grind, by grind, _, ⟨hfirst, rfl⟩, _, ⟨hsecond, rfl⟩, if_pos hcons⟩

/-! ### The two readers -/

/-- The two report the same. -/
structure Agree (s : SlotsState) (r : RecoveryState) : Prop where
  sequence : s.sequence = r.sequence
  active : s.activeSlot = r.active
  pending : s.pendingSlot = r.pending
  flags : s.flags = r.flags
  previous : s.previousSlot = r.previous
  attempt : s.attemptSlot = r.attempt
  bootState : s.bootState = r.bootState
  reason : s.bootReason = r.reason
  attemptSequence : s.bootAttemptSequence = r.attemptSequence
  records : ∀ slot < 2, ∃ record, recoverySlotRecord r slot = some record ∧ Matches (s.slots slot) record

/-- Wherever both accept. -/
theorem agree_of_both {s : SlotsState} {r : RecoveryState} (hs : decodeState crypto raw = .ok s)
    (hr : recoveryLoadState crypto raw = some r) : Agree s r := by
  obtain ⟨-, -, hfirst, hsecond, rfl⟩ := decodeState_ok_iff.mp hs
  obtain ⟨-, -, -, -, rfl⟩ := recoveryLoadState_some_iff.mp hr
  refine ⟨rfl, rfl, rfl, rfl, rfl, rfl, rfl, rfl, rfl, fun slot hslot => ?_⟩
  obtain ⟨heq, hplain⟩ := infosOf_eq hfirst hsecond hslot
  refine ⟨_, if_neg (UInt8.not_le.mpr hslot), ?_⟩
  show Matches (infosOf raw slot) _
  rw [heq]
  exact hplain.matches

/-- The kernel accepts the control. -/
def Accepted (crypto : Crypto) (raw : Nat → UInt8) : Prop := ∃ s, decodeState crypto raw = .ok s

/-- The loader takes the control for valid. -/
def Trusted (crypto : Crypto) (raw : Nat → UInt8) : Prop := ∃ r, recoveryLoadState crypto raw = some r

/-- The part that both ask for. -/
def Common (crypto : Crypto) (raw : Nat → UInt8) : Prop :=
  Shared crypto raw ∧ Plain raw (slotOffset 0) ∧ Plain raw (slotOffset 1)

/-- The loader's demands on the two records. -/
def RecordsStrict (raw : Nat → UInt8) : Prop := Strict raw (slotOffset 0) ∧ Strict raw (slotOffset 1)

/-- The bytes on which the verdicts differ: records that are good enough for the kernel only, or flags
of the first format that only the loader lets pass. -/
def Divergent (crypto : Crypto) (raw : Nat → UInt8) : Prop :=
  Common crypto raw ∧ (raw 14 &&& 0xFE = 0 ∧ ¬ RecordsStrict raw
    ∨ read16 raw 4 = 1 ∧ raw 14 &&& 0xFE ≠ 0 ∧ RecordsStrict raw)

theorem accepted_iff : Accepted crypto raw ↔ Common crypto raw ∧ raw 14 &&& 0xFE = 0 := by
  simp only [Accepted, Common, decodeState_ok_iff]
  constructor
  · rintro ⟨s, hshared, hflags, hfirst, hsecond, -⟩
    exact ⟨⟨hshared, hfirst, hsecond⟩, hflags⟩
  · rintro ⟨⟨hshared, hfirst, hsecond⟩, hflags⟩
    exact ⟨_, hshared, hflags, hfirst, hsecond, rfl⟩

theorem trusted_iff : Trusted crypto raw ↔ Common crypto raw
    ∧ (read16 raw 4 = 2 → raw 14 &&& 0xFE = 0) ∧ RecordsStrict raw := by
  simp only [Trusted, Common, recoveryLoadState_some_iff, slotRecordValid_iff, RecordsStrict]
  constructor
  · rintro ⟨r, hshared, hflags, ⟨hfirst, hstrict⟩, ⟨hsecond, hstrict'⟩, -⟩
    exact ⟨⟨hshared, hfirst, hsecond⟩, hflags, hstrict, hstrict'⟩
  · rintro ⟨⟨hshared, hfirst, hsecond⟩, hflags, hstrict, hstrict'⟩
    exact ⟨_, hshared, hflags, ⟨hfirst, hstrict⟩, ⟨hsecond, hstrict'⟩, rfl⟩

theorem verdicts_iff : (Accepted crypto raw ↔ Trusted crypto raw) ↔ ¬ Divergent crypto raw := by
  rw [accepted_iff, trusted_iff, Divergent]
  by_cases hcommon : Common crypto raw
  · have hversion := hcommon.1.2.1
    have hother : read16 raw 4 = 2 → read16 raw 4 ≠ 1 := by omega
    simp only [hcommon, true_and]
    tauto
  · simp [hcommon]

/-- Where the verdicts are the same, both accept the file or none does. -/
theorem both_or_none {file : Option (Nat → UInt8)}
    (h : ∀ raw, file = some raw → (Accepted crypto raw ↔ Trusted crypto raw)) :
    (∃ raw s r, file = some raw ∧ Accepted crypto raw
        ∧ (file.bind fun raw => (decodeState crypto raw).toOption) = some s
        ∧ file.bind (recoveryLoadState crypto) = some r ∧ Agree s r ∧ s.sequence = read32 raw 8
        ∧ r.raw = raw)
      ∨ (∀ raw, file = some raw → ¬ Accepted crypto raw)
        ∧ (file.bind fun raw => (decodeState crypto raw).toOption) = none
        ∧ file.bind (recoveryLoadState crypto) = none := by
  cases file with
  | none => exact .inr ⟨nofun, rfl, rfl⟩
  | some raw =>
    cases hs : decodeState crypto raw with
    | ok s =>
      obtain ⟨r, hr⟩ := (h raw rfl).mp ⟨s, hs⟩
      refine .inl ⟨raw, s, r, rfl, ⟨s, hs⟩, by simp [hs, Except.toOption], hr, agree_of_both hs hr, ?_, ?_⟩
      · rw [(decodeState_ok_iff.mp hs).2.2.2.2]
        rfl
      · rw [(recoveryLoadState_some_iff.mp hr).2.2.2.2]
        rfl
    | error e =>
      have hnot : ¬ Accepted crypto raw := by simp [Accepted, hs]
      refine .inr ⟨by rintro _ ⟨⟩; exact hnot, by simp [hs, Except.toOption], ?_⟩
      exact Option.eq_none_iff_forall_ne_some.mpr fun r hr => hnot ((h raw rfl).mpr ⟨r, hr⟩)

variable (crypto) in
/-- Two controls that the kernel accepts, with one sequence number and different bytes. -/
def Conflict (first second : Option (Nat → UInt8)) : Prop :=
  ∃ a b, first = some a ∧ second = some b ∧ (Common crypto a ∧ a 14 &&& 0xFE = 0)
    ∧ (Common crypto b ∧ b 14 &&& 0xFE = 0) ∧ read32 a 8 = read32 b 8 ∧ slice a 0 512 ≠ slice b 0 512

theorem Conflict.accepted {first second : Option (Nat → UInt8)} (h : Conflict crypto first second) :
    (∃ a, first = some a ∧ Accepted crypto a) ∧ ∃ b, second = some b ∧ Accepted crypto b :=
  let ⟨a, b, ha, hb, haccepted, haccepted', _⟩ := h
  ⟨⟨a, ha, accepted_iff.mpr haccepted⟩, b, hb, accepted_iff.mpr haccepted'⟩

/-- Of two controls on which the verdicts are the same, both take the same one. -/
theorem selection_iff {first second : Option (Nat → UInt8)}
    (h : ∀ raw, first = some raw ∨ second = some raw → (Accepted crypto raw ↔ Trusted crypto raw)) :
    Option.Rel Agree (loadState crypto first second) (recoveryControlsLoad crypto first second)
      ↔ ¬ Conflict crypto first second := by
  rw [loadState, recoveryControlsLoad]
  rcases both_or_none fun raw hraw => h raw (.inl hraw) with
    ⟨a, s, r, ha, haccepted, hs, hr, hagree, hsequence, rfl⟩ | ⟨hnone, hs, hr⟩
  · rcases both_or_none fun raw hraw => h raw (.inr hraw) with
      ⟨b, s', r', hb, haccepted', hs', hr', hagree', hsequence', rfl⟩ | ⟨hnone, hs', hr'⟩
    · -- Only here is there anything to choose.
      have hfirst := hagree.sequence
      have hsecond := hagree'.sequence
      rw [hs, hs', hr, hr']
      simp only [Conflict, ← accepted_iff, ha, hb, Option.some.injEq, ← hfirst, ← hsecond]
      split_ifs <;> simp_all
      omega
    · rw [hs, hs', hr, hr']
      refine iff_of_true (.some hagree) fun hconflict => ?_
      obtain ⟨-, b, hb, hbad⟩ := hconflict.accepted
      exact hnone b hb hbad
  · rw [hs, hr]
    refine iff_of_true ?_ fun hconflict => ?_
    · rcases both_or_none fun raw hraw => h raw (.inr hraw) with
        ⟨_, s', r', -, -, hs', hr', hagree', -⟩ | ⟨-, hs', hr'⟩
      · rw [hs', hr']
        exact .some hagree'
      · rw [hs', hr']
        exact .none
    · obtain ⟨⟨a, ha, hbad⟩, -⟩ := hconflict.accepted
      exact hnone a ha hbad

/-- **When the kernel and the loader agree on a control**, and what they then say. Their verdicts are
the same exactly when the bytes are not divergent, and where both accept they report the same fields and
records. Of two controls both take the same one, with the same verdicts on each, exactly when neither is
divergent and the two do not have one sequence number and different bytes. -/
theorem readers_agree_iff (crypto : Crypto) :
    (∀ raw, (Accepted crypto raw ↔ Trusted crypto raw) ↔ ¬ Divergent crypto raw)
    ∧ (∀ raw s r, decodeState crypto raw = .ok s → recoveryLoadState crypto raw = some r → Agree s r)
    ∧ ∀ first second,
      (∀ raw, first = some raw ∨ second = some raw → (Accepted crypto raw ↔ Trusted crypto raw))
          ∧ Option.Rel Agree (loadState crypto first second) (recoveryControlsLoad crypto first second)
        ↔ (∀ raw, first = some raw ∨ second = some raw → ¬ Divergent crypto raw)
          ∧ ¬ Conflict crypto first second := by
  refine ⟨fun raw => verdicts_iff, fun raw s r hs hr => agree_of_both hs hr, fun first second => ?_⟩
  simp only [← verdicts_iff]
  exact and_congr_right selection_iff

/-- The body of a control whose only slot holds a file of one byte. -/
def smallBody : Nat → UInt8
  | 0 => 90 | 1 => 83 | 2 => 73 | 3 => 49 | 4 => 2 | 7 => 2 | 8 => 1 | 13 => 255 | 16 => 255
  | 32 => 1 | 44 => 1 | 80 => 97 | 144 => 97
  | _ => 0

/-- That control, with the hash of its body. -/
def smallControl (crypto : Crypto) (i : Nat) : UInt8 :=
  if i < 480 then smallBody i else (crypto.sha256 (slice smallBody 0 480)).toList.getD (i - 480) 0

/-- The kernel reads it and the loader does not, whatever the hash function. -/
theorem smallControl_readers (crypto : Crypto) :
    Accepted crypto (smallControl crypto) ∧ ¬ Trusted crypto (smallControl crypto) := by
  have hcell : ∀ i, i < 480 → smallControl crypto i = smallBody i := fun i hi => if_pos hi
  have hslice : ∀ offset n, offset + n ≤ 480 →
      slice (smallControl crypto) offset n = slice smallBody offset n := by
    intro offset n hle
    refine map_congr_left fun i hi => hcell _ ?_
    have := mem_range.mp hi
    omega
  have hhash : vectorAt (smallControl crypto) 480 32 = crypto.sha256 (slice smallBody 0 480) := by
    apply Vector.ext
    simp [vectorAt, smallControl, getD_eq_getElem?_getD]
  constructor
  · refine accepted_iff.mpr ⟨⟨?_, ?_, ?_⟩, by rw [hcell 14 (by decide)]; decide⟩
    · have hnone : smallBody 13 = slotNone := rfl
      simp (disch := decide) only [Shared, zeros, read32_eq, read16_eq, hslice, hcell, hhash, hnone,
        true_and, true_or]
      decide +kernel
    all_goals
      simp (disch := decide) only [Plain, Text, textAt, read32_eq, read16_eq, hslice, hcell]
      decide +kernel
  · intro h
    have hsize := (trusted_iff.mp h).2.2.1.1
    simp [hcell, smallBody, slotOffset, read32_eq, read16_eq, headerSize] at hsize

/-- A hash that takes the first bytes. -/
def firstBytes : Crypto := ⟨fun bytes => .ofFn fun i => bytes.getD i 0, fun _ _ _ => true⟩

theorem smallControl_disagrees : Accepted firstBytes (smallControl firstBytes)
    ∧ ¬ Trusted firstBytes (smallControl firstBytes) := smallControl_readers firstBytes

end ZephyrOS.SlotControl
