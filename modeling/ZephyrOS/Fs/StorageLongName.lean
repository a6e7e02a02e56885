import Mathlib.Data.List.Forall2
import Mathlib.Data.List.TakeWhile
import ZephyrOS.Fs.StorageUtf
import ZephyrOS.Fs.StorageCheckWalk
import ZephyrOS.Lib.Records

/-!
# Long names written and read back

`storage_publish_fat32_entry` writes a file's entry as a group of slots: the units of its name,
thirteen to a slot and the last piece first, and then the short entry. Read back by
`storage_visit_long_sector` the group gives one entry with that name.

The reader takes the unit `0xFFFF` for padding, so a name with the character U+FFFF in it comes
back cut off there or not at all. It takes a short entry whose first byte is `0x00` or `0xE5`
for none, and one with the volume bit for a label.
-/

namespace ZephyrOS.Storage

open Lib List Nat

/-! ### Writing -/

/-- The unit at a position: past the end of the name one terminator and then padding. -/
def lfnUnit (units : List Nat) (unit : Nat) : Nat :=
  if unit < units.length then units.getD unit 0 else if unit = units.length then 0 else 0xFFFF

/-- `storage_build_lfn_entry`. -/
def buildLfnEntry (sequence : UInt8) (units : List Nat) (checksum : UInt8) : Nat → UInt8 := fun k =>
  let offset := ((sequence &&& 0x1F).toNat - 1) * 13
  if k = 0 then sequence
  else if k = 11 then 0x0F
  else if k = 13 then checksum
  else if k ∈ unitPositions then UInt8.ofNat (lfnUnit units (offset + unitPositions.idxOf k))
  else if k - 1 ∈ unitPositions then
    UInt8.ofNat (lfnUnit units (offset + unitPositions.idxOf (k - 1)) >>> 8)
  else 0xFF

/-- The short entry of `storage_publish_fat32_entry`. -/
def buildShortEntry (shortName : Nat → UInt8) (attributes : UInt8) (firstCluster size : Nat) :
    Nat → UInt8 := fun k =>
  if k < 11 then shortName k
  else if k = 11 then attributes
  else if k = 20 then UInt8.ofNat (firstCluster >>> 16)
  else if k = 21 then UInt8.ofNat (firstCluster >>> 24)
  else if k = 26 then UInt8.ofNat firstCluster
  else if k = 27 then UInt8.ofNat (firstCluster >>> 8)
  else if k = 28 then UInt8.ofNat size
  else if k = 29 then UInt8.ofNat (size >>> 8)
  else if k = 30 then UInt8.ofNat (size >>> 16)
  else if k = 31 then UInt8.ofNat (size >>> 24)
  else 0

/-- The loop of `storage_publish_fat32_entry` over the slots of the name, with `remaining` rounds
to go. -/
def lfnEntries (units : List Nat) (checksum : UInt8) (lfnCount : Nat) : Nat → List (Nat → UInt8)
  | 0 => []
  | remaining + 1 =>
    let sequence := UInt8.ofNat (remaining + 1)
    buildLfnEntry (if remaining + 1 = lfnCount then sequence ||| 0x40 else sequence) units checksum
      :: lfnEntries units checksum lfnCount remaining

/-- The number of slots for the units of a name. -/
def lfnCount (units : List Nat) : Nat := (units.length + 12) / 13

/-- The slots a file's entry is written to, in their order. -/
def entryGroup (units : List Nat) (short : Nat → UInt8) : List (Nat → UInt8) :=
  lfnEntries units (lfnChecksum short) (lfnCount units) (lfnCount units) ++ [short]

/-- The bytes of slots. -/
def slotBytes (slots : List (Nat → UInt8)) : List UInt8 :=
  slots.flatMap fun slot => (List.range 32).map slot

/-! ### Reading back -/

/-- `storage_visit_long_sector` for one sector after the other, until the end marker. -/
def visitSectorList {σ : Type} (mnt : Mount) (visitor : LongEntry → σ → Except Err σ) :
    List (Nat × Sector) → Lfn → σ → Except Err (Lfn × σ × Bool)
  | [], lfn, context => .ok (lfn, context, false)
  | (base, sector) :: sectors, lfn, context => do
    match ← visitLongSector mnt visitor sector base lfn context with
    | (lfn, context, true) => .ok (lfn, context, true)
    | (lfn, context, false) => visitSectorList mnt visitor sectors lfn context

/-- The sectors a byte sequence takes up, at the given disk offsets. What follows is zero. -/
def sectorsOf (bytes : List UInt8) (base : Nat → Nat) : List (Nat × Sector) :=
  (List.range ((bytes.length + 511) / 512)).map fun k => (base k, sectorOf (bufferOf bytes) (512 * k))

/-- The entries found in a byte sequence. -/
def readBack (mnt : Mount) (bytes : List UInt8) (base : Nat → Nat) : Except Err (List LongEntry) := do
  let (_, entries, _) ← visitSectorList mnt collect (sectorsOf bytes base) Lfn.reset []
  pure entries

/-! ### Slots by their bytes -/

/-- Nothing past the 32 bytes of a slot is looked at. -/
def SameSlot (source source' : Nat → UInt8) : Prop := ∀ j, j < 32 → source j = source' j

variable {source source' : Nat → UInt8} {σ : Type} {k i : Nat} {slots : List (Nat × (Nat → UInt8))}
  {mnt : Mount} {base : Nat → Nat} {bytes : List UInt8} {j offset : Nat} {c : Char}
  {seen : List LongEntry} {short : Nat → UInt8} {capacity index : Nat} {lfn : Lfn} {text : List Char}
  {output : List UInt8}

theorem SameSlot.read16 (h : SameSlot source source') (hk : k + 1 < 32) :
    read16 source k = read16 source' k := by
  unfold Lib.read16
  rw [h k (by omega), h (k + 1) hk]

theorem SameSlot.read32 (h : SameSlot source source') (hk : k + 3 < 32) :
    read32 source k = read32 source' k := by
  unfold Lib.read32
  rw [h.read16 (by omega), h.read16 (by omega)]

theorem unitPositions_lt (h : i < 13) : unitPositions.getD i 0 + 1 < 32 := by
  have : ∀ i : Fin 13, unitPositions.getD i 0 + 1 < 32 := by decide
  exact this ⟨i, h⟩

section

variable (h : SameSlot source source')
include h

theorem SameSlot.copyUnits (lfn : Lfn) :
    lfn.copyUnits source = lfn.copyUnits source' := by
  unfold Lfn.copyUnits
  rw [h 0 (by decide)]
  dsimp only
  congr 1
  funext target
  split
  · exact h.read16 (unitPositions_lt (by omega))
  · rfl

theorem SameSlot.lfnChecksum :
    lfnChecksum source = lfnChecksum source' := by
  apply foldl_ext
  intro sum k hk
  rw [h k (by have := mem_range.mp hk; omega)]

theorem SameSlot.shortText :
    shortText source = shortText source' := by
  have hpart : ∀ first count, first + count ≤ 32 →
      (range count).map (fun k => source (first + k))
        = (range count).map (fun k => source' (first + k)) := by
    intro first count hle
    apply map_congr_left
    intro k hk
    exact h _ (by have := mem_range.mp hk; omega)
  unfold Storage.shortText
  dsimp only
  rw [hpart 0 8 (by decide), hpart 8 3 (by decide), h 8 (by decide)]

theorem SameSlot.longParseEntry (mnt : Mount) (offset : Nat)
    (lfn : Lfn) :
    longParseEntry mnt source offset lfn = longParseEntry mnt source' offset lfn := by
  unfold Storage.longParseEntry
  rw [h.shortText, h 11 (by decide), h.read16 (by decide),
    h.read16 (by decide), h.read32 (by decide)]

theorem SameSlot.readSlot (mnt : Mount) (lfn : Lfn) (offset : Nat) :
    readSlot mnt lfn source offset = readSlot mnt lfn source' offset := by
  unfold Storage.readSlot lfnSlot shortSlot
  simp only [h 0 (by decide), h 11 (by decide), h 13 (by decide), h.copyUnits, h.lfnChecksum,
    h.longParseEntry]

end


theorem visitSlots_same (visitor : LongEntry → σ → Except Err σ)
    {slots' : List (Nat × (Nat → UInt8))}
    (h : List.Forall₂ (fun p p' => p.1 = p'.1 ∧ SameSlot p.2 p'.2) slots slots') (lfn : Lfn)
    (context : σ) :
    visitSlots mnt visitor slots lfn context = visitSlots mnt visitor slots' lfn context := by
  induction h generalizing lfn context with
  | nil => rfl
  | @cons p p' slots slots' hp _ ih =>
    rw [visitSlots, visitSlots, hp.1, hp.2.readSlot]
    simp only [ih]

theorem visitSlots_append (mnt : Mount) (visitor : LongEntry → σ → Except Err σ)
    (slots slots' : List (Nat × (Nat → UInt8))) (lfn : Lfn) (context : σ) :
    visitSlots mnt visitor (slots ++ slots') lfn context
      = (do
        match ← visitSlots mnt visitor slots lfn context with
        | (lfn, context, true) => .ok (lfn, context, true)
        | (lfn, context, false) => visitSlots mnt visitor slots' lfn context) := by
  induction slots generalizing lfn context with
  | nil => rfl
  | cons slot slots ih =>
    simp only [cons_append, visitSlots, bind_assoc]
    congr 1
    funext r
    cases r with
    | finish => rfl
    | skip lfn => exact ih lfn context
    | entry e => simp only [ih, bind_assoc]

/-- The slots of all the sectors, one after the other. -/
def allSlots (sectors : List (Nat × Sector)) : List (Nat × (Nat → UInt8)) :=
  sectors.flatMap fun p => sectorSlots p.2 p.1

theorem visitSectorList_eq (visitor : LongEntry → σ → Except Err σ)
    (sectors : List (Nat × Sector)) (lfn : Lfn) (context : σ) :
    visitSectorList mnt visitor sectors lfn context
      = visitSlots mnt visitor (allSlots sectors) lfn context := by
  induction sectors generalizing lfn context with
  | nil => rfl
  | cons p sectors ih =>
    rw [allSlots, flatMap_cons, visitSlots_append, visitSectorList]
    refine bind_congr fun r => ?_
    match r with
    | (_, _, true) => rfl
    | (l, c, false) => exact ih l c

/-! ### The slots of a byte sequence -/

theorem range_mul_sixteen (count : Nat) :
    (List.range count).flatMap (fun k => (List.range 16).map fun i => 16 * k + i)
      = List.range (16 * count) := by
  induction count with
  | zero => rfl
  | succ count ih =>
    rw [show range (count + 1) = range count ++ [count] from range_succ,
      flatMap_append, ih, mul_succ, range_add]
    simp

theorem allSlots_sectorsOf :
    allSlots (sectorsOf bytes base)
      = (List.range (16 * ((bytes.length + 511) / 512))).map fun i =>
        (base (i / 16) + 32 * (i % 16),
          fun j => Sector.byte (sectorOf (bufferOf bytes) (512 * (i / 16))) (32 * (i % 16) + j)) := by
  rw [← range_mul_sixteen, map_flatMap, allSlots, sectorsOf, flatMap_map]
  congr 1
  funext k
  rw [map_map]
  apply map_congr_left
  intro i hi
  have hlt := mem_range.mp hi
  have h1 : (16 * k + i) / 16 = k := by omega
  have h2 : (16 * k + i) % 16 = i := by omega
  simp only [Function.comp_apply, h1, h2]

theorem byte_sectorsOf (hj : j < 32) :
    Sector.byte (sectorOf (bufferOf bytes) (512 * (i / 16))) (32 * (i % 16) + j)
      = bufferOf bytes (32 * i + j) := by
  unfold Sector.byte sectorOf
  congr 1
  dsimp only
  omega

theorem length_slotBytes (slots : List (Nat → UInt8)) : (slotBytes slots).length = 32 * slots.length := by
  induction slots with
  | nil => rfl
  | cons slot slots ih =>
    rw [slotBytes, flatMap_cons, length_append, ← slotBytes, length_map,
      length_range, length_cons]
    omega

theorem bufferOf_append (xs ys : List UInt8) :
    bufferOf (xs ++ ys) k = if k < xs.length then bufferOf xs k else bufferOf ys (k - xs.length) := by
  split
  · rename_i h
    exact getD_append _ _ _ _ h
  · exact getD_append_right _ _ _ _ (by omega)

/-- Byte `j` of slot `i`; there is nothing after the last slot. -/
theorem bufferOf_slotBytes (slots : List (Nat → UInt8)) (hj : j < 32) :
    bufferOf (slotBytes slots) (32 * i + j) = slots.getD i (fun _ => 0) j := by
  induction slots generalizing i with
  | nil => simp [slotBytes, bufferOf]
  | cons slot slots ih =>
    rw [slotBytes, flatMap_cons, ← slotBytes, bufferOf_append, length_map, length_range]
    cases i with
    | zero =>
      simp [bufferOf, hj]
    | succ i =>
      rw [if_neg (by omega), show 32 * (i + 1) + j - 32 = 32 * i + j by omega, ih]
      rfl

/-- The reader sees the slots, and after them the end of the directory. -/
theorem readBack_slotBytes (slots : List (Nat → UInt8)) :
    ∃ offset : Nat → Nat, ∃ rest : List (Nat × (Nat → UInt8)), (∀ p ∈ rest, p.2 0 = 0)
      ∧ readBack mnt (slotBytes slots) base
        = (do
          let (_, entries, _) ←
            visitSlots mnt collect (slots.mapIdx (fun i slot => (offset i, slot)) ++ rest) Lfn.reset []
          pure entries) := by
  let offset := fun i => base (i / 16) + 32 * (i % 16)
  have hle : slots.length ≤ 16 * (((slotBytes slots).length + 511) / 512) := by
    rw [length_slotBytes]; omega
  refine ⟨offset, (range (16 * (((slotBytes slots).length + 511) / 512) - slots.length)).map
    (fun i => (offset (slots.length + i), fun _ => 0)), by simp, ?_⟩
  rw [readBack, visitSectorList_eq, allSlots_sectorsOf]
  congr 1
  apply visitSlots_same
  obtain ⟨more, hmore⟩ := Nat.exists_eq_add_of_le hle
  rw [hmore, range_add, map_append]
  refine rel_append ?_ ?_
  · rw [forall₂_iff_get]
    refine ⟨by simp, ?_⟩
    intro i h1 h2
    have hi : i < slots.length := by simpa using h1
    simp only [get_eq_getElem, getElem_map, getElem_range, getElem_mapIdx]
    refine ⟨rfl, fun j hj => ?_⟩
    dsimp only
    rw [byte_sectorsOf hj, bufferOf_slotBytes _ hj]
    simp [hi]
  · rw [forall₂_iff_get]
    refine ⟨by simp, ?_⟩
    intro i h1 h2
    simp only [get_eq_getElem, getElem_map, getElem_range]
    refine ⟨rfl, fun j hj => ?_⟩
    dsimp only
    rw [byte_sectorsOf hj, bufferOf_slotBytes _ hj]
    simp

/-! ### Reading a group -/

section Group

variable {units : List Nat} {checksum sequence : UInt8} {k : Nat} {σ : Type} {lfn : Lfn}
  {visitor : LongEntry → σ → Except Err σ}

theorem lfnUnit_lt (hunits : ∀ u ∈ units, u < 65536) : lfnUnit units k < 65536 := by
  unfold lfnUnit
  split
  · rename_i h
    rw [getD_eq_getElem _ _ h]
    exact hunits _ (getElem_mem h)
  · split <;> decide

/-- A unit of a slot, at its place in the name. -/
theorem read16_buildLfnEntry (hunits : ∀ u ∈ units, u < 65536) (hi : i < 13) :
    read16 (buildLfnEntry sequence units checksum) (unitPositions.getD i 0)
      = lfnUnit units (((sequence &&& 0x1F).toNat - 1) * 13 + i) := by
  apply read16_of_bytes (lfnUnit_lt hunits)
  all_goals
    rcases i with _ | _ | _ | _ | _ | _ | _ | _ | _ | _ | _ | _ | _ | i
    all_goals first | rfl | omega

/-- The sequence byte of a slot. -/
theorem sequence_byte (h : 1 ≤ k ∧ k ≤ 20) (last : Prop) [Decidable last] :
    let b := if last then UInt8.ofNat k ||| 0x40 else UInt8.ofNat k
    (b &&& 0x1F).toNat = k ∧ (b &&& 0x40 != 0) = decide last ∧ b ≠ 0 ∧ b ≠ 0xE5 := by
  have hall : ∀ k : Fin 21, ∀ last : Bool, 1 ≤ k.val →
      let b := if last then UInt8.ofNat k ||| 0x40 else UInt8.ofNat k
      (b &&& 0x1F).toNat = k ∧ (b &&& 0x40 != 0) = last ∧ b ≠ 0 ∧ b ≠ 0xE5 := by
    decide +kernel
  simpa using hall ⟨k, by omega⟩ (decide last) h.1

/-- The reader after the slots of a name from the last down to number `k + 1`. -/
structure Reading (units : List Nat) (checksum : UInt8) (k : Nat) (lfn : Lfn) : Prop where
  active : lfn.active = true
  expected : lfn.expectedSequence = k
  checksum_eq : lfn.checksum = checksum
  highest : lfn.highestUnit = min (13 * lfnCount units) 256
  /-- What was read is in its place. -/
  read : ∀ target, 13 * k ≤ target → target < min (13 * lfnCount units) 256 →
    lfn.units target = lfnUnit units target
  slots : lfn.offsets.length = lfnCount units - k

/-- One more slot is read. The last piece, which comes first, starts a group; the others go on
with theirs. -/
theorem readSlot_buildLfnEntry (hunits : ∀ u ∈ units, u < 65536) (hk : k < lfnCount units)
    (hcount : lfnCount units ≤ 20)
    (hopen : k + 1 < lfnCount units → Reading units checksum (k + 1) lfn) :
    ∃ lfn', readSlot mnt lfn (buildLfnEntry (if k + 1 = lfnCount units then UInt8.ofNat (k + 1) ||| 0x40
        else UInt8.ofNat (k + 1)) units checksum) offset = .ok (.skip lfn')
      ∧ Reading units checksum k lfn' := by
  obtain ⟨hseq, hlast, hzero, hdeleted⟩ :=
    sequence_byte (⟨by omega, by omega⟩ : 1 ≤ k + 1 ∧ k + 1 ≤ 20) (k + 1 = lfnCount units)
  generalize (if k + 1 = lfnCount units then UInt8.ofNat (k + 1) ||| 0x40 else UInt8.ofNat (k + 1)) = b
    at hseq hlast hzero hdeleted ⊢
  have h0 : buildLfnEntry b units checksum 0 = b := rfl
  have h11 : buildLfnEntry b units checksum 11 = 0x0F := rfl
  have h13 : buildLfnEntry b units checksum 13 = checksum := rfl
  have hguard : ¬ (k + 1 = 0 ∨ 20 < k + 1 ∨ (decide (k + 1 = lfnCount units) = false ∧
      (lfn.active = false ∨ lfn.expectedSequence ≠ k + 1 ∨ lfn.checksum ≠ checksum))) := by
    rintro (h | h | ⟨h, hbad⟩)
    · omega
    · omega
    · have hne := of_decide_eq_false h
      have hread := hopen (by omega)
      rcases hbad with hbad | hbad | hbad
      · rw [hread.active] at hbad; cases hbad
      · exact hbad hread.expected
      · exact hbad hread.checksum_eq
  -- the last piece stands first on the disk and opens the name
  obtain ⟨opened, hopened⟩ : ∃ opened : Lfn, opened = if decide (k + 1 = lfnCount units) = true
      then ⟨fun _ => 0, true, k + 1, checksum, 0, offset, []⟩ else lfn := ⟨_, rfl⟩
  have hfields : opened.active = true ∧ opened.expectedSequence = k + 1 ∧ opened.checksum = checksum
      ∧ max opened.highestUnit (min (k * 13 + 13) 256) = min (13 * lfnCount units) 256
      ∧ (∀ target, 13 * (k + 1) ≤ target → target < min (13 * lfnCount units) 256 →
        opened.units target = lfnUnit units target)
      ∧ opened.offsets.length + 1 = lfnCount units - k := by
    by_cases hfirst : k + 1 = lfnCount units
    · rw [if_pos (decide_eq_true hfirst)] at hopened
      subst hopened
      refine ⟨rfl, rfl, rfl, ?_, fun target h1 h2 => ?_, ?_⟩ <;> dsimp only [length_nil] <;> omega
    rw [if_neg (by simpa using hfirst)] at hopened
    subst hopened
    have hread := hopen (by omega)
    refine ⟨hread.active, hread.expected, hread.checksum_eq, ?_, hread.read, ?_⟩
    · rw [hread.highest]; omega
    · rw [hread.slots]; omega
  obtain ⟨hactive, hexpected, hsum, hhigh, hold, hlen⟩ := hfields
  refine ⟨{ opened.copyUnits (buildLfnEntry b units checksum) with
      offsets := opened.offsets ++ [offset], expectedSequence := opened.expectedSequence - 1 },
    ?_, hactive, by rw [hexpected]; rfl, hsum, ?_, ?_, ?_⟩
  · rw [readSlot, h0, if_neg hzero, if_neg hdeleted, h11, if_pos rfl, lfnSlot]
    simp only [h0, h13, hseq, hlast]
    rw [if_neg hguard, ← hopened, if_neg (by omega)]
    rfl
  · simp only [Lfn.copyUnits, h0, hseq, Nat.add_sub_cancel, hhigh]
  · intro target h1 h2
    simp only [Lfn.copyUnits, h0, hseq]
    split
    · rw [read16_buildLfnEntry hunits (by omega)]
      congr 1
      omega
    · exact hold target (by omega) h2
  · rw [length_append]
    exact hlen

theorem visitSlots_skip {visitor : LongEntry → σ → Except Err σ} {p : Nat × (Nat → UInt8)}
    {lfn' : Lfn} (h : readSlot mnt lfn p.2 p.1 = .ok (.skip lfn')) (context : σ) :
    visitSlots mnt visitor (p :: slots) lfn context = visitSlots mnt visitor slots lfn' context := by
  rw [visitSlots, h]
  rfl

/-- The whole name is read, whatever stood before it. -/
theorem visitSlots_lfnEntries
    (hunits : ∀ u ∈ units, u < 65536) (hcount : 1 ≤ lfnCount units ∧ lfnCount units ≤ 20)
    (lfn : Lfn) (hslots : slots.map Prod.snd = lfnEntries units checksum (lfnCount units) k)
    (hk : k ≤ lfnCount units) (hopen : k < lfnCount units → Reading units checksum k lfn) :
    ∃ lfn', Reading units checksum 0 lfn' ∧ ∀ rest context,
      visitSlots mnt visitor (slots ++ rest) lfn context = visitSlots mnt visitor rest lfn' context := by
  induction k generalizing lfn slots with
  | zero =>
    rw [lfnEntries, map_eq_nil_iff] at hslots
    subst hslots
    exact ⟨lfn, hopen (by omega), fun _ _ => rfl⟩
  | succ k ih =>
    obtain ⟨p, slots, rfl, hp, htail⟩ := map_eq_cons_iff.mp hslots
    obtain ⟨lfn', hslot, hnext⟩ :=
      readSlot_buildLfnEntry hunits (by omega) hcount.2 hopen
    rw [← hp] at hslot
    obtain ⟨final, hfinal, hrest⟩ := ih lfn' htail (by omega) fun _ => hnext
    refine ⟨final, hfinal, fun rest context => ?_⟩
    rw [cons_append, visitSlots_skip hslot, hrest]

end Group

/-! ### The name of a group -/

/-- The bytes of a scalar value are those of its encoding. -/
theorem utf8Bytes_toNat : utf8Bytes c.toNat = String.utf8EncodeChar c := by
  have hc := char_scalar c
  have hor : ∀ low n high, low < 2 ^ n → 2 ^ n * high ||| low = low + 2 ^ n * high :=
    fun low n high h => by rw [← two_pow_add_eq_or_of_lt h high, add_comm]
  have hsix : ∀ v, 0x80 ||| (v &&& 0x3F) = v % 64 + 128 := by
    intro v
    rw [show 0x3F = 2 ^ 6 - 1 from rfl, and_two_pow_sub_one_eq_mod]
    exact hor (v % 64) 6 2 (mod_lt _ (by decide))
  unfold utf8Bytes
  simp only [hsix, shiftRight_eq_div_pow]
  rcases utf8EncodeChar_cases c with ⟨h, heq⟩ | ⟨h1, h2, heq⟩ | ⟨h1, h2, heq⟩ | ⟨h1, heq⟩ <;> rw [heq]
  · rw [if_pos (by omega)]
  · have hhigh : 0xC0 ||| c.toNat / 2 ^ 6 = c.toNat / 64 + 192 := hor (c.toNat / 2 ^ 6) 5 6 (by omega)
    rw [if_neg (by omega), if_pos (by omega), hhigh]
  · have hhigh : 0xE0 ||| c.toNat / 2 ^ 12 = c.toNat / 4096 + 224 :=
      hor (c.toNat / 2 ^ 12) 4 14 (by omega)
    rw [if_neg (by omega), if_neg (by omega), if_pos (by omega), hhigh]
  · have hhigh : 0xF0 ||| c.toNat / 2 ^ 18 = c.toNat / 262144 + 240 :=
      hor (c.toNat / 2 ^ 18) 3 30 (by omega)
    rw [if_neg (by omega), if_neg (by omega), if_neg (by omega), hhigh]

/-- U+FFFF, whose unit is also the padding of a long-name slot. -/
def paddingChar : Char := Char.ofNat 0xFFFF

theorem toNat_paddingChar : paddingChar.toNat = 0xFFFF := toNat_ofNat_scalar (by omega)

theorem appendUtf8_char (h : output.length + (String.utf8EncodeChar c).length + 1 ≤ capacity) :
    appendUtf8 output capacity c.toNat = .ok (output ++ String.utf8EncodeChar c) := by
  have hc := char_scalar c
  unfold appendUtf8
  rw [if_neg (by omega), utf8Bytes_toNat, if_neg (by omega)]

theorem lfnCodepoint_pair {high low : Nat} (hlt : index + 1 < lfn.highestUnit)
    (hhigh : lfn.units index = 0xD800 + high) (hlow : lfn.units (index + 1) = 0xDC00 + low)
    (h1 : high < 1024) (h2 : low < 1024) :
    lfnCodepoint lfn index = .ok (0x10000 + high * 1024 + low, index + 1) := by
  simp only [lfnCodepoint, hhigh, hlow]
  rw [if_pos (by omega), if_neg (by omega)]
  simp [shiftLeft_eq]

/-- A scalar value is one unit, or a surrogate pair that stands for it. -/
theorem lfnCodepoint_char
    (h : ∀ i u, (utf16Char c)[i]? = some u → index + i < lfn.highestUnit ∧ lfn.units (index + i) = u) :
    lfnCodepoint lfn index = .ok (c.toNat, index + (utf16Char c).length - 1) := by
  have hc := char_scalar c
  by_cases hsmall : c.toNat < 0x10000
  · have hchar : utf16Char c = [c.toNat] := if_pos hsmall
    have hunit := (h 0 c.toNat (by rw [hchar]; rfl)).2
    rw [add_zero] at hunit
    rw [hchar]
    simp only [lfnCodepoint, hunit]
    rw [if_neg (by omega)]
    rfl
  · have hchar : utf16Char c
        = [0xD800 + (c.toNat - 0x10000) / 1024, 0xDC00 + (c.toNat - 0x10000) % 1024] := if_neg hsmall
    have hhigh := (h 0 _ (by rw [hchar]; rfl)).2
    obtain ⟨hlt, hlow⟩ := h 1 _ (by rw [hchar]; rfl)
    rw [lfnCodepoint_pair hlt hhigh hlow (by omega) (mod_lt _ (by decide)), hchar]
    have : 0x10000 + (c.toNat - 0x10000) / 1024 * 1024 + (c.toNat - 0x10000) % 1024 = c.toNat := by
      omega
    rw [this]
    rfl

theorem utf16Char_head {u : Nat} (h : (utf16Char c)[0]? = some u) :
    (u = 0 ↔ c.toNat = 0) ∧ (u = 0xFFFF ↔ c = paddingChar) := by
  have hc := char_scalar c
  have hpad : c = paddingChar ↔ c.toNat = 0xFFFF := by
    rw [← Char.toNat_inj, toNat_paddingChar]
  unfold utf16Char at h
  split at h
  · obtain rfl := Option.some.inj h
    exact ⟨.rfl, hpad.symm⟩
  · obtain rfl := Option.some.inj h
    rw [hpad]
    omega

theorem lfnUtf8Loop_stop {rounds : Nat}
    (h : lfn.highestUnit ≤ index ∨ lfn.units index = 0 ∨ lfn.units index = 0xFFFF) :
    lfnUtf8Loop lfn capacity (rounds + 1) index output = .ok output := by
  exact if_pos h

/-- The units of a text give back the text, up to the first U+FFFF. -/
theorem lfnUtf8Loop_text :
    ∀ (rounds index : Nat) (output : List UInt8), (∀ c ∈ text, c.toNat ≠ 0) →
      (∀ i u, (utf16 text)[i]? = some u → index + i < lfn.highestUnit ∧ lfn.units (index + i) = u) →
      (lfn.highestUnit ≤ index + (utf16 text).length ∨ lfn.units (index + (utf16 text).length) = 0) →
      (utf16 text).length ≤ rounds → output.length + (utf8 text).length + 1 ≤ capacity →
      lfnUtf8Loop lfn capacity rounds index output
        = .ok (output ++ utf8 (text.takeWhile (· ≠ paddingChar))) := by
  induction text with
  | nil =>
    intro rounds index output _ _ hend _ _
    cases rounds with
    | zero => simp [lfnUtf8Loop]
    | succ rounds =>
      rw [lfnUtf8Loop_stop (by rcases hend with h | h; exacts [.inl h, .inr (.inl h)])]
      simp
  | cons c text ih =>
    intro rounds index output hnul hunits hend hrounds hcap
    rw [utf16_cons] at hunits hend hrounds
    rw [length_append] at hend hrounds
    rw [utf8_cons, length_append] at hcap
    have hpos : 0 < (utf16Char c).length := by unfold utf16Char; split <;> simp
    obtain ⟨rounds, rfl⟩ : ∃ r, rounds = r + 1 := ⟨rounds - 1, by omega⟩
    have hhead : ∀ i u, (utf16Char c)[i]? = some u →
        index + i < lfn.highestUnit ∧ lfn.units (index + i) = u := by
      intro i u hi
      refine hunits i u ?_
      rwa [getElem?_append_left (List.getElem?_eq_some_iff.mp hi).1]
    have hfirst := getElem?_eq_getElem hpos
    obtain ⟨hlt, hunit⟩ := hhead 0 _ hfirst
    obtain ⟨hnull, hpad⟩ := utf16Char_head hfirst
    rw [add_zero] at hlt hunit
    rw [← hunit] at hnull hpad
    by_cases hc : c = paddingChar
    · -- The unit of U+FFFF ends the name.
      rw [lfnUtf8Loop_stop (.inr (.inr (hpad.mpr hc)))]
      simp [hc]
    have hgo : ¬(lfn.highestUnit ≤ index ∨ lfn.units index = 0 ∨ lfn.units index = 0xFFFF) := by
      rw [hnull, hpad]
      rintro (h | h | h)
      · omega
      · exact hnul c mem_cons_self h
      · exact hc h
    rw [lfnUtf8Loop]
    rw [if_neg hgo, lfnCodepoint_char hhead]
    dsimp only
    rw [appendUtf8_char (by omega)]
    dsimp only
    rw [Nat.sub_add_cancel (by omega), ih rounds _ _ (fun d hd => hnul d (mem_cons_of_mem _ hd))]
    · simp [hc]
    · intro i u hi
      have := hunits ((utf16Char c).length + i) u
        (by rw [getElem?_append_right (by omega)]; simpa using hi)
      rwa [← add_assoc] at this
    · rwa [add_assoc]
    · omega
    · rw [length_append]; omega

/-- The name a reader has after the slots of a text. -/
theorem Reading.lfnToUtf8_eq {checksum : UInt8} (h : Reading (utf16 text) checksum 0 lfn)
    (hnul : ∀ c ∈ text, c.toNat ≠ 0) (hlen : (utf8 text).length ≤ 255)
    (hunits : (utf16 text).length ≤ (utf8 text).length) : lfnToUtf8 lfn 256 =
      if utf8 (text.takeWhile (· ≠ paddingChar)) = [] then .error .invalid
      else .ok (utf8 (text.takeWhile (· ≠ paddingChar))) := by
  have hcount : (utf16 text).length ≤ 13 * lfnCount (utf16 text) := by
    unfold lfnCount; omega
  have hhigh := h.highest
  have hloop : lfnUtf8Loop lfn 256 lfn.highestUnit 0 []
      = .ok ([] ++ utf8 (text.takeWhile (· ≠ paddingChar))) := by
    refine lfnUtf8Loop_text _ 0 [] hnul ?_ ?_ (by omega) (by simp; omega)
    · intro i u hi
      obtain ⟨hlt, hu⟩ := List.getElem?_eq_some_iff.mp hi
      rw [zero_add, h.read i (by omega) (by omega), lfnUnit, if_pos hlt, getD_eq_getElem _ _ hlt]
      exact ⟨by omega, hu⟩
    · -- Thirteen units to a slot: the name fills its last slot, or there is a terminator.
      rw [zero_add]
      by_cases hfull : lfn.highestUnit ≤ (utf16 text).length
      · exact .inl hfull
      · refine .inr ?_
        rw [h.read _ (by omega) (by omega), lfnUnit, if_neg (by omega), if_pos rfl]
  rw [lfnToUtf8, hloop]
  rfl

/-- What the short entry after the slots of a text is to the reader. -/
theorem Reading.readSlot_short
    (h : Reading (utf16 text) (lfnChecksum short) 0 lfn) (hnul : ∀ c ∈ text, c.toNat ≠ 0)
    (hlen : (utf8 text).length ≤ 255) (hunits : (utf16 text).length ≤ (utf8 text).length)
    (h0 : short 0 ≠ 0) (h5 : short 0 ≠ 0xE5) (h11 : short 11 &&& 0x08 = 0) :
    (∃ e, readSlot mnt lfn short offset = .ok (.entry e)
      ∧ e.name = utf8 (text.takeWhile (· ≠ paddingChar)))
    ∨ utf8 (text.takeWhile (· ≠ paddingChar)) = [] ∧ readSlot mnt lfn short offset = .error .invalid := by
  have hfifteen : short 11 ≠ 0x0F := by
    intro heq
    rw [heq] at h11
    cases h11
  have hname := h.lfnToUtf8_eq hnul hlen hunits
  rw [readSlot, if_neg h0, if_neg h5, if_neg hfifteen, if_neg (by rw [h11]; decide), shortSlot,
    if_pos h.active, if_neg (by rw [h.expected, h.checksum_eq]; simp)]
  by_cases hnil : utf8 (text.takeWhile (· ≠ paddingChar)) = []
  · rw [if_pos hnil] at hname
    refine .inr ⟨hnil, ?_⟩
    rw [hname]
    rfl
  rw [if_neg hnil] at hname
  refine .inl ⟨longParseEntry mnt short offset lfn, ?_, ?_⟩
  · rw [hname]
    rfl
  · rw [longParseEntry, hname]

/-- A slot that is reported is a live short entry. -/
theorem readSlot_entry {e : LongEntry} (h : readSlot mnt lfn source offset = .ok (.entry e)) :
    source 0 ≠ 0 ∧ source 0 ≠ 0xE5 ∧ source 11 &&& 0x08 = 0 := by
  unfold readSlot at h
  split at h
  · cases h
  split at h
  · cases h
  split at h
  · obtain ⟨l, -, hl⟩ := map_eq_ok.mp h
    cases hl
  split at h
  · cases h
  · rename_i h1 h2 _ h4
    exact ⟨h1, h2, by simpa using h4⟩

/-! ### The round trip -/

/-- Written as a group and read back, the text is the name of the one entry there is. -/
def RoundTrips (mnt : Mount) (text : List Char) (shortName : Nat → UInt8) (attributes : UInt8)
    (firstCluster size : Nat) (base : Nat → Nat) : Prop :=
  ∃ units entry, utf8ToUtf16 (utf8 text) 256 = .ok units
    ∧ readBack mnt (slotBytes (entryGroup units
        (buildShortEntry shortName attributes firstCluster size))) base = .ok [entry]
    ∧ entry.name = utf8 text

theorem toNat_ne_zero_of_mem (h : ∀ b ∈ utf8 text, b ≠ 0) : ∀ c ∈ text, c.toNat ≠ 0 := by
  intro c hc hzero
  refine h 0 (mem_flatMap.mpr ⟨c, hc, ?_⟩) rfl
  rcases utf8EncodeChar_cases c with ⟨-, heq⟩ | ⟨h1, -⟩ | ⟨h1, -⟩ | ⟨h1, -⟩
  · rw [heq, hzero]
    exact mem_singleton.mpr rfl
  all_goals omega

theorem length_utf16_le (text : List Char) : (utf16 text).length ≤ (utf8 text).length := by
  induction text with
  | nil => exact le_refl 0
  | cons c text ih =>
    rw [utf16_cons, utf8_cons, length_append, length_append]
    exact Nat.add_le_add (length_utf16Char_le c) ih

theorem utf16_lt : ∀ u ∈ utf16 text, u < 65536 := by
  intro u hu
  obtain ⟨c, -, hc⟩ := mem_flatMap.mp hu
  have hscalar := char_scalar c
  unfold utf16Char at hc
  split at hc
  · rw [mem_singleton] at hc
    omega
  · rw [mem_cons, mem_singleton] at hc
    omega

theorem utf8_eq_nil : utf8 text = [] ↔ text = [] := by
  cases text with
  | nil => simp
  | cons c text =>
    have := c.utf8Size_pos
    rw [← String.length_utf8EncodeChar] at this
    simp only [utf8_cons, append_eq_nil_iff, reduceCtorEq, iff_false, not_and]
    intro hnil
    rw [hnil] at this
    exact absurd this (lt_irrefl 0)

/-- Cutting a text at U+FFFF changes its bytes, unless there is none. -/
theorem utf8_takeWhile_eq :
    utf8 (text.takeWhile (· ≠ paddingChar)) = utf8 text ↔ paddingChar ∉ text := by
  have hsplit : utf8 text = utf8 (text.takeWhile (· ≠ paddingChar))
      ++ utf8 (text.dropWhile (· ≠ paddingChar)) := by
    rw [utf8, utf8, utf8, ← flatMap_append, takeWhile_append_dropWhile]
  rw [hsplit, eq_comm, append_right_eq_self, utf8_eq_nil, dropWhile_eq_nil_iff]
  constructor
  · intro h hmem
    simpa using h _ hmem
  · intro h c hc
    have hne : c ≠ paddingChar := by
      intro heq
      exact h (heq ▸ hc)
    simpa using hne

theorem visitSlots_finish {rest : List (Nat × (Nat → UInt8))} (hrest : ∀ p ∈ rest, p.2 0 = 0) :
    (do
      let (_, entries, _) ← visitSlots mnt collect rest lfn seen
      pure entries) = .ok seen := by
  cases rest with
  | nil => rfl
  | cons p rest =>
    rw [visitSlots, readSlot, if_pos (hrest p mem_cons_self)]
    rfl

/-- The group of a text as the reader takes it: the name, then the short entry, then the end. -/
theorem readBack_entryGroup (hne : text ≠ []) (hlen : (utf8 text).length ≤ 255) :
    ∃ lfn offset, Reading (utf16 text) (lfnChecksum short) 0 lfn
      ∧ readBack mnt (slotBytes (entryGroup (utf16 text) short)) base
        = (do
          match ← readSlot mnt lfn short offset with
          | .entry e => pure [e]
          | _ => pure []) := by
  have hunits := length_utf16_le text
  have hpos : 0 < (utf16 text).length := by
    cases text with
    | nil => exact absurd rfl hne
    | cons c text =>
      rw [utf16_cons, length_append]
      have : 0 < (utf16Char c).length := by unfold utf16Char; split <;> simp
      omega
  obtain ⟨offset, rest, hrest, hread⟩ := readBack_slotBytes (entryGroup (utf16 text) short)
  have hsnd : ∀ slots : List (Nat → UInt8),
      (slots.mapIdx fun i slot => (offset i, slot)).map Prod.snd = slots := by
    intro slots
    apply ext_getElem <;> simp
  obtain ⟨lfn, hlfn, hname⟩ := visitSlots_lfnEntries utf16_lt
    (by unfold lfnCount; omega) Lfn.reset
    (hsnd (lfnEntries _ (lfnChecksum short) (lfnCount (utf16 text)) (lfnCount (utf16 text))))
    (le_refl _) (fun h => absurd h (lt_irrefl _))
  refine ⟨lfn, offset (0 + (lfnEntries (utf16 text) (lfnChecksum short) (lfnCount (utf16 text))
    (lfnCount (utf16 text))).length), hlfn, ?_⟩
  rw [hread, entryGroup, mapIdx_append, append_assoc, hname, mapIdx_singleton,
    singleton_append, visitSlots]
  generalize readSlot mnt lfn short _ = r
  rcases r with e | r
  · rfl
  cases r with
  | finish => rfl
  | skip lfn' => exact visitSlots_finish hrest
  | entry e => exact visitSlots_finish hrest

theorem utf8ToUtf16_utf8 (hnul : ∀ b ∈ utf8 text, b ≠ 0) (hlen : (utf8 text).length ≤ 255) :
    utf8ToUtf16 (utf8 text) 256 = .ok (utf16 text) := by
  rw [utf8ToUtf16, utf8ToUtf16Loop_utf8 _ [] hnul (le_refl _) (by simp; omega)]
  rfl

/-- **The round trip.** A name of 1 to 255 bytes comes back as it was written, exactly when it
has no U+FFFF in it, the short name starts with a byte of a live entry, and the attributes are
not those of a label. -/
theorem roundTrips_iff (mnt : Mount) (text : List Char) (shortName : Nat → UInt8)
    (attributes : UInt8) (firstCluster size : Nat) (base : Nat → Nat) (hne : text ≠ [])
    (hlen : (utf8 text).length ≤ 255) (hnul : ∀ b ∈ utf8 text, b ≠ 0) :
    RoundTrips mnt text shortName attributes firstCluster size base
      ↔ paddingChar ∉ text ∧ shortName 0 ≠ 0 ∧ shortName 0 ≠ 0xE5 ∧ attributes &&& 0x08 = 0 := by
  have hchars := toNat_ne_zero_of_mem hnul
  have hunits := length_utf16_le text
  obtain ⟨short, hshort⟩ : ∃ short, short = buildShortEntry shortName attributes firstCluster size :=
    ⟨_, rfl⟩
  have h0 : short 0 = shortName 0 := by rw [hshort]; rfl
  have h11 : short 11 = attributes := by rw [hshort]; rfl
  obtain ⟨lfn, offset, hlfn, hread⟩ := readBack_entryGroup hne hlen
  unfold RoundTrips
  rw [← hshort, ← h0, ← h11]
  constructor
  · rintro ⟨units, entry, hunits', hback, hname⟩
    rw [utf8ToUtf16_utf8 hnul hlen] at hunits'
    obtain rfl := Except.ok.inj hunits'
    rw [hread] at hback
    -- Only an entry slot adds to the result.
    have hslot : readSlot mnt lfn short offset = .ok (.entry entry) := by
      generalize readSlot mnt lfn short offset = r at hback
      rcases r with e | r
      · cases hback
      cases r with
      | finish => cases hback
      | skip l => cases hback
      | entry e => rw [singleton_inj.mp (Except.ok.inj hback)]
    obtain ⟨hz, h5, h8⟩ := readSlot_entry hslot
    refine ⟨?_, hz, h5, h8⟩
    rcases hlfn.readSlot_short hchars hlen hunits hz h5 h8 with ⟨e, he, hn⟩ | ⟨-, he⟩
    · rw [hslot] at he
      obtain rfl := SlotResult.entry.inj (Except.ok.inj he)
      exact utf8_takeWhile_eq.mp (hn.symm.trans hname)
    · rw [hslot] at he
      cases he
  · rintro ⟨hpad, hz, h5, h8⟩
    have hcut := utf8_takeWhile_eq.mpr hpad
    rcases hlfn.readSlot_short hchars hlen hunits hz h5 h8 with ⟨e, he, hn⟩ | ⟨hnil, -⟩
    · refine ⟨utf16 text, e, utf8ToUtf16_utf8 hnul hlen, ?_, hn.trans hcut⟩
      rw [hread, he]
      rfl
    · exact absurd (utf8_eq_nil.mp (hcut.symm.trans hnil)) hne

/-- A small FAT32 volume. -/
def smallMount : Mount := ⟨.fat32, 1, 2, 0, 70000, 32, 540, 0, 0, 1112, 68888, 2⟩

/-- The short name `A~1`. -/
def aliasBytes (k : Nat) : UInt8 := [0x41, 0x7E, 0x31].getD k 0x20

/-- A name of sixteen units, so of two long entries, with a surrogate pair in the first. -/
theorem roundTrips_surrogates :
    RoundTrips smallMount (Char.ofNat 0x1F600 :: "café-notes.txt".toList) aliasBytes 0x20 3 0 (fun k => 512 * k) :=
  (roundTrips_iff smallMount _ aliasBytes 0x20 3 0 (fun k => 512 * k) (by decide) (by decide +kernel)
    (by decide +kernel)).mpr (by decide +kernel)

/-- The name `a` followed by U+FFFF, bytes `61 EF BF BF`, is read back as `a`. -/
theorem readBack_padding_cut :
    (utf8ToUtf16 (utf8 ['a', paddingChar]) 256).toOption = some [0x61, 0xFFFF]
    ∧ ((readBack smallMount (slotBytes (entryGroup [0x61, 0xFFFF]
        (buildShortEntry aliasBytes 0x20 3 0))) (fun k => 512 * k)).toOption.map
          fun entries => entries.map LongEntry.name) = some [[0x61]]
    ∧ utf8 ['a', paddingChar] = [0x61, 0xEF, 0xBF, 0xBF] := by
  decide +kernel

end ZephyrOS.Storage
