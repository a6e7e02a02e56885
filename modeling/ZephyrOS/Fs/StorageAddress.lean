import ZephyrOS.Fs.StorageSlotsVisit

/-!
# Where an entry was read from

The walk over a directory reports with each entry the byte offset of its slot on the disk, and
the writer of entries divides that offset by 512 to find the sector again. The offset is a
32-bit number.

To say which sector an entry really came from, the walk is done once more with a base for
every sector as a parameter (`walkAt`). With the base of unbounded numbers an offset is the
place of a slot (`SlotAt`); with the base of the source it is that number modulo `2 ^ 32`. So
the two agree exactly for the sectors below `2 ^ 23`, the first four gigabytes of the disk.
-/

namespace ZephyrOS.Storage

open Lib List Program

/-! ### The walk with a base -/

section

variable {σ : Type} (base : Nat → Nat) (read : Nat → Except Err Sector) (vol : Volume) (mnt : Mount)
  (visitor : LongEntry → σ → Except Err σ)

/-- `visitSectors`, where sector `lba` of the volume starts at `base lba`. -/
def visitSectorsAt (lba : Nat) : Nat → Lfn → σ → Except Err (Lfn × σ × Bool)
  | 0, lfn, context => .ok (lfn, context, false)
  | count + 1, lfn, context => do
    let sector ← readRelative read vol lba
    match ← visitLongSector mnt visitor sector (base lba) lfn context with
    | (lfn, context, true) => .ok (lfn, context, true)
    | (lfn, context, false) => visitSectorsAt (lba + 1) count lfn context

/-- `walkLoop`. -/
def walkLoopAt : Nat → Nat → Lfn → σ → Except Err σ
  | 0, _, _, _ => .error .overflow
  | rounds + 1, cluster, lfn, context => do
    if cluster < 2 ∨ mnt.totalClusters + 2 ≤ cluster then .error .invalid
    else
      match ← visitSectorsAt base read vol mnt visitor (clusterLba mnt cluster)
          mnt.sectorsPerCluster lfn context with
      | (_, context, true) => .ok context
      | (lfn, context, false) =>
        let next ← (nextCluster read vol mnt cluster).mapError fun _ => .disk
        if clusterIsBad mnt next then .error .disk
        else if clusterIsEnd mnt next then .ok context
        else walkLoopAt rounds next lfn context

/-- `walkDirectoryLong`. -/
def walkAt (dir : Dir) (context : σ) : Except Err σ :=
  if dir.fixedRoot then do
    let (_, context, _) ←
      visitSectorsAt base read vol mnt visitor mnt.rootStart mnt.rootSectors Lfn.reset context
    .ok context
  else walkLoopAt base read vol mnt visitor maxChainSteps dir.cluster Lfn.reset context

variable {read vol mnt visitor}

theorem visitSectors_eq_at (lba count : Nat) (lfn : Lfn) (context : σ) :
    visitSectors mnt visitor read vol lba count lfn context
      = visitSectorsAt (sectorOffset vol) read vol mnt visitor lba count lfn context := by
  induction count generalizing lba lfn context with
  | zero => rfl
  | succ count ih =>
    refine congrArg _ (funext fun sector => congrArg _ (funext fun r => ?_))
    match r with
    | (_, _, false) => exact ih _ _ _
    | (_, _, true) => rfl

theorem walkLoop_eq_at (rounds cluster : Nat) (lfn : Lfn) (context : σ) :
    walkLoop read vol mnt visitor rounds cluster lfn context
      = walkLoopAt (sectorOffset vol) read vol mnt visitor rounds cluster lfn context := by
  induction rounds generalizing cluster lfn context with
  | zero => rfl
  | succ rounds ih =>
    refine ite_congr rfl (fun _ => rfl) fun _ => ?_
    rw [visitSectors_eq_at]
    refine congrArg _ (funext fun r => ?_)
    match r with
    | (_, _, false) =>
      refine congrArg _ (funext fun next => ite_congr rfl (fun _ => rfl) fun _ =>
        ite_congr rfl (fun _ => rfl) fun _ => ih _ _ _)
    | (_, _, true) => rfl

/-- The walk of the source has the base of 32-bit offsets. -/
theorem walkDirectoryLong_eq_at (dir : Dir) (context : σ) :
    walkDirectoryLong read vol mnt dir visitor context
      = walkAt (sectorOffset vol) read vol mnt visitor dir context := by
  unfold walkDirectoryLong walkAt
  simp only [visitSectors_eq_at, walkLoop_eq_at]

end

/-! ### Changing the base -/

def Lfn.relocate (f : Nat → Nat) (lfn : Lfn) : Lfn :=
  { lfn with offset := f lfn.offset, offsets := lfn.offsets.map f }

def LongEntry.relocate (f : Nat → Nat) (e : LongEntry) : LongEntry :=
  { e with entryOffset := f e.entryOffset, lfnOffset := f e.lfnOffset
           lfnOffsets := e.lfnOffsets.map f }

def SlotResult.relocate (f : Nat → Nat) : SlotResult → SlotResult
  | .finish => .finish
  | .skip lfn => .skip (lfn.relocate f)
  | .entry e => .entry (e.relocate f)

section

variable {f : Nat → Nat} {mnt : Mount} {capacity offset : Nat} {lfn : Lfn} {source : Nat → UInt8}

theorem lfnUtf8Loop_relocate (rounds index : Nat) (output : List UInt8) :
    lfnUtf8Loop (lfn.relocate f) capacity rounds index output
      = lfnUtf8Loop lfn capacity rounds index output := by
  induction rounds generalizing index output with
  | zero => rfl
  | succ rounds ih =>
    unfold lfnUtf8Loop
    simp only [ih]
    rfl

/-- The text of a long name does not depend on where it lies. -/
theorem lfnToUtf8_relocate : lfnToUtf8 (lfn.relocate f) capacity = lfnToUtf8 lfn capacity := by
  unfold lfnToUtf8
  rw [lfnUtf8Loop_relocate]
  rfl

theorem relocate_reset (h0 : f 0 = 0) : Lfn.reset.relocate f = Lfn.reset := by
  unfold Lfn.relocate Lfn.reset
  rw [h0]
  rfl

theorem longParseEntry_relocate :
    longParseEntry mnt source (f offset) (lfn.relocate f)
      = (longParseEntry mnt source offset lfn).relocate f := by
  unfold longParseEntry LongEntry.relocate
  rw [lfnToUtf8_relocate]
  cases h : lfn.active with
  | false => simp [Lfn.relocate, h]
  | true => simp [Lfn.relocate, h]

theorem lfnSlot_relocate :
    lfnSlot (lfn.relocate f) source (f offset) = (lfnSlot lfn source offset).map (Lfn.relocate f) := by
  have hactive : (lfn.relocate f).active = lfn.active := rfl
  have hexpected : (lfn.relocate f).expectedSequence = lfn.expectedSequence := rfl
  have hchecksum : (lfn.relocate f).checksum = lfn.checksum := rfl
  unfold lfnSlot
  rw [hactive, hexpected, hchecksum]
  by_cases hbad : (source 0 &&& 0x1F).toNat = 0 ∨ 20 < (source 0 &&& 0x1F).toNat ∨
      ((source 0 &&& 0x40 != 0) = false ∧ (lfn.active = false ∨
        lfn.expectedSequence ≠ (source 0 &&& 0x1F).toNat ∨ lfn.checksum ≠ source 13))
  · rw [if_pos hbad, if_pos hbad]
    rfl
  rw [if_neg hbad, if_neg hbad]
  cases hlast : (source 0 &&& 0x40 != 0) with
  | true => rfl
  | false =>
    -- a piece in the middle of a group is added to the offsets so far
    simp only [Bool.false_eq_true, if_false]
    by_cases hfull : 20 ≤ lfn.offsets.length
    · rw [if_pos hfull, if_pos (by simpa [Lfn.relocate] using hfull)]
      rfl
    · rw [if_neg hfull, if_neg (by simpa [Lfn.relocate] using hfull)]
      simp [Except.map, Lfn.relocate, Lfn.copyUnits]

theorem shortSlot_relocate :
    shortSlot mnt (lfn.relocate f) source (f offset)
      = (shortSlot mnt lfn source offset).map (LongEntry.relocate f) := by
  unfold shortSlot
  rw [lfnToUtf8_relocate, longParseEntry_relocate]
  show (if lfn.active then _ else _) = _
  cases lfn.active with
  | false =>
    rfl
  | true =>
    show (if lfn.expectedSequence ≠ 0 ∨ lfn.checksum ≠ lfnChecksum source then _ else _) = _
    split
    · rfl
    · cases lfnToUtf8 lfn 256 with
      | error e => rfl
      | ok name => rfl

theorem readSlot_relocate (h0 : f 0 = 0) :
    readSlot mnt (lfn.relocate f) source (f offset)
      = (readSlot mnt lfn source offset).map (SlotResult.relocate f) := by
  have hreset : SlotResult.relocate f (.skip Lfn.reset) = .skip Lfn.reset := by
    rw [SlotResult.relocate, relocate_reset h0]
  unfold readSlot
  split
  · rfl
  split
  · exact congrArg Except.ok hreset.symm
  split
  · rw [lfnSlot_relocate]
    cases lfnSlot lfn source offset with
    | error e => rfl
    | ok lfn => rfl
  split
  · exact congrArg Except.ok hreset.symm
  rw [shortSlot_relocate]
  cases shortSlot mnt lfn source offset with
  | error e => rfl
  | ok e => rfl

/-- What the walk collects, moved. -/
def relocateResult (f : Nat → Nat) (r : Lfn × List LongEntry × Bool) : Lfn × List LongEntry × Bool :=
  (r.1.relocate f, r.2.1.map (LongEntry.relocate f), r.2.2)

theorem visitSlots_relocate (h0 : f 0 = 0) (slots : List (Nat × (Nat → UInt8))) (lfn : Lfn)
    (seen : List LongEntry) :
    visitSlots mnt collect (slots.map fun p => (f p.1, p.2)) (lfn.relocate f)
        (seen.map (LongEntry.relocate f))
      = (visitSlots mnt collect slots lfn seen).map (relocateResult f) := by
  induction slots generalizing lfn seen with
  | nil => rfl
  | cons slot slots ih =>
    obtain ⟨offset, source⟩ := slot
    rw [map_cons, visitSlots, visitSlots, readSlot_relocate h0]
    cases readSlot mnt lfn source offset with
    | error e => rfl
    | ok r =>
      cases r with
      | finish => rfl
      | skip lfn => exact ih lfn seen
      | entry e =>
        have hsnoc : (seen ++ [e]).map (LongEntry.relocate f)
            = seen.map (LongEntry.relocate f) ++ [e.relocate f] := by simp
        have := ih Lfn.reset (seen ++ [e])
        rw [hsnoc, relocate_reset h0] at this
        exact this

end

section

variable {read : Nat → Except Err Sector} {vol : Volume} {mnt : Mount} {lfn lfn' : Lfn}
  {source : Nat → UInt8} {o p : Nat} {seen es : List LongEntry} {ended : Bool} {lba : Nat}

/-- The place of a sector of the volume on the disk. -/
def place (vol : Volume) (lba : Nat) : Nat := 512 * (vol.startLba + lba)

/-- The slots of a sector keep their distance from its start. -/
theorem sectorSlots_u32 (sector : Sector) (lba : Nat) :
    sectorSlots sector (sectorOffset vol lba)
      = (sectorSlots sector (place vol lba)).map fun p => (u32 p.1, p.2) := by
  unfold sectorSlots
  rw [map_map]
  refine map_congr_left fun k hk => ?_
  have hk := mem_range.mp hk
  refine Prod.ext ?_ rfl
  show sectorOffset vol lba + 32 * k = u32 (place vol lba + 32 * k)
  unfold sectorOffset place u32
  omega

theorem visitSectorsAt_u32 (lba count : Nat) (lfn : Lfn) (seen : List LongEntry) :
    visitSectorsAt (sectorOffset vol) read vol mnt collect lba count (lfn.relocate u32)
        (seen.map (LongEntry.relocate u32))
      = (visitSectorsAt (place vol) read vol mnt collect lba count lfn seen).map (relocateResult u32) := by
  induction count generalizing lba lfn seen with
  | zero => rfl
  | succ count ih =>
    rw [visitSectorsAt, visitSectorsAt]
    cases readRelative read vol lba with
    | error e => rfl
    | ok sector =>
      rw [ok_bind, ok_bind]
      unfold visitLongSector
      rw [sectorSlots_u32, visitSlots_relocate rfl]
      cases visitSlots mnt collect (sectorSlots sector (place vol lba)) lfn seen with
      | error e => rfl
      | ok r =>
        obtain ⟨lfn, seen, ended⟩ := r
        cases ended with
        | true => rfl
        | false => exact ih (lba + 1) lfn seen

theorem walkLoopAt_u32 (rounds cluster : Nat) (lfn : Lfn) (seen : List LongEntry) :
    walkLoopAt (sectorOffset vol) read vol mnt collect rounds cluster (lfn.relocate u32)
        (seen.map (LongEntry.relocate u32))
      = (walkLoopAt (place vol) read vol mnt collect rounds cluster lfn seen).map
        (List.map (LongEntry.relocate u32)) := by
  induction rounds generalizing cluster lfn seen with
  | zero => rfl
  | succ rounds ih =>
    rw [walkLoopAt, walkLoopAt]
    split
    · rfl
    rw [visitSectorsAt_u32]
    cases visitSectorsAt (place vol) read vol mnt collect (clusterLba mnt cluster)
        mnt.sectorsPerCluster lfn seen with
    | error e => rfl
    | ok r =>
      obtain ⟨lfn, seen, ended⟩ := r
      cases ended with
      | true => rfl
      | false =>
        simp only [Except.map, relocateResult, ok_bind]
        cases (nextCluster read vol mnt cluster).mapError fun _ => Err.disk with
        | error e => rfl
        | ok next =>
          rw [ok_bind, ok_bind]
          split
          · rfl
          · split
            · rfl
            · exact ih next lfn seen

/-- **The reported offsets are those places modulo `2 ^ 32`.** -/
theorem walkDirectoryLong_u32 (dir : Dir) :
    walkDirectoryLong read vol mnt dir collect []
      = (walkAt (place vol) read vol mnt collect dir []).map (List.map (LongEntry.relocate u32)) := by
  rw [walkDirectoryLong_eq_at]
  unfold walkAt
  split
  · have h := @visitSectorsAt_u32 read vol mnt mnt.rootStart mnt.rootSectors Lfn.reset []
    rw [relocate_reset rfl, map_nil] at h
    rw [h]
    cases visitSectorsAt (place vol) read vol mnt collect mnt.rootStart mnt.rootSectors Lfn.reset [] with
    | error e => rfl
    | ok r => rfl
  · have h := @walkLoopAt_u32 read vol mnt maxChainSteps dir.cluster Lfn.reset []
    exact h

/-! ### Places -/

/-- The bytes of a slot of a sector of the volume, read at the place `o`. -/
def SlotAt (read : Nat → Except Err Sector) (vol : Volume) (o : Nat) (source : Nat → UInt8) : Prop :=
  ∃ lba k sector, readRelative read vol lba = .ok sector ∧ k < 16 ∧ o = place vol lba + 32 * k ∧
    source = fun j => Sector.byte sector (32 * k + j)

/-- **An entry is at its place.** Its slot is there, and each slot of its long name is where
the offsets say. -/
structure EntryAt (read : Nat → Except Err Sector) (vol : Volume) (e : LongEntry) : Prop where
  short : ∃ source, SlotAt read vol e.entryOffset source ∧ e.shortName = shortText source ∧
    e.attributes = source 11 ∧ e.size = read32 source 28
  long : ∀ o ∈ e.lfnOffsets, ∃ source, SlotAt read vol o source ∧ source 11 = 0x0F

/-- The slots of a long name that is being read. -/
def LfnAt (read : Nat → Except Err Sector) (vol : Volume) (lfn : Lfn) : Prop :=
  ∀ o ∈ lfn.offsets, ∃ source, SlotAt read vol o source ∧ source 11 = 0x0F

/-- What a slot gives is at its place. -/
def SlotResult.At (read : Nat → Except Err Sector) (vol : Volume) : SlotResult → Prop
  | .finish => True
  | .skip lfn => LfnAt read vol lfn
  | .entry e => EntryAt read vol e

theorem lfnAt_reset : LfnAt read vol Lfn.reset := fun _ h => nomatch h

section

variable (hlfn : LfnAt read vol lfn) (hslot : SlotAt read vol o source)
include hlfn hslot

theorem lfnSlot_at (hattr : source 11 = 0x0F) (h : lfnSlot lfn source o = .ok lfn') :
    LfnAt read vol lfn' := by
  obtain ⟨_, h⟩ := ite_error_eq_ok.mp h
  obtain ⟨_, h⟩ := ite_error_eq_ok.mp h
  cases h
  intro o' ho'
  rcases mem_append.mp ho' with ho' | ho'
  · split at ho'
    · cases ho'
    · exact hlfn o' ho'
  · rw [mem_singleton.mp ho']
    exact ⟨source, hslot, hattr⟩

theorem longParseEntry_at :
    EntryAt read vol (longParseEntry mnt source o lfn) := by
  refine ⟨⟨source, hslot, rfl, rfl, rfl⟩, fun o' ho' => ?_⟩
  unfold longParseEntry at ho'
  dsimp only at ho'
  split at ho'
  · exact hlfn o' ho'
  · cases ho'

theorem shortSlot_at {e : LongEntry} (h : shortSlot mnt lfn source o = .ok e) :
    EntryAt read vol e := by
  unfold shortSlot at h
  split at h
  · obtain ⟨_, h⟩ := ite_error_eq_ok.mp h
    split at h
    · cases h
    · cases h
      exact longParseEntry_at hlfn hslot
  · cases h
    exact longParseEntry_at lfnAt_reset hslot

/-- One slot. -/
theorem readSlot_at {r : SlotResult} (h : readSlot mnt lfn source o = .ok r) : r.At read vol := by
  unfold readSlot at h
  split at h
  · cases h
    trivial
  split at h
  · cases h
    exact lfnAt_reset
  split at h
  · rename_i hattr
    obtain ⟨lfn', hlfn', rfl⟩ := map_eq_ok.mp h
    exact lfnSlot_at hlfn hslot hattr hlfn'
  split at h
  · cases h
    exact lfnAt_reset
  obtain ⟨e, he, rfl⟩ := map_eq_ok.mp h
  exact shortSlot_at hlfn hslot he

end

/-- The slots of a sector, one after the other. -/
theorem visitSlots_at {slots : List (Nat × (Nat → UInt8))}
    (hslots : ∀ p ∈ slots, SlotAt read vol p.1 p.2) (hlfn : LfnAt read vol lfn)
    (hseen : ∀ e ∈ seen, EntryAt read vol e)
    (h : visitSlots mnt collect slots lfn seen = .ok (lfn', es, ended)) :
    LfnAt read vol lfn' ∧ ∀ e ∈ es, EntryAt read vol e := by
  induction slots generalizing lfn seen with
  | nil =>
    cases h
    exact ⟨hlfn, hseen⟩
  | cons slot slots ih =>
    obtain ⟨r, hr, h⟩ := bind_eq_ok.mp h
    obtain ⟨hslot, hrest⟩ := forall_mem_cons.mp hslots
    have hat := readSlot_at hlfn hslot hr
    cases r with
    | finish =>
      cases h
      exact ⟨hlfn, hseen⟩
    | skip lfn'' => exact ih hrest hat hseen h
    | entry e =>
      exact ih hrest lfnAt_reset (forall_mem_append.mpr ⟨hseen, forall_mem_singleton.mpr hat⟩) h

theorem sectorSlots_at {sector : Sector} (h : readRelative read vol lba = .ok sector) :
    ∀ p ∈ sectorSlots sector (place vol lba), SlotAt read vol p.1 p.2 := by
  intro p hp
  obtain ⟨k, hk, rfl⟩ := mem_map.mp hp
  exact ⟨lba, k, sector, h, mem_range.mp hk, rfl, rfl⟩

theorem visitSectorsAt_at {count : Nat} (hlfn : LfnAt read vol lfn)
    (hseen : ∀ e ∈ seen, EntryAt read vol e)
    (h : visitSectorsAt (place vol) read vol mnt collect lba count lfn seen = .ok (lfn', es, ended)) :
    LfnAt read vol lfn' ∧ ∀ e ∈ es, EntryAt read vol e := by
  induction count generalizing lba lfn seen with
  | zero =>
    cases h
    exact ⟨hlfn, hseen⟩
  | succ count ih =>
    obtain ⟨sector, hsector, h⟩ := bind_eq_ok.mp h
    obtain ⟨⟨lfn'', seen', ended'⟩, hvisit, h⟩ := bind_eq_ok.mp h
    obtain ⟨hlfn'', hseen'⟩ := visitSlots_at (sectorSlots_at hsector) hlfn hseen hvisit
    cases ended' with
    | true =>
      cases h
      exact ⟨hlfn'', hseen'⟩
    | false => exact ih hlfn'' hseen' h

theorem walkLoopAt_at {rounds cluster : Nat} (hlfn : LfnAt read vol lfn)
    (hseen : ∀ e ∈ seen, EntryAt read vol e)
    (h : walkLoopAt (place vol) read vol mnt collect rounds cluster lfn seen = .ok es) :
    ∀ e ∈ es, EntryAt read vol e := by
  induction rounds generalizing cluster lfn seen with
  | zero => cases h
  | succ rounds ih =>
    obtain ⟨_, h⟩ := ite_error_eq_ok.mp h
    obtain ⟨⟨lfn', seen', ended⟩, hvisit, h⟩ := bind_eq_ok.mp h
    obtain ⟨hlfn', hseen'⟩ := visitSectorsAt_at hlfn hseen hvisit
    cases ended with
    | true =>
      cases h
      exact hseen'
    | false =>
      obtain ⟨next, _, h⟩ := bind_eq_ok.mp h
      obtain ⟨_, h⟩ := ite_error_eq_ok.mp h
      split at h
      · cases h
        exact hseen'
      · exact ih hlfn' hseen' h

/-- Whatever the directory, the walk in unbounded numbers finds every entry at its place. -/
theorem walkAt_at {dir : Dir} (h : walkAt (place vol) read vol mnt collect dir [] = .ok es) :
    ∀ e ∈ es, EntryAt read vol e := by
  unfold walkAt at h
  split at h
  · obtain ⟨⟨lfn, seen, ended⟩, hvisit, h⟩ := bind_eq_ok.mp h
    cases h
    exact (visitSectorsAt_at lfnAt_reset (by simp) hvisit).2
  · exact walkLoopAt_at lfnAt_reset (by simp) h

/-! ### Writing back -/

/-- An image with an entry put at the place `p`. -/
def putAt (image : Image) (p : Nat) (entry : Nat → UInt8) : Image :=
  Function.update image (p / 512) (putEntry (image (p / 512)) (p % 512) entry)

/-- The offset `o` leads `storage_write_directory_entry` to the slot at the place `p`: the entry
is put there and nothing else changes. -/
def Rewrites (vol : Volume) (o p : Nat) : Prop :=
  ∀ entry s, writeDirectoryEntry vol o entry s = (.ok (), { s with image := putAt s.image p entry })

/-- The place of a slot, taken apart. -/
theorem SlotAt.bounds (h : SlotAt read vol o source) :
    o % 512 % 32 = 0 ∧ vol.startLba ≤ o / 512 ∧ o / 512 < vol.startLba + vol.sectorCount := by
  obtain ⟨lba, k, sector, hread, hk, rfl, _⟩ := h
  obtain ⟨n, hn, _⟩ := bind_eq_ok.mp hread
  have := (relativeRange_ok hn).2
  unfold place
  omega

theorem rewrites_of_bounds (hw : vol.readOnly = false)
    (hend : vol.startLba + vol.sectorCount ≤ 4294967296) (hp : p % 512 % 32 = 0)
    (h1 : vol.startLba ≤ p / 512) (h2 : p / 512 < vol.startLba + vol.sectorCount) :
    Rewrites vol p p := by
  intro entry s
  have hlba : p / 512 - vol.startLba < vol.sectorCount := by omega
  have hsector : vol.startLba + (p / 512 - vol.startLba) = p / 512 := by omega
  have hread : readRelative s.read vol (p / 512 - vol.startLba) = .ok (s.image (p / 512)) := by
    rw [readRelative, relativeRange_of_lt hlba hend, hsector]
    rfl
  rw [writeDirectoryEntry, run_bind_ok (run_ensure_pos ⟨by omega, h1⟩),
    run_bind_ok (run_reading.trans (by rw [hread])), writeRelative,
    run_bind_ok (run_ensure_pos hw),
    run_bind_ok (run_ensure_pos hlba), relativeRange_of_lt hlba hend, hsector]
  rfl

/-- Bytes that are put at one place do not show at another. -/
theorem putAt_ne {q : Nat} (h : p / 512 ≠ q / 512) :
    putAt (fun _ _ => 0) p (fun _ => 1) ≠ putAt (fun _ _ => 0) q (fun _ => 1) := by
  intro heq
  have hsector := congrFun (congrFun heq (p / 512)) ⟨p % 512, Nat.mod_lt _ (by decide)⟩
  unfold putAt at hsector
  rw [Function.update_self, Function.update_of_ne h, putEntry, if_pos ⟨le_refl _, by dsimp only; omega⟩]
    at hsector
  cases hsector

/-- **Exactly the sectors below `2 ^ 23`.** -/
theorem rewrites_u32_iff (hw : vol.readOnly = false)
    (hend : vol.startLba + vol.sectorCount ≤ 4294967296) (hp : p % 512 % 32 = 0)
    (h1 : vol.startLba ≤ p / 512) (h2 : p / 512 < vol.startLba + vol.sectorCount) :
    Rewrites vol (u32 p) p ↔ p / 512 < 8388608 := by
  constructor
  · intro h
    by_contra hfar
    -- the write fails, or it is to another sector
    have hrun := h (fun _ => 1) ⟨fun _ _ => 0, 0⟩
    by_cases hlow : vol.startLba ≤ u32 p / 512
    · have hother := rewrites_of_bounds hw hend (by unfold u32; omega) hlow
        (by unfold u32; omega) (fun _ => 1) ⟨fun _ _ => 0, 0⟩
      rw [hrun] at hother
      have himage := congrArg (fun r : Except Err Unit × Store => r.2.image) hother
      exact putAt_ne (by unfold u32; omega) himage
    · rw [writeDirectoryEntry, run_bind_error (run_ensure_neg (fun hin => hlow hin.2))] at hrun
      cases hrun
  · intro hnear
    rw [u32_of_lt (by omega)]
    exact rewrites_of_bounds hw hend hp h1 h2

/-- The sector and the rest that a 32-bit offset stands for. -/
theorem u32_place_iff : (u32 p / 512 = p / 512 ∧ u32 p % 512 = p % 512) ↔ p / 512 < 8388608 := by
  unfold u32
  omega

/-- What is right about a reported offset `o` of a slot at the place `p`. -/
def Leads (vol : Volume) (o p : Nat) : Prop :=
  (o / 512 = p / 512 ∧ o % 512 = p % 512) ∧ Rewrites vol o p

/-- **Addresses of entries.** The walk reports its entries with offsets that are the places
they were read from, modulo `2 ^ 32`. Such an offset leads back to its slot, by division and
for the writer of entries, exactly when the slot lies in a sector below `2 ^ 23`. -/
theorem walkDirectoryLong_addresses {dir : Dir} {es : List LongEntry} (hw : vol.readOnly = false)
    (hend : vol.startLba + vol.sectorCount ≤ 4294967296)
    (h : walkDirectoryLong read vol mnt dir collect [] = .ok es) :
    ∃ places, walkAt (place vol) read vol mnt collect dir [] = .ok places ∧
      es = places.map (LongEntry.relocate u32) ∧ ∀ e ∈ places, EntryAt read vol e ∧
        (Leads vol (u32 e.entryOffset) e.entryOffset ↔ e.entryOffset / 512 < 8388608) ∧
        ∀ o ∈ e.lfnOffsets, (Leads vol (u32 o) o ↔ o / 512 < 8388608) := by
  rw [walkDirectoryLong_u32] at h
  obtain ⟨places, hplaces, rfl⟩ := map_eq_ok.mp h
  have hiff : ∀ {o source}, SlotAt read vol o source → (Leads vol (u32 o) o ↔ o / 512 < 8388608) := by
    intro o source hslot
    obtain ⟨hmod, h1, h2⟩ := hslot.bounds
    rw [Leads, u32_place_iff, rewrites_u32_iff hw hend hmod h1 h2, and_self]
  refine ⟨places, hplaces, rfl, fun e he => ?_⟩
  have hat := walkAt_at hplaces e he
  obtain ⟨source, hslot, _⟩ := hat.short
  refine ⟨hat, hiff hslot, fun o ho => ?_⟩
  obtain ⟨source', hslot', _⟩ := hat.long o ho
  exact hiff hslot'

end

open SmallVolume in
theorem walkDirectoryLong_addresses_near :
    ∃ places, walkAt (place volume) (store 1).read volume mount collect ⟨2, false⟩ [] = .ok places ∧
      ∀ e ∈ places, Leads volume (u32 e.entryOffset) e.entryOffset ↔ e.entryOffset / 512 < 8388608 := by
  obtain ⟨es, hes⟩ := exists_eq_ok (show (walkDirectoryLong (store 1).read volume mount ⟨2, false⟩
    collect []).isOk = true by decide +kernel)
  obtain ⟨places, hplaces, _, hall⟩ := walkDirectoryLong_addresses rfl (by decide) hes
  exact ⟨places, hplaces, fun e he => (hall e he).2.1⟩

namespace FarVolume

/-- The volume of 4200 clusters, four gigabytes into the disk. -/
def volume : Volume := ⟨.mbr, 0, 0x0C, true, false, 8388608, 4265⟩

def store : Store :=
  ⟨fun l => if l = 8388640 then SmallVolume.table else if l = 8388673 then SmallVolume.root 1
    else fun _ => 0, 0⟩

end FarVolume

open FarVolume in
/-- The only entry of the root directory is in sector 8388673. Its reported offset stands for
sector 65, before the volume, and it can be neither deleted nor changed. -/
theorem walkDirectoryLong_far_entry :
    parseBpb volume SmallVolume.boot = .ok SmallVolume.mount ∧
    volume.startLba + volume.sectorCount ≤ 4294967296 ∧
    (walkDirectoryLong store.read volume SmallVolume.mount ⟨2, false⟩ collect []).toOption.map
      (List.map LongEntry.entryOffset) = some [33280] ∧ 33280 / 512 = 65 ∧
    (walkAt (place volume) store.read volume SmallVolume.mount collect ⟨2, false⟩ []).toOption.map
      (List.map LongEntry.entryOffset) = some [4295000576] ∧ 4295000576 / 512 = 8388673 ∧
    (writeDirectoryEntry volume 33280 (fun _ => 0xE5) store).1 = .error .invalid := by
  refine ⟨by decide +kernel, by decide, by decide +kernel, by decide, by decide +kernel, by decide, rfl⟩

end ZephyrOS.Storage
