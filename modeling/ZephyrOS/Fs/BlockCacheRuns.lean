import ZephyrOS.Fs.BlockCacheSync
import ZephyrOS.Fs.BlockCacheValidate

/-!
# The block cache as a sector array

The calls put together. `SpecRun` is the specification: a plain array of sectors,
which reads return and writes change, with no cache, no device and no transfers in
sight. Every history of the cache is a run of it, whatever the device does and
whatever is evicted, bypassed, written back or retried on the way; the array at the
end is what `logical` reads off the state.

A write is not atomic over its sectors: when one of them fails, those before it
have been written. That is the one freedom the specification leaves.
-/

namespace ZephyrOS.BlockCache

inductive Op where
  | read (device : Device) (lba count bufferBytes : Nat)
  | write (device : Device) (lba byteOffset : Nat) (buffer : Nat → UInt8) (size : Nat)
  | writebackStep (budget : Nat)
  | syncDevice (deviceId : DeviceId) (found : Except Err Device)
  | invalidateDevice (deviceId : DeviceId)
  | invalidateRange (deviceId : DeviceId) (lba sectorCount : Nat)
  | clear

inductive Answer where
  | sectors (r : Except Stop (List Sector))
  | unit (r : Except Stop Unit)
  | written (r : Nat × Option Err)

/-- The answer of a call that cannot block. -/
def Answer.ofErr : Except Err Unit → Answer
  | .ok () => .unit (.ok ())
  | .error e => .unit (.error (.err e))

def step (io : Nat → Io) (w : World) : Op → Answer × World
  | .read device lba count bufferBytes =>
    let r := blockCacheRead io device lba count bufferBytes w
    (.sectors r.1, r.2)
  | .write device lba byteOffset buffer size =>
    let r := blockCacheWrite io device lba byteOffset buffer size w
    (.unit r.1, r.2)
  | .writebackStep budget =>
    let r := blockCacheWritebackStep io budget w
    (.written r.1, r.2)
  | .syncDevice deviceId found =>
    let r := blockCacheSyncDevice io deviceId found w
    (.unit r.1, r.2)
  | .invalidateDevice deviceId =>
    let r := blockCacheInvalidateDevice deviceId w.cache
    (.ofErr r.1, { w with cache := r.2 })
  | .invalidateRange deviceId lba sectorCount =>
    let r := blockCacheInvalidateRange deviceId lba sectorCount w.cache
    (.ofErr r.1, { w with cache := r.2 })
  | .clear =>
    let r := blockCacheClear w.cache
    (.ofErr r.1, { w with cache := r.2 })

/-- The calls with their answers, and the state at the end. -/
def run (io : Nat → Io) : World → List Op → List (Op × Answer) × World
  | w, [] => ([], w)
  | w, op :: ops =>
    let r := step io w op
    let rest := run io r.2 ops
    ((op, r.1) :: rest.1, rest.2)

/-- The cache just initialized, over devices with contents `phys`. -/
def start (phys : Disk) : World := ⟨blockCacheInit, phys, []⟩

/-! ### The specification -/

/-- What a call may answer when the array is `L`, and the array after it. -/
inductive Allowed : Disk → Op → Answer → Disk → Prop
  | readOk (L : Disk) (device : Device) (lba count n : Nat) :
      Allowed L (.read device lba count n) (.sectors (.ok (sectorsAt L device.id lba count))) L
  | readError (L : Disk) (device : Device) (lba count n : Nat) (e : Err) :
      Allowed L (.read device lba count n) (.sectors (.error (.err e))) L
  | writeOk (L : Disk) (device : Device) (lba byteOffset : Nat) (buffer : Nat → UInt8) (size : Nat) :
      Allowed L (.write device lba byteOffset buffer size) (.unit (.ok ()))
        (L.write device.id lba byteOffset size buffer (sectorsOf byteOffset size))
  | writeError (L : Disk) (device : Device) (lba byteOffset : Nat) (buffer : Nat → UInt8)
      (size : Nat) (e : Err) (k : Nat) (hk : k = 0 ∨ k < sectorsOf byteOffset size) :
      Allowed L (.write device lba byteOffset buffer size) (.unit (.error (.err e)))
        (L.write device.id lba byteOffset size buffer k)
  | writeback (L : Disk) (budget : Nat) (r : Nat × Option Err) :
      Allowed L (.writebackStep budget) (.written r) L
  | sync (L : Disk) (id : DeviceId) (found : Except Err Device) (r : Except Stop Unit)
      (hr : r ≠ .error .blocked) : Allowed L (.syncDevice id found) (.unit r) L
  | invalidateDevice (L : Disk) (id : DeviceId) (r : Except Err Unit) :
      Allowed L (.invalidateDevice id) (.ofErr r) L
  | invalidateRange (L : Disk) (id : DeviceId) (lba count : Nat) (r : Except Err Unit) :
      Allowed L (.invalidateRange id lba count) (.ofErr r) L
  | clear (L : Disk) (r : Except Err Unit) : Allowed L .clear (.ofErr r) L

inductive SpecRun : Disk → List (Op × Answer) → Disk → Prop
  | nil (L : Disk) : SpecRun L [] L
  | cons {L L' L'' : Disk} {op : Op} {a : Answer} {rest : List (Op × Answer)} :
      Allowed L op a L' → SpecRun L' rest L'' → SpecRun L ((op, a) :: rest) L''

/-! ### The cache refines it -/

section Refines

variable {io : Nat → Io} {L phys : Disk}

/-- One call: an allowed answer, and the array it leaves. -/
theorem step_refines {w : World} (h : Rest w L) (op : Op) :
    ∃ L', Allowed L op (step io w op).1 L' ∧ Rest (step io w op).2 L' := by
  cases op with
  | read device lba count bufferBytes =>
    generalize hr : blockCacheRead io device lba count bufferBytes w = r
    obtain ⟨hrest, hok⟩ : ReadDone L device.id lba count r := hr ▸ blockCacheRead_spec h
    obtain ⟨answer, w'⟩ := r
    simp only [step, hr]
    rcases hok with rfl | ⟨e, rfl⟩
    · exact ⟨L, .readOk .., hrest⟩
    · exact ⟨L, .readError .., hrest⟩
  | write device lba byteOffset buffer size =>
    generalize hr : blockCacheWrite io device lba byteOffset buffer size w = r
    have hdone : WriteDone L device.id lba byteOffset size buffer r :=
      hr ▸ blockCacheWrite_spec h
    obtain ⟨answer, w'⟩ := r
    simp only [step, hr]
    rcases hdone with ⟨rfl, hrest⟩ | ⟨e, k, rfl, hk, hrest⟩
    · exact ⟨_, .writeOk .., hrest⟩
    · exact ⟨_, .writeError _ _ _ _ _ _ e k hk, hrest⟩
  | writebackStep budget =>
    refine ⟨L, .writeback L budget _, ?_⟩
    show Rest (blockCacheWritebackStep io budget w).2 L
    unfold blockCacheWritebackStep
    split
    · exact h
    · have hwb := @writebackLoop_spec none io L budget 0 w h.inv
      exact ⟨hwb.inv, hwb.syncActive.trans h.syncActive⟩
  | syncDevice id found =>
    have hs : Synced L id w (blockCacheSyncDevice io id found w) := blockCacheSyncDevice_spec h
    refine ⟨L, .sync L id found _ ?_, hs.inv, hs.syncActive.trans h.syncActive⟩
    rcases hs.ends with hok | ⟨e, he⟩
    · rw [hok]; exact fun hc => by cases hc
    · rw [he]; exact fun hc => by cases hc
  | invalidateDevice id => exact ⟨L, .invalidateDevice L id _, invalidateDevice_spec h id⟩
  | invalidateRange id lba count =>
    exact ⟨L, .invalidateRange L id lba count _, invalidateRange_spec h⟩
  | clear => exact ⟨L, .clear L _, blockCacheClear_spec h⟩

theorem run_refines : ∀ (ops : List Op) {w : World} {L : Disk}, Rest w L →
    ∃ L', SpecRun L (run io w ops).1 L' ∧ Rest (run io w ops).2 L'
  | [], _, L, h => ⟨L, .nil L, h⟩
  | op :: ops, w, L, h => by
    obtain ⟨L', hallow, hrest⟩ := @step_refines io L w h op
    obtain ⟨L'', hrun, hrest'⟩ := run_refines ops hrest
    exact ⟨L'', .cons hallow hrun, hrest'⟩

theorem rest_start : Rest (start phys) phys := by
  refine ⟨⟨good_init, ⟨fun j _ hl => ?_, fun _ _ _ => rfl⟩, fun j _ _ => ⟨.inl rfl, rfl, rfl⟩⟩, rfl⟩
  rcases hl with hl | hl | hl <;> cases hl

end Refines

/-- **Refinement.** Every history of the cache is a run of the plain sector array
that starts with the contents of the devices. -/
theorem blockCache_refines_array (io : Nat → Io) (phys : Disk) (ops : List Op) :
    SpecRun phys (run io (start phys) ops).1 (run io (start phys) ops).2.logical := by
  obtain ⟨L, hrun, hrest⟩ := @run_refines io ops (start phys) phys rest_start
  rw [hrest.inv.logical_eq]
  exact hrun

/-- A small disk for the examples below. -/
def smallDevice : Device where
  id := [100]
  sectorCount := 8
  sectorSize := 512
  readOnly := false
  online := true
  maxTransferSectors := 8
  canRead := true
  canWrite := true
  capFlush := true

/-- The second sector of a write of 513 bytes cannot be fetched, so the write fails;
the first sector has been written all the same. -/
theorem failed_write_is_visible : ∃ s : Sector,
    (run (fun _ => ⟨some .disk, none⟩) (start fun _ _ _ => 0)
      [.write smallDevice 0 0 (fun _ => 1) 513, .read smallDevice 0 1 512]).1.map Prod.snd
      = [.unit (.error (.err .disk)), .sectors (.ok [s])] ∧ s 0 = 1 :=
  ⟨fun _ => 1, rfl, rfl⟩

/-- **The self-check.** It passes after every history, and what it looks for holds:
each entry in use is in its own chain and no other, the LRU list is one doubly
linked list of the entries in an LRU state, no sector has two entries, and every
entry is consistent in itself. -/
theorem validateState_in_every_history (io : Nat → Io) (phys : Disk) (ops : List Op) :
    blockCacheValidateState (run io (start phys) ops).2.cache = .ok ()
      ∧ ∃ ch l, WF (run io (start phys) ops).2.cache ch l := by
  obtain ⟨L, _, hrest⟩ := @run_refines io ops (start phys) phys rest_start
  exact ⟨validateState_ok hrest.inv.good, hrest.inv.good⟩

/-- **Durability.** After any history, a sync that returns `OK` leaves no entry of the
device dirty or on its way, and the device with the contents of the array. If a
write fails during the call the call returns its error, the entry is dirty with its
data, and a later sync that succeeds brings the device up to the array. -/
theorem syncDevice_durable (io : Nat → Io) (phys : Disk) (ops : List Op) (id : DeviceId)
    (found : Except Err Device) :
    let w := (run io (start phys) ops).2
    let r := blockCacheSyncDevice io id found w
    SpecRun phys (run io (start phys) ops).1 w.logical
      ∧ (r.1 = .ok () ∨ ∃ e, r.1 = .error (.err e))
      ∧ (r.1 = .ok () → (∀ i, i < blockCacheCapacity → (r.2.cache.entries i).deviceId = id →
            (r.2.cache.entries i).state ≠ .dirty ∧ (r.2.cache.entries i).state ≠ .writeback)
          ∧ ∀ lba, r.2.phys id lba = w.logical id lba)
      ∧ (∃ ts, r.2.log = w.log ++ ts ∧ ∀ t ∈ ts, ∀ id' lba e, t = .write id' lba (some e) →
          r.1 = .error (.err e) ∧ id' = id ∧ KeptDirty r.2.cache w.logical id lba)
      ∧ ∀ (io' : Nat → Io) (found' : Except Err Device),
          (blockCacheSyncDevice io' id found' r.2).1 = .ok () →
          ∀ lba, (blockCacheSyncDevice io' id found' r.2).2.phys id lba = w.logical id lba := by
  intro w r
  obtain ⟨L, hrun, hrest⟩ := @run_refines io ops (start phys) phys rest_start
  have hlog : w.logical = L := hrest.inv.logical_eq
  rw [hlog]
  have hs : Synced L id w r := blockCacheSyncDevice_spec hrest
  refine ⟨hrun, hs.ends, fun hok => ⟨fun i hi hd => ⟨fun hc => ?_, fun hc => ?_⟩, fun lba => ?_⟩,
    hs.log, fun io' found' hok lba => ?_⟩
  · exact hs.done hok i ⟨hi, hc, matches_iff.mpr (.inr (by rw [← hd]; rfl))⟩
  · exact hs.inv.not_writeback hi hc
  · exact hs.inv.phys_eq_of_clean (hs.done hok) lba
  · have hs' : Synced L id r.2 (blockCacheSyncDevice io' id found' r.2) :=
      blockCacheSyncDevice_spec ⟨hs.inv, hs.syncActive.trans hrest.syncActive⟩
    exact hs'.inv.phys_eq_of_clean (hs'.done hok) lba

/-- **A device can be taken away after a sync.** After any history and a sync that returns `OK` its
entries can be dropped, and a cache that starts anew on the device has the contents of the array. -/
theorem syncDevice_then_invalidate (io : Nat → Io) (phys : Disk) (ops : List Op) {id : DeviceId}
    {found : Except Err Device} {r : Except Stop Unit × World}
    (hr : blockCacheSyncDevice io id found (run io (start phys) ops).2 = r) (hok : r.1 = .ok ()) :
    (blockCacheInvalidateDevice id r.2.cache).1 = .ok ()
      ∧ (start r.2.phys).logical id = (run io (start phys) ops).2.logical id := by
  obtain ⟨L, -, hrest⟩ := @run_refines io ops (start phys) phys rest_start
  have hs : Synced L id _ r := hr ▸ blockCacheSyncDevice_spec hrest
  have hclean := hs.done hok
  constructor
  · unfold blockCacheInvalidateDevice
    have hid : ¬ (!blockCacheTextTerminated id) = true := by
      intro hid
      rw [← hr, blockCacheSyncDevice.eq_def, if_pos hid] at hok
      cases hok
    rw [if_neg hid, if_neg]
    -- between calls an entry that is in use and not dirty is eligible
    intro hany
    obtain ⟨i, hi, hentry⟩ := List.any_eq_true.mp hany
    obtain ⟨hfree, hdev, hel⟩ := of_decide_eq_true hentry
    rw [List.mem_range] at hi
    obtain ⟨hstate, href, hpins⟩ := hs.inv.idle i hi List.not_mem_nil
    have hvalid := (hstate.resolve_left hfree).resolve_right fun hd =>
      hclean i ⟨hi, hd, matches_iff.mpr (.inr (congrArg some hdev.symm))⟩
    exact hel (eligible_iff.mpr ⟨href, hpins, .inl hvalid⟩)
  · rw [rest_start.inv.logical_eq, hrest.inv.logical_eq]
    exact funext (hs.inv.phys_eq_of_clean hclean)

/-- A sector is written, and the device is synced. -/
def flushed : Except Stop Unit × World :=
  blockCacheSyncDevice (fun _ => ⟨none, none⟩) [100] (.ok smallDevice)
    (run (fun _ => ⟨none, none⟩) (start fun _ _ _ => 0) [.write smallDevice 0 0 (fun _ => 1) 512]).2

theorem flushed_then_invalidate : flushed.1 = .ok ()
    ∧ (blockCacheInvalidateDevice [100] flushed.2.cache).1 = .ok () :=
  ⟨rfl, (syncDevice_then_invalidate _ _ [.write smallDevice 0 0 (fun _ => 1) 512] rfl rfl).1⟩

end ZephyrOS.BlockCache
