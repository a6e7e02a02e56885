import ZephyrOS.Fs.BlockCacheLinks

/-!
# The invariant of the block cache

`WF c ch l` is what every call leaves behind: the chains `ch` hold the entries in
use, each in the bucket of its own key, the LRU list `l` holds those in an LRU
state, every entry is consistent in itself, and no two are for the same sector.

Each way the source edits an entry is shown once to keep it, with the entry it
leaves. From here on the links are out of sight: `Good c` is all that later proofs
use, together with what `find` and `chooseVictim` return in a good cache.
-/

namespace ZephyrOS.BlockCache

open Lib (Linked DLinked)

open List Function

/-- The entries without their links. -/
def Cache.blocks (c : Cache) (j : Nat) : Block := (c.entries j).toBlock

/-- An entry is consistent in itself. -/
structure BlockOk (b : Block) : Prop where
  generation : b.generation ≠ 0
  reset : b.state = .free → b.deviceId = [] ∧ b.references = 0 ∧ b.pins = 0
    ∧ b.dirtyFirst = 0 ∧ b.dirtyEnd = 0
  key : b.state ≠ .free → b.deviceId.length < blockDeviceIdSize ∧ b.blockSize = blockCacheBlockSize
  range : b.state = .dirty ∨ b.state = .writeback →
    b.dirtyFirst < b.dirtyEnd ∧ b.dirtyEnd ≤ blockCacheBlockSize
  clean : b.state = .reading ∨ b.state = .valid ∨ b.state = .error →
    b.dirtyFirst = 0 ∧ b.dirtyEnd = 0
  held : b.state = .writeback → b.pins ≠ 0 ∧ b.references ≠ 0

structure WF (c : Cache) (ch : Nat → List Nat) (l : List Nat) : Prop where
  chains : Chains c ch
  lru : LruList c l
  inChain : ∀ b j, b < blockCacheHashBuckets →
    (j ∈ ch b ↔ j < blockCacheCapacity ∧ (c.blocks j).state ≠ .free ∧ (c.blocks j).bucket = b)
  inLru : ∀ j, j ∈ l ↔ j < blockCacheCapacity ∧ lruState (c.blocks j).state = true
  blocks : ∀ j, j < blockCacheCapacity → BlockOk (c.blocks j)
  unique : ∀ j k, j < blockCacheCapacity → k < blockCacheCapacity →
    (c.blocks j).state ≠ .free → (c.blocks k).state ≠ .free →
    (c.blocks j).deviceId = (c.blocks k).deviceId → (c.blocks j).lba = (c.blocks k).lba → j = k

def Good (c : Cache) : Prop := ∃ ch l, WF c ch l

/-- `c'` differs from `c` in entry `i` alone, which is now `b`. -/
structure Edited (c c' : Cache) (i : Nat) (b : Block) : Prop where
  blocks : c'.blocks = update c.blocks i b
  syncActive : c'.syncActive = c.syncActive

/-- An edit that leaves the cache in order. -/
structure Edits (c c' : Cache) (i : Nat) (b : Block) : Prop where
  good : Good c'
  edited : Edited c c' i b

variable {c c' : Cache} {f : Entry → Entry} {i : Nat} {ch ch' : Nat → List Nat} {l l' : List Nat}
  {b : Block} {j : Nat} {id : DeviceId} {lba : Nat}

theorem SameBlocks.blocks (h : SameBlocks c c') : c'.blocks = c.blocks :=
  funext h.block

theorem blocks_modify : (c.modify i f).blocks = update c.blocks i (f (c.entries i)).toBlock := by
  funext j
  unfold Cache.blocks
  rw [modify_entries]
  by_cases h : j = i
  · rw [if_pos h, h, update_self]
  · rw [if_neg h, update_of_ne h]

theorem modify_modify (g : Entry → Entry) : (c.modify i f).modify i g = c.modify i (g ∘ f) := by
  unfold Cache.modify
  simp only [update_self, update_idem, comp]

/-! ### Lists and contents side by side -/

/-- The chains, the LRU list and what the entries hold. -/
structure Shape (c : Cache) (ch : Nat → List Nat) (l : List Nat) (B : Nat → Block) (sync : Bool) :
    Prop where
  chains : Chains c ch
  lru : LruList c l
  blocks : c.blocks = B
  sync : c.syncActive = sync

theorem WF.shape (h : WF c ch l) : Shape c ch l c.blocks c.syncActive := ⟨h.chains, h.lru, rfl, rfl⟩

theorem LruList.notMem_erase (h : LruList c l) : i ∉ l.erase i := fun hc =>
  ((Nodup.mem_erase_iff (DLinked.nodup h)).mp hc).1 rfl

section Shape

variable {B : Nat → Block} {sync : Bool} (h : Shape c ch l B sync)

include h

theorem Shape.lruRemove (i : Nat) : Shape (c.lruRemove i) ch (l.erase i) B sync := by
  obtain ⟨hl, hb, hh⟩ := lruRemove_spec h.lru i
  exact ⟨h.chains.congr hh, hl, hb.blocks.trans h.blocks, hb.syncActive.trans h.sync⟩

theorem Shape.push (hi : i ∉ l) : Shape (c.lruPushFront i) ch (i :: l) B sync := by
  obtain ⟨hl, hb, hh⟩ := lruPushFront_spec h.lru hi
  exact ⟨h.chains.congr hh, hl, hb.blocks.trans h.blocks, hb.syncActive.trans h.sync⟩

/-- Taken out and put back in front. -/
theorem Shape.front (i : Nat) : Shape ((c.lruRemove i).lruPushFront i) ch (i :: l.erase i) B sync :=
  (h.lruRemove i).push h.lru.notMem_erase

theorem Shape.modify_of {g : Block → Block}
    (hf : f (c.entries i) = { c.entries i with toBlock := g (c.entries i).toBlock }) :
    Shape (c.modify i f) ch l (update B i (g (B i))) sync := by
  have hlinks : ∀ j, ((c.modify i f).entries j).hashNext = (c.entries j).hashNext ∧
      ((c.modify i f).entries j).lruPrevious = (c.entries j).lruPrevious ∧
      ((c.modify i f).entries j).lruNext = (c.entries j).lruNext := by
    intro j
    rw [modify_entries]
    split
    · rename_i hj
      rw [hf, hj]
      exact ⟨rfl, rfl, rfl⟩
    · exact ⟨rfl, rfl, rfl⟩
  refine ⟨h.chains.congr ⟨fun j => (hlinks j).1, rfl⟩,
    h.lru.congr ⟨fun j => (hlinks j).2.1, fun j => (hlinks j).2.2, rfl, rfl⟩, ?_, h.sync⟩
  rw [blocks_modify, hf, ← h.blocks]
  rfl

/-- A write to an entry that leaves its links as they are. -/
theorem Shape.modify (i : Nat) (g : Block → Block) :
    Shape (c.modify i fun e => { e with toBlock := g e.toBlock }) ch l (update B i (g (B i))) sync :=
  h.modify_of rfl

/-- The links of an entry on no list are cleared already. -/
theorem Shape.modify_off (hch : ∀ k, k < blockCacheHashBuckets → i ∉ ch k) (hl : i ∉ l)
    (g : Block → Block) :
    Shape (c.modify i fun e => ⟨g e.toBlock, none, none, none⟩) ch l (update B i (g (B i))) sync := by
  obtain ⟨hprev, hnext⟩ := DLinked.off h.lru i hl
  refine h.modify_of ?_
  dsimp only
  rw [h.chains.off i hch, hprev, hnext]

theorem Shape.hashRemove (hin : i ∈ ch (B i).bucket)
    (hlt : ∀ k j, k < blockCacheHashBuckets → j ∈ ch k → j < blockCacheCapacity)
    (hkey : ∀ k j, k < blockCacheHashBuckets → j ∈ ch k → (B j).bucket = k) :
    Shape (c.hashRemove i) (update ch (B i).bucket ((ch (B i).bucket).erase i)) l B sync := by
  obtain ⟨hc, hb, hl⟩ := @hashRemove_spec c i ch h.chains (by rw [← h.blocks] at hin; exact hin) hlt
    (by rw [← h.blocks] at hkey; exact hkey)
  exact ⟨by rw [← h.blocks]; exact hc, h.lru.congr hl, hb.blocks.trans h.blocks,
    hb.syncActive.trans h.sync⟩

theorem Shape.hashInsert (hnew : ∀ k, k < blockCacheHashBuckets → i ∉ ch k) :
    Shape (c.hashInsert i) (update ch (B i).bucket (i :: ch (B i).bucket)) l B sync := by
  obtain ⟨hc, hb, hl⟩ := hashInsert_spec h.chains hnew
  exact ⟨by rw [← h.blocks]; exact hc, h.lru.congr hl, hb.blocks.trans h.blocks,
    hb.syncActive.trans h.sync⟩

end Shape

/-- A change of one entry keeps the invariant if the lists follow it. -/
theorem WF.edit (h : WF c ch l) (hs : Shape c' ch' l' (update c.blocks i b) c.syncActive)
    (hi : i < blockCacheCapacity)
    (hchO : ∀ k j, k < blockCacheHashBuckets → j ≠ i → (j ∈ ch' k ↔ j ∈ ch k))
    (hchI : ∀ k, k < blockCacheHashBuckets → (i ∈ ch' k ↔ b.state ≠ .free ∧ b.bucket = k))
    (hlO : ∀ j, j ≠ i → (j ∈ l' ↔ j ∈ l)) (hlI : i ∈ l' ↔ lruState b.state = true) (hok : BlockOk b)
    (hnew : b.state ≠ .free → ∀ j, j < blockCacheCapacity → j ≠ i → (c.blocks j).state ≠ .free →
      ¬ ((c.blocks j).deviceId = b.deviceId ∧ (c.blocks j).lba = b.lba)) :
    Edits c c' i b := by
  have hself : c'.blocks i = b := by rw [hs.blocks, update_self]
  have hother : ∀ j, j ≠ i → c'.blocks j = c.blocks j := fun j hj => by
    rw [hs.blocks, update_of_ne hj]
  refine ⟨⟨ch', l', hs.chains, hs.lru, fun k j hk => ?_, fun j => ?_, fun j hj => ?_,
    fun j k hj hk hsj hsk hd ha => ?_⟩, hs.blocks, hs.sync⟩
  · by_cases hji : j = i
    · rw [hji, hself, hchI k hk]
      exact ⟨fun hc => ⟨hi, hc⟩, fun hc => hc.2⟩
    · rw [hother j hji, hchO k j hk hji, h.inChain k j hk]
  · by_cases hji : j = i
    · rw [hji, hself, hlI]
      exact ⟨fun hc => ⟨hi, hc⟩, fun hc => hc.2⟩
    · rw [hother j hji, hlO j hji, h.inLru j]
  · by_cases hji : j = i
    · rw [hji, hself]; exact hok
    · rw [hother j hji]; exact h.blocks j hj
  · by_cases hji : j = i
    · by_cases hki : k = i
      · rw [hji, hki]
      · rw [hji, hself] at hsj hd ha
        rw [hother k hki] at hsk hd ha
        exact absurd ⟨hd.symm, ha.symm⟩ (hnew hsj k hk hki hsk)
    by_cases hki : k = i
    · rw [hki, hself] at hsk hd ha
      rw [hother j hji] at hsj hd ha
      exact absurd ⟨hd, ha⟩ (hnew hsk j hj hji hsj)
    · rw [hother j hji] at hsj hd ha
      rw [hother k hki] at hsk hd ha
      exact h.unique j k hj hk hsj hsk hd ha

section Ops

/-- An entry without changes of its own, once its key and its generation are right. -/
theorem blockOk_clean (hs : b.state = .reading ∨ b.state = .valid) (hg : b.generation ≠ 0)
    (hk : b.deviceId.length < blockDeviceIdSize ∧ b.blockSize = blockCacheBlockSize)
    (hc : b.dirtyFirst = 0 ∧ b.dirtyEnd = 0) : BlockOk b := by
  refine ⟨hg, fun h => ?_, fun _ => hk, fun h => ?_, fun _ => hc, fun h => ?_⟩ <;>
    rcases hs with hs | hs <;> simp [hs] at h

theorem blockOk_dirty (hs : b.state = .dirty) (hg : b.generation ≠ 0)
    (hk : b.deviceId.length < blockDeviceIdSize ∧ b.blockSize = blockCacheBlockSize)
    (hr : b.dirtyFirst < b.dirtyEnd ∧ b.dirtyEnd ≤ blockCacheBlockSize) : BlockOk b := by
  refine ⟨hg, fun h => ?_, fun _ => hk, fun _ => hr, fun h => ?_, fun h => ?_⟩ <;> simp [hs] at h

theorem WF.notMem_lru (h : WF c ch l) (hs : lruState (c.blocks i).state = false) : i ∉ l := by
  intro hc
  have hl := ((h.inLru i).mp hc).2
  rw [hs] at hl
  cases hl

/-- Edits that keep an entry in use under its key: the chains stay. -/
theorem WF.edit_inUse (h : WF c ch l) (hs : Shape c' ch l' (update c.blocks i b) c.syncActive)
    (hi : i < blockCacheCapacity) (hu : (c.blocks i).state ≠ .free) (hb : b.state ≠ .free)
    (hd : b.deviceId = (c.blocks i).deviceId) (ha : b.lba = (c.blocks i).lba)
    (hz : b.blockSize = (c.blocks i).blockSize) (hlO : ∀ j, j ≠ i → (j ∈ l' ↔ j ∈ l))
    (hlI : i ∈ l' ↔ lruState b.state = true) (hok : BlockOk b) : Edits c c' i b := by
  have hbk : b.bucket = (c.blocks i).bucket := by
    unfold Block.bucket
    rw [hd, ha, hz]
  refine h.edit hs hi (fun k j _ _ => .rfl) (fun k hk => ?_) hlO hlI hok (fun _ j hj hji hsj hc => ?_)
  · rw [h.inChain k i hk, hbk]
    exact ⟨fun hc => ⟨hb, hc.2.2⟩, fun hc => ⟨hi, hu, hc.2⟩⟩
  · rw [hd, ha] at hc
    exact hji (h.unique j i hj hi hsj hu hc.1 hc.2)

/-- A write to the fields of an entry that leaves its state and key. -/
theorem WF.modify_fields (h : WF c ch l) (hi : i < blockCacheCapacity) (g : Block → Block)
    (hu : (c.blocks i).state ≠ .free) (hst : (g (c.blocks i)).state = (c.blocks i).state)
    (hd : (g (c.blocks i)).deviceId = (c.blocks i).deviceId)
    (ha : (g (c.blocks i)).lba = (c.blocks i).lba)
    (hz : (g (c.blocks i)).blockSize = (c.blocks i).blockSize) (hok : BlockOk (g (c.blocks i))) :
    Edits c (c.modify i fun e => { e with toBlock := g e.toBlock }) i (g (c.blocks i)) := by
  refine h.edit_inUse (h.shape.modify i g) hi hu (by rw [hst]; exact hu) hd ha hz (fun _ _ => .rfl)
    ?_ hok
  rw [h.inLru i, hst]
  exact ⟨fun hc => hc.2, fun hc => ⟨hi, hc⟩⟩

theorem mem_front (hj : j ≠ i) : j ∈ i :: l.erase i ↔ j ∈ l := by
  rw [mem_cons, mem_erase_of_ne hj]
  exact ⟨fun hc => hc.resolve_left hj, .inr⟩

variable {g lba : Nat} {id : DeviceId} {first «end» : Nat}

theorem nextGeneration_ne : nextGeneration g ≠ 0 := by
  unfold nextGeneration
  split
  · decide
  · assumption

/-! ### A hit -/

theorem touch_spec (h : WF c ch l) (hi : i < blockCacheCapacity)
    (hs : (c.blocks i).state = .valid ∨ (c.blocks i).state = .dirty) :
    Edits c (c.touch i) i (c.blocks i) := by
  -- the entry is held by one more and one fewer, so nothing but the links has changed
  have hshape := ((h.shape.modify i fun b => { b with references := b.references + 1 }).front
    i).modify i fun b => { b with references := b.references - 1 }
  rw [update_self, update_idem] at hshape
  have hnf : (c.blocks i).state ≠ .free := by rcases hs with hs | hs <;> rw [hs] <;> decide
  exact h.edit_inUse hshape hi hnf hnf rfl rfl rfl (fun j hj => mem_front hj)
    ⟨fun _ => by rcases hs with hs | hs <;> rw [hs] <;> decide, fun _ => mem_cons_self⟩
    (h.blocks i hi)

/-! ### Dirtying -/

/-- The entry `block_cache_mark_dirty_locked` leaves. -/
def Block.marked (b : Block) (first «end» : Nat) : Block :=
  { b with
    dirtyFirst := if b.dirtyEnd = 0 ∨ first < b.dirtyFirst then first else b.dirtyFirst
    dirtyEnd := if b.dirtyEnd < «end» then «end» else b.dirtyEnd
    state := .dirty
    status := none }

theorem BlockOk.dirtyEnd_le (h : BlockOk b) : b.dirtyEnd ≤ blockCacheBlockSize := by
  cases hs : b.state with
  | free => rw [(h.reset hs).2.2.2.2]; exact Nat.zero_le _
  | reading => rw [(h.clean (.inl hs)).2]; exact Nat.zero_le _
  | valid => rw [(h.clean (.inr (.inl hs))).2]; exact Nat.zero_le _
  | error => rw [(h.clean (.inr (.inr hs))).2]; exact Nat.zero_le _
  | dirty => exact (h.range (.inl hs)).2
  | writeback => exact (h.range (.inr hs)).2

theorem BlockOk.marked (h : BlockOk b) (hs : b.state ≠ .free)
    (hlt : first < «end») (hle : «end» ≤ blockCacheBlockSize) : BlockOk (b.marked first «end») := by
  refine blockOk_dirty rfl h.generation (h.key hs) ?_
  have hold := h.dirtyEnd_le
  unfold Block.marked
  dsimp only
  split <;> split <;> omega

/-- The guard in `block_cache_mark_dirty_locked` is the one `lruRemove` has itself. -/
theorem lruRemove_if_linked : (if c.lruLinked i then c.lruRemove i else c) = c.lruRemove i := by
  split
  · rfl
  · rename_i hn
    unfold Cache.lruRemove
    rw [if_pos]
    simpa [Cache.lruLinked] using hn

theorem markDirty_spec (h : WF c ch l) (hi : i < blockCacheCapacity)
    (hs : (c.blocks i).state ≠ .free) (hlt : first < «end») (hle : «end» ≤ blockCacheBlockSize) :
    Edits c (c.markDirty i first «end») i ((c.blocks i).marked first «end») := by
  have hshape := ((h.shape.modify i fun b => { b with
      dirtyFirst := if b.dirtyEnd = 0 ∨ first < b.dirtyFirst then first else b.dirtyFirst
      dirtyEnd := if b.dirtyEnd < «end» then «end» else b.dirtyEnd }).front i).modify i fun b =>
    { b with state := .dirty, status := none }
  rw [update_self, update_idem, ← lruRemove_if_linked] at hshape
  exact h.edit_inUse hshape hi hs (by simp [Block.marked]) rfl rfl rfl (fun j hj => mem_front hj)
    ⟨fun _ => rfl, fun _ => mem_cons_self⟩ ((h.blocks i hi).marked hs hlt hle)

/-! ### Giving an entry up and taking one -/

/-- The entry `block_cache_release_locked` leaves. -/
def Block.released (b : Block) : Block :=
  { b with
    deviceId := [], lba := 0, blockSize := 0, state := .free, references := 0, pins := 0,
    status := some .state, dirtyFirst := 0, dirtyEnd := 0,
    generation := nextGeneration b.generation }

theorem blockOk_released : BlockOk b.released where
  generation := nextGeneration_ne
  reset := fun _ => ⟨rfl, rfl, rfl, rfl, rfl⟩
  key := fun hc => absurd rfl hc
  range := fun hc => absurd hc (by simp [Block.released])
  clean := fun hc => absurd hc (by simp [Block.released])
  held := fun hc => absurd hc (by simp [Block.released])

theorem release_spec (h : WF c ch l) (hi : i < blockCacheCapacity)
    (hs : (c.blocks i).state ≠ .free) :
    Edits c (c.release i) i (c.blocks i).released := by
  have hbl := bucket_lt (c.blocks i)
  have hshape := h.shape.hashRemove ((h.inChain _ i hbl).mpr ⟨hi, hs, rfl⟩)
    (fun b j hb hj => ((h.inChain b j hb).mp hj).1) (fun b j hb hj => ((h.inChain b j hb).mp hj).2.2)
  -- an entry that is not in an LRU state is not on the list, so removing it changes nothing
  have hguard : (if lruState ((c.hashRemove i).entries i).state then (c.hashRemove i).lruRemove i
      else c.hashRemove i) = (c.hashRemove i).lruRemove i := by
    split
    · rfl
    rename_i hn
    refine (lruRemove_of_notMem hshape.lru fun hc => hn ?_).symm
    rw [show ((c.hashRemove i).entries i).state = (c.blocks i).state from
      congrArg Block.state (congrFun hshape.blocks i)]
    exact ((h.inLru i).mp hc).2
  have hnotch : ∀ b, b < blockCacheHashBuckets →
      i ∉ update ch (c.blocks i).bucket ((ch (c.blocks i).bucket).erase i) b := by
    intro b hb hc
    by_cases hbb : b = (c.blocks i).bucket
    · rw [hbb, update_self] at hc
      exact ((Nodup.mem_erase_iff (h.chains.linked _ hbl).nodup).mp hc).1 rfl
    · rw [update_of_ne hbb] at hc
      exact hbb ((h.inChain b i hb).mp hc).2.2.symm
  have hoff := (hshape.lruRemove i).modify_off hnotch h.lru.notMem_erase Block.released
  unfold Cache.release
  rw [if_neg (show ¬ (c.entries i).state = .free from hs)]
  dsimp only
  rw [hguard]
  refine h.edit hoff hi ?_ ?_ ?_ ?_ blockOk_released fun hc => absurd rfl hc
  · intro k j hk hj
    by_cases hkb : k = (c.blocks i).bucket
    · rw [hkb, update_self, mem_erase_of_ne hj]
    · rw [update_of_ne hkb]
  · exact fun k hk => ⟨fun hc => absurd hc (hnotch k hk), fun hc => absurd rfl hc.1⟩
  · exact fun j hj => mem_erase_of_ne hj
  · exact ⟨fun hc => absurd hc h.lru.notMem_erase, nofun⟩

/-- The entry `block_cache_reserve_run_locked` makes for a sector. -/
def Block.claimed (b : Block) (deviceId : DeviceId) (lba : Nat) : Block :=
  { b with
    generation := nextGeneration b.generation, deviceId := blockCacheCopyText deviceId,
    lba := lba, blockSize := blockCacheBlockSize, state := .reading, references := 0, pins := 0,
    status := some .state, dirtyFirst := 0, dirtyEnd := 0 }

theorem copyText_length_lt : (blockCacheCopyText id).length < blockDeviceIdSize := by
  unfold blockCacheCopyText
  rw [length_take]
  exact Nat.lt_of_le_of_lt (Nat.min_le_left _ _) (by decide)

theorem blockOk_claimed : BlockOk (b.claimed id lba) :=
  blockOk_clean (.inl rfl) nextGeneration_ne ⟨copyText_length_lt, rfl⟩ ⟨rfl, rfl⟩

theorem claim_spec (h : WF c ch l) (hi : i < blockCacheCapacity) (hs : (c.blocks i).state = .free)
    (hnew : ∀ j, j < blockCacheCapacity → (c.blocks j).state ≠ .free →
      ¬ ((c.blocks j).deviceId = blockCacheCopyText id ∧ (c.blocks j).lba = lba)) :
    Edits c (c.claim i id lba) i ((c.blocks i).claimed id lba) := by
  have hnotch : ∀ b, b < blockCacheHashBuckets → i ∉ ch b := fun b hb hc =>
    ((h.inChain b i hb).mp hc).2.1 hs
  have hnotl : i ∉ l := h.notMem_lru (by rw [hs]; rfl)
  have hshape := (h.shape.modify_off hnotch hnotl (Block.claimed · id lba)).hashInsert hnotch
  rw [update_self] at hshape
  refine h.edit hshape hi ?_ ?_ (fun _ _ => .rfl) ?_ blockOk_claimed
    fun _ j hj _ hsj => hnew j hj hsj
  · intro k j hk hj
    by_cases hkb : k = ((c.blocks i).claimed id lba).bucket
    · rw [hkb, update_self, mem_cons]
      exact ⟨fun hc => hc.resolve_left hj, .inr⟩
    · rw [update_of_ne hkb]
  · intro k hk
    by_cases hkb : k = ((c.blocks i).claimed id lba).bucket
    · rw [hkb, update_self]
      exact ⟨fun _ => ⟨by simp [Block.claimed], rfl⟩, fun _ => mem_cons_self⟩
    · rw [update_of_ne hkb]
      exact ⟨fun hc => absurd hc (hnotch k hk), fun hc => absurd hc.2.symm hkb⟩
  · exact ⟨fun hc => absurd hc hnotl, nofun⟩

/-! ### Entries that come back to the list -/

/-- An entry that is off the list is rewritten, then pushed to the front. -/
theorem modify_push_spec (h : WF c ch l) (hi : i < blockCacheCapacity)
    (hs : (c.blocks i).state ≠ .free) (hnl : lruState (c.blocks i).state = false) (g : Block → Block)
    (hd : (g (c.blocks i)).deviceId = (c.blocks i).deviceId)
    (ha : (g (c.blocks i)).lba = (c.blocks i).lba)
    (hz : (g (c.blocks i)).blockSize = (c.blocks i).blockSize)
    (hb : lruState (g (c.blocks i)).state = true) (hok : BlockOk (g (c.blocks i))) :
    Edits c ((c.modify i fun e => { e with toBlock := g e.toBlock }).lruPushFront i) i
      (g (c.blocks i)) := by
  have hbf : (g (c.blocks i)).state ≠ .free := fun hc => by rw [hc] at hb; cases hb
  refine h.edit_inUse ((h.shape.modify i g).push (h.notMem_lru hnl)) hi hs hbf hd ha hz
    (fun j hj => ?_) ⟨fun _ => hb, fun _ => mem_cons_self⟩ hok
  rw [mem_cons]
  exact ⟨fun hc => hc.resolve_left hj, .inr⟩

/-- The entry a completed read leaves. -/
def Block.filled (b : Block) (data : Sector) : Block :=
  { b with data := data, state := .valid, status := none }

theorem fill_spec (h : WF c ch l) (hi : i < blockCacheCapacity)
    (hs : (c.blocks i).state = .reading) (data : Sector → Sector) :
    Edits c ((c.modify i fun e =>
        { e with data := data e.data, state := .valid, status := none }).lruPushFront i) i
      ((c.blocks i).filled (data (c.blocks i).data)) := by
  have hok := h.blocks i hi
  have hnf : (c.blocks i).state ≠ .free := by rw [hs]; decide
  exact modify_push_spec h hi hnf (by rw [hs]; decide) (fun b => b.filled (data b.data)) rfl rfl rfl rfl
    (blockOk_clean (.inr rfl) hok.generation (hok.key hnf) (hok.clean (.inl hs)))

/-! ### Writing back -/

/-- The entry while its transfer is under way. -/
def Block.selected (b : Block) : Block :=
  { b with state := .writeback, references := b.references + 1, pins := b.pins + 1 }

/-- The entry after it. -/
def Block.finished (b : Block) : Option Err → Block
  | none => { b with
      state := .valid, status := none, dirtyFirst := 0, dirtyEnd := 0,
      pins := b.pins - 1, references := b.references - 1 }
  | some err => { b with
      state := .dirty, status := some err, pins := b.pins - 1, references := b.references - 1 }

theorem select_spec (h : WF c ch l) (hi : i < blockCacheCapacity)
    (hs : (c.blocks i).state = .dirty) :
    Edits c ((c.lruRemove i).modify i fun e =>
        { e with state := .writeback, references := e.references + 1, pins := e.pins + 1 }) i
      (c.blocks i).selected := by
  have hok := h.blocks i hi
  have hnf : (c.blocks i).state ≠ .free := by rw [hs]; decide
  refine h.edit_inUse ((h.shape.lruRemove i).modify i Block.selected) hi hnf
    (by simp [Block.selected]) rfl rfl rfl (fun j hj => mem_erase_of_ne hj)
    ⟨fun hc => absurd hc h.lru.notMem_erase, nofun⟩ ?_
  exact
    { generation := hok.generation
      reset := fun hc => absurd hc (by simp [Block.selected])
      key := fun _ => hok.key hnf
      range := fun _ => hok.range (.inl hs)
      clean := fun hc => absurd hc (by simp [Block.selected])
      held := fun _ => ⟨Nat.succ_ne_zero _, Nat.succ_ne_zero _⟩ }

theorem finish_spec (h : WF c ch l) (hi : i < blockCacheCapacity)
    (hs : (c.blocks i).state = .writeback) (result : Option Err) :
    Edits c (c.finishWriteback i result) i ((c.blocks i).finished result) := by
  have hok := h.blocks i hi
  have hnf : (c.blocks i).state ≠ .free := by rw [hs]; decide
  have heq : c.finishWriteback i result = (c.modify i fun e =>
      { e with toBlock := e.toBlock.finished result }).lruPushFront i := by
    unfold Cache.finishWriteback
    dsimp only
    rw [modify_modify]
    cases result with
    | none => exact if_pos (.inl (by rw [modify_entries_self]; rfl))
    | some err => exact if_pos (.inr (by rw [modify_entries_self]; rfl))
  rw [heq]
  refine modify_push_spec h hi hnf (by rw [hs]; decide) (Block.finished · result) ?_ ?_ ?_ ?_ ?_ <;>
    cases result
  any_goals rfl
  · exact blockOk_clean (.inr rfl) hok.generation (hok.key hnf) ⟨rfl, rfl⟩
  · exact blockOk_dirty rfl hok.generation (hok.key hnf) (hok.range (.inr hs))

/-! ### Looking things up -/

theorem length_le_capacity (hn : l.Nodup) (hlt : ∀ j ∈ l, j < blockCacheCapacity) :
    l.length ≤ blockCacheCapacity := by
  have hsub : l ⊆ range blockCacheCapacity := fun j hj => mem_range.mpr (hlt j hj)
  have hle := (Nodup.subperm hn hsub).length_le
  rwa [length_range] at hle

theorem WF.chain_length_le (h : WF c ch l) {b : Nat} (hb : b < blockCacheHashBuckets) :
    (ch b).length ≤ blockCacheCapacity :=
  length_le_capacity (h.chains.linked b hb).nodup fun j hj => ((h.inChain b j hb).mp hj).1

theorem WF.lru_length_le (h : WF c ch l) : l.length ≤ blockCacheCapacity :=
  length_le_capacity (DLinked.nodup h.lru) fun j hj => ((h.inLru j).mp hj).1

theorem hash_lt :
    blockCacheHash id lba blockCacheBlockSize < blockCacheHashBuckets := Nat.mod_lt _ (by decide)

/-- The search goes over the chain of the key's bucket. -/
theorem WF.find_eq (h : WF c ch l) :
    c.find id lba blockCacheBlockSize = (ch (blockCacheHash id lba blockCacheBlockSize)).find?
      fun i => (c.entries i).deviceId = id ∧ (c.entries i).lba = lba
        ∧ (c.entries i).blockSize = blockCacheBlockSize :=
  Lib.walkFind_eq (h.chains.linked _ hash_lt) (h.chain_length_le hash_lt)

end Ops

/-- An entry in use for the sector. -/
structure Holds (c : Cache) (i : Nat) (id : DeviceId) (lba : Nat) : Prop where
  lt : i < blockCacheCapacity
  inUse : (c.blocks i).state ≠ .free
  deviceId : (c.blocks i).deviceId = id
  lba : (c.blocks i).lba = lba

theorem find_some (hg : Good c)
    (h : c.find id lba blockCacheBlockSize = some i) : Holds c i id lba := by
  obtain ⟨ch, l, hwf⟩ := hg
  rw [hwf.find_eq] at h
  obtain ⟨hlt, hs, _⟩ := (hwf.inChain _ i hash_lt).mp (mem_of_find?_eq_some h)
  have hkey := find?_some h
  obtain ⟨hd, ha, _⟩ := of_decide_eq_true hkey
  exact ⟨hlt, hs, hd, ha⟩

theorem find_none (hg : Good c) (h : c.find id lba blockCacheBlockSize = none)
    (i : Nat) : ¬ Holds c i id lba := by
  obtain ⟨ch, l, hwf⟩ := hg
  intro hh
  rw [hwf.find_eq, find?_eq_none] at h
  have hz := ((hwf.blocks i hh.lt).key hh.inUse).2
  refine h i ((hwf.inChain _ i hash_lt).mpr ⟨hh.lt, hh.inUse, ?_⟩)
    (decide_eq_true ⟨hh.deviceId, hh.lba, hz⟩)
  unfold Block.bucket
  rw [hh.deviceId, hh.lba, hz]

theorem Holds.unique (hg : Good c) (hi : Holds c i id lba) (hj : Holds c j id lba) : i = j := by
  obtain ⟨ch, l, hwf⟩ := hg
  exact hwf.unique i j hi.lt hj.lt hi.inUse hj.inUse (hi.deviceId.trans hj.deviceId.symm)
    (hi.lba.trans hj.lba.symm)

theorem chooseVictim_spec (hg : Good c) (h : c.chooseVictim = some i) :
    i < blockCacheCapacity ∧ ((c.blocks i).state = .free ∨ (c.blocks i).eligible = true) := by
  obtain ⟨ch, l, hwf⟩ := hg
  unfold Cache.chooseVictim at h
  split at h
  · rename_i j hj
    obtain rfl := Option.some.inj h
    have hfree := find?_some hj
    exact ⟨mem_range.mp (mem_of_find?_eq_some hj), .inl (of_decide_eq_true hfree)⟩
  rw [Lib.walkFind_eq hwf.lru.bwd (by rw [length_reverse]; exact hwf.lru_length_le)] at h
  have hmem := mem_of_find?_eq_some h
  rw [mem_reverse, hwf.inLru] at hmem
  have helig := find?_some h
  exact ⟨hmem.1, .inr helig⟩

theorem good_init : Good blockCacheInit := by
  refine ⟨fun _ => [], [], ?_⟩
  have hok : BlockOk initialEntry.toBlock :=
    { generation := by decide
      reset := fun _ => ⟨rfl, rfl, rfl, rfl, rfl⟩
      key := fun hc => absurd rfl hc
      range := fun hc => by rcases hc with hc | hc <;> cases hc
      clean := fun hc => by rcases hc with hc | hc | hc <;> cases hc
      held := fun hc => by cases hc }
  exact
    { chains := ⟨fun _ _ => rfl, fun _ _ => rfl⟩
      lru := ⟨rfl, rfl, fun _ _ => ⟨rfl, rfl⟩⟩
      inChain := fun b j _ => ⟨fun hc => absurd hc not_mem_nil, fun hc => absurd rfl hc.2.1⟩
      inLru := fun j => ⟨fun hc => absurd hc not_mem_nil, fun hc => by cases hc.2⟩
      blocks := fun _ _ => hok
      unique := fun _ _ _ _ hs => absurd rfl hs }

end ZephyrOS.BlockCache
