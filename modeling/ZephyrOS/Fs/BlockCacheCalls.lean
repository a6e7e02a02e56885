import ZephyrOS.Fs.BlockCacheCoherence

/-!
# What each call does

One lemma per call of the cache, for any outcome of its transfers: reads and
write-backs leave the believed contents alone, a write moves them sector by
sector, and every call ends with all entries idle again.
-/

namespace ZephyrOS.BlockCache

open List Nat

/-! ### Reserving entries for a run of sectors -/

/-- An entry taken for a read that has not come in. -/
structure Fetching (b : Block) : Prop where
  state : b.state = .reading
  references : b.references = 0
  pins : b.pins = 0

/-- `indexes` are being read for consecutive sectors from `lba` on. -/
structure Reserved (c : Cache) (phys L : Disk) (id : DeviceId) (lba : Nat) (indexes : List Nat) :
    Prop where
  inv : Inv c phys L indexes
  pending : ∀ k i, indexes[k]? = some i → Holds c i id (lba + k) ∧ Fetching (c.blocks i)

variable {c : Cache} {phys L : Disk} {id : DeviceId} {lba i : Nat} {indexes : List Nat} {b : Block}
  {e : Err} {n : Nat} {buffer : Nat → UInt8} {data : Sector} {busy : List Nat} {w : World}
  {device : Device} {io : Nat → Io} {count bufferBytes first copied : Nat} {source : Nat → UInt8}
  {byteOffset size : Nat}

theorem copyText_eq (h : id.length < blockDeviceIdSize) : blockCacheCopyText id = id :=
  take_of_length_le (le_sub_one_of_lt h)

theorem eligible_iff : b.eligible = true ↔
    b.references = 0 ∧ b.pins = 0 ∧ (b.state = .valid ∨ b.state = .error) := by
  unfold Block.eligible
  rw [decide_eq_true_iff]

theorem not_ahead_of_eligible (h : b.eligible = true) : ¬ b.ahead := by
  rw [eligible_iff] at h
  rintro (hc | hc) <;> rw [hc] at h <;> exact absurd h.2.2 (by decide)

theorem Reserved.mem (h : Reserved c phys L id lba indexes) (hi : i ∈ indexes) :
    (c.blocks i).state = .reading ∧ ∃ k, k < indexes.length ∧ Holds c i id (lba + k) := by
  obtain ⟨k, hk, rfl⟩ := getElem_of_mem hi
  have hp := h.pending k _ (getElem?_eq_getElem hk)
  exact ⟨hp.2.state, k, hk, hp.1⟩

/-- Making room: a clean entry that nobody uses is dropped. -/
theorem release_inv {busy' : List Nat}
    (h : Inv c phys L busy) (hi : i < blockCacheCapacity) (hs : (c.blocks i).state ≠ .free)
    (hna : ¬ (c.blocks i).ahead) (hbusy : ∀ j, j ≠ i → j ∉ busy' → j ∉ busy) :
    Inv (c.release i) phys L busy' ∧ Edited c (c.release i) i (c.blocks i).released := by
  obtain ⟨ch, l, hwf⟩ := h.good
  obtain ⟨hg, he⟩ := release_spec hwf hi hs
  refine ⟨h.edit hg he (fun hc => ?_) (fun hc => absurd hc hna) hbusy
    (fun _ => ⟨.inl rfl, rfl, rfl⟩), he⟩
  rcases hc with hc | hc | hc <;> cases hc

/-- One entry taken for sector `lba + indexes.length`. -/
theorem reserve_one (h : Reserved c phys L id lba indexes) (hid : id.length < blockDeviceIdSize)
    (hnone : ∀ j, ¬ Holds c j id (lba + indexes.length)) (hv : c.chooseVictim = some i) :
    Reserved ((if (c.entries i).state ≠ .free then c.release i else c).claim i id
        (lba + indexes.length)) phys L id lba (indexes ++ [i])
      ∧ ((if (c.entries i).state ≠ .free then c.release i else c).claim i id
        (lba + indexes.length)).syncActive = c.syncActive := by
  obtain ⟨hi, hfe⟩ := chooseVictim_spec h.inv.good hv
  -- the entries being read are neither free nor eligible
  have hni : i ∉ indexes := fun hc => by
    have hr := (h.mem hc).1
    rcases hfe with hf | hel
    · rw [hr] at hf; cases hf
    · rw [eligible_iff, hr] at hel; exact absurd hel.2.2 (by decide)
  -- after dropping what was there, the entry is free and nothing else has changed
  obtain ⟨c1, b1, hc1, hinv1, he1, hfree⟩ : ∃ c1 b1,
      (if (c.entries i).state ≠ .free then c.release i else c) = c1 ∧ Inv c1 phys L indexes
      ∧ Edited c c1 i b1 ∧ b1.state = .free := by
    by_cases hs : (c.entries i).state = .free
    · exact ⟨c, _, if_neg (not_not.mpr hs), h.inv, .refl, hs⟩
    obtain ⟨hinv, he⟩ := release_inv h.inv hi hs (not_ahead_of_eligible (hfe.resolve_left hs))
      (fun _ _ hj => hj)
    exact ⟨c.release i, _, if_pos hs, hinv, he, rfl⟩
  rw [hc1]
  have hfree1 : (c1.blocks i).state = .free := by rw [he1.self]; exact hfree
  obtain ⟨ch, l, hwf⟩ := hinv1.good
  obtain ⟨hg, he2⟩ := claim_spec hwf hi hfree1 (by
    intro j hj hsj hc
    have hji : j ≠ i := fun hc' => hsj (by rw [hc']; exact hfree1)
    rw [copyText_eq hid] at hc
    exact hnone j ((Holds.edit he1 hji).mp ⟨hj, hsj, hc.1, hc.2⟩))
  have he := he1.trans he2
  refine ⟨⟨?_, fun k j hk => ?_⟩, he.syncActive⟩
  · refine hinv1.edit hg he2 (fun hc => ?_) (fun hc => ?_) (fun j hj hjn => ?_) (fun hc => ?_)
    · rcases hc with hc | hc | hc <;> cases hc
    · rcases hc with hc | hc <;> cases hfree1.symm.trans hc
    · exact fun hc => hjn (mem_append_left _ hc)
    · exact absurd (mem_append_right _ (mem_singleton.mpr rfl)) hc
  · rcases Nat.lt_trichotomy k indexes.length with hlt | heq | hgt
    · rw [getElem?_append_left hlt] at hk
      have hji : j ≠ i := fun hc => hni (hc ▸ mem_of_getElem? hk)
      rw [Holds.edit he hji, he.other hji]
      exact h.pending k j hk
    · subst heq
      rw [getElem?_concat_length] at hk
      obtain rfl := Option.some.inj hk
      refine ⟨⟨hi, ?_, ?_, ?_⟩, ?_⟩ <;> rw [he.self]
      · simp [Block.claimed]
      · exact copyText_eq hid
      · rfl
      · exact ⟨rfl, rfl, rfl⟩
    · rw [getElem?_eq_none (by simp; omega)] at hk
      exact absurd hk (by simp)

theorem reserveRun_spec (hid : id.length < blockDeviceIdSize) :
    ∀ (n : Nat) (indexes : List Nat) (c : Cache), Reserved c phys L id lba indexes →
      Reserved (reserveRun id lba n indexes c).2 phys L id lba (reserveRun id lba n indexes c).1
        ∧ (reserveRun id lba n indexes c).2.syncActive = c.syncActive
        ∧ (reserveRun id lba n indexes c).1.length ≤ indexes.length + n
  | 0, indexes, c, h => ⟨h, rfl, Nat.le_refl _⟩
  | n + 1, indexes, c, h => by
    rw [reserveRun]
    split
    · exact ⟨h, rfl, le_add_right _ _⟩
    dsimp only
    cases hfind : c.find id (lba + indexes.length) blockCacheBlockSize with
    | some i =>
      -- an entry for the sector ends the run: none is ever left in the error state
      obtain ⟨hlt, _, _, _⟩ := find_some h.inv.good hfind
      have hne : ¬ ((c.entries i).state = .error ∧ (c.entries i).eligible = true) := by
        rintro ⟨hs, _⟩
        by_cases hm : i ∈ indexes
        · have hr := (h.mem hm).1
          rw [show (c.blocks i).state = .error from hs] at hr
          exact absurd hr (by decide)
        · rcases (h.inv.idle i hlt hm).state with hc | hc | hc <;>
            rw [show (c.blocks i).state = .error from hs] at hc <;> exact absurd hc (by decide)
      dsimp only
      rw [if_neg hne]
      exact ⟨h, rfl, le_add_right _ _⟩
    | none =>
      dsimp only
      cases hv : c.chooseVictim with
      | none => exact ⟨h, rfl, le_add_right _ _⟩
      | some i =>
        dsimp only
        obtain ⟨hr, hsync⟩ := reserve_one h hid (find_none h.inv.good hfind) hv
        obtain ⟨h1, h2, h3⟩ := reserveRun_spec hid n _ _ hr
        refine ⟨h1, h2.trans hsync, ?_⟩
        rw [length_append, length_singleton] at h3
        omega

/-! ### A completed run -/

/-- The first entry of a run is not met again in it. -/
theorem Reserved.head_notMem (h : Reserved c phys L id lba (i :: indexes)) : i ∉ indexes := by
  intro hc
  obtain ⟨k, hk, rfl⟩ := getElem_of_mem hc
  have h0 := (h.pending 0 _ rfl).1.lba
  have h1 := (h.pending (k + 1) indexes[k] (by simp [hk])).1.lba
  omega

/-- Once the first entry is settled the rest of the run is still pending. -/
theorem Reserved.tail {c' : Cache} (h : Reserved c phys L id lba (i :: indexes))
    (he : Edited c c' i b) (hinv : Inv c' phys L indexes) : Reserved c' phys L id (lba + 1) indexes := by
  refine ⟨hinv, fun k j hk => ?_⟩
  have hji : j ≠ i := fun hc => h.head_notMem (hc ▸ mem_of_getElem? hk)
  have hp := h.pending (k + 1) j (by simpa using hk)
  rw [Holds.edit he hji, he.other hji, Nat.add_assoc, Nat.add_comm 1 k]
  exact hp

/-- A write to the status and the pins of an entry that is being read. -/
theorem Inv.modify (h : Inv c phys L busy) (hi : i < blockCacheCapacity)
    (hb : i ∈ busy) (hs : (c.blocks i).state = .reading) (g : Block → Block)
    (hgb : ∀ b, g b = { b with status := (g b).status, pins := (g b).pins }) :
    Inv (c.modify i fun e => { e with toBlock := g e.toBlock }) phys L busy
      ∧ Edited c (c.modify i fun e => { e with toBlock := g e.toBlock }) i (g (c.blocks i)) := by
  obtain ⟨ch, l, hwf⟩ := h.good
  have hok := hwf.blocks i hi
  have hnf : (c.blocks i).state ≠ .free := by rw [hs]; decide
  have hgs : (g (c.blocks i)).state = .reading := by rw [hgb]; exact hs
  obtain ⟨hgood, he⟩ := hwf.modify_fields hi g hnf (by rw [hgb]) (by rw [hgb]) (by rw [hgb])
    (by rw [hgb]) (by
      rw [hgb]
      exact blockOk_clean (.inl hs) hok.generation (hok.key hnf) (hok.clean (.inl hs)))
  refine ⟨h.edit hgood he (fun hc => ?_) (fun hc => absurd hc (not_ahead_of_reading hs))
    (fun _ _ hj => hj) (fun hc => absurd hb hc), he⟩
  rcases hc with hc | hc | hc <;> cases hgs.symm.trans hc

theorem completeRun_ok : ∀ (indexes : List Nat) (c : Cache) (lba : Nat) (sectors : List Sector),
    Reserved c phys L id lba indexes →
    sectors = (List.range indexes.length).map (fun k => L id (lba + k)) →
    Inv (completeRun indexes (.ok sectors) c) phys L []
      ∧ (completeRun indexes (.ok sectors) c).syncActive = c.syncActive
  | [], c, lba, _, h, _ => ⟨h.inv, rfl⟩
  | i :: indexes, c, lba, sectors, h, hsec => by
    rw [length_cons, range_succ_eq_map, map_cons, map_map] at hsec
    subst hsec
    obtain ⟨hhold, hfetch⟩ := h.pending 0 i rfl
    obtain ⟨ch, l, hwf⟩ := h.inv.good
    obtain ⟨hg, he⟩ := fill_spec hwf hhold.lt hfetch.state (fun _ => L id (lba + 0))
    have hinv : Inv ((c.modify i fun e => { e with
        data := L id (lba + 0), state := .valid, status := none }).lruPushFront i) phys L indexes := by
      refine h.inv.edit hg he (fun _ => ?_) (fun hc => ?_) (fun j hj hjn => ?_) (fun _ => ?_)
      · have hd : (c.blocks i).deviceId = id := hhold.deviceId
        have hl : (c.blocks i).lba = lba + 0 := hhold.lba
        show L id (lba + 0) = L (c.blocks i).deviceId (c.blocks i).lba
        rw [hd, hl]
      · exact absurd hc (not_ahead_of_reading hfetch.state)
      · exact not_mem_cons_of_ne_of_not_mem hj hjn
      · exact ⟨.inr (.inl rfl), hfetch.references, hfetch.pins⟩
    have hrest := completeRun_ok indexes _ (lba + 1)
      (map ((fun k => L id (lba + k)) ∘ succ) (range indexes.length))
      (h.tail he hinv) (by
        refine map_congr_left fun k _ => ?_
        show L id (lba + (k + 1)) = L id (lba + 1 + k)
        rw [Nat.add_assoc, Nat.add_comm 1 k])
    exact ⟨hrest.1, hrest.2.trans he.syncActive⟩

theorem completeRun_error : ∀ (indexes : List Nat) (c : Cache) (lba : Nat),
    Reserved c phys L id lba indexes →
    Inv (completeRun indexes (.error e) c) phys L []
      ∧ (completeRun indexes (.error e) c).syncActive = c.syncActive
  | [], c, lba, h => ⟨h.inv, rfl⟩
  | i :: indexes, c, lba, h => by
    obtain ⟨hhold, hfetch⟩ := h.pending 0 i rfl
    obtain ⟨hinv1, he1⟩ := h.inv.modify hhold.lt mem_cons_self hfetch.state
      (fun b => { b with status := some e }) fun _ => rfl
    have hs1 : ((c.modify i fun entry => { entry with status := some e }).blocks i).state = .reading := by
      rw [he1.self]; exact hfetch.state
    obtain ⟨hinv2, he2⟩ := release_inv hinv1 hhold.lt (by rw [hs1]; decide) (not_ahead_of_reading hs1)
      (fun j hj hjn => not_mem_cons_of_ne_of_not_mem hj hjn)
    have hrest := completeRun_error indexes _ (lba + 1) (h.tail (he1.trans he2) hinv2)
    exact ⟨hrest.1, hrest.2.trans (he1.trans he2).syncActive⟩

/-! ### Reading -/

/-- All entries idle, and no sync under way. -/
structure Rest (w : World) (L : Disk) : Prop where
  inv : Inv w.cache w.phys L []
  syncActive : w.cache.syncActive = false

/-- A look at an idle cache hits with the believed contents, or misses. -/
theorem lookup_spec (h : Inv c phys L []) :
    (∃ c', c.lookup id lba = (.hit (L id lba), c') ∧ Inv c' phys L [] ∧ c'.syncActive = c.syncActive)
      ∨ (c.lookup id lba = (.miss, c) ∧ ∀ i, ¬ Holds c i id lba) := by
  unfold Cache.lookup
  cases hfind : c.find id lba blockCacheBlockSize with
  | none => exact .inr ⟨rfl, find_none h.good hfind⟩
  | some i =>
    left
    obtain ⟨hlt, hs, hd, hl⟩ := find_some h.good hfind
    have hst : (c.blocks i).state = .valid ∨ (c.blocks i).state = .dirty :=
      (h.idle i hlt not_mem_nil).state.resolve_left hs
    obtain ⟨ch, l, hwf⟩ := h.good
    obtain ⟨hg, he⟩ := touch_spec hwf hlt hst
    have hdata := h.coherent.cached i hlt (hst.imp_right .inl)
    rw [hd, hl] at hdata
    refine ⟨c.touch i, ?_, h.edit hg he (fun hc => h.coherent.cached i hlt hc)
      (fun hc => ⟨hc, rfl, rfl⟩) (fun _ _ hj => hj) (fun hc => h.idle i hlt hc), he.syncActive⟩
    rw [← hdata]
    rcases hst with hst | hst <;> simp only [show (c.entries i).state = _ from hst] <;> rfl

/-- The believed contents of `n` sectors from `lba` on. -/
def sectorsAt (L : Disk) (id : DeviceId) (lba n : Nat) : List Sector :=
  (List.range n).map fun k => L id (lba + k)

theorem sectorsAt_length : (sectorsAt L id lba n).length = n := by
  unfold sectorsAt
  rw [length_map, length_range]

theorem sectorsAt_append (m : Nat) :
    sectorsAt L id lba n ++ sectorsAt L id (lba + n) m = sectorsAt L id lba (n + m) := by
  unfold sectorsAt
  rw [range_add, map_append, map_map]
  congr 1
  refine map_congr_left fun k _ => ?_
  show L id (lba + n + k) = L id (lba + (n + k))
  rw [Nat.add_assoc]

/-- A run of reserved entries: the device has what is believed for each. -/
theorem Reserved.phys_eq (h : Reserved c phys L id lba indexes) :
    (List.range indexes.length).map (fun k => phys id (lba + k))
      = sectorsAt L id lba indexes.length := by
  refine map_congr_left fun k hk => ?_
  have hlt := mem_range.mp hk
  obtain ⟨hhold, hfetch⟩ := h.pending k _ (getElem?_eq_getElem hlt)
  exact h.inv.phys_of_reading hhold hfetch.state

/-- What a read comes to: the believed contents, or an error. -/
def ReadDone (L : Disk) (id : DeviceId) (lba count : Nat)
    (r : Except Stop (List Sector) × World) : Prop :=
  Rest r.2 L ∧ (r.1 = .ok (sectorsAt L id lba count) ∨ ∃ e, r.1 = .error (.err e))

theorem readLoop_spec (hid : id.length < blockDeviceIdSize) :
    ∀ (fuel n : Nat) (w : World), Rest w L → n ≤ count → count - n < fuel →
      ReadDone L id lba count (readLoop io id lba count fuel (sectorsAt L id lba n) w)
  | 0, n, w, _, _, hf => absurd hf (not_lt_zero _)
  | fuel + 1, n, w, h, hn, hf => by
    rw [readLoop, sectorsAt_length]
    by_cases hdone : count ≤ n
    · rw [if_pos hdone]
      obtain rfl : n = count := Nat.le_antisymm hn hdone
      exact ⟨h, .inl rfl⟩
    rw [if_neg hdone]
    rcases lookup_spec h.inv with ⟨c', heq, hinv, hsync⟩ | ⟨heq, hnone⟩
    · -- a hit
      rw [heq]
      dsimp only
      have hstep : sectorsAt L id lba n ++ [L id (lba + n)] = sectorsAt L id lba (n + 1) :=
        sectorsAt_append 1
      rw [hstep]
      exact readLoop_spec hid fuel (n + 1) { w with cache := c' } ⟨hinv, hsync.trans h.syncActive⟩
        (by omega) (by omega)
    · -- a miss: as many entries as can be had, from this sector on
      rw [heq]
      dsimp only
      have hres : Reserved w.cache w.phys L id (lba + n) [] :=
        ⟨h.inv, fun k i hk => absurd hk (by simp)⟩
      obtain ⟨hr, hsync, hlen⟩ :=
        reserveRun_spec hid (min (count - n) blockCacheCapacity) [] w.cache hres
      generalize reserveRun id (lba + n) (min (count - n) blockCacheCapacity) [] w.cache = r at hr hsync hlen
      obtain ⟨indexes, c⟩ := r
      dsimp only at hr hsync hlen ⊢
      rw [length_nil] at hlen
      by_cases hempty : indexes = []
      · subst hempty
        unfold World.physicalRead
        cases ({ w with cache := c }.next io).result with
        | some e => exact ⟨⟨hr.inv, hsync.trans h.syncActive⟩, .inr ⟨e, rfl⟩⟩
        | none =>
          dsimp only
          have hone : (range 1).map (fun k => w.phys id (lba + n + k))
              = sectorsAt L id (lba + n) 1 := by
            show [w.phys id (lba + n + 0)] = [L id (lba + n + 0)]
            rw [Nat.add_zero, h.inv.phys_of_none hnone]
          rw [hone, sectorsAt_append]
          exact readLoop_spec hid fuel (n + 1) _ ⟨hr.inv, hsync.trans h.syncActive⟩ (by omega)
            (by omega)
      · rw [if_neg hempty]
        have hpos : 0 < indexes.length := length_pos_of_ne_nil hempty
        unfold World.physicalRead
        cases ({ w with cache := c }.next io).result with
        | some e =>
          obtain ⟨hinv, hs⟩ := completeRun_error indexes c (lba + n) hr
          exact ⟨⟨hinv, (hs.trans hsync).trans h.syncActive⟩, .inr ⟨e, rfl⟩⟩
        | none =>
          dsimp only
          rw [hr.phys_eq]
          obtain ⟨hinv, hs⟩ := completeRun_ok indexes c (lba + n)
            (sectorsAt L id (lba + n) indexes.length) hr rfl
          rw [sectorsAt_append]
          exact readLoop_spec hid fuel (n + indexes.length) _
            ⟨hinv, (hs.trans hsync).trans h.syncActive⟩ (by omega) (by omega)

theorem validateDevice_ok {bufferBytes : Nat}
    (h : validateDevice device lba count bufferBytes = .ok ()) :
    device.id.length < blockDeviceIdSize := by
  unfold validateDevice at h
  split at h
  · cases h
  · rename_i hid
    rw [Bool.not_eq_true, Bool.not_eq_false'] at hid
    exact of_decide_eq_true hid

/-- **Reading.** A read that succeeds returns the believed contents, and no read
changes them. -/
theorem blockCacheRead_spec (h : Rest w L) :
    ReadDone L device.id lba count (blockCacheRead io device lba count bufferBytes w) := by
  unfold blockCacheRead
  split
  · rename_i e _
    exact ⟨h, .inr ⟨e, rfl⟩⟩
  · rename_i hv
    exact readLoop_spec (validateDevice_ok hv) (count + 1) 0 w h (zero_le _) (by omega)

/-! ### Writing -/

/-- The contents after the first `n` sectors of a write: the bytes it gives for
them, the old ones elsewhere. -/
def Disk.write (L : Disk) (id : DeviceId) (lba byteOffset size : Nat) (buffer : Nat → UInt8)
    (n : Nat) : Disk := fun id' a =>
  if id' = id ∧ lba ≤ a ∧ a < lba + n then
    fun i =>
      let p := 512 * (a - lba) + i.val
      if byteOffset ≤ p ∧ p < byteOffset + size then buffer (p - byteOffset) else L id' a i
  else L id' a

/-- The number of sectors a write touches. -/
def sectorsOf (byteOffset size : Nat) : Nat :=
  (byteOffset + size + blockCacheBlockSize - 1) / blockCacheBlockSize

theorem Disk.write_zero (byteOffset size : Nat) : L.write id lba byteOffset size buffer 0 = L := by
  funext id' a
  unfold Disk.write
  rw [if_neg (by omega)]

/-- The position in the buffer when the sector loop comes to sector `n`. -/
def positionOf (byteOffset n : Nat) : Nat := if n = 0 then 0 else 512 * n - byteOffset

/-- One more sector of a write. -/
theorem Disk.write_succ (hoff : byteOffset < 512) (hn : n < sectorsOf byteOffset size) :
    (L.write id lba byteOffset size buffer n).set id (lba + n)
        (overlay (L.write id lba byteOffset size buffer n id (lba + n))
          (if n = 0 then byteOffset else 0)
          (min (size - positionOf byteOffset n)
            (blockCacheBlockSize - if n = 0 then byteOffset else 0))
          (fun k => buffer (positionOf byteOffset n + k)))
      = L.write id lba byteOffset size buffer (n + 1) := by
  funext id' a
  by_cases hkey : id' = id ∧ a = lba + n
  · obtain ⟨rfl, rfl⟩ := hkey
    have hbefore : L.write id' lba byteOffset size buffer n id' (lba + n) = L id' (lba + n) := by
      unfold Disk.write
      rw [if_neg (by omega)]
    have hafter : L.write id' lba byteOffset size buffer (n + 1) id' (lba + n) = fun i =>
        if byteOffset ≤ 512 * n + i.val ∧ 512 * n + i.val < byteOffset + size then
          buffer (512 * n + i.val - byteOffset) else L id' (lba + n) i := by
      unfold Disk.write
      rw [if_pos ⟨rfl, by omega, by omega⟩, Nat.add_sub_cancel_left]
    rw [Disk.set_self, hbefore, hafter]
    funext i
    unfold overlay positionOf
    unfold sectorsOf at hn
    rw [show blockCacheBlockSize = 512 from rfl] at hn ⊢
    by_cases hn0 : n = 0
    · subst hn0
      simp only [if_true, Nat.mul_zero, Nat.zero_add, Nat.sub_zero]
      exact if_congr (by omega) rfl rfl
    simp only [if_neg hn0, Nat.sub_zero, Nat.zero_add, zero_le, true_and]
    by_cases hin : byteOffset ≤ 512 * n + i.val ∧ 512 * n + i.val < byteOffset + size
    · rw [if_pos (by omega), if_pos hin]
      congr 1
      omega
    · rw [if_neg (by omega), if_neg hin]
  · rw [Disk.set_of_ne hkey]
    unfold Disk.write
    by_cases hin : id' = id ∧ lba ≤ a ∧ a < lba + n
    · rw [if_pos hin, if_pos ⟨hin.1, hin.2.1, by omega⟩]
    rw [if_neg hin, if_neg]
    rintro ⟨h1, h2, h3⟩
    exact hin ⟨h1, h2, by
      rcases Nat.lt_or_ge a (lba + n) with hlt | hge
      · exact hlt
      · exact absurd ⟨h1, by omega⟩ hkey⟩

/-- What one sector's write comes to: it is done, or nothing has changed. -/
def SectorWritten (L : Disk) (id : DeviceId) (lba : Nat) (data : Sector)
    (r : Except Stop Unit × World) : Prop :=
  (r.1 = .ok () ∧ Rest r.2 (L.set id lba data)) ∨ (∃ e, r.1 = .error (.err e) ∧ Rest r.2 L)

theorem overlay_full : overlay data 0 blockCacheBlockSize source = fun k => source k.val := by
  funext i
  unfold overlay
  rw [if_pos ⟨zero_le _, by exact i.isLt⟩, Nat.sub_zero]

/-- New contents put into an entry that is held, and the entry marked dirty. -/
theorem write_held (h : Inv c phys L busy) (hhold : Holds c i id lba)
    (hlt : first < first + copied) (hle : first + copied ≤ blockCacheBlockSize) :
    Edits c ((c.modify i fun e => { e with data := data }).markDirty i first (first + copied)) i
      ({ c.blocks i with data := data }.marked first (first + copied)) := by
  obtain ⟨ch, l, hwf⟩ := h.good
  have hok := hwf.blocks i hhold.lt
  obtain ⟨⟨_, _, hwf1⟩, he1⟩ := hwf.modify_fields hhold.lt (fun b => { b with data := data })
    hhold.inUse rfl rfl rfl rfl { hok with }
  have hs1 : ((c.modify i fun e => { e with data := data }).blocks i).state ≠ .free := by
    rw [he1.self]
    exact hhold.inUse
  obtain ⟨hg, he2⟩ := markDirty_spec hwf1 hhold.lt hs1 hlt hle
  rw [he1.self] at he2
  exact ⟨hg, he1.trans he2⟩

/-- Contents put into a pinned entry, which is then let go. -/
theorem write_pinned (h : Inv c phys L [i]) (hhold : Holds c i id lba)
    (hs : (c.blocks i).state = .reading) (hr : (c.blocks i).references = 0)
    (hlt : first < first + copied) (hle : first + copied ≤ blockCacheBlockSize) :
    Inv (((c.modify i fun e => { e with data := data }).markDirty i first (first + copied)).modify i
        fun e => { e with pins := 0 }) phys (L.set id lba data) []
      ∧ (((c.modify i fun e => { e with data := data }).markDirty i first (first + copied)).modify i
        fun e => { e with pins := 0 }).syncActive = c.syncActive := by
  obtain ⟨hg1, he1⟩ := write_held h hhold hlt hle
  generalize (c.modify i fun e => { e with data := data }).markDirty i first (first + copied) = c1
    at hg1 he1
  obtain ⟨ch, l, hwf⟩ := hg1
  have hdirty : (c1.blocks i).state = .dirty := by rw [he1.self]; rfl
  have hok := hwf.blocks i hhold.lt
  have hnf : (c1.blocks i).state ≠ .free := by rw [hdirty]; decide
  obtain ⟨hgood, he2⟩ := hwf.modify_fields hhold.lt (fun b => { b with pins := 0 }) hnf rfl rfl rfl rfl
    (blockOk_dirty hdirty hok.generation (hok.key hnf) (hok.range (.inl hdirty)))
  rw [he1.self] at he2
  have he := he1.trans he2
  exact ⟨h.write hgood he hhold.lt rfl hhold.deviceId hhold.lba
    (fun hc => absurd hc (not_ahead_of_reading hs)) (fun j hj hjn => by simpa using hj)
    (fun _ => ⟨.inr (.inr rfl), hr, rfl⟩), he.syncActive⟩

theorem writeMiss_spec (h : Rest w L) (hid : id.length < blockDeviceIdSize)
    (hnone : ∀ i, ¬ Holds w.cache i id lba)
    (hlt : first < first + copied) (hle : first + copied ≤ blockCacheBlockSize) :
    SectorWritten L id lba (overlay (L id lba) first copied source)
      (writeMiss io id lba first copied source w) := by
  have hres : Reserved w.cache w.phys L id lba [] := ⟨h.inv, fun k i hk => absurd hk (by simp)⟩
  obtain ⟨hr, hsync, hlen⟩ := reserveRun_spec hid 1 [] w.cache hres
  unfold writeMiss
  generalize reserveRun id lba 1 [] w.cache = r at hr hsync hlen
  obtain ⟨indexes, c⟩ := r
  match indexes, hr, hlen with
  | [], hr, _ => exact .inr ⟨.state, rfl, hr.inv, hsync.trans h.syncActive⟩
  | [i], hr, _ =>
    obtain ⟨hhold, hfetch⟩ := hr.pending 0 i rfl
    obtain ⟨hinv1, he1⟩ := hr.inv.modify hhold.lt mem_cons_self hfetch.state
      (fun b => { b with pins := 1 }) fun _ => rfl
    have hs1 : ((c.modify i fun e => { e with pins := 1 }).blocks i).state = .reading := by
      rw [he1.self]; exact hfetch.state
    have hr1 : ((c.modify i fun e => { e with pins := 1 }).blocks i).references = 0 := by
      rw [he1.self]; exact hfetch.references
    have hhold1 : Holds (c.modify i fun e => { e with pins := 1 }) i id lba := by
      refine ⟨hhold.lt, by rw [hs1]; decide, ?_, ?_⟩ <;> rw [he1.self]
      · exact hhold.deviceId
      · exact hhold.lba
    have hsync1 : (c.modify i fun e => { e with pins := 1 }).syncActive = false :=
      (he1.syncActive.trans hsync).trans h.syncActive
    dsimp only
    generalize (c.modify i fun e => { e with pins := 1 }) = c1 at *
    by_cases hfull : first = 0 ∧ copied = blockCacheBlockSize
    · -- the whole sector is replaced, so its old contents are not needed
      obtain ⟨rfl, rfl⟩ := hfull
      obtain ⟨hinv, hs⟩ := write_pinned hinv1 hhold1 hs1 hr1 hlt hle
      left
      rw [overlay_full]
      exact ⟨rfl, hinv, hs.trans hsync1⟩
    · rw [if_neg hfull]
      unfold World.physicalRead
      cases ({ w with cache := c1 }.next io).result with
      | some e =>
        obtain ⟨hinv, he⟩ := release_inv hinv1 hhold1.lt (by rw [hs1]; decide)
          (not_ahead_of_reading hs1) (fun j hj _ => by simpa using hj)
        exact .inr ⟨e, rfl, hinv, he.syncActive.trans hsync1⟩
      | none =>
        have hold : w.phys id (lba + 0) = L id lba := by
          exact h.inv.phys_of_none hnone
        obtain ⟨hinv, hs⟩ := write_pinned hinv1
          hhold1 hs1 hr1 hlt hle
        rw [← hold]
        exact .inl ⟨rfl, hinv, hs.trans hsync1⟩
  | _ :: _ :: _, _, hlen => exact absurd hlen (by simp)

theorem writeSector_spec (h : Rest w L) (hid : id.length < blockDeviceIdSize)
    (hlt : first < first + copied) (hle : first + copied ≤ blockCacheBlockSize) :
    SectorWritten L id lba (overlay (L id lba) first copied source)
      (writeSector io id lba first copied source w) := by
  unfold writeSector
  rw [if_neg (by rw [h.syncActive]; decide)]
  cases hfind : w.cache.find id lba blockCacheBlockSize with
  | none => exact writeMiss_spec h hid (find_none h.inv.good hfind) hlt hle
  | some i =>
    have hhold := find_some h.inv.good hfind
    have hidle := h.inv.idle i hhold.lt not_mem_nil
    have hst := hidle.state.resolve_left hhold.inUse
    have hdata := h.inv.coherent.cached i hhold.lt (hst.imp_right .inl)
    rw [hhold.deviceId, hhold.lba] at hdata
    obtain ⟨hg, he⟩ := write_held h.inv hhold hlt hle
    have hinv := h.inv.write hg he hhold.lt rfl hhold.deviceId hhold.lba
      (fun _ => ⟨hhold.deviceId, hhold.lba⟩) (fun _ _ hj => hj)
      (fun _ => ⟨.inr (.inr rfl), hidle.references, hidle.pins⟩)
    have hmod : (w.cache.modify i fun e => { e with data := overlay e.data first copied source })
        = w.cache.modify i fun e => { e with data := overlay (L id lba) first copied source } := by
      unfold Cache.modify
      dsimp only
      rw [show (w.cache.entries i).data = L id lba from hdata]
    have hdone : SectorWritten L id lba (overlay (L id lba) first copied source)
        (.ok (), { w with cache := (w.cache.modify i fun e =>
          { e with data := overlay e.data first copied source }).markDirty i first (first + copied) }) := by
      left
      rw [hmod]
      exact ⟨rfl, hinv, he.syncActive.trans h.syncActive⟩
    rcases hst with hst | hst <;>
      simp only [show (w.cache.entries i).state = _ from hst] <;> exact hdone

/-- What a write comes to: all of its sectors, or those before the one that failed. -/
def WriteDone (L : Disk) (id : DeviceId) (lba byteOffset size : Nat) (buffer : Nat → UInt8)
    (r : Except Stop Unit × World) : Prop :=
  (r.1 = .ok () ∧ Rest r.2 (L.write id lba byteOffset size buffer (sectorsOf byteOffset size)))
    ∨ ∃ e k, r.1 = .error (.err e) ∧ (k = 0 ∨ k < sectorsOf byteOffset size)
      ∧ Rest r.2 (L.write id lba byteOffset size buffer k)

/-- The sector loop. -/
theorem writeLoop_spec (hid : id.length < blockDeviceIdSize)
    (hoff : byteOffset < 512) (hsize : 0 < size) :
    ∀ (m n : Nat) (w : World), Rest w (L.write id lba byteOffset size buffer n) →
      n + m = sectorsOf byteOffset size → WriteDone L id lba byteOffset size buffer
        (writeLoop io id lba byteOffset size buffer m n (positionOf byteOffset n) w)
  | 0, n, w, h, hn => by
    subst hn
    exact .inl ⟨rfl, h⟩
  | m + 1, n, w, h, hn => by
    have hB : blockCacheBlockSize = 512 := rfl
    have hlt : n < sectorsOf byteOffset size := by omega
    have hlt' := hlt
    unfold sectorsOf at hlt'
    rw [hB] at hlt'
    -- every sector of the range gets at least one byte
    have hpos : (if n = 0 then byteOffset else 0)
        < (if n = 0 then byteOffset else 0) + min (size - positionOf byteOffset n)
          (blockCacheBlockSize - if n = 0 then byteOffset else 0) := by
      unfold positionOf
      split <;> omega
    have hle : (if n = 0 then byteOffset else 0) + min (size - positionOf byteOffset n)
        (blockCacheBlockSize - if n = 0 then byteOffset else 0) ≤ blockCacheBlockSize := by
      split <;> omega
    have hstep : SectorWritten _ id (lba + n) _ (writeSector io id (lba + n) _ _
      (fun k => buffer (positionOf byteOffset n + k)) w) := writeSector_spec h hid hpos hle
    rw [writeLoop]
    generalize writeSector io id (lba + n) _ _ _ w = r at hstep
    obtain ⟨res, w'⟩ := r
    rcases hstep with ⟨hres, hrest⟩ | ⟨e, hres, hrest⟩
    · subst hres
      rw [Disk.write_succ hoff hlt] at hrest
      have hnext : positionOf byteOffset n + min (size - positionOf byteOffset n)
          (blockCacheBlockSize - if n = 0 then byteOffset else 0) = positionOf byteOffset (n + 1)
          ∨ m = 0 := by
        unfold positionOf
        unfold sectorsOf at hn
        rw [hB] at hn ⊢
        rw [if_neg (succ_ne_zero n)]
        split <;> omega
      rcases hnext with hnext | rfl
      · rw [hnext]
        exact writeLoop_spec hid hoff hsize m (n + 1) w' hrest (by omega)
      · have hlast : n + 1 = sectorsOf byteOffset size := hn
        rw [hlast] at hrest
        exact .inl ⟨rfl, hrest⟩
    · subst hres
      exact .inr ⟨e, n, rfl, .inr hlt, hrest⟩

theorem validateWriteDevice_ok {sectors : Nat}
    (h : validateWriteDevice device lba byteOffset size = .ok sectors) :
    0 < size ∧ byteOffset < 512 ∧ device.id.length < blockDeviceIdSize
      ∧ sectors = sectorsOf byteOffset size := by
  simp only [validateWriteDevice, Lib.ite_error_eq_ok] at h
  obtain ⟨hsize, _, _, hid, _, _, _, _, _, h⟩ := h
  rw [show blockCacheBlockSize = 512 from rfl] at hsize
  rw [Bool.not_eq_true, Bool.not_eq_false'] at hid
  exact ⟨by omega, by omega, of_decide_eq_true hid, (Except.ok.inj h).symm⟩

/-- **Writing.** A write that succeeds changes exactly its bytes; one that fails has
changed those of a first part of its sectors. -/
theorem blockCacheWrite_spec (h : Rest w L) :
    WriteDone L device.id lba byteOffset size buffer
      (blockCacheWrite io device lba byteOffset buffer size w) := by
  unfold blockCacheWrite
  split
  · rename_i e _
    exact .inr ⟨e, 0, rfl, .inl rfl, by rw [Disk.write_zero]; exact h⟩
  rename_i sectors hv
  obtain ⟨hsize, hoff, hid, rfl⟩ := validateWriteDevice_ok hv
  rw [if_neg (by rw [h.syncActive]; decide)]
  have hrest : Rest w (L.write device.id lba byteOffset size buffer 0) := by
    rw [Disk.write_zero]; exact h
  exact writeLoop_spec hid hoff hsize (sectorsOf byteOffset size) 0 w hrest (Nat.zero_add _)

end ZephyrOS.BlockCache
