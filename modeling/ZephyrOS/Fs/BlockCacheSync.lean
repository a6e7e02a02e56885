import ZephyrOS.Fs.BlockCacheCalls

/-!
# Writing back and syncing

A write-back moves the device towards the believed contents, one dirty entry a
transfer, and stops at the first that fails; that entry is dirty again with its
data in place. Every transfer that goes well leaves one dirty entry fewer, which
is why the loop of `block_cache_sync_device_until` ends.
-/

namespace ZephyrOS.BlockCache

open List

/-! ### Counting dirty entries -/

variable {i : Nat} {b : Block} {c : Cache} {device : Option DeviceId} {c' : Cache} {io : Nat → Io}
  {L phys phys' : Disk} {id : DeviceId} {w : World} {p : Block → Bool} {found : Except Err Device}
  {count lba : Nat}

/-- Turning one index of a range off lowers the count by one. -/
theorem countP_range_off {p q : Nat → Bool} (hp : p i = true) (hq : q i = false)
    (hsame : ∀ j, j ≠ i → q j = p j) {n : Nat} (hi : i < n) :
    (List.range n).countP q + 1 = (List.range n).countP p := by
  have hperm := perm_cons_erase (mem_range.mpr hi)
  have hrest : ((range n).erase i).countP q = ((range n).erase i).countP p :=
    countP_congr fun j hj => by rw [hsame j (nodup_range.mem_erase_iff.mp hj).1]
  rw [hperm.countP_eq, hperm.countP_eq, countP_cons_of_pos hp, countP_cons_of_neg (by simp [hq]), hrest]

theorem matches_iff : b.matches device = true ↔ device = none ∨ device = some b.deviceId := by
  unfold Block.matches
  rw [decide_eq_true_iff]

/-- Dirty entries of the device, or of any. -/
def DirtyOf (c : Cache) (device : Option DeviceId) (i : Nat) : Prop :=
  i < blockCacheCapacity ∧ (c.blocks i).state = .dirty ∧ (c.blocks i).matches device = true

theorem dirtyCount_eq_zero : c.dirtyCount device false = 0 ↔ ∀ i, ¬ DirtyOf c device i := by
  unfold Cache.dirtyCount DirtyOf
  rw [countP_eq_zero]
  constructor
  · rintro h i ⟨hi, hs, hm⟩
    exact h i (mem_range.mpr hi) (decide_eq_true ⟨.inl hs, hm⟩)
  · intro h i hi hc
    obtain ⟨hs, hm⟩ := of_decide_eq_true hc
    rcases hs with hs | ⟨hf, _⟩
    · exact h i ⟨mem_range.mp hi, hs, hm⟩
    · cases hf

theorem dirtyCount_le (b : Bool) : c.dirtyCount device b ≤ blockCacheCapacity := by
  exact Nat.le_trans countP_le_length (Nat.le_of_eq length_range)

theorem dirtyCount_clean (hi : DirtyOf c device i) (he : Edited c c' i b) (hs : b.state = .valid) :
    c'.dirtyCount device false + 1 = c.dirtyCount device false := by
  refine countP_range_off (decide_eq_true ⟨.inl hi.2.1, hi.2.2⟩) (decide_eq_false ?_)
    (fun j hj => ?_) hi.1
  · rintro ⟨hc | ⟨hc, _⟩, _⟩
    · rw [show (c'.entries i).state = b.state from congrArg Block.state he.self, hs] at hc
      cases hc
    · cases hc
  · rw [show (c'.entries j).toBlock = (c.entries j).toBlock from he.other hj]

theorem dirtyCount_keep (hi : DirtyOf c device i)
    (he : Edited c c' i b) (hs : b.state = .dirty) (hd : b.deviceId = (c.blocks i).deviceId) :
    c'.dirtyCount device false = c.dirtyCount device false := by
  refine countP_congr fun j _ => ?_
  by_cases hji : j = i
  · subst hji
    have hm := hi.2.2
    rw [matches_iff, ← hd, ← matches_iff] at hm
    rw [show (c'.entries j).toBlock = b from he.self, decide_eq_true_iff, decide_eq_true_iff]
    exact ⟨fun _ => ⟨.inl hi.2.1, hi.2.2⟩, fun _ => ⟨.inl hs, hm⟩⟩
  · rw [show (c'.entries j).toBlock = (c.entries j).toBlock from he.other hji]

/-! ### One write-back -/

theorem selectWriteback_some (hsel : c.selectWriteback device = some (i, c')) :
    DirtyOf c device i ∧ c' = (c.lruRemove i).modify i fun e =>
      { e with state := .writeback, references := e.references + 1, pins := e.pins + 1 } := by
  unfold Cache.selectWriteback at hsel
  split at hsel
  · cases hsel
  rename_i j hfind
  cases hsel
  have hp := find?_some hfind
  obtain ⟨hs, _, _, hm⟩ := of_decide_eq_true hp
  exact ⟨⟨mem_range.mp (mem_of_find?_eq_some hfind), hs, hm⟩, rfl⟩

/-- One round of the write-back loop, whatever the device answers. -/
theorem writeback_one {c1 : Cache} (h : Inv c phys L [])
    (hsel : c.selectWriteback device = some (i, c1)) (result : Option Err)
    (hphys : ∀ id lba, ¬ (id = (c.blocks i).deviceId ∧ lba = (c.blocks i).lba) →
    phys' id lba = phys id lba)
    (hok : result = none → phys' (c.blocks i).deviceId (c.blocks i).lba = (c.blocks i).data) :
    Inv (c1.finishWriteback i result) phys' L []
      ∧ Edited c (c1.finishWriteback i result) i ((c.blocks i).selected.finished result)
      ∧ (c1.entries i).toBlock = (c.blocks i).selected
      ∧ (c.blocks i).deviceId.length < blockDeviceIdSize := by
  obtain ⟨⟨hi, hs, hm⟩, rfl⟩ := selectWriteback_some hsel
  obtain ⟨ch, l, hwf⟩ := h.good
  have hnf : (c.blocks i).state ≠ .free := by rw [hs]; decide
  have hkey := ((hwf.blocks i hi).key hnf).1
  have hidle := h.idle i hi not_mem_nil
  obtain ⟨⟨ch1, l1, hwf1⟩, he1⟩ := select_spec hwf hi hs
  generalize ((c.lruRemove i).modify i fun e =>
    { e with state := .writeback, references := e.references + 1, pins := e.pins + 1 }) = c1
    at hwf1 he1
  have hs1 : (c1.blocks i).state = .writeback := by rw [he1.self]; rfl
  obtain ⟨hg2, he2⟩ := finish_spec hwf1 hi hs1 result
  rw [he1.self] at he2
  have he := he1.trans he2
  refine ⟨?_, he, he1.self, hkey⟩
  have hahead : (c.blocks i).ahead := .inl hs
  have hreferences : (c.blocks i).references + 1 - 1 = 0 := by rw [hidle.references]
  have hpins : (c.blocks i).pins + 1 - 1 = 0 := by rw [hidle.pins]
  cases result with
  | none =>
    exact h.flush hg2 he hi hahead rfl rfl rfl hphys (fun _ => hok rfl) (fun _ _ hj => hj)
      (fun _ => ⟨.inr (.inl rfl), hreferences, hpins⟩)
  | some e =>
    exact h.flush hg2 he hi hahead rfl rfl rfl hphys (fun hc => absurd (.inl rfl) hc)
      (fun _ _ hj => hj) (fun _ => ⟨.inr (.inr rfl), hreferences, hpins⟩)

/-- A write that failed and whose entry has kept its data. -/
def KeptDirty (c : Cache) (L : Disk) (id : DeviceId) (lba : Nat) : Prop :=
  ∃ i, Holds c i id lba ∧ (c.blocks i).state = .dirty ∧ (c.blocks i).data = L id lba

/-- What a run of write-backs comes to. -/
structure WrittenBack (L : Disk) (device : Option DeviceId) (written : Nat) (w : World)
    (r : (Nat × Option Err) × World) : Prop where
  inv : Inv r.2.cache r.2.phys L []
  syncActive : r.2.cache.syncActive = w.cache.syncActive
  count : r.2.cache.dirtyCount device false + r.1.1 = w.cache.dirtyCount device false + written
  log : ∃ ts, r.2.log = w.log ++ ts ∧ ∀ t ∈ ts, ∃ id lba res, t = .write id lba res
    ∧ (device = none ∨ device = some id)
    ∧ ∀ e, res = some e → r.1.2 = some e ∧ KeptDirty r.2.cache L id lba

theorem Inv.logical_keep (h : Inv c phys L [])
    (hi : i < blockCacheCapacity) (hs : (c.blocks i).state = .dirty) :
    (c.blocks i).data = L (c.blocks i).deviceId (c.blocks i).lba :=
  h.coherent.cached i hi (.inr (.inl hs))

theorem writebackLoop_spec : ∀ (budget written : Nat) (w : World), Inv w.cache w.phys L [] →
    WrittenBack L device written w (writebackLoop io device budget written w)
  | 0, written, w, h => ⟨h, rfl, rfl, [], by simp [writebackLoop], by simp⟩
  | budget + 1, written, w, h => by
    rw [writebackLoop]
    cases hsel : w.cache.selectWriteback device with
    | none => exact ⟨h, rfl, rfl, [], by simp, by simp⟩
    | some p =>
      obtain ⟨i, c1⟩ := p
      dsimp only
      obtain ⟨hdirty, _⟩ := selectWriteback_some hsel
      have hdata := h.logical_keep hdirty.1 hdirty.2.1
      -- the transfer is for the entry's own sector, with its own data
      obtain ⟨hinv, he, hblk, hlen⟩ := writeback_one h hsel none
        (fun _ _ hne => Disk.set_of_ne hne) (fun _ => Disk.set_self)
      have hd : (c1.entries i).deviceId = (w.cache.blocks i).deviceId := by rw [hblk]; rfl
      have hl : (c1.entries i).lba = (w.cache.blocks i).lba := by rw [hblk]; rfl
      have ht : (c1.entries i).data = (w.cache.blocks i).data := by rw [hblk]; rfl
      rw [hd, hl, ht, copyText_eq hlen]
      unfold World.physicalWrite Io.ending
      generalize hres : ({ w with cache := c1 }.next io).result = res
      cases res with
      | none =>
        have hcount := dirtyCount_clean hdirty he rfl
        have ih := writebackLoop_spec budget (written + 1) ⟨c1.finishWriteback i none,
          w.phys.set (w.cache.blocks i).deviceId (w.cache.blocks i).lba (w.cache.blocks i).data,
          w.log ++ [.write (w.cache.blocks i).deviceId (w.cache.blocks i).lba none]⟩ hinv
        obtain ⟨ts, hlog, hts⟩ := ih.log
        refine ⟨ih.inv, ih.syncActive.trans he.syncActive, ?_,
          .write (w.cache.blocks i).deviceId (w.cache.blocks i).lba none :: ts, ?_, forall_mem_cons.mpr
            ⟨⟨_, _, none, rfl, matches_iff.mp hdirty.2.2, fun e hc => by cases hc⟩, hts⟩⟩
        · exact ih.count.trans (by dsimp only; omega)
        · exact hlog.trans (by simp)
      | some e =>
        obtain ⟨hinv, he, _, _⟩ := writeback_one h hsel (some e)
          (fun _ _ hne => Disk.set_of_ne hne) nofun
        have hkept : KeptDirty (c1.finishWriteback i (some e)) L (w.cache.blocks i).deviceId
            (w.cache.blocks i).lba := by
          refine ⟨i, ⟨hdirty.1, ?_, ?_, ?_⟩, ?_, ?_⟩ <;> rw [he.self]
          · simp [Block.finished]
          · rfl
          · rfl
          · rfl
          · exact hdata
        refine ⟨hinv, he.syncActive, ?_, [.write (w.cache.blocks i).deviceId
          (w.cache.blocks i).lba (some e)], rfl, ?_⟩
        · rw [dirtyCount_keep hdirty he rfl rfl]
        · intro t ht
          obtain rfl := mem_singleton.mp ht
          exact ⟨_, _, some e, rfl, matches_iff.mp hdirty.2.2, fun e' hc => by
            cases hc
            exact ⟨rfl, hkept⟩⟩

/-! ### Syncing a device -/

/-- The transfers of a call: they are writes to the device, and one that failed is
the call's error and has kept its data. -/
def SyncLog (L : Disk) (id : DeviceId) (w : World) (r : Except Stop Unit × World) : Prop :=
  ∃ ts, r.2.log = w.log ++ ts ∧ ∀ t ∈ ts, ∀ id' lba e, t = .write id' lba (some e) →
    r.1 = .error (.err e) ∧ id' = id ∧ KeptDirty r.2.cache L id lba

/-- What a sync comes to. -/
structure Synced (L : Disk) (id : DeviceId) (w : World) (r : Except Stop Unit × World) : Prop where
  inv : Inv r.2.cache r.2.phys L []
  syncActive : r.2.cache.syncActive = w.cache.syncActive
  done : r.1 = .ok () → ∀ i, ¬ DirtyOf r.2.cache (some id) i
  ends : r.1 = .ok () ∨ ∃ e, r.1 = .error (.err e)
  log : SyncLog L id w r

theorem SyncLog.of_good {r : Except Stop Unit × World} {ts : List Transfer}
    (hlog : r.2.log = w.log ++ ts) (hgood : ∀ t ∈ ts, ∀ id' lba e, t ≠ .write id' lba (some e)) :
    SyncLog L id w r :=
  ⟨ts, hlog, fun t ht id' lba e hte => absurd hte (hgood t ht id' lba e)⟩

theorem Inv.not_writeback (h : Inv c phys L []) (hi : i < blockCacheCapacity) :
    (c.blocks i).state ≠ .writeback := by
  rcases (h.idle i hi not_mem_nil).state with hs | hs | hs <;> rw [hs] <;> decide

theorem no_writeback (h : Inv c phys L []) :
    ((List.range blockCacheCapacity).any fun i =>
      (c.entries i).state = .writeback ∧ (c.entries i).deviceId = id) = false := by
  rw [any_eq_false]
  intro i hi hc
  obtain ⟨hs, _⟩ := of_decide_eq_true hc
  exact h.not_writeback (mem_range.mp hi) hs

theorem syncLoop_spec : ∀ (fuel : Nat) (w : World), Inv w.cache w.phys L [] →
    w.cache.dirtyCount (some id) false < fuel → Synced L id w (syncLoop io id fuel w)
  | 0, w, _, hf => absurd hf (Nat.not_lt_zero _)
  | fuel + 1, w, h, hf => by
    rw [syncLoop]
    by_cases hzero : w.cache.dirtyCount (some id) false = 0
    · rw [if_pos hzero, if_neg (by rw [no_writeback h]; decide)]
      exact ⟨h, rfl, fun _ => dirtyCount_eq_zero.mp hzero, .inl rfl, [], by simp, by simp⟩
    rw [if_neg hzero]
    have hwb : WrittenBack L (some id) 0 w (writebackLoop io (some id) blockCacheCapacity 0 w) :=
      writebackLoop_spec blockCacheCapacity 0 w h
    generalize writebackLoop io (some id) blockCacheCapacity 0 w = r at hwb
    obtain ⟨⟨written, err⟩, w'⟩ := r
    obtain ⟨ts, hlog, hts⟩ := hwb.log
    have hown : ∀ t ∈ ts, ∀ id' lba e, t = .write id' lba (some e) →
        err = some e ∧ id' = id ∧ KeptDirty w'.cache L id lba := by
      intro t ht id' lba e hte
      obtain ⟨id'', lba'', res, rfl, hdev, hfail⟩ := hts t ht
      obtain ⟨rfl, rfl, rfl⟩ := Transfer.write.inj hte
      have hid : id = id'' := by
        rcases hdev with hc | hc
        · cases hc
        · exact Option.some.inj hc
      subst hid
      obtain ⟨h1, h2⟩ := hfail e rfl
      exact ⟨h1, rfl, h2⟩
    cases err with
    | some e =>
      refine ⟨hwb.inv, hwb.syncActive, nofun, .inr ⟨e, rfl⟩, ts, hlog, ?_⟩
      intro t ht id' lba e' hte
      obtain ⟨h1, h2, h3⟩ := hown t ht id' lba e' hte
      obtain rfl := Option.some.inj h1
      exact ⟨rfl, h2, h3⟩
    | none =>
      -- all transfers of this round went well
      have hgood : ∀ t ∈ ts, ∀ id' lba e, t ≠ .write id' lba (some e) := by
        intro t ht id' lba e hte
        cases (hown t ht id' lba e hte).1
      cases written with
      | zero =>
        exact ⟨hwb.inv, hwb.syncActive, (fun hc => by cases hc), .inr ⟨.state, rfl⟩,
          .of_good hlog hgood⟩
      | succ k =>
        have hcount := hwb.count
        dsimp only at hcount
        have ih := syncLoop_spec fuel w' hwb.inv (by omega)
        obtain ⟨ts', hlog', hts'⟩ := ih.log
        refine ⟨ih.inv, ih.syncActive.trans hwb.syncActive, ih.done, ih.ends, ts ++ ts', ?_, ?_⟩
        · rw [hlog', hlog, append_assoc]
        · intro t ht id' lba e' hte
          rcases mem_append.mp ht with ht | ht
          · exact absurd hte (hgood t ht id' lba e')
          · exact hts' t ht id' lba e' hte

/-- Setting the flag and the level changes no entry. -/
theorem Inv.setSync {busy : List Nat} (h : Inv c phys L busy) (b : Bool) (level : Durability) :
    Inv { c with syncActive := b, durability := level } phys L busy := by
  obtain ⟨ch, l, hwf⟩ := h.good
  exact ⟨⟨ch, l, { hwf with chains := { hwf.chains with } }⟩, { h.coherent with }, h.idle⟩

/-- **Syncing.** It ends; if it succeeds no entry of the device is dirty; a write
that failed is its error and has kept its data. -/
theorem blockCacheSyncDevice_spec (h : Rest w L) :
    Synced L id w (blockCacheSyncDevice io id found w) := by
  have hrefused : ∀ e, Synced L id w (.error (.err e), w) := fun e =>
    ⟨h.inv, rfl, nofun, .inr ⟨e, rfl⟩, [], by simp, by simp⟩
  unfold blockCacheSyncDevice
  split
  · exact hrefused _
  split
  · exact hrefused _
  split
  · exact hrefused _
  rw [if_neg (by rw [h.syncActive]; decide)]
  dsimp only
  have hloop := @syncLoop_spec io L id (blockCacheCapacity + 1)
    { w with cache := { w.cache with syncActive := true } } (h.inv.setSync true _)
    (Nat.lt_succ_of_le (dirtyCount_le _))
  generalize syncLoop io id (blockCacheCapacity + 1)
    { w with cache := { w.cache with syncActive := true } } = r at hloop
  obtain ⟨result, w'⟩ := r
  obtain ⟨ts, hlog, hts⟩ := hloop.log
  cases result with
  | error e =>
    refine ⟨hloop.inv.setSync false _, h.syncActive.symm, (fun hc => by cases hc), hloop.ends, ts, hlog, ?_⟩
    intro t ht id' lba e' hte
    obtain ⟨h1, h2, i, hi, hs, hd⟩ := hts t ht id' lba e' hte
    exact ⟨h1, h2, i, { hi with }, hs, hd⟩
  | ok u =>
    -- the transfers of the loop all went well; the flush is not a write
    have hgood : ∀ t ∈ ts, ∀ id' lba e, t ≠ .write id' lba (some e) := by
      intro t ht id' lba e hte
      cases (hts t ht id' lba e hte).1
    have hflush : ∀ res, w'.log ++ [.flush res] = w.log ++ (ts ++ [.flush res]) := by
      intro res
      rw [hlog, append_assoc]
    have hgood' : ∀ res, ∀ t ∈ ts ++ [.flush res], ∀ id' lba e, t ≠ .write id' lba (some e) := by
      intro res t ht
      rcases mem_append.mp ht with ht | ht
      · exact hgood t ht
      · rw [mem_singleton.mp ht]
        exact nofun
    dsimp only
    split
    · unfold World.physicalFlush
      cases (w'.next io).result with
      | none =>
        exact ⟨hloop.inv.setSync false _, h.syncActive.symm, fun _ => hloop.done rfl, .inl rfl,
          .of_good (hflush none) (hgood' none)⟩
      | some e =>
        exact ⟨hloop.inv.setSync false _, h.syncActive.symm, (fun hc => by cases hc), .inr ⟨e, rfl⟩,
          .of_good (hflush (some e)) (hgood' (some e))⟩
    · exact ⟨hloop.inv.setSync false _, h.syncActive.symm, fun _ => hloop.done rfl, .inl rfl,
        .of_good hlog hgood⟩

/-- With no dirty entry left, the device has what is believed. -/
theorem Inv.phys_eq_of_clean (h : Inv c phys L []) (hn : ∀ i, ¬ DirtyOf c (some id) i) (lba : Nat) :
    phys id lba = L id lba := by
  refine h.coherent.clean id lba fun j hj ha hc => ?_
  rcases ha with hs | hs
  · exact hn j ⟨hj, hs, matches_iff.mpr (.inr (by rw [hc.1]))⟩
  · exact h.not_writeback hj hs

/-! ### Dropping entries -/

/-- Releasing a selection of clean entries. -/
theorem releaseWhere_spec : ∀ (is : List Nat) (c : Cache),
    Inv c phys L [] → (∀ i ∈ is, i < blockCacheCapacity) →
    (∀ i, i < blockCacheCapacity → (c.blocks i).state ≠ .free → p (c.blocks i) = true →
      ¬ (c.blocks i).ahead) →
    Inv (is.foldl (Cache.releaseIf p) c) phys L []
      ∧ (is.foldl (Cache.releaseIf p) c).syncActive = c.syncActive
  | [], c, h, _, _ => ⟨h, rfl⟩
  | i :: is, c, h, hlt, hna => by
    rw [foldl_cons, Cache.releaseIf]
    by_cases hsel : (c.entries i).state ≠ .free ∧ p (c.entries i).toBlock = true
    · rw [if_pos hsel]
      have hi := hlt i mem_cons_self
      obtain ⟨hinv, he⟩ := release_inv h hi hsel.1 (hna i hi hsel.1 hsel.2) (fun _ _ hj => hj)
      have ih := releaseWhere_spec is (c.release i) hinv
        (fun j hj => hlt j (mem_cons_of_mem i hj)) (fun j hj hs hp => by
          by_cases hji : j = i
          · subst hji
            rw [he.self] at hs
            exact absurd rfl hs
          · rw [he.other hji] at hs hp ⊢
            exact hna j hj hs hp)
      exact ⟨ih.1, ih.2.trans he.syncActive⟩
    · rw [if_neg hsel]
      exact releaseWhere_spec is c h (fun j hj => hlt j (mem_cons_of_mem i hj)) hna

theorem drop_rest (h : Rest w L)
    (hna : ∀ i, i < blockCacheCapacity → (w.cache.blocks i).state ≠ .free →
      p (w.cache.blocks i) = true → ¬ (w.cache.blocks i).ahead) :
    Rest { w with cache := w.cache.releaseWhere p } L := by
  have hspec := releaseWhere_spec (range blockCacheCapacity) w.cache h.inv
    (fun i hi => mem_range.mp hi) hna
  unfold Cache.releaseWhere
  generalize (range blockCacheCapacity).foldl (Cache.releaseIf p) w.cache = c at hspec
  exact ⟨hspec.1, hspec.2.trans h.syncActive⟩

/-- None of the three ways to drop entries drops one that is ahead of the device. -/
theorem blockCacheClear_spec (h : Rest w L) :
    Rest { w with cache := (blockCacheClear w.cache).2 } L := by
  unfold blockCacheClear
  split
  · exact h
  rename_i hbusy
  dsimp only
  refine drop_rest h fun i hi hs _ ha => hbusy ?_
  exact any_eq_true.mpr ⟨i, mem_range.mpr hi,
    decide_eq_true ⟨hs, decide_eq_true (.inr (.inr (.inr ha)))⟩⟩

theorem invalidateDevice_spec (h : Rest w L) (id : DeviceId) :
    Rest { w with cache := (blockCacheInvalidateDevice id w.cache).2 } L := by
  unfold blockCacheInvalidateDevice
  split
  · exact h
  split
  · exact h
  rename_i hbusy
  dsimp only
  refine drop_rest h fun i hi hs hp ha => hbusy ?_
  exact any_eq_true.mpr ⟨i, mem_range.mpr hi,
    decide_eq_true ⟨hs, of_decide_eq_true hp, fun hel => not_ahead_of_eligible hel ha⟩⟩

theorem invalidateRange_spec (h : Rest w L) :
    Rest { w with cache := (blockCacheInvalidateRange id lba count w.cache).2 } L := by
  unfold blockCacheInvalidateRange
  split
  · exact h
  split
  · exact h
  split
  · exact h
  rename_i hbusy
  dsimp only
  refine drop_rest h fun i hi hs hp ha => hbusy ?_
  obtain ⟨hd, hr⟩ := of_decide_eq_true hp
  exact any_eq_true.mpr ⟨i, mem_range.mpr hi,
    decide_eq_true ⟨hs, hd, hr, decide_eq_true (.inr (.inr (.inr ha)))⟩⟩

end ZephyrOS.BlockCache
