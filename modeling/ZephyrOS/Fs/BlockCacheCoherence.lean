import ZephyrOS.Fs.BlockCacheInv

/-!
# The cache and the device below it

`Coherent c phys L` ties three things together: the entries, the device contents
`phys`, and `L`, the contents the callers believe in. An entry that has data has
the believed one, and the device has it too wherever no entry is ahead of it. So a
write only moves `L`, a write-back only moves `phys`, and a miss or an eviction
moves neither.

Between calls every entry is idle. Within a call a few are not: `busy` lists them.
-/

namespace ZephyrOS.BlockCache

open Function

/-- The entry holds data the device does not have yet. -/
def Block.ahead (b : Block) : Prop := b.state = .dirty ∨ b.state = .writeback

/-- The entry holds data. -/
def Block.loaded (b : Block) : Prop := b.state = .valid ∨ b.ahead

variable {b : Block} {d : Disk} {id : DeviceId} {lba : Nat} {v : Sector} {L : Disk} {busy : List Nat}
  {c : Cache} {phys : Disk}

theorem not_ahead_of_reading (hs : b.state = .reading) : ¬ b.ahead := by
  intro hc
  rcases hc with hc | hc <;> cases hs.symm.trans hc

theorem Block.ahead.inUse (h : b.ahead) : b.state ≠ .free := by
  rcases h with hs | hs <;> rw [hs] <;> decide

/-- What an entry is between calls. -/
structure Idle (b : Block) : Prop where
  state : b.state = .free ∨ b.state = .valid ∨ b.state = .dirty
  references : b.references = 0
  pins : b.pins = 0

structure Coherent (c : Cache) (phys L : Disk) : Prop where
  cached : ∀ j, j < blockCacheCapacity → (c.blocks j).loaded →
    (c.blocks j).data = L (c.blocks j).deviceId (c.blocks j).lba
  clean : ∀ id lba, (∀ j, j < blockCacheCapacity → (c.blocks j).ahead →
    ¬ ((c.blocks j).deviceId = id ∧ (c.blocks j).lba = lba)) → phys id lba = L id lba

structure Inv (c : Cache) (phys L : Disk) (busy : List Nat) : Prop where
  good : Good c
  coherent : Coherent c phys L
  idle : ∀ j, j < blockCacheCapacity → j ∉ busy → Idle (c.blocks j)

theorem Disk.set_self : d.set id lba v id lba = v := by
  unfold Disk.set
  rw [update_self, update_self]

theorem Disk.set_of_ne {id' : DeviceId} {lba' : Nat}
    (h : ¬ (id' = id ∧ lba' = lba)) : d.set id lba v id' lba' = d id' lba' := by
  unfold Disk.set
  by_cases hid : id' = id
  · subst hid
    rw [update_self, update_of_ne fun hc => h ⟨rfl, hc⟩]
  · rw [update_of_ne hid]

section Edits

variable {c c' : Cache} {phys L : Disk} {busy busy' : List Nat} {i : Nat} {b : Block} {j : Nat}

theorem Edited.self (he : Edited c c' i b) : c'.blocks i = b := by
  rw [he.blocks, update_self]

theorem Edited.other (he : Edited c c' i b) (hj : j ≠ i) : c'.blocks j = c.blocks j := by
  rw [he.blocks, update_of_ne hj]

theorem Edited.refl : Edited c c i (c.blocks i) :=
  ⟨(update_eq_self i c.blocks).symm, rfl⟩

theorem Edited.trans {c'' : Cache} {b' : Block} (he : Edited c c' i b) (he' : Edited c' c'' i b') :
    Edited c c'' i b' :=
  ⟨by rw [he'.blocks, he.blocks, update_idem], he'.syncActive.trans he.syncActive⟩

theorem Holds.edit (he : Edited c c' i b) (hj : j ≠ i) : Holds c' j id lba ↔ Holds c j id lba := by
  have hb := he.other hj
  constructor <;> intro ⟨h1, h2, h3, h4⟩
  · rw [hb] at h2 h3 h4
    exact ⟨h1, h2, h3, h4⟩
  · rw [← hb] at h2 h3 h4
    exact ⟨h1, h2, h3, h4⟩

section

variable (h : Inv c phys L busy)
include h

theorem Inv.idle_edit (he : Edited c c' i b)
    (hbusy : ∀ j, j ≠ i → j ∉ busy' → j ∉ busy) (hidle : i ∉ busy' → Idle b) :
    ∀ j, j < blockCacheCapacity → j ∉ busy' → Idle (c'.blocks j) := by
  intro j hj hjb
  by_cases hji : j = i
  · subst hji
    rw [he.self]
    exact hidle hjb
  · rw [he.other hji]
    exact h.idle j hj (hbusy j hji hjb)

/-- Where no entry is ahead after the edit, only the edited one was before. -/
theorem Inv.clean_edit (he : Edited c c' i b)
    (hn : ∀ j, j < blockCacheCapacity → (c'.blocks j).ahead →
    ¬ ((c'.blocks j).deviceId = id ∧ (c'.blocks j).lba = lba))
    (hi : i < blockCacheCapacity → (c.blocks i).ahead →
    ¬ ((c.blocks i).deviceId = id ∧ (c.blocks i).lba = lba)) : phys id lba = L id lba := by
  refine h.coherent.clean id lba fun j hj => ?_
  by_cases hji : j = i
  · subst hji
    exact hi hj
  · rw [← he.other hji]
    exact hn j hj

/-- An edit that changes neither what is believed nor what the device has. -/
theorem Inv.edit (hg : Good c') (he : Edited c c' i b)
    (hload : b.loaded → b.data = L b.deviceId b.lba)
    (hahead : (c.blocks i).ahead →
      b.ahead ∧ b.deviceId = (c.blocks i).deviceId ∧ b.lba = (c.blocks i).lba)
    (hbusy : ∀ j, j ≠ i → j ∉ busy' → j ∉ busy) (hidle : i ∉ busy' → Idle b) :
    Inv c' phys L busy' := by
  refine ⟨hg, ⟨fun j hj hl => ?_, fun id lba hn => ?_⟩, h.idle_edit he hbusy hidle⟩
  · by_cases hji : j = i
    · rw [hji, he.self] at hl ⊢
      exact hload hl
    · rw [he.other hji] at hl ⊢
      exact h.coherent.cached j hj hl
  · refine h.clean_edit he hn fun hi ha hc => ?_
    obtain ⟨hba, hd, hl⟩ := hahead ha
    exact hn i hi (by rw [he.self]; exact hba) (by rw [he.self, hd, hl]; exact hc)

/-- A write: the entry is dirty with the new contents, and they are believed. -/
theorem Inv.write (hg : Good c') (he : Edited c c' i b)
    (hi : i < blockCacheCapacity) (hs : b.state = .dirty) (hd : b.deviceId = id) (hl : b.lba = lba)
    (hold : (c.blocks i).ahead → (c.blocks i).deviceId = id ∧ (c.blocks i).lba = lba)
    (hbusy : ∀ j, j ≠ i → j ∉ busy' → j ∉ busy) (hidle : i ∉ busy' → Idle b) :
    Inv c' phys (L.set id lba b.data) busy' := by
  have hself : Holds c' i id lba :=
    ⟨hi, by rw [he.self, hs]; decide, by rw [he.self, hd], by rw [he.self, hl]⟩
  refine ⟨hg, ⟨fun j hj hload => ?_, fun id' lba' hn => ?_⟩, h.idle_edit he hbusy hidle⟩
  · by_cases hji : j = i
    · rw [hji, he.self, hd, hl, Disk.set_self]
    -- no other entry is for this sector
    have hnf : (c'.blocks j).state ≠ .free := by
      rcases hload with hs' | hs' | hs' <;> rw [hs'] <;> decide
    rw [Disk.set_of_ne]
    · rw [he.other hji] at hload ⊢
      exact h.coherent.cached j hj hload
    · intro hc
      exact hji (Holds.unique hg ⟨hj, hnf, hc.1, hc.2⟩ hself)
  · have hne : ¬ (id' = id ∧ lba' = lba) := by
      intro hc
      exact hn i hi (by rw [he.self]; exact .inl hs) (by rw [he.self, hd, hl, hc.1, hc.2]; exact ⟨rfl, rfl⟩)
    rw [Disk.set_of_ne hne]
    refine h.clean_edit he hn fun _ ha hc => ?_
    have hkey := hold ha
    exact hne ⟨hc.1.symm.trans hkey.1, hc.2.symm.trans hkey.2⟩

/-- A write-back: the device changes in the entry's own sector, and the entry is
clean only if the device now has its contents. -/
theorem Inv.flush (hg : Good c') (he : Edited c c' i b)
    (hi : i < blockCacheCapacity) (hold : (c.blocks i).ahead)
    (hd : b.deviceId = (c.blocks i).deviceId) (hl : b.lba = (c.blocks i).lba)
    (hdata : b.data = (c.blocks i).data) {phys' : Disk}
    (hphys : ∀ id lba, ¬ (id = b.deviceId ∧ lba = b.lba) → phys' id lba = phys id lba)
    (hclean : ¬ b.ahead → phys' b.deviceId b.lba = b.data)
    (hbusy : ∀ j, j ≠ i → j ∉ busy' → j ∉ busy) (hidle : i ∉ busy' → Idle b) :
    Inv c' phys' L busy' := by
  have hval : b.data = L b.deviceId b.lba := by
    rw [hdata, hd, hl]
    exact h.coherent.cached i hi (.inr hold)
  refine ⟨hg, ⟨fun j hj hload => ?_, fun id lba hn => ?_⟩, h.idle_edit he hbusy hidle⟩
  · by_cases hji : j = i
    · rw [hji, he.self]
      exact hval
    · rw [he.other hji] at hload ⊢
      exact h.coherent.cached j hj hload
  · by_cases hkey : id = b.deviceId ∧ lba = b.lba
    · have hnb : ¬ b.ahead := fun ha =>
        hn i hi (by rw [he.self]; exact ha) (by rw [he.self, hkey.1, hkey.2]; exact ⟨rfl, rfl⟩)
      rw [hkey.1, hkey.2, hclean hnb, hval]
    · rw [hphys id lba hkey]
      exact h.clean_edit he hn fun _ _ hc => hkey ⟨by rw [hd, hc.1], by rw [hl, hc.2]⟩

end

end Edits

/-! ### What is believed, read off the state -/

/-- The contents of a sector as the next read will find them. -/
def World.logical (w : World) : Disk := fun id lba =>
  match w.cache.find id lba blockCacheBlockSize with
  | some i => (w.cache.entries i).data
  | none => w.phys id lba

/-- Between calls there is only one thing to believe. -/
theorem Inv.logical_eq {w : World} (h : Inv w.cache w.phys L []) : w.logical = L := by
  funext id lba
  unfold World.logical
  split
  · rename_i i hfind
    obtain ⟨hlt, hs, hd, hl⟩ := find_some h.good hfind
    have hloaded : (w.cache.blocks i).loaded := by
      rcases (h.idle i hlt List.not_mem_nil).state with hf | hv | hdt
      · exact absurd hf hs
      · exact .inl hv
      · exact .inr (.inl hdt)
    have hdata := h.coherent.cached i hlt hloaded
    rw [hd, hl] at hdata
    exact hdata
  · rename_i hfind
    exact h.coherent.clean id lba fun j hj ha hc =>
      find_none h.good hfind j ⟨hj, ha.inUse, hc.1, hc.2⟩

/-- A sector no entry holds is believed to be what the device has. -/
theorem Inv.phys_of_none (h : Inv c phys L busy) (hn : ∀ i, ¬ Holds c i id lba) :
    phys id lba = L id lba :=
  h.coherent.clean id lba fun j hj ha hc => hn j ⟨hj, ha.inUse, hc.1, hc.2⟩

/-- And so is one whose entry is still being read. -/
theorem Inv.phys_of_reading (h : Inv c phys L busy) {i : Nat} (hi : Holds c i id lba)
    (hs : (c.blocks i).state = .reading) : phys id lba = L id lba := by
  refine h.coherent.clean id lba fun j hj ha hc => ?_
  obtain rfl := Holds.unique h.good ⟨hj, ha.inUse, hc.1, hc.2⟩ hi
  rcases ha with ha | ha <;> rw [hs] at ha <;> cases ha

end ZephyrOS.BlockCache
