import ZephyrOS.Fs.StorageSlotsProof
import ZephyrOS.Fs.StorageCheckSound

/-!
# Reserved slots, written and visited

The caller of `storage_find_free_directory_slots` takes the one offset it gets for the start of
a run of slots and writes its entries there. This is right only if the slots of the run follow
one another on the disk as they do in the directory, and if their offsets fit into 32 bits.
The walk then reports them only if it gets there: past no end marker, within 4096 clusters, and
with no long name left open before the run.
-/

namespace ZephyrOS.Storage

open Lib Function List Nat Program

section

variable {vol : Volume} {mnt : Mount} {s s' : Store} {image : Image} {lfn : Lfn} {es : List LongEntry}
  {entry : Nat → UInt8} {entries : List (Nat → UInt8)} {slots : List (Nat × (Nat → UInt8))}
  {cs : List Nat} {p o offset cluster start required count : Nat} {first : UInt8}
  {σ : Type} {visitor : LongEntry → σ → Except Err σ}

/-! ### Writing entries -/

theorem slotAt_putEntry {q : Nat} (hp : p % 32 = 0) (hq : q % 32 = 0) {j : Nat} (hj : j < 32) :
    slotAt (update image (p / 512) (putEntry (image (p / 512)) (p % 512) entry)) q j
      = if q = p then entry j else slotAt image q j := by
  unfold slotAt
  have hin : q % 512 + j < 512 := by omega
  by_cases hsector : q / 512 = p / 512
  · rw [hsector, update_self]
    rw [byte_of_lt hin, byte_of_lt hin, putEntry]
    dsimp only
    by_cases heq : q = p
    · rw [if_pos heq, if_pos (by omega)]
      congr 1
      omega
    · rw [if_neg heq, if_neg (by omega)]
  · rw [update_of_ne hsector, if_neg (by rintro rfl; exact hsector rfl)]

/-- Writing one entry changes the slot at its position and no other. -/
theorem writeDirectoryEntry_run (hr : Ready vol mnt) (hw : vol.readOnly = false) (hp : p % 32 = 0)
    (h1 : vol.startLba ≤ p / 512) (h2 : p / 512 < vol.startLba + vol.sectorCount) :
    ∃ image, writeDirectoryEntry vol p entry s = (.ok (), { s with image := image })
      ∧ SameSlot (slotAt image p) entry
      ∧ (∀ q, q % 32 = 0 → q ≠ p → SameSlot (slotAt image q) (slotAt s.image q))
      ∧ ∀ l, l ≠ p / 512 → image l = s.image l := by
  have hsector : vol.startLba + (p / 512 - vol.startLba) = p / 512 := by omega
  refine ⟨update s.image (p / 512) (putEntry (s.image (p / 512)) (p % 512) entry), ?_, ?_, ?_, ?_⟩
  · rw [writeDirectoryEntry, run_bind_ok (run_ensure_pos ⟨by omega, h1⟩),
      run_bind_ok (run_reading.trans (by rw [readRelative_read hr (by omega)])),
      writeRelative_run hr hw (by omega), hsector]
  · intro j hj
    rw [slotAt_putEntry hp hp hj, if_pos rfl]
  · intro q hq hne j hj
    rw [slotAt_putEntry hp hq hj, if_neg hne]
  · intro l hl
    exact update_of_ne hl ..

theorem writeEntries_run (hr : Ready vol mnt) (hw : vol.readOnly = false) :
    ∀ (o : Nat) (s : Store), o % 32 = 0 → o + 32 * entries.length ≤ 4294967296 →
      (∀ i, i < entries.length → vol.startLba ≤ (o + 32 * i) / 512
        ∧ (o + 32 * i) / 512 < vol.startLba + vol.sectorCount) →
      ∃ image, writeEntries vol o entries s = (.ok (), { s with image := image })
        ∧ (∀ i (h : i < entries.length), SameSlot (slotAt image (o + 32 * i)) entries[i])
        ∧ (∀ q, q % 32 = 0 → (∀ i, i < entries.length → q ≠ o + 32 * i) →
          SameSlot (slotAt image q) (slotAt s.image q))
        ∧ ∀ l, (∀ i, i < entries.length → l ≠ (o + 32 * i) / 512) → image l = s.image l := by
  induction entries with
  | nil =>
    intro o s _ _ _
    refine ⟨s.image, rfl, fun i h => ?_, fun _ _ _ _ _ => rfl, fun _ _ => rfl⟩
    exact absurd h (not_lt_zero i)
  | cons entry entries ih =>
    intro o s ho hfit hin
    rw [length_cons] at hfit hin
    obtain ⟨h1, h2⟩ := hin 0 (by omega)
    obtain ⟨first, hrun, hself, hother, hkeep⟩ := writeDirectoryEntry_run hr hw ho h1 h2
    -- The next offset wraps around only when there is nothing left to write.
    have hnext : ∀ i, i < entries.length → u32 (o + 32) + 32 * i = o + 32 * (i + 1) := by
      intro i hi
      rw [u32]
      omega
    obtain ⟨image, hrest, hwritten, hsame, hout⟩ :=
      ih (u32 (o + 32)) { s with image := first } (by unfold u32; omega) (by unfold u32; omega)
        (fun i hi => by rw [hnext i hi]; exact hin (i + 1) (by omega))
    refine ⟨image, ?_, ?_, ?_, ?_⟩
    · rw [writeEntries, run_bind_ok hrun]
      exact hrest
    · intro i hi
      cases i with
      | zero =>
        intro j hj
        rw [hsame (o + 32 * 0) (by omega) (fun k hk => by rw [hnext k hk]; omega) j hj]
        exact hself j hj
      | succ i =>
        have hi' : i < entries.length := by simpa using hi
        have := hwritten i hi'
        rw [hnext i hi'] at this
        exact this
    · intro q hq hne j hj
      rw [hsame q hq (fun i hi => by rw [hnext i hi]; exact hne (i + 1) (by simpa using hi)) j hj]
      exact hother q hq (by simpa using hne 0 (by simp)) j hj
    · intro l hl
      rw [hout l (fun i hi => by rw [hnext i hi]; exact hl (i + 1) (by simpa using hi))]
      exact hkeep l (by simpa using hl 0 (by simp))

/-! ### Visiting live entries -/

/-- A live short entry. -/
def Live (entry : Nat → UInt8) : Prop :=
  entry 0 ≠ 0 ∧ entry 0 ≠ 0xE5 ∧ entry 11 &&& 0x08 = 0

theorem Live.ne_long (h : Live entry) : entry 11 ≠ 0x0F := by
  intro heq
  have := h.2.2
  rw [heq] at this
  cases this

theorem readSlot_live (h : Live entry) (hlfn : lfn.active = false) :
    readSlot mnt lfn entry offset = .ok (.entry (longParseEntry mnt entry offset Lfn.reset)) := by
  rw [readSlot, if_neg h.1, if_neg h.2.1, if_neg h.ne_long, if_neg (by rw [h.2.2]; decide), shortSlot,
    if_neg (by rw [hlfn]; decide)]
  rfl

/-- Slots that hold live entries are reported, each at its offset. -/
theorem visitSlots_live
    (h : ∀ p ∈ slots, Live p.2) (hlfn : lfn.active = false) (seen : List LongEntry) :
    visitSlots mnt collect slots lfn seen
      = .ok (if slots = [] then lfn else Lfn.reset,
        seen ++ slots.map (fun p => longParseEntry mnt p.2 p.1 Lfn.reset), false) := by
  induction slots generalizing lfn seen with
  | nil => simp [visitSlots]
  | cons p slots ih =>
    have hrest := ih (fun q hq => h q (mem_cons_of_mem _ hq))
      (show Lfn.reset.active = false from rfl) (seen ++ [longParseEntry mnt p.2 p.1 Lfn.reset])
    rw [visitSlots, readSlot_live (h p mem_cons_self) hlfn]
    simpa [collect] using hrest

/-! ### A reservation, and when it is one -/

/-- What the caller relies on: the offset and those after it are the positions of free slots of
the directory, one after the other in reading order, and whatever live entries are written
there, the walk reports them. -/
structure Reserved (vol : Volume) (mnt : Mount) (s : Store) (cluster required o : Nat) : Prop where
  run : ∃ cs start, Chain mnt (nextCluster s.read vol mnt) cluster cs ∧ ∀ i, i < required →
    (dirPositions vol mnt cs)[start + i]? = some (o + 32 * i) ∧ slotFree (slotAt s.image (o + 32 * i))
  visited : ∀ entries : List (Nat → UInt8), entries.length = required → (∀ e ∈ entries, Live e) →
    ∃ s' es, writeEntries vol o entries s = (.ok (), s')
      ∧ walkDirectoryLong s'.read vol mnt ⟨cluster, false⟩ collect [] = .ok es
      ∧ ∀ i (h : i < entries.length), longParseEntry mnt entries[i] (o + 32 * i) Lfn.reset ∈ es

/-- The positions the walk gets to. -/
def walked (vol : Volume) (mnt : Mount) (cs : List Nat) : List Nat :=
  dirPositions vol mnt (cs.take maxChainSteps)

/-- The walk gets past these slots, meets no end marker and leaves no long name open. -/
def Passes (mnt : Mount) (image : Image) (positions : List Nat) : Prop :=
  ∃ lfn es, visitSlots mnt collect (slotsAt image positions) Lfn.reset [] = .ok (lfn, es, false)
    ∧ lfn.active = false

/-- The walk gets through the slots of a chain from an index on. -/
def Finishes (vol : Volume) (mnt : Mount) (image : Image) (cs : List Nat) (k : Nat) : Prop :=
  ∃ lfn es ended, visitSlots mnt collect (slotsAt image ((walked vol mnt cs).drop k)) Lfn.reset []
      = .ok (lfn, es, ended) ∧ (ended = true ∨ cs.length ≤ maxChainSteps)

/-- Slots of a chain that can be reserved by the offset of the first of them. -/
structure Usable (vol : Volume) (mnt : Mount) (s : Store) (cs : List Nat) (start required o : Nat) :
    Prop where
  writable : vol.readOnly = false
  run : ∀ i, i < required →
    (dirPositions vol mnt cs)[start + i]? = some (o + 32 * i) ∧ slotFree (slotAt s.image (o + 32 * i))
  addressable : o + 32 * required ≤ 4294967296
  reach : start + required ≤ (walked vol mnt cs).length
  before : Passes mnt s.image ((walked vol mnt cs).take start)
  after : Finishes vol mnt s.image cs (start + required)

theorem dirPositions_nodup (hnodup : cs.Nodup)
    (hv : ∀ c ∈ cs, clusterValid mnt c = true) : (dirPositions vol mnt cs).Nodup := by
  refine nodup_flatMap.mpr ⟨fun lba _ => ?_, ?_⟩
  · refine Nodup.map (fun a b hab => ?_) nodup_range
    omega
  · refine Pairwise.imp_of_mem ?_ (chainSectors_nodup hnodup hv)
    intro a b _ _ hab x hx hx'
    obtain ⟨i, hi, rfl⟩ := mem_map.mp hx
    obtain ⟨j, hj, hij⟩ := mem_map.mp hx'
    have h1 := mem_range.mp hi
    have h2 := mem_range.mp hj
    omega

/-- A position of a directory: a multiple of 32 in the data area of the volume. -/
theorem mem_dirPositions (hr : Ready vol mnt)
    (hv : ∀ c ∈ cs, clusterValid mnt c = true) (h : p ∈ dirPositions vol mnt cs) :
    p % 32 = 0 ∧ vol.startLba + mnt.dataStart ≤ p / 512 ∧ p / 512 < vol.startLba + vol.sectorCount := by
  obtain ⟨hmod, lba, hlba, hdiv⟩ := mem_slotPositions.mp h
  obtain ⟨c, hc, hmem⟩ := mem_flatMap.mp hlba
  have hle := cluster_le hr (hv c hc)
  have hrange := mem_range'_1.mp hmem
  omega

theorem walked_prefix : walked vol mnt cs <+: dirPositions vol mnt cs := by
  conv_rhs => rw [← take_append_drop maxChainSteps cs]
  rw [dirPositions_append]
  exact prefix_append _ _

/-- The table is where it was after entries were written to a directory. -/
theorem chain_of_same_table (hr : Ready vol mnt) {c : Nat}
    (h : Chain mnt (nextCluster s.read vol mnt) c cs)
    (hsame : ∀ l, l < vol.startLba + mnt.dataStart → s'.image l = s.image l) :
    Chain mnt (nextCluster s'.read vol mnt) c cs := by
  have hnext : ∀ x, clusterValid mnt x = true →
      nextCluster s'.read vol mnt x = nextCluster s.read vol mnt x := by
    intro x hx
    have hcopy := (fatSector_eq hr hr.geometry.fatCount_pos hx).2
    have hroot := hr.dataStart_le
    rw [nextCluster_eq hr hx, nextCluster_eq hr hx, fatAt_eq, fatAt_eq, hsame]
    unfold copySector
    omega
  induction h with
  | last hv hn he => exact Chain.last hv (by rw [hnext _ hv]; exact hn) he
  | cons hv hn he h0 hb _ ih => exact Chain.cons hv (by rw [hnext _ hv]; exact hn) he h0 hb ih

/-- What is left of a list from an index on, if the elements there are known. -/
theorem drop_eq_run {positions : List Nat} {start : Nat} :
    ∀ {count : Nat}, (∀ i, i < count → positions[start + i]? = some (o + 32 * i)) →
      positions.drop start
        = (List.range count).map (fun i => o + 32 * i) ++ positions.drop (start + count) := by
  intro count
  induction count with
  | zero => simp
  | succ count ih =>
    intro h
    rw [ih (fun i hi => h i (by omega)), range_succ, map_append, append_assoc]
    obtain ⟨hlt, hget⟩ := List.getElem?_eq_some_iff.mp (h count (by omega))
    rw [drop_eq_getElem_cons hlt, hget]
    rfl

/-- The disk after entries were written over a run of a directory. -/
structure Written (vol : Volume) (mnt : Mount) (s s' : Store) (cluster o : Nat) (cs : List Nat)
    (entries : List (Nat → UInt8)) : Prop where
  chain : Chain mnt (nextCluster s'.read vol mnt) cluster cs
  slots : ∀ i (h : i < entries.length), SameSlot (slotAt s'.image (o + 32 * i)) entries[i]
  others : ∀ q, q % 32 = 0 → (∀ i, i < entries.length → q ≠ o + 32 * i) →
    SameSlot (slotAt s'.image q) (slotAt s.image q)

/-- The entries at the offsets they are written to. -/
def entrySlots (o count : Nat) (entries : List (Nat → UInt8)) : List (Nat × (Nat → UInt8)) :=
  (List.range count).map fun i => (o + 32 * i, entries.getD i fun _ => 0)

theorem slotsAt_same {image' : Image} {ps : List Nat}
    (h : ∀ p ∈ ps, SameSlot (slotAt image' p) (slotAt image p)) :
    List.Forall₂ (fun a b => a.1 = b.1 ∧ SameSlot a.2 b.2) (slotsAt image' ps) (slotsAt image ps) := by
  rw [slotsAt, slotsAt, forall₂_map_left_iff, forall₂_map_right_iff, forall₂_same]
  exact fun p hp => ⟨rfl, h p hp⟩

section Written

variable (hr : Ready vol mnt) (hchain : Chain mnt (nextCluster s.read vol mnt) cluster cs)
  (hrun : ∀ i, i < entries.length → (dirPositions vol mnt cs)[start + i]? = some (o + 32 * i))
  (hfit : o + 32 * entries.length ≤ 4294967296)

include hr hchain hrun hfit

theorem writeEntries_written (hw : vol.readOnly = false) (hpos : 0 < entries.length) :
    ∃ s', writeEntries vol o entries s = (.ok (), s') ∧ Written vol mnt s s' cluster o cs entries := by
  have hin : ∀ i, i < entries.length → _ := fun i hi =>
    mem_dirPositions hr hchain.valid (mem_of_getElem? (hrun i hi))
  have hmod : o % 32 = 0 := by
    have := (hin 0 hpos).1
    omega
  obtain ⟨image, hwrite, hslots, hothers, hout⟩ := writeEntries_run hr hw o s hmod hfit
    (fun i hi => by have := hin i hi; omega)
  refine ⟨_, hwrite, chain_of_same_table hr hchain (fun l hl => hout l ?_), hslots, hothers⟩
  intro i hi
  have := (hin i hi).2.1
  omega

/-- What the walk reads after entries were written: the old slots, with the entries in place of
the run, as far as it gets. -/
theorem visitSlots_written
    (hw : Written vol mnt s s' cluster o cs entries) (lfn : Lfn) (context : σ) :
    visitSlots mnt visitor (slotsAt s'.image (walked vol mnt cs)) lfn context
      = visitSlots mnt visitor (slotsAt s.image ((walked vol mnt cs).take start)
        ++ (entrySlots o (min entries.length ((walked vol mnt cs).length - start)) entries
          ++ slotsAt s.image ((walked vol mnt cs).drop (start + entries.length)))) lfn context := by
  obtain ⟨more, hmore⟩ := walked_prefix
  obtain ⟨W, hW⟩ : ∃ W, W = walked vol mnt cs := ⟨_, rfl⟩
  obtain ⟨count, hcount⟩ : ∃ count, count = min entries.length (W.length - start) := ⟨_, rfl⟩
  rw [← hW] at hmore ⊢
  rw [← hcount]
  have hnodup : (W ++ more).Nodup := by
    rw [hmore]
    exact dirPositions_nodup hchain.nodup hchain.valid
  have hrunW : ∀ i, i < count → W[start + i]? = some (o + 32 * i) := by
    intro i hi
    have := hrun i (by omega)
    rwa [← hmore, getElem?_append_left (by omega)] at this
  have hdrop : W.drop (start + entries.length) = W.drop (start + count) := by
    rcases le_total entries.length (W.length - start) with h | h
    · rw [hcount, min_eq_left h]
    · rw [drop_eq_nil_of_le (by omega), drop_eq_nil_of_le (by omega)]
  -- A position at another place of the list is another position.
  have hother : ∀ k p, W[k]? = some p → (k < start ∨ start + entries.length ≤ k) →
      SameSlot (slotAt s'.image p) (slotAt s.image p) := by
    intro k p hk hout
    have hk' : (W ++ more)[k]? = some p := by
      rw [getElem?_append_left (List.getElem?_eq_some_iff.mp hk).1]; exact hk
    have hmem : p ∈ dirPositions vol mnt cs := by
      rw [← hmore]; exact mem_of_getElem? hk'
    refine hw.others p (mem_dirPositions hr hchain.valid hmem).1 (fun i hi heq => ?_)
    have hi' := hrun i hi
    rw [← hmore, ← heq] at hi'
    have hlt := (List.getElem?_eq_some_iff.mp hk').1
    have := (getElem?_inj hlt hnodup).mp (hk'.trans hi'.symm)
    omega
  have hparts : W = W.take start ++ ((range count).map (fun i => o + 32 * i)
      ++ W.drop (start + entries.length)) := by
    conv_lhs => rw [← take_append_drop start W]
    rw [drop_eq_run hrunW, hdrop]
  conv_lhs => rw [hparts]
  rw [slotsAt_append, slotsAt_append]
  apply visitSlots_same
  refine rel_append (slotsAt_same ?_) (rel_append ?_ (slotsAt_same ?_))
  · intro p hp
    obtain ⟨k, hk⟩ := mem_iff_getElem?.mp hp
    rw [getElem?_take] at hk
    split at hk
    · exact hother k p hk (by omega)
    · cases hk
  · rw [slotsAt, entrySlots, map_map, forall₂_map_left_iff, forall₂_map_right_iff, forall₂_same]
    intro i hi
    have hlt := mem_range.mp hi
    have hlt' : i < entries.length := by omega
    refine ⟨mod_eq_of_lt (show o + 32 * i < 4294967296 by omega), ?_⟩
    rw [getD_eq_getElem _ _ hlt']
    exact hw.slots i hlt'
  · intro p hp
    obtain ⟨k, hk⟩ := mem_iff_getElem?.mp hp
    rw [getElem?_drop] at hk
    exact hother _ p hk (by omega)

/-- The walk after entries were written. -/
theorem walk_written (hw : Written vol mnt s s' cluster o cs entries) (context : σ) :
    walkDirectoryLong s'.read vol mnt ⟨cluster, false⟩ visitor context
      = (visitSlots mnt visitor (slotsAt s.image ((walked vol mnt cs).take start)
        ++ (entrySlots o (min entries.length ((walked vol mnt cs).length - start)) entries
          ++ slotsAt s.image ((walked vol mnt cs).drop (start + entries.length)))) Lfn.reset context).bind
        fun r => if r.2.2 = true ∨ cs.length ≤ maxChainSteps then .ok r.2.1 else .error .overflow := by
  rw [walkDirectoryLong, if_neg (by simp), walkLoop_eq hr hw.chain, ← walked,
    visitSlots_written hr hchain hrun hfit hw]

end Written

theorem live_entrySlots (hlive : ∀ e ∈ entries, Live e) (hcount : count ≤ entries.length) :
    ∀ p ∈ entrySlots o count entries, Live p.2 := by
  intro p hp
  obtain ⟨i, hi, rfl⟩ := mem_map.mp hp
  have hlt : i < entries.length := by
    have := mem_range.mp hi
    omega
  rw [getD_eq_getElem _ _ hlt]
  exact hlive _ (getElem_mem hlt)

theorem mem_entrySlots {i : Nat} (hi : i < count) (hlt : i < entries.length) :
    longParseEntry mnt entries[i] (o + 32 * i) Lfn.reset
      ∈ (entrySlots o count entries).map fun p => longParseEntry mnt p.2 p.1 Lfn.reset := by
  refine mem_map.mpr ⟨(o + 32 * i, entries.getD i fun _ => 0),
    mem_map.mpr ⟨i, mem_range.mpr hi, rfl⟩, ?_⟩
  rw [getD_eq_getElem _ _ hlt]

theorem entrySlots_ne_nil (hcount : 0 < count) : entrySlots o count entries ≠ [] := by
  intro hnil
  have := congrArg length hnil
  rw [entrySlots, length_map, length_range, length_nil] at this
  omega

theorem Usable.reserved (hr : Ready vol mnt) (hreq : 0 < required)
    (hchain : Chain mnt (nextCluster s.read vol mnt) cluster cs)
    (h : Usable vol mnt s cs start required o) : Reserved vol mnt s cluster required o := by
  refine ⟨⟨cs, start, hchain, h.run⟩, ?_⟩
  rintro entries rfl hlive
  have hrun := fun i hi => (h.run i hi).1
  obtain ⟨s', hwrite, hwritten⟩ := writeEntries_written hr hchain hrun h.addressable h.writable hreq
  have hreach := h.reach
  have hmin : min entries.length ((walked vol mnt cs).length - start) = entries.length := by omega
  obtain ⟨lfn, es, hbefore, hclosed⟩ := h.before
  obtain ⟨lfn', es', ended, hafter, hended⟩ := h.after
  obtain ⟨found, hfound, hfold, -⟩ := visitSlots_fold hafter
  refine ⟨s', es ++ (entrySlots o entries.length entries).map
    (fun p => longParseEntry mnt p.2 p.1 Lfn.reset) ++ found, hwrite, ?_, ?_⟩
  · rw [walk_written hr hchain hrun h.addressable hwritten, hmin, visitSlots_append_go hbefore]
    rw [visitSlots_append_go (visitSlots_live (live_entrySlots hlive (le_refl _)) hclosed es),
      if_neg (entrySlots_ne_nil hreq), hfound]
    exact if_pos hended
  · intro i hi
    exact mem_append_left _ (mem_append_right _ (mem_entrySlots hi hi))

/-! ### Runs that are there -/

/-- When the slots from `start` on can be reserved: they follow one another on the disk, the walk
gets past the slots before them and through those after them. -/
structure Fits (vol : Volume) (mnt : Mount) (s : Store) (cs : List Nat) (start required : Nat) :
    Prop where
  writable : vol.readOnly = false
  follows : ∀ i, i < required →
    (walked vol mnt cs)[start + i]? = ((walked vol mnt cs)[start]?).map (· + 32 * i)
  before : Passes mnt s.image ((walked vol mnt cs).take start)
  after : Finishes vol mnt s.image cs (start + required)

/-- A run of free slots that fits, within the first 4 GiB. -/
theorem Fits.reserved (hr : Ready vol mnt) (hreq : 0 < required)
    (hchain : Chain mnt (nextCluster s.read vol mnt) cluster cs)
    (hfree : FreeRun s.image (walked vol mnt cs) start required)
    (hp : (walked vol mnt cs)[start]? = some p) (hlow : p + 32 * required ≤ 4294967296)
    (h : Fits vol mnt s cs start required) : Reserved vol mnt s cluster required p := by
  have hrun : ∀ i, i < required → (walked vol mnt cs)[start + i]? = some (p + 32 * i) := by
    intro i hi
    rw [h.follows i hi, hp]
    rfl
  obtain ⟨more, hmore⟩ : walked vol mnt cs <+: dirPositions vol mnt cs := walked_prefix
  obtain ⟨q, hq, -⟩ := hfree (required - 1) (by omega)
  have hend := (List.getElem?_eq_some_iff.mp hq).1
  refine Usable.reserved hr hreq hchain ⟨h.writable, fun i hi => ⟨?_, ?_⟩, hlow, by omega, h.before,
    h.after⟩
  · rw [← hmore, getElem?_append_left (by omega)]
    exact hrun i hi
  · obtain ⟨q, hq, hfree⟩ := hfree i hi
    rw [hrun i hi] at hq
    cases hq
    exact hfree

end

/-- A live entry with a given first letter and size. -/
def sampleEntry (first : UInt8) (size : Nat) : Nat → UInt8 :=
  buildShortEntry (fun k => if k = 0 then first else 0x20) 0x20 0 size

/-! ### A volume of 4200 clusters of one sector each -/

namespace SmallVolume

def volume : Volume := ⟨.raw, 0, 0x0C, true, false, 0, 4265⟩

def boot : Sector := fun j =>
  match j.val with
  | 12 => 0x02 | 13 => 1 | 14 => 32 | 16 => 1 | 19 => 0xA9 | 20 => 0x10 | 36 => 33 | 44 => 2
  | 510 => 0x55 | 511 => 0xAA | _ => 0

def mount : Mount := ⟨.fat32, 1, 1, 0, 4265, 32, 33, 65, 0, 65, 4200, 2⟩

/-- The table: cluster 2, the root directory, ends its chain; the other clusters are free. -/
def table : Sector := fun j => match j.val with | 8 => 0xF8 | 9 => 0xFF | 10 => 0xFF | 11 => 0x0F | _ => 0

/-- The root directory with `used` live entries. -/
def root (used : Nat) : Sector := fun j =>
  if j.val / 32 < used then sampleEntry 0x41 0 (j.val % 32) else 0

def store (used : Nat) : Store :=
  ⟨fun l => if l = 32 then table else if l = 65 then root used else fun _ => 0, 0⟩

theorem parseBpb_boot : parseBpb volume boot = .ok mount := by decide +kernel

theorem slot_eq (k : Nat) (hk : k < 16) : (walked volume mount [2])[k]? = some (33280 + 32 * k) := by
  revert k
  decide

theorem slotFree_iff (used : Nat) {k : Nat} (hk : k < 16) :
    slotFree (slotAt (store used).image (33280 + 32 * k)) ↔ used ≤ k := by
  have hbyte : slotAt (store used).image (33280 + 32 * k) 0 = if k < used then 0x41 else 0 := by
    rw [slotAt, show (33280 + 32 * k) / 512 = 65 by omega, show (33280 + 32 * k) % 512 + 0 = 32 * k by omega,
      byte_of_lt (by omega)]
    show (if 32 * k / 32 < used then sampleEntry 0x41 0 (32 * k % 32) else 0) = _
    rw [Nat.mul_div_cancel_left _ (by decide), Nat.mul_mod_right]
    rfl
  unfold slotFree
  rw [hbyte]
  split
  · exact iff_of_false (by decide) (by omega)
  · exact iff_of_true (.inl rfl) (by omega)

theorem freeRun_iff (used k : Nat) :
    FreeRun (store used).image (walked volume mount [2]) k 2 ↔ used ≤ k ∧ k + 2 ≤ 16 := by
  constructor
  · intro h
    obtain ⟨p, hp, hfree⟩ := h 0 (by decide)
    obtain ⟨q, hq, -⟩ := h 1 (by decide)
    have hlt : k + 1 < 16 := (List.getElem?_eq_some_iff.mp hq).1
    rw [Nat.add_zero, slot_eq k (by omega)] at hp
    cases hp
    exact ⟨(slotFree_iff used (by omega)).mp hfree, hlt⟩
  · rintro ⟨hused, hk⟩ i hi
    exact ⟨_, slot_eq (k + i) (by omega), (slotFree_iff used (by omega)).mpr (by omega)⟩

end SmallVolume

end ZephyrOS.Storage
