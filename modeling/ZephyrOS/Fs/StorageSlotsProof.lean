import Mathlib.Data.List.Nodup
import ZephyrOS.Fs.StorageSlots

/-!
# Where the reserved slots are

A directory is the slots of its chain in reading order, each with its position on the disk.
Both the walk and the search for free slots are loops over this list, so what the search found
is a run in it, and what the walk reports after the run is written can be read off the list
with the run replaced.
-/

namespace ZephyrOS.Storage

open Lib Function List Nat Program

/-! ### The slots of a directory -/

/-- The positions on the disk of the slots of some sectors. -/
def slotPositions (vol : Volume) (lbas : List Nat) : List Nat :=
  lbas.flatMap fun lba => (List.range 16).map fun k => 512 * (vol.startLba + lba) + 32 * k

/-- The positions of the slots of a chain of clusters, in reading order. -/
def dirPositions (vol : Volume) (mnt : Mount) (cs : List Nat) : List Nat :=
  slotPositions vol (chainSectors mnt cs)

/-- The slot at a position. -/
def slotAt (image : Image) (p : Nat) : Nat → UInt8 := fun j =>
  Sector.byte (image (p / 512)) (p % 512 + j)

/-- The slots at positions, with the offsets the code has for them. -/
def slotsAt (image : Image) (positions : List Nat) : List (Nat × (Nat → UInt8)) :=
  positions.map fun p => (u32 p, slotAt image p)

section

variable {σ : Type} {vol : Volume} {mnt : Mount} {visitor : LongEntry → σ → Except Err σ}
  {slots more : List (Nat × (Nat → UInt8))} {lfn lfn' : Lfn} {context context' : σ} {run : Run}
  {table : Nat → Except Err Nat} {s : Store} {image : Image} {cs lbas ps done rest : List Nat}
  {lba count required rounds start p c n : Nat}

theorem slotPositions_cons (lbas : List Nat) :
    slotPositions vol (lba :: lbas) = slotPositions vol [lba] ++ slotPositions vol lbas := by
  simp [slotPositions]

theorem slotPositions_append (lbas lbas' : List Nat) :
    slotPositions vol (lbas ++ lbas') = slotPositions vol lbas ++ slotPositions vol lbas' :=
  flatMap_append

theorem slotsAt_append (image : Image) (ps ps' : List Nat) :
    slotsAt image (ps ++ ps') = slotsAt image ps ++ slotsAt image ps' := map_append

theorem dirPositions_cons (c : Nat) :
    dirPositions vol mnt (c :: cs)
      = slotPositions vol (List.range' (clusterLba mnt c) mnt.sectorsPerCluster)
        ++ dirPositions vol mnt cs := by
  rw [dirPositions, chainSectors, flatMap_cons, slotPositions_append]
  rfl

theorem dirPositions_append (cs' : List Nat) :
    dirPositions vol mnt (cs ++ cs') = dirPositions vol mnt cs ++ dirPositions vol mnt cs' := by
  rw [dirPositions, chainSectors, flatMap_append, slotPositions_append]
  rfl

theorem mem_slotPositions {lbas : List Nat} {p : Nat} :
    p ∈ slotPositions vol lbas ↔ p % 32 = 0 ∧ ∃ lba ∈ lbas, p / 512 = vol.startLba + lba := by
  simp only [slotPositions, mem_flatMap, mem_map, mem_range]
  constructor
  · rintro ⟨lba, hlba, k, hk, rfl⟩
    exact ⟨by omega, lba, hlba, by omega⟩
  · rintro ⟨hmod, lba, hlba, hdiv⟩
    exact ⟨lba, hlba, p % 512 / 32, by omega, by omega⟩

theorem sectorSlots_eq (image : Image) :
    sectorSlots (image (vol.startLba + lba)) (sectorOffset vol lba)
      = slotsAt image (slotPositions vol [lba]) := by
  rw [slotsAt, slotPositions, flatMap_singleton, map_map]
  apply map_congr_left
  intro k hk
  have hlt := mem_range.mp hk
  simp only [comp_apply, Prod.mk.injEq]
  refine ⟨?_, ?_⟩
  · unfold sectorOffset u32
    omega
  · funext j
    rw [slotAt, show (512 * (vol.startLba + lba) + 32 * k) / 512 = vol.startLba + lba by omega,
      show (512 * (vol.startLba + lba) + 32 * k) % 512 = 32 * k by omega]

/-! ### Reading the slots -/

theorem visitSlots_append_go
    (h : visitSlots mnt visitor slots lfn context = .ok (lfn', context', false)) :
    visitSlots mnt visitor (slots ++ more) lfn context = visitSlots mnt visitor more lfn' context' := by
  rw [visitSlots_append, h]; rfl

theorem visitSectors_eq (hr : Ready vol mnt)
    (h : lba + count ≤ vol.sectorCount) (lfn : Lfn) (context : σ) :
    visitSectors mnt visitor s.read vol lba count lfn context
      = visitSlots mnt visitor (slotsAt s.image (slotPositions vol (List.range' lba count))) lfn context := by
  induction count generalizing lba lfn context with
  | zero => rfl
  | succ count ih =>
    rw [visitSectors, readRelative_read hr (by omega), ok_bind, visitLongSector, sectorSlots_eq,
      range'_succ, slotPositions_cons (range' (lba + 1) count), slotsAt_append, visitSlots_append]
    refine bind_congr fun r => ?_
    rcases r with ⟨l, d, _ | _⟩
    · exact ih (by omega) l d
    · rfl

theorem cluster_le (hr : Ready vol mnt) (hc : clusterValid mnt c = true) :
    mnt.dataStart ≤ clusterLba mnt c
      ∧ clusterLba mnt c + mnt.sectorsPerCluster ≤ vol.sectorCount := by
  have hv := clusterValid_iff.mp hc
  have hend := hr.geometry.dataEnd_le
  have htotal := hr.geometry.totalSectors_le
  have hmul := cluster_end_le hv.1 hv.2.2
  unfold clusterLba
  omega

theorem clusterIsBad_of_end {v : Nat} (h : clusterIsEnd mnt v = true) : clusterIsBad mnt v = false := by
  unfold clusterIsEnd at h
  unfold clusterIsBad
  split
  · rename_i h12
    rw [if_pos h12, decide_eq_true_eq] at h
    exact beq_false_of_ne (by omega)
  · rename_i h12
    rw [if_neg h12, decide_eq_true_eq] at h
    exact beq_false_of_ne (by omega)

/-- **The walk over a chain** is the strict reader over its slots, as far as 4096 clusters go. -/
theorem walkLoop_eq (hr : Ready vol mnt)
    (h : Chain mnt (nextCluster s.read vol mnt) c cs) (lfn : Lfn) (context : σ) :
    walkLoop s.read vol mnt visitor rounds c lfn context
      = (visitSlots mnt visitor (slotsAt s.image (dirPositions vol mnt (cs.take rounds))) lfn context).bind
          fun r => if r.2.2 = true ∨ cs.length ≤ rounds then .ok r.2.1 else .error .overflow := by
  induction rounds generalizing c cs lfn context with
  | zero =>
    have hpos := h.length_pos
    refine (if_neg ?_).symm
    rintro (hend | hlen)
    · cases hend
    · omega
  | succ rounds ih =>
    have hvalid := h.valid c h.head_mem
    have hv := clusterValid_iff.mp hvalid
    rw [walkLoop, if_neg (by omega), visitSectors_eq hr (cluster_le hr hvalid).2]
    obtain ⟨rest, hcs⟩ : ∃ rest, cs = c :: rest := by cases h <;> exact ⟨_, rfl⟩
    rw [hcs, take_succ_cons, dirPositions_cons, slotsAt_append]
    rcases hvis : visitSlots mnt visitor (slotsAt s.image (slotPositions vol
        (range' (clusterLba mnt c) mnt.sectorsPerCluster))) lfn context with e | ⟨l, d, _ | _⟩
    · rw [visitSlots_append, hvis]
      rfl
    · rw [visitSlots_append_go hvis]
      cases h with
      | last _ hn he =>
        obtain rfl : rest = [] := (cons.inj hcs).2.symm
        rw [hn]
        simp only [Except.mapError, ok_bind, clusterIsBad_of_end he, he, Bool.false_eq_true, if_false,
          if_true]
        rw [take_nil]
        show Except.ok d
          = if false = true ∨ [c].length ≤ rounds + 1 then .ok d else .error Err.overflow
        simp
      | cons _ hn he _ hb hrest =>
        obtain rfl := (cons.inj hcs).2
        rw [hn]
        simp only [Except.mapError, ok_bind, hb, he, Bool.false_eq_true, if_false]
        rw [ih hrest]
        simp only [length_cons, Nat.add_le_add_iff_right]
    · rw [visitSlots_append, hvis]
      show Except.ok d
        = if true = true ∨ (c :: rest).length ≤ rounds + 1 then .ok d else .error Err.overflow
      rw [if_pos (.inl rfl)]

/-! ### The search -/

theorem scanSlots_append (slots more : List (Nat × (Nat → UInt8))) (run : Run) :
    scanSlots required (slots ++ more) run
      = match scanSlots required slots run with
        | .inl offset => .inl offset
        | .inr run => scanSlots required more run := by
  induction slots generalizing run with
  | nil => rfl
  | cons slot slots ih =>
    simp only [cons_append, scanSlots]
    split
    · split
      · rfl
      · exact ih _
    · exact ih _

theorem scanSectors_eq (hr : Ready vol mnt) (h : lba + count ≤ vol.sectorCount) (run : Run) :
    scanSectors vol s.read required lba count run
      = .ok (scanSlots required (slotsAt s.image (slotPositions vol (List.range' lba count))) run) := by
  induction count generalizing lba run with
  | zero => rfl
  | succ count ih =>
    rw [scanSectors, readRelative_read hr (by omega), ok_bind, sectorSlots_eq, range'_succ,
      slotPositions_cons (range' (lba + 1) count), slotsAt_append, scanSlots_append]
    cases scanSlots required (slotsAt s.image (slotPositions vol [lba])) run with
    | inl offset => rfl
    | inr run' => exact ih (by omega) run'

/-- **The search over a chain** is the search over its slots, as far as 4096 clusters go. -/
theorem scanChain_eq (hr : Ready vol mnt)
    (h : Chain mnt (nextCluster s.read vol mnt) c cs) (last : Nat) (run : Run) :
    scanChain vol mnt s.read required rounds c last run
      = .ok (match scanSlots required (slotsAt s.image (dirPositions vol mnt (cs.take rounds))) run with
        | .inl offset => .inl offset
        | .inr _ => .inr ((cs.take rounds).getLastD last)) := by
  induction rounds generalizing c cs last run with
  | zero => rfl
  | succ rounds ih =>
    have hvalid := h.valid c h.head_mem
    have hv := clusterValid_iff.mp hvalid
    rw [scanChain, if_neg (by omega), scanSectors_eq hr (cluster_le hr hvalid).2]
    obtain ⟨rest, hcs⟩ : ∃ rest, cs = c :: rest := by cases h <;> exact ⟨_, rfl⟩
    rw [hcs, take_succ_cons, dirPositions_cons, slotsAt_append, scanSlots_append]
    cases scanSlots required (slotsAt s.image (slotPositions vol
        (range' (clusterLba mnt c) mnt.sectorsPerCluster))) run with
    | inl offset => rfl
    | inr run' =>
      cases h with
      | last _ hn he =>
        obtain rfl : rest = [] := (cons.inj hcs).2.symm
        rw [hn]
        simp only [Except.mapError, ok_bind, he, if_true]
        rw [take_nil]
        rfl
      | cons _ hn he _ hb hrest =>
        obtain rfl := (cons.inj hcs).2
        rw [hn]
        simp only [Except.mapError, ok_bind, hb, he, Bool.false_eq_true, if_false]
        rw [ih hrest, getLastD_cons]

/-- Slots that are free, one after the other in reading order. -/
def FreeRun (image : Image) (positions : List Nat) (start count : Nat) : Prop :=
  ∀ i, i < count → ∃ p, positions[start + i]? = some p ∧ slotFree (slotAt image p)

/-- The first place in a directory where so many free slots follow one another. -/
def FirstRun (image : Image) (positions : List Nat) (start count : Nat) : Prop :=
  FreeRun image positions start count ∧ ∀ k, FreeRun image positions k count → start ≤ k

/-- What the search knows behind the slots `done`: the last of them are free, too few yet, the
first of these is the one it remembers, and no run begins before it. -/
structure Pending (image : Image) (required : Nat) (done rest : List Nat) (run : Run) : Prop where
  count_lt : run.count < required
  count_le : run.count ≤ done.length
  free : FreeRun image done (done.length - run.count) run.count
  start_eq : 0 < run.count → (done[done.length - run.count]?).map u32 = some run.start
  first : ∀ k, FreeRun image (done ++ rest) k required → done.length - run.count ≤ k

theorem FreeRun.append (h : FreeRun image ps start count) (more : List Nat) :
    FreeRun image (ps ++ more) start count := by
  intro i hi
  obtain ⟨p, hp, hfree⟩ := h i hi
  exact ⟨p, by rw [getElem?_append_left (List.getElem?_eq_some_iff.mp hp).1]; exact hp, hfree⟩

/-- A free slot goes on with the run. -/
theorem Pending.push (h : Pending image required done (p :: rest) run) (hfree : slotFree (slotAt image p)) :
    FreeRun image (done ++ [p]) (done.length - run.count) (run.count + 1)
    ∧ ((done ++ [p])[done.length - run.count]?).map u32
      = some (if run.count = 0 then u32 p else run.start) := by
  have hle := h.count_le
  constructor
  · intro i hi
    rcases lt_or_ge i run.count with hlt | hge
    · exact h.free.append [p] i hlt
    · refine ⟨p, ?_, hfree⟩
      rw [getElem?_append_right (by omega), show done.length - run.count + i - done.length = 0 by omega]
      rfl
  · split
    · rename_i h0
      rw [h0, Nat.sub_zero, getElem?_append_right (le_refl _), Nat.sub_self]
      rfl
    · rw [getElem?_append_left (by omega)]
      exact h.start_eq (by omega)

/-- A slot that is not free: no run goes over it. -/
theorem Pending.reset (h : Pending image required done (p :: rest) run)
    (hused : ¬ slotFree (slotAt image p)) (start : Nat) :
    Pending image required (done ++ [p]) rest ⟨start, 0⟩ := by
  refine ⟨lt_of_le_of_lt (zero_le _) h.count_lt, zero_le _, fun i hi => absurd hi (not_lt_zero i),
    fun h0 => absurd h0 (lt_irrefl 0), fun k hk => ?_⟩
  rw [append_assoc, singleton_append] at hk
  have hge := h.first k hk
  have hlt := h.count_lt
  rw [length_append, length_singleton, Nat.sub_zero]
  by_contra hbefore
  -- The run would have this slot among its own.
  obtain ⟨q, hq, hfree⟩ := hk (done.length - k) (by omega)
  rw [show k + (done.length - k) = done.length by omega, getElem?_append_right (le_refl _),
    Nat.sub_self] at hq
  cases hq
  exact hused hfree

/-- **The search finds the first run**, and gives up only if there is none. -/
theorem scanSlots_first (done rest : List Nat) (run : Run) (h : Pending image required done rest run) :
    match scanSlots required (slotsAt image rest) run with
    | .inl offset => ∃ start, FirstRun image (done ++ rest) start required
      ∧ ((done ++ rest)[start]?).map u32 = some offset
    | .inr _ => ∀ k, ¬ FreeRun image (done ++ rest) k required := by
  induction rest generalizing done run with
  | nil =>
    intro k hk
    have hge := h.first k hk
    have hlt := h.count_lt
    have hle := h.count_le
    obtain ⟨p, hp, -⟩ := hk (required - 1) (by omega)
    rw [append_nil] at hp
    have := (List.getElem?_eq_some_iff.mp hp).1
    omega
  | cons p rest ih =>
    have hmore : done ++ p :: rest = (done ++ [p]) ++ rest := by simp
    rw [slotsAt, map_cons, scanSlots]
    by_cases hfree : slotFree (slotAt image p)
    · obtain ⟨hrun, hstart⟩ := h.push hfree
      have hlt := h.count_lt
      have hle := h.count_le
      rw [if_pos hfree]
      dsimp only
      by_cases henough : required ≤ run.count + 1
      · rw [if_pos henough]
        refine ⟨done.length - run.count, ⟨?_, h.first⟩, ?_⟩
        · rw [hmore, show required = run.count + 1 by omega]
          exact hrun.append rest
        · rw [hmore, getElem?_append_left (by rw [length_append, length_singleton]; omega)]
          exact hstart
      · rw [if_neg henough, hmore]
        have hsub : (done ++ [p]).length - (run.count + 1) = done.length - run.count := by
          rw [length_append, length_singleton, Nat.add_sub_add_right]
        refine ih (done ++ [p]) ⟨_, run.count + 1⟩ ⟨by dsimp only; omega, ?_, ?_, fun _ => ?_, ?_⟩
        · rw [length_append, length_singleton]
          exact Nat.succ_le_succ hle
        · rw [hsub]
          exact hrun
        · rw [hsub]
          exact hstart
        · rw [hsub, ← hmore]
          exact h.first
    · rw [if_neg hfree, hmore]
      exact ih (done ++ [p]) _ (h.reset hfree _)

/-! ### Chains -/

/-- No cluster is twice in a chain. -/
theorem Chain.nodup (h : Chain mnt table c cs) : cs.Nodup := by
  have hsuffix : ∀ {c cs}, Chain mnt table c cs → ∀ x ∈ cs, ∃ front rest, cs = front ++ rest
      ∧ Chain mnt table x rest := by
    intro c cs h
    induction h with
    | @last c v hv hn he =>
      intro x hx
      rw [mem_singleton.mp hx]
      exact ⟨[], [c], rfl, Chain.last hv hn he⟩
    | @cons c n cs hv hn he h0 hb hrest ih =>
      intro x hx
      rcases mem_cons.mp hx with rfl | hx
      · exact ⟨[], _, rfl, Chain.cons hv hn he h0 hb hrest⟩
      · obtain ⟨front, rest, rfl, hrest'⟩ := ih x hx
        exact ⟨c :: front, rest, rfl, hrest'⟩
  induction h with
  | last => simp
  | @cons c n cs hv hn he h0 hb hrest ih =>
    refine nodup_cons.mpr ⟨fun hmem => ?_, ih⟩
    -- A chain from a cluster is unique, so it is not a part of itself.
    obtain ⟨front, rest, rfl, hx⟩ := hsuffix hrest c hmem
    have := congrArg length (hx.unique (Chain.cons hv hn he h0 hb hrest))
    simp at this
    omega

end

end ZephyrOS.Storage
