import ZephyrOS.Memory.HeapRuns

/-!
# Freeing twice

A pointer that was freed keeps a trace in memory for as long as its block is not handed
out again: the words of its header, or what a later header left of them. `kfree` tells a
second free from a wild pointer by that trace alone.

The histories here are those of the heap with, in addition, the list of the pointers that
were freed, each with the block it had. An entry goes when an allocation hands out a byte of
that block. Whatever the rest of the history, freeing such a pointer once more writes
nothing: its block is not found again (`Stale`). Which of the two counters goes up depends
on whether the header was struck out by a merge, and a block that is merely free keeps its
header.
-/

namespace ZephyrOS.Heap

open List

/-- A pointer that was freed, and its block from the header to the end of the payload. -/
structure Freed where
  ptr : Nat
  block : Nat
  stop : Nat

/-- The block `kfree` finds for a pointer. -/
def freedOf (mem : Memory) (p : Nat) : Freed :=
  let block := blockFromPointer mem p
  ⟨p, block, block + headerSize + (header mem block).size⟩

/-- No byte of the block is among the `n` bytes at `r`. -/
def Freed.apart (f : Freed) (r n : Nat) : Bool := r + n ≤ f.block || f.stop ≤ r

/-- The pointers whose memory was not handed out by a call that returned `r`. -/
def outlive (r n : Nat) (freed : List Freed) : List Freed :=
  if r = 0 then freed else freed.filter fun f => f.apart r n

/-- The states of the heap and of its clients, with what was freed. Beside what is held, a
pointer that was freed already may be freed again. -/
inductive History : State → List (Nat × Nat) → List Freed → Prop
  | start {s : State} : s.base = 0 → History s [] []
  | kmalloc {s : State} {held : List (Nat × Nat)} {freed : List Freed} (n : Nat) :
      History s held freed → History (kmalloc n s).2 (hold (kmalloc n s).1 n held)
        (outlive (kmalloc n s).1 n freed)
  | kmallocAligned {s : State} {held : List (Nat × Nat)} {freed : List Freed} (n : Nat) :
      History s held freed → History (kmallocAligned n s).2 (hold (kmallocAligned n s).1 n held)
        (outlive (kmallocAligned n s).1 n freed)
  | kfree {s : State} {held : List (Nat × Nat)} {freed : List Freed} {p n : Nat} :
      History s held freed → (p, n) ∈ held →
      History (kfree p s) (held.erase (p, n)) (freedOf s.mem p :: freed)
  | kfreeNull {s : State} {held : List (Nat × Nat)} {freed : List Freed} :
      History s held freed → History (kfree 0 s) held freed
  | kfreeAgain {s : State} {held : List (Nat × Nat)} {freed : List Freed} {f : Freed} :
      History s held freed → f ∈ freed → History (kfree f.ptr s) held freed
  | store {s : State} {held : List (Nat × Nat)} {freed : List Freed} {mem' : Memory} :
      History s held freed → Store held s.mem mem' → History { s with mem := mem' } held freed

/-! ### The trace of a freed pointer -/

/-- **What is left of a freed pointer.** -/
structure Stale (mem : Memory) (held : List (Nat × Nat)) (f : Freed) : Prop where
  block_mod : f.block % 8 = 0
  low : heapStart ≤ f.block
  high : f.stop ≤ heapEnd
  /-- The pointer is the payload's start or a page boundary in it. -/
  place : f.ptr = f.block + 24 ∨ (f.block + 32 ≤ f.ptr ∧ f.ptr % 4096 = 0)
  inside : f.ptr < f.stop
  /-- No client has a byte of the block. -/
  apart : ∀ x ∈ held, x.1 + x.2 ≤ f.block ∨ f.stop ≤ x.1
  /-- Nothing before the pointer says it was handed out. -/
  user : mem (f.ptr - 4) ≠ f.ptr
  /-- A mark before the pointer is its own. -/
  mark : mem (f.ptr - 8) = magicAligned → mem (f.ptr - 4) = f.block
  /-- A header at the old place is the header of a block. -/
  listed : mem f.block = magic → ∃ blocks, Tiling mem blocks ∧ ∃ b ∈ blocks, b.addr = f.block

variable {mem : Memory} {blocks pre post : List Block} {b : Block} {held : List (Nat × Nat)} {f : Freed}
  {p n : Nat} {s : State} {freed : List Freed} {held' : List (Nat × Nat)} {mem' : Memory} {q : Nat}

/-- A block whose header says that `p` was handed out was handed out as `p`. -/
theorem Tiling.live_of_userPtr (h : Tiling mem blocks) (hb : b ∈ blocks)
    (hp : mem (b.addr + 20) ≠ 0) : ∃ n, 0 < n ∧ b.live = some (mem (b.addr + 20), n) := by
  obtain ⟨pre, post, rfl⟩ := append_of_mem hb
  obtain ⟨l, last, _, hbh, _⟩ := h.at
  have hu : mem (b.addr + 20) = b.user := congrArg Header.userPtr hbh
  rw [hu] at hp ⊢
  unfold Block.user at hp ⊢
  cases hl : b.live with
  | none => simp [hl] at hp
  | some x => exact ⟨x.2, ((h.ok b hb).live x.1 x.2 hl).1, rfl⟩

/-- The words after the first of a pair of a header: a size, a link forward, or a pointer. -/
theorem Tiling.inHeader_second (h : Tiling mem blocks) {a : Nat} (ha : a % 8 = 0)
    (hin : InHeader blocks a) : mem (a + 4) < heapSize ∨ a + 16 < mem (a + 4) ∨
      ∃ b ∈ blocks, a = b.addr + 16 := by
  obtain ⟨b, hb, h1, h2⟩ := hin
  obtain ⟨pre, post, rfl⟩ := append_of_mem hb
  obtain ⟨l, last, hpre, hbh, hpost⟩ := h.at
  have hmod := (h.ok b hb).addr_mod
  have hsize := h.size_le b hb
  have hcase : a = b.addr ∨ a = b.addr + 8 ∨ a = b.addr + 16 := by omega
  rcases hcase with rfl | rfl | rfl
  · have hm : mem (b.addr + 4) = b.size := congrArg Header.size hbh
    unfold heapSize headerSize at *
    omega
  · have hn : mem (b.addr + 8 + 4) = link b.stop := congrArg Header.next hbh
    have hpos := (h.ok b hb).size_pos
    rw [hn]
    unfold link
    split
    · left; decide
    · right
      unfold Block.stop
      omega
  · exact .inr (.inr ⟨b, hb, rfl⟩)

/-- What is held lies apart from the block of a freed pointer, so no header names it. -/
theorem Stale.not_live (h : Stale mem held f)
    {xs : List Block} (hx : Tiling mem' xs) (hperm : held'.Perm (lives xs))
    (hapart : ∀ x ∈ held', x.1 + x.2 ≤ f.block ∨ f.stop ≤ x.1) (ht : Tiling mem' blocks) :
    ∀ b ∈ blocks, mem' (b.addr + 20) ≠ f.ptr := by
  intro b hb hu
  have hplace := h.place
  have hin := h.inside
  obtain ⟨c, hc, hcb⟩ := hx.exists_addr ht ⟨b, hb, rfl⟩
  rw [← hcb] at hu
  obtain ⟨n, hn, hl⟩ := hx.live_of_userPtr hc (by omega)
  have := hapart _ (hperm.mem_iff.mpr (mem_filterMap.mpr ⟨c, hc, hl⟩))
  omega

/-- **One edit.** Whatever is done to the block list, the trace of a pointer that is not
handed out stays one. -/
theorem Stale.edit {blocks' : List Block} (h : Stale mem held f)
    (he : Edit q mem mem' blocks blocks') (ht : Tiling mem blocks) (ht' : Tiling mem' blocks')
    (hlive : ∀ b ∈ blocks', mem' (b.addr + 20) ≠ f.ptr)
    (hapart : ∀ x ∈ held', x.1 + x.2 ≤ f.block ∨ f.stop ≤ x.1) (hq : q ≠ f.ptr) :
    Stale mem' held' f := by
  have hmod := h.block_mod
  have hlow := h.low
  have hplace := h.place
  have hin := h.inside
  unfold heapStart at hlow
  have hptr : f.ptr - 8 + 4 = f.ptr - 4 := by omega
  have hpair := he.pair (f.ptr - 8) (by omega)
  rw [hptr] at hpair
  refine ⟨hmod, h.low, h.high, h.place, hin, hapart, ?_, fun hm => ?_, fun hm => ?_⟩
  · rcases hpair with ⟨_, hsame, _⟩ | hhead | ⟨hmark, _⟩ | ⟨_, _, hzero⟩
    · rw [hsame]
      exact h.user
    · -- a size is too small, a link forward goes past the pointer
      have hsecond := ht'.inHeader_second (by omega) hhead
      rw [hptr] at hsecond
      rcases hsecond with hsize | hnext | ⟨b, hb, haddr⟩
      · unfold heapSize at hsize
        omega
      · omega
      · have := hlive b hb
        rwa [show b.addr + 20 = f.ptr - 4 by omega] at this
    · omega
    · omega
  · rcases hpair with ⟨hsame, hsame', _⟩ | hhead | ⟨hmark, _⟩ | ⟨_, hne, _⟩
    · rw [hsame']
      exact h.mark (hsame ▸ hm)
    · exact absurd hm (ht'.inHeader (by omega) hhead).1
    · omega
    · exact absurd hm hne
  · refine ⟨blocks', ht', ?_⟩
    rcases he.pair f.block hmod with ⟨hsame, _⟩ | hhead | ⟨_, hmark⟩ | ⟨hne, _⟩
    · obtain ⟨xs, hx, hb⟩ := h.listed (hsame ▸ hm)
      obtain ⟨c, hc, hcb⟩ := ht.exists_addr hx hb
      obtain ⟨d, hd, hdc⟩ := he.kept c hc (by rw [hcb]; exact hm)
      exact ⟨d, hd, hdc.trans hcb⟩
    · exact (ht'.inHeader hmod hhead).2 hm
    · rw [hmark] at hm
      cases hm
    · exact absurd hm hne

/-- Clients do not write to a block they do not hold. -/
theorem Stale.store (h : Stale mem held f) (ht : Tiled mem blocks)
    (hperm : held.Perm (lives blocks)) (hw : Store held mem mem') : Stale mem' held f := by
  have hlow := h.low
  have hplace := h.place
  have hin := h.inside
  have hsame : ∀ a, f.block ≤ a → a < f.stop → mem' a = mem a := by
    intro a h1 h2
    refine hw a fun x hx => ?_
    have := h.apart x hx
    omega
  refine ⟨h.block_mod, hlow, h.high, hplace, hin, h.apart, ?_, fun hm => ?_, fun hm => ?_⟩
  · rw [hsame _ (by omega) (by omega)]
    exact h.user
  · rw [hsame _ (by omega) (by omega)] at hm ⊢
    exact h.mark hm
  · rw [hsame _ (by omega) (by omega)] at hm
    obtain ⟨xs, hx, hb⟩ := h.listed hm
    exact ⟨blocks, (store_tiled ht hperm hw).toTiling, ht.toTiling.exists_addr hx hb⟩

/-! ### Freeing -/

/-- The record of a pointer that is held. -/
theorem freedOf_live (h : Tiling mem (pre ++ b :: post)) (hl : b.live = some (p, n)) :
    freedOf mem p = ⟨p, b.addr, b.stop⟩ := by
  obtain ⟨l, last, _, hb, _⟩ := h.at
  unfold freedOf
  simp only [blockFromPointer_live h hl, hb]
  rfl

/-- The other clients have nothing of the block of one of them. -/
theorem Tiling.lives_apart (h : Tiling mem (pre ++ b :: post)) :
    ∀ x ∈ lives pre ++ lives post, x.1 + x.2 ≤ b.addr ∨ b.stop ≤ x.1 := by
  obtain ⟨l, last, hpre, _, hpost⟩ := h.at
  intro x hx
  rcases mem_append.mp hx with hx | hx
  · obtain ⟨c, hc, hl⟩ := mem_filterMap.mp hx
    have := (h.ok c (by simp [hc])).live x.1 x.2 hl
    have := (hpre.mem_range c hc).2
    omega
  obtain ⟨c, hc, hl⟩ := mem_filterMap.mp hx
  have := (h.ok c (by simp [hc])).live x.1 x.2 hl
  have := (hpost.mem_range c hc).1
  omega

/-- As soon as the header says that the block is free, the pointer is stale. -/
theorem stale_setFree (h : Tiling mem (pre ++ b :: post)) (hl : b.live = some (p, n))
    (hperm : held.Perm (lives pre ++ lives post)) :
    Stale (setUserPtr (setFree mem b.addr 1) b.addr 0) held ⟨p, b.addr, b.stop⟩ := by
  obtain ⟨l, last, hpre, hb, hpost⟩ := h.at
  have hok := h.ok b mem_append_cons_self
  obtain ⟨h0, h1, h2, h3⟩ := hok.live p n hl
  have hprev : l < b.addr := hpre.prev_lt (by decide)
  have hhigh := hpost.le
  have hfree := setFree_tiling h
  have hout : Outside mem (setUserPtr (setFree mem b.addr 1) b.addr 0) b.addr :=
    (outside_setFree _ _ _).trans (outside_setUserPtr _ _ _)
  have hhead : header (setUserPtr (setFree mem b.addr 1) b.addr 0) b.addr =
      { b.header l with free := 1, userPtr := 0 } := by
    rw [header_setUserPtr, header_setFree, hb]
  generalize setUserPtr (setFree mem b.addr 1) b.addr 0 = mem' at hfree hout hhead ⊢
  unfold heapEnd at hhigh
  refine ⟨hok.addr_mod, hpre.le, hpost.le, h3.imp_right fun h => ⟨h.1, h.2.1⟩, ?_, ?_, ?_, ?_, ?_⟩
  · show p < b.stop
    omega
  · exact fun x hx => h.lives_apart x (hperm.mem_iff.mp hx)
  · show mem' (p - 4) ≠ p
    rcases h3 with h3 | ⟨h3, h4, h5, h6⟩
    · have : mem' (b.addr + 20) = 0 := congrArg Header.userPtr hhead
      rw [show p - 4 = b.addr + 20 by omega]
      omega
    · rw [hout (p - 4) (by omega)]
      omega
  · rcases h3 with h3 | ⟨h3, h4, h5, h6⟩
    · -- eight bytes before the payload is the link to the block before
      have : mem' (b.addr + 16) = l := congrArg Header.prev hhead
      rw [show p - 8 = b.addr + 16 by omega]
      unfold magicAligned
      omega
    · intro _
      rw [hout (p - 4) (by omega)]
      exact h6
  · exact fun _ => ⟨_, hfree, _, mem_append_cons_self, rfl⟩

theorem blockMatches_inv {b : Nat} (h : blockMatches mem b p = true) :
    mem b = magic ∧ mem (b + 20) = p := by
  unfold blockMatches at h
  dsimp only at h
  split at h
  · cases h
  split at h
  · cases h
  · rename_i _ hne
    rw [not_or, Decidable.not_not, Decidable.not_not] at hne
    exact hne

/-- **A stale pointer has no block.** -/
theorem Stale.blockFromPointer (h : Stale mem held f) (ht : Tiling mem blocks)
    (hperm : held.Perm (lives blocks)) : blockFromPointer mem f.ptr = 0 := by
  have hlow := h.low
  have hhigh := h.high
  have hplace := h.place
  have hin := h.inside
  unfold heapStart at hlow
  unfold heapEnd at hhigh
  unfold Heap.blockFromPointer
  rw [if_neg (not_outside (by unfold heapStart; omega) (by unfold heapEnd; omega)), if_neg,
    if_neg (by unfold heapStart headerSize; omega), if_neg]
  · -- the word that would name the pointer does not
    intro hmatch
    have huser := (blockMatches_inv hmatch).2
    rw [show f.ptr - headerSize + 20 = f.ptr - 4 by unfold headerSize; omega] at huser
    exact h.user huser
  · -- a mark leads to the old header, which is free or gone
    rintro ⟨_, _, hmark, hmatch⟩
    rw [h.mark hmark] at hmatch
    obtain ⟨hmagic, huser⟩ := blockMatches_inv hmatch
    obtain ⟨xs, hx, c, hc, hcb⟩ := h.listed hmagic
    refine h.not_live ht hperm h.apart hx c hc ?_
    rw [hcb]
    exact huser

/-- The trace of a merge: the header was struck out, and `kfree` finds it from the pointer,
either right before it or through the mark. -/
def Absorbed (mem : Memory) (f : Freed) : Prop :=
  mem (f.ptr - headerSize) = magicFreed ∨
    (f.ptr % 4096 = 0 ∧ mem (f.ptr - 8) = magicAligned ∧ mem f.block = magicFreed)

instance (mem : Memory) (f : Freed) : Decidable (Absorbed mem f) := by
  unfold Absorbed
  infer_instance

theorem Stale.pointerWasFreed (h : Stale mem held f) :
    pointerWasFreed mem f.ptr = true ↔ Absorbed mem f := by
  have hlow := h.low
  have hhigh := h.high
  have hplace := h.place
  have hin := h.inside
  unfold heapStart at hlow
  unfold heapEnd at hhigh
  have hbefore : rangeContains (f.ptr - headerSize) headerSize = true :=
    rangeContains_of_le (by unfold heapStart headerSize; omega)
      (by unfold heapEnd headerSize; omega)
  unfold Heap.pointerWasFreed Absorbed
  rw [if_neg (not_outside (by unfold heapStart; omega) (by unfold heapEnd; omega)), if_neg (show ¬ f.ptr < heapStart + headerSize by unfold heapStart headerSize; omega),
    hbefore, Bool.true_and]
  split
  · rename_i hfound
    obtain ⟨hpage, _, hmark, _, hgone⟩ := hfound
    rw [h.mark hmark] at hgone
    exact iff_of_true rfl (.inr ⟨hpage, hmark, hgone⟩)
  rename_i hnot
  rw [beq_iff_eq]
  refine ⟨.inl, fun habs => habs.resolve_right ?_⟩
  rintro ⟨hpage, hmark, hgone⟩
  refine hnot ⟨hpage, by unfold heapStart; omega, hmark, ?_, ?_⟩
  · rw [h.mark hmark]
    exact rangeContains_of_le h.low (by unfold headerSize heapEnd; omega)
  · rw [h.mark hmark]
    exact hgone

/-- **The second free.** It counts, and does nothing else. -/
theorem Stale.kfree (h : Stale s.mem held f) (ht : Tiling s.mem blocks)
    (hperm : held.Perm (lives blocks)) :
    kfree f.ptr s = if Absorbed s.mem f then { s with doubleFrees := u32 (s.doubleFrees + 1) }
      else { s with invalidFrees := u32 (s.invalidFrees + 1) } := by
  have hplace := h.place
  unfold Heap.kfree
  rw [if_neg (by omega), h.blockFromPointer ht hperm]
  rw [if_pos rfl]
  exact if_congr h.pointerWasFreed rfl rfl

/-! ### Every history -/

/-- What is freed is stale, and before the first allocation nothing was freed. -/
def FreedInv (s : State) (held : List (Nat × Nat)) (freed : List Freed) : Prop :=
  Inv s held ∧ (s.base = 0 → freed = []) ∧ ∀ f ∈ freed, Stale s.mem held f

/-- What is freed stays so through a call that hands out `r`, or nothing. -/
theorem FreedInv.alloc {s' : State} {r : Nat} (h : FreedInv s held freed)
    (hinv : Inv s' (hold r n held)) (hq : q = 0 ∨ q = r) (hn : r ≠ 0 → 0 < n)
    (hcall : s.base ≠ 0 → (r = 0 ∧ s' = s.fail) ∨ (r ≠ 0 ∧ ∃ blocks blocks',
    Tiled s.mem blocks ∧ Tiled s'.mem blocks' ∧ Edit q s.mem s'.mem blocks blocks')) :
    FreedInv s' (hold r n held) (outlive r n freed) := by
  obtain ⟨_, hnone, hstale⟩ := h
  have hsub : ∀ f ∈ outlive r n freed, f ∈ freed ∧ (r ≠ 0 → r + n ≤ f.block ∨ f.stop ≤ r) := by
    intro f hf
    unfold outlive at hf
    split at hf
    · rename_i hr
      exact ⟨hf, fun hne => absurd hr hne⟩
    obtain ⟨hmem, hap⟩ := mem_filter.mp hf
    unfold Freed.apart at hap
    rw [Bool.or_eq_true, decide_eq_true_eq, decide_eq_true_eq] at hap
    exact ⟨hmem, fun _ => hap⟩
  -- a client that holds something has a tiled heap
  have hheld : r ≠ 0 → s'.base = heapStart ∧ ∃ blocks, Tiled s'.mem blocks ∧
      (hold r n held).Perm (lives blocks) := by
    refine fun hr => hinv.resolve_left fun ⟨_, hnil⟩ => ?_
    unfold hold at hnil
    rw [if_neg hr] at hnil
    cases hnil
  have hne : ∀ f ∈ freed, s.base ≠ 0 := fun f hf h0 => by rw [hnone h0] at hf; cases hf
  refine ⟨hinv, fun h0 => eq_nil_iff_forall_not_mem.mpr fun f hf => ?_, fun f hf => ?_⟩
  · have hb := hne f (hsub f hf).1
    rcases hcall hb with ⟨_, rfl⟩ | ⟨hr, _⟩
    · exact hb h0
    exact absurd ((hheld hr).1.symm.trans h0) (by decide)
  · obtain ⟨hmem, hap⟩ := hsub f hf
    have hst := hstale f hmem
    rcases hcall (hne f hmem) with ⟨hr, rfl⟩ | ⟨hr, blocks, blocks', ht, ht', he⟩
    · unfold hold
      rw [if_pos hr]
      exact hst
    have hin := hst.inside
    have hplace := hst.place
    have hapart : ∀ x ∈ hold r n held, x.1 + x.2 ≤ f.block ∨ f.stop ≤ x.1 := by
      intro x hx
      unfold hold at hx
      rw [if_neg hr, mem_cons] at hx
      rcases hx with rfl | hx
      · exact hap hr
      · exact hst.apart x hx
    obtain ⟨_, xs, hx, hperm⟩ := hheld hr
    refine hst.edit he ht.toTiling ht'.toTiling
      (hst.not_live hx.toTiling hperm hapart ht'.toTiling) hapart ?_
    -- the pointer is a byte of the block, and `r` is not
    omega

/-- What is freed stays so when something else is freed, and what is freed now joins it. -/
theorem FreedInv.free (h : FreedInv s held freed) (hp : (p, n) ∈ held) :
    FreedInv (Heap.kfree p s) (held.erase (p, n)) (freedOf s.mem p :: freed) := by
  obtain ⟨hinv, _, hstale⟩ := h
  have hinv' := kfree_inv hinv hp
  rcases hinv with ⟨_, rfl⟩ | ⟨hbase, blocks, ht, hperm⟩
  · simp at hp
  obtain ⟨pre, b, post, rfl, hl⟩ := exists_of_mem_lives (hperm.mem_iff.mp hp)
  obtain ⟨blocks', ht', hlives, hedit⟩ := release_tiled ht
  have hperm' := perm_erase_of_live hperm hl
  have hfree := setFree_tiling ht.toTiling
  rw [freedOf_live ht.toTiling hl]
  rw [kfree_live ht.toTiling hl] at hinv' ⊢
  refine ⟨hinv', fun h0 => absurd (hbase.symm.trans h0) (by decide), fun f hf => ?_⟩
  rw [← hlives] at hperm'
  rcases mem_cons.mp hf with rfl | hf
  · have hst := stale_setFree ht.toTiling hl (hlives ▸ hperm')
    refine hst.edit hedit hfree ht'.toTiling
      (hst.not_live ht'.toTiling hperm' hst.apart ht'.toTiling) hst.apart ?_
    have := hst.place
    omega
  have hst := hstale f hf
  have hapart : ∀ x ∈ held.erase (p, n), x.1 + x.2 ≤ f.block ∨ f.stop ≤ x.1 :=
    fun x hx => hst.apart x (mem_of_mem_erase hx)
  refine hst.edit ((setFree_edit ht.toTiling).trans hedit ht.toTiling ht'.toTiling) ht.toTiling
    ht'.toTiling (hst.not_live ht'.toTiling hperm' hapart ht'.toTiling) hapart ?_
  have := hst.place
  omega

/-- A freed pointer that is freed again stays what it is, and so do the others. -/
theorem FreedInv.again (h : FreedInv s held freed) (hf : f ∈ freed) :
    Heap.kfree f.ptr s = if Absorbed s.mem f then { s with doubleFrees := u32 (s.doubleFrees + 1) }
      else { s with invalidFrees := u32 (s.invalidFrees + 1) } := by
  obtain ⟨hinv, hnone, hstale⟩ := h
  rcases hinv with ⟨h0, _⟩ | ⟨_, blocks, ht, hperm⟩
  · rw [hnone h0] at hf
    cases hf
  · exact (hstale f hf).kfree ht.toTiling hperm

theorem History.inv (h : History s held freed) : FreedInv s held freed := by
  induction h with
  | start h => exact ⟨.inl ⟨h, rfl⟩, fun _ => rfl, by simp⟩
  | @kmalloc s held freed n _ ih =>
    have hinv := kmalloc_inv ih.1 n
    rcases kmalloc_spec ih.1 n with ⟨hr, _, hfail, _⟩ | ⟨pre, b, post, hr, _, hn, _, ht, _, he⟩
    · exact ih.alloc hinv (.inl rfl) (fun hne => absurd hr hne) fun hb => .inl ⟨hr, hfail hb⟩
    refine ih.alloc hinv (.inl rfl) (fun _ => hn) fun hb => .inr ⟨by omega, ?_⟩
    obtain ⟨blocks, ht0, he⟩ := he hb
    exact ⟨blocks, _, ht0, ht, he⟩
  | kmallocAligned n _ ih =>
    have hinv := kmallocAligned_inv ih.1 n
    rcases kmallocAligned_spec ih.1 n with ⟨hr, _, hfail⟩ | ⟨hr, _, hn, _, he⟩
    · exact ih.alloc hinv (.inl rfl) (fun hne => absurd hr hne) fun hb => .inl ⟨hr, hfail hb⟩
    · exact ih.alloc hinv (.inr rfl) (fun _ => hn) fun hb => .inr ⟨hr, he hb⟩
  | kfree _ hp ih => exact ih.free hp
  | kfreeNull _ ih => exact ih
  | kfreeAgain _ hf ih =>
    rw [ih.again hf]
    split
    · exact ih
    · exact ih
  | store _ hw ih =>
    obtain ⟨hinv, hnone, hstale⟩ := ih
    refine ⟨store_inv hinv hw, hnone, fun f hf => ?_⟩
    rcases hinv with ⟨h0, _⟩ | ⟨_, blocks, ht, hperm⟩
    · rw [hnone h0] at hf
      cases hf
    · exact (hstale f hf).store ht hperm hw

/-- A block that is in the list was not struck out. -/
theorem Tiling.not_absorbed (h : Tiling mem blocks) (hb : ∃ b ∈ blocks, b.addr = f.block)
    (hp : f.ptr = f.block + 24) : ¬ Absorbed mem f := by
  obtain ⟨b, hb, haddr⟩ := hb
  obtain ⟨pre, post, rfl⟩ := append_of_mem hb
  obtain ⟨l, last, _, hbh, _⟩ := h.at
  have hm : mem f.block = magic := by
    rw [← haddr]
    exact congrArg Header.magic hbh
  unfold Absorbed headerSize
  rw [hp, Nat.add_sub_cancel, hm]
  rintro (hm | ⟨_, _, hm⟩)
  · cases hm
  · cases hm

/-- **Freeing twice.** At every moment of every history, freeing once more a pointer whose
block was not handed out again writes nothing and raises one counter. It is the counter of
double frees exactly when the trace of a merge is found; otherwise the pointer is taken for
an invalid one. As long as the block is in the list, which it is until the block before it
absorbs it, there is no such trace for what `kmalloc` returned. -/
theorem kfree_again {s : State} {held : List (Nat × Nat)} {freed : List Freed}
    (h : History s held freed) {f : Freed} (hf : f ∈ freed) :
    (kfree f.ptr s = { s with doubleFrees := u32 (s.doubleFrees + 1) } ↔ Absorbed s.mem f) ∧
    (¬ Absorbed s.mem f → kfree f.ptr s = { s with invalidFrees := u32 (s.invalidFrees + 1) }) ∧
    ∀ blocks, Tiled s.mem blocks → (∃ b ∈ blocks, b.addr = f.block) → f.ptr = f.block + 24 →
      ¬ Absorbed s.mem f := by
  have hk := h.inv.again hf
  refine ⟨⟨fun heq => ?_, fun habs => by rw [hk, if_pos habs]⟩, fun hn => by rw [hk, if_neg hn],
    fun blocks ht hb hp => ht.toTiling.not_absorbed hb hp⟩
  by_contra hn
  rw [hk, if_neg hn] at heq
  have hcount : s.doubleFrees = u32 (s.doubleFrees + 1) := congrArg State.doubleFrees heq
  unfold u32 at hcount
  omega

/-- Two blocks of sixteen bytes in use, one after the other. -/
def twoBlocks : State := (kmalloc 16 (kmalloc 16 unused).2).2

theorem history_twoBlocks : History twoBlocks [(0x01000040, 16), (0x01000018, 16)] [] := by
  have h := History.kmalloc 16 (History.kmalloc 16 (@History.start unused rfl))
  exact h

/-- The second block is absorbed by the first. -/
theorem kfree_again_second :
    (kfree 0x01000040 (kfree 0x01000040 (kfree 0x01000018 twoBlocks))) =
      { kfree 0x01000040 (kfree 0x01000018 twoBlocks) with doubleFrees := 1 } := by
  have h := (history_twoBlocks.kfree (p := 0x01000018) (n := 16) (by decide)).kfree
    (p := 0x01000040) (n := 16) (by decide)
  exact (kfree_again h mem_cons_self).1.mpr (by decide +kernel)

/-- The first block is free and the second in use: nothing absorbed it, and its second free
is counted as that of an invalid pointer. -/
theorem kfree_again_first :
    ∃ freed, History (kfree 0x01000018 twoBlocks) [(0x01000040, 16)] freed ∧
      ⟨0x01000018, 0x01000000, 0x01000028⟩ ∈ freed ∧
      (kfree 0x01000018 (kfree 0x01000018 twoBlocks)).doubleFrees = 0 ∧
      (kfree 0x01000018 (kfree 0x01000018 twoBlocks)).invalidFrees = 1 := by
  refine ⟨_, history_twoBlocks.kfree (n := 16) (by decide), ?_, by decide +kernel,
    by decide +kernel⟩
  exact mem_cons_self

end ZephyrOS.Heap
