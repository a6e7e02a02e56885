import Mathlib.Data.List.Perm.Basic
import ZephyrOS.Memory.HeapProof

/-!
# Every history of the kernel heap

A history is any sequence of allocations, of frees of what is held, and of stores by
the clients into what they hold. The clients' side is a list of pairs, the address
that was returned and the size that was asked for; the allocator never sees it.
Whatever the history, the heap is tiled by blocks of which no two neighbours are
free, and the clients' list is, up to order, what the blocks in use were handed out
for.
-/

namespace ZephyrOS.Heap

open Function List

/-! ### Finding a block -/

variable {mem : Memory} {b : Block} {prev start stop last n p : Nat} {blocks pre post : List Block}
  {x : Nat × Nat} {s : State} {held : List (Nat × Nat)} {xs ys : List Block} {mem' : Memory}

theorem rangeContains_of_le (h : heapStart ≤ p) (hend : p + n ≤ heapEnd) :
    rangeContains p n = true := by
  unfold rangeContains
  simp only [Bool.and_eq_true, decide_eq_true_eq]
  omega

theorem not_outside (h : heapStart ≤ p) (hend : p + n ≤ heapEnd) :
    ¬ (p = 0 ∨ rangeContains p n = false) := by
  rw [rangeContains_of_le h hend]
  unfold heapStart at h
  simp only [Bool.true_eq_false, or_false]
  omega

theorem blockIsConsistent_of (hb : header mem b.addr = b.header prev) (hok : BlockOk mem b)
    (hstart : heapStart ≤ b.addr) (hend : b.stop ≤ heapEnd)
    (hnext : b.stop ≠ heapEnd → b.stop + 24 ≤ heapEnd) :
    blockIsConsistent mem b.addr prev = true := by
  have hstop : b.stop = b.addr + 24 + b.size := rfl
  have hpayload : rangeContains (b.addr + headerSize) b.size = true :=
    rangeContains_of_le (by omega) (hstop ▸ hend)
  unfold blockIsConsistent
  simp only [hb]
  rw [if_neg (not_outside hstart (by unfold headerSize; omega)), if_neg,
    if_neg (by simp [Block.header, hpayload]), if_neg, if_neg]
  · by_cases he : b.stop = heapEnd
    · have hlink : (b.header prev).next = 0 := if_pos he
      rw [if_pos hlink, beq_iff_eq]
      exact he
    have hlink : (b.header prev).next = b.stop := if_neg he
    rw [if_neg (by omega), hlink]
    simp only [Bool.and_eq_true, decide_eq_true_eq, beq_iff_eq]
    refine ⟨⟨?_, rfl⟩, rangeContains_of_le (by omega) (hnext he)⟩
    show b.addr + 24 + b.size < heapEnd
    omega
  · -- a block in use has its address in the payload
    rintro ⟨hfree, huser⟩
    cases hl : b.live with
    | none => simp [Block.header, hl] at hfree
    | some x =>
      obtain ⟨p, n⟩ := x
      obtain ⟨h0, h1, h2, _⟩ := hok.live p n hl
      have hu : (b.header prev).userPtr = p := by simp [Block.header, Block.user, hl]
      have hs : (b.header prev).size = b.size := rfl
      unfold headerSize at huser
      omega
  · rintro ⟨hfree, huser⟩
    cases hl : b.live with
    | none => simp [Block.header, Block.user, hl] at huser
    | some x => simp [Block.header, hl] at hfree
  · simp only [Block.header, not_or, not_and, ne_eq, not_not]
    refine ⟨trivial, fun h0 => ?_, trivial⟩
    cases hl : b.live with
    | none => simp
    | some x => simp [hl] at h0

theorem Seg.length_le (h : Seg mem start prev blocks stop last)
    (hok : ∀ b ∈ blocks, BlockOk mem b) : start + 32 * blocks.length ≤ stop := by
  induction blocks generalizing start prev with
  | nil => exact le_of_eq h.1.symm
  | cons b blocks ih =>
    obtain ⟨h1, _, h3⟩ := h
    have hrest := ih h3 fun c hc => hok c (mem_cons_of_mem _ hc)
    have hpos := (hok b mem_cons_self).size_pos
    have hstop : b.stop = b.addr + 24 + b.size := rfl
    rw [length_cons]
    omega

/-- The headers determine the blocks. -/
theorem Seg.same_blocks {last' : Nat} (hx : Seg mem start prev xs stop last)
    (hy : Seg mem start prev ys stop last') :
    ∀ b ∈ ys, ∃ c ∈ xs, c.addr = b.addr ∧ c.size = b.size ∧ c.live.isNone = b.live.isNone := by
  induction ys generalizing xs start prev with
  | nil => simp
  | cons b ys ih =>
    obtain ⟨hy1, hy2, hy3⟩ := hy
    cases xs with
    | nil =>
      have := hy3.le
      have := hx.1
      unfold Block.stop at *
      omega
    | cons c xs =>
      obtain ⟨hx1, hx2, hx3⟩ := hx
      rw [hy2] at hx2
      have hsize : c.size = b.size := (congrArg Header.size hx2).symm
      have hfree : c.live.isNone = b.live.isNone := by
        have := congrArg Header.free hx2
        unfold Block.header at this
        cases hb : b.live <;> cases hc : c.live <;> simp [hb, hc] at this ⊢
      have hstop : c.stop = b.stop := by unfold Block.stop; omega
      intro d hd
      rcases mem_cons.mp hd with rfl | hd
      · exact ⟨c, mem_cons_self, hx1.trans hy1.symm, hsize, hfree⟩
      · rw [hstop] at hx3
        obtain ⟨e, he, h⟩ := ih hx3 hy3 d hd
        exact ⟨e, mem_cons_of_mem _ he, h⟩

theorem Tiling.exists_addr (hx : Tiling mem xs) (hy : Tiling mem ys)
    {a : Nat} (h : ∃ b ∈ ys, b.addr = a) : ∃ b ∈ xs, b.addr = a := by
  obtain ⟨b, hb, haddr⟩ := h
  obtain ⟨_, hsx⟩ := hx.seg
  obtain ⟨_, hsy⟩ := hy.seg
  obtain ⟨c, hc, hcb, _⟩ := hsx.same_blocks hsy b hb
  exact ⟨c, hc, hcb.trans haddr⟩

/-- **First fit.** The loop takes the first free block that is large enough, and fails
only if there is none. -/
theorem kmallocLoop_spec {s : State} {size : Nat} : ∀ (suf : List Block) {pre : List Block}
    {rounds mid l : Nat}, Tiled s.mem (pre ++ suf) → Seg s.mem heapStart 0 pre mid l →
    (∃ last, Seg s.mem mid l suf heapEnd last) → suf.length < rounds →
    (kmallocLoop size rounds l (link mid) s = (0, s.fail) ∧
      ∀ b ∈ suf, b.live = none → b.size < size) ∨
    ∃ xs b ys, suf = xs ++ b :: ys ∧ b.live = none ∧ size ≤ b.size ∧
      kmallocLoop size rounds l (link mid) s
        = (b.addr + 24, { s with mem := take s.mem b.addr size })
  | [], pre, rounds + 1, mid, l, _, _, ⟨last, hsuf⟩, _ => by
    refine .inl ⟨?_, by simp⟩
    have hlink : link mid = 0 := if_pos hsuf.1.symm
    rw [kmallocLoop, if_pos hlink]
  | b :: suf, pre, rounds + 1, mid, l, h, hpre, ⟨last, h1, hb, hsuf⟩, hlen => by
    subst h1
    have hlow := hpre.le
    have hhigh := hsuf.le
    have hok := h.ok b (by simp)
    have hstop : b.stop = b.addr + 24 + b.size := rfl
    have hlink : link b.addr = b.addr := if_neg (by omega)
    have hcons : blockIsConsistent s.mem b.addr l = true := by
      refine blockIsConsistent_of hb hok hlow hhigh fun hne => ?_
      cases suf with
      | nil => exact absurd hsuf.1.symm hne
      | cons c suf =>
        have := hsuf.2.2.le
        have := hsuf.1
        unfold Block.stop at *
        omega
    rw [kmallocLoop, hlink, if_neg (by unfold heapStart at hlow; omega), if_neg (by simp [hcons])]
    simp only [hb]
    by_cases hfit : b.live = none ∧ size ≤ b.size
    · refine .inr ⟨[], b, suf, rfl, hfit.1, hfit.2, ?_⟩
      rw [if_pos ⟨by simp [Block.header, hfit.1], hfit.2⟩]
      rfl
    have hskip : ¬ ((b.header l).free ≠ 0 ∧ size ≤ (b.header l).size) := by
      rintro ⟨hf, hs⟩
      refine hfit ⟨?_, hs⟩
      cases hl : b.live with
      | none => rfl
      | some x => simp [Block.header, hl] at hf
    rw [if_neg hskip]
    have hpre' : Seg s.mem heapStart 0 (pre ++ [b]) b.stop b.addr :=
      seg_append.mpr ⟨b.addr, l, hpre, rfl, hb, rfl, rfl⟩
    rw [append_cons] at h
    rcases kmallocLoop_spec suf h hpre' ⟨last, hsuf⟩ (Nat.lt_of_succ_lt_succ hlen) with
      ⟨hres, hall⟩ | ⟨xs, c, ys, hsplit, hfree, hle, hres⟩
    · refine .inl ⟨hres, fun c hc hfree => ?_⟩
      rcases mem_cons.mp hc with rfl | hc
      · exact Nat.lt_of_not_le fun hle => hfit ⟨hfree, hle⟩
      · exact hall c hc hfree
    · exact .inr ⟨b :: xs, c, ys, by rw [hsplit]; rfl, hfree, hle, hres⟩

/-! ### One call -/

/-- **The state of the heap.** Either nothing was allocated yet, or the heap is tiled and
the clients hold what the blocks in use were handed out for. -/
def Inv (s : State) (held : List (Nat × Nat)) : Prop :=
  (s.base = 0 ∧ held = []) ∨
    (s.base = heapStart ∧ ∃ blocks, Tiled s.mem blocks ∧ held.Perm (lives blocks))

theorem lives_append : lives (xs ++ ys) = lives xs ++ lives ys :=
  filterMap_append

theorem lives_cons_some (h : b.live = some x) (bs : List Block) :
    lives (b :: bs) = x :: lives bs := filterMap_cons_some h

theorem lives_cons_none (h : b.live = none) (bs : List Block) :
    lives (b :: bs) = lives bs := filterMap_cons_none h

/-- A block with nothing in it but itself. -/
theorem heapInitialize_tiled (h : s.base = 0) :
    Tiled (heapInitialize s).mem [⟨heapStart, heapSize - headerSize, none⟩] := by
  have hstop : Block.stop ⟨heapStart, heapSize - headerSize, none⟩ = heapEnd := rfl
  unfold heapInitialize
  rw [if_neg (by simp [h])]
  refine ⟨⟨⟨heapStart, rfl, ?_, hstop.symm, rfl⟩, ?_⟩, isChain_singleton _⟩
  · rfl
  · simp only [mem_singleton, forall_eq]
    exact ⟨rfl, rfl, by decide, by simp⟩

theorem heapInitialize_spec (h : Inv s held) : (heapInitialize s).base = heapStart ∧
      ∃ blocks, Tiled (heapInitialize s).mem blocks ∧ held.Perm (lives blocks) := by
  rcases h with ⟨h0, rfl⟩ | ⟨hbase, h⟩
  · refine ⟨?_, _, heapInitialize_tiled h0, .nil⟩
    unfold heapInitialize
    rw [if_neg (by simp [h0])]
  · unfold heapInitialize
    rw [if_pos (by rw [hbase]; decide)]
    exact ⟨hbase, h⟩

/-- No block is larger than the heap. -/
theorem Tiling.size_le (h : Tiling mem blocks) : ∀ b ∈ blocks, b.size ≤ heapSize - headerSize := by
  obtain ⟨last, hseg⟩ := h.seg
  intro b hb
  have := hseg.mem_range b hb
  unfold Block.stop heapStart heapEnd at this
  unfold heapSize headerSize
  omega

/-- The size the heap works with, rounded up to eight bytes. -/
theorem alignSize_of_le (h : n ≤ heapSize - headerSize) : alignSize n = (n + 7) / 8 * 8 := by
  unfold heapSize headerSize at h
  exact if_neg (by omega)

/-- **`kmalloc`.** It fails only if no free block is large enough for the rounded size;
otherwise one block comes into use for the caller. -/
theorem kmalloc_spec (h : Inv s held) (n : Nat) :
    ((kmalloc n s).1 = 0 ∧ Inv (kmalloc n s).2 held ∧
      (s.base ≠ 0 → (kmalloc n s).2 = s.fail) ∧
      (0 < n → ∀ blocks, Tiled (heapInitialize s).mem blocks →
        ∀ b ∈ blocks, b.live = none → b.size < (n + 7) / 8 * 8)) ∨
    ∃ pre b post, (kmalloc n s).1 = b.addr + 24 ∧ b.live = some (b.addr + 24, n) ∧ 0 < n ∧
      (kmalloc n s).2.base = heapStart ∧ Tiled (kmalloc n s).2.mem (pre ++ b :: post) ∧
      held.Perm (lives pre ++ lives post) ∧
      (s.base ≠ 0 → ∃ blocks, Tiled s.mem blocks ∧
        Edit 0 s.mem (kmalloc n s).2.mem blocks (pre ++ b :: post)) := by
  have hlarge : heapSize - headerSize < (n + 7) / 8 * 8 → 0 < n →
      ∀ blocks, Tiled (heapInitialize s).mem blocks →
      ∀ b ∈ blocks, b.live = none → b.size < (n + 7) / 8 * 8 :=
    fun hlt _ blocks ht b hb _ => lt_of_le_of_lt (ht.size_le b hb) hlt
  unfold kmalloc
  by_cases hn : n = 0 ∨ heapSize - headerSize < n
  · rw [if_pos hn]
    refine .inl ⟨rfl, h, fun _ => rfl, fun h0 => hlarge ?_ h0⟩
    omega
  rw [if_neg hn]
  rw [not_or, not_lt] at hn
  obtain ⟨h0, hle⟩ := hn
  rw [alignSize_of_le hle]
  by_cases hfit : (n + 7) / 8 * 8 = 0 ∨ heapSize - headerSize < (n + 7) / 8 * 8
  · rw [if_pos hfit]
    exact .inl ⟨rfl, h, fun _ => rfl, hlarge (by omega)⟩
  rw [if_neg hfit]
  have hinit : s.base ≠ 0 → heapInitialize s = s := fun hne => if_pos hne
  obtain ⟨hbase, blocks, htiled, hperm⟩ := heapInitialize_spec h
  obtain ⟨last, hseg⟩ := htiled.seg
  have hlen : blocks.length < heapSize / headerSize + 1 := by
    have := hseg.length_le htiled.ok
    unfold heapStart heapEnd at this
    unfold heapSize headerSize
    omega
  have hlink : link heapStart = heapStart := if_neg (by decide)
  have hloop := @kmallocLoop_spec (heapInitialize s) ((n + 7) / 8 * 8) blocks [] _ _ _ htiled
    ⟨rfl, rfl⟩ ⟨last, hseg⟩ hlen
  rw [hlink] at hloop
  dsimp only
  rw [hbase]
  rcases hloop with ⟨hres, hall⟩ | ⟨pre, b, post, rfl, hfree, hsize, hres⟩
  · rw [hres]
    refine .inl ⟨rfl, .inr ⟨hbase, blocks, htiled, hperm⟩, fun hne => by rw [hinit hne],
      fun _ blocks' ht b hb hfree => ?_⟩
    -- the list is determined by the headers, so the blocks searched are these
    obtain ⟨last', hseg'⟩ := ht.seg
    obtain ⟨c, hc, _, hcs, hcl⟩ := hseg.same_blocks hseg' b hb
    rw [← hcs]
    exact hall c hc (Option.isNone_iff_eq_none.mp (by rw [hcl, hfree]; rfl))
  · rw [hres]
    have h8 : n ≤ (n + 7) / 8 * 8 := by omega
    obtain ⟨b', rest, haddr, _, hlive, hrest, ht, hedit⟩ :=
      take_tiled htiled hfree (by omega) hsize (Nat.pos_of_ne_zero h0) h8
    refine .inr ⟨pre, b', rest, by rw [haddr], by rw [hlive, haddr], Nat.pos_of_ne_zero h0, hbase,
      ht, ?_, fun hne => ?_⟩
    · rw [lives_append, lives_cons_none hfree] at hperm
      rw [hrest]
      exact hperm
    · rw [hinit hne] at htiled hedit ⊢
      exact ⟨_, htiled, hedit⟩

theorem Seg.last_lt (h : Seg mem start prev blocks stop last) : last = prev ∨ last < stop := by
  induction blocks generalizing start prev with
  | nil => exact .inl h.2
  | cons b blocks ih =>
    obtain ⟨h1, _, h3⟩ := h
    have hle := h3.le
    have hstop : b.stop = b.addr + 24 + b.size := rfl
    rcases ih h3 with h | h
    · omega
    · exact .inr h

/-- A pointer that was handed out leads back to its block. -/
theorem blockFromPointer_live (h : Tiling mem (pre ++ b :: post)) (hl : b.live = some (p, n)) :
    blockFromPointer mem p = b.addr := by
  obtain ⟨l, last, hpre, hb, hpost⟩ := h.at
  obtain ⟨h0, h1, h2, h3⟩ := (h.ok b (by simp)).live p n hl
  have hlow := hpre.le
  have hhigh := hpost.le
  have hstop : b.stop = b.addr + 24 + b.size := rfl
  unfold heapStart at hlow
  unfold heapEnd at hhigh
  have hmatch : blockMatches mem b.addr p = true := by
    unfold blockMatches
    simp only [hb]
    rw [if_neg, if_neg (by simp [Block.header, Block.user, hl])]
    · unfold rangeContains headerSize heapStart heapEnd Block.header
      simp only [Bool.and_eq_true, decide_eq_true_eq]
      omega
    · unfold rangeContains headerSize heapStart heapEnd
      simp only [Bool.and_eq_false_iff, decide_eq_false_iff_not]
      omega
  unfold blockFromPointer
  rw [if_neg (not_outside (by unfold heapStart; omega) (by unfold heapEnd; omega))]
  · rcases h3 with h3 | ⟨h3, h4, h5, h6⟩
    · -- eight bytes before the payload is the link to the block before, never the mark
      have hprev : mem (p - 8) = l := by
        have := congrArg Header.prev hb
        rw [show p - 8 = b.addr + 16 by omega]
        exact this
      have hl' : l ≠ magicAligned := by
        have := hpre.last_lt
        unfold magicAligned
        omega
      rw [if_neg (fun hm => hl' (hprev.symm.trans hm.2.2.1)),
        if_neg (by unfold heapStart headerSize; omega), show p - headerSize = b.addr by
          unfold headerSize; omega, if_pos hmatch]
    · rw [if_pos ⟨h4, by unfold heapStart; omega, h5, by rw [h6]; exact hmatch⟩, h6]

theorem exists_of_mem_lives (h : x ∈ lives blocks) :
    ∃ pre b post, blocks = pre ++ b :: post ∧ b.live = some x := by
  obtain ⟨b, hb, hl⟩ := mem_filterMap.mp h
  obtain ⟨pre, post, rfl⟩ := append_of_mem hb
  exact ⟨pre, b, post, rfl, hl⟩

/-- A pointer that was handed out passes every check. -/
theorem kfree_live (h : Tiling s.mem (pre ++ b :: post)) (hl : b.live = some (p, n)) :
    kfree p s = { s with mem := release s.mem b.addr } := by
  obtain ⟨l, last, hpre, hb, hpost⟩ := h.at
  obtain ⟨_, h1, _⟩ := (h.ok b (by simp)).live p n hl
  have hlow := hpre.le
  unfold heapStart at hlow
  unfold kfree
  rw [if_neg (by omega), blockFromPointer_live h hl]
  rw [if_neg (by omega), if_neg (by simp [hb, Block.header, hl])]

/-- What is left of the clients' list when one entry is freed. -/
theorem perm_erase_of_live (hperm : held.Perm (lives (pre ++ b :: post)))
    (hl : b.live = some (p, n)) : (held.erase (p, n)).Perm (lives pre ++ lives post) := by
  rw [lives_append, lives_cons_some hl] at hperm
  have herase := (hperm.trans perm_middle).erase (p, n)
  rwa [erase_cons_head] at herase

/-- **`kfree`.** What is freed is no longer held, and nothing else changes. -/
theorem kfree_inv (h : Inv s held) (hp : (p, n) ∈ held) : Inv (kfree p s) (held.erase (p, n)) := by
  rcases h with ⟨_, rfl⟩ | ⟨hbase, blocks, ht, hperm⟩
  · simp at hp
  obtain ⟨pre, b, post, rfl, hl⟩ := exists_of_mem_lives (hperm.mem_iff.mp hp)
  obtain ⟨blocks', ht', hlives, _⟩ := release_tiled ht
  rw [kfree_live ht.toTiling hl]
  exact .inr ⟨hbase, blocks', ht', by rw [hlives]; exact perm_erase_of_live hperm hl⟩

/-- Writing the mark and handing out a page boundary of the payload instead. -/
theorem mark_tiled (h : Tiled mem (pre ++ b :: post)) (hl : b.live = some x) (hn : 0 < n)
    (hp : b.addr + 32 ≤ p) (hpage : p % 4096 = 0) (hend : p + n ≤ b.stop) :
    Tiled (setUserPtr (update (update mem (p - 8) magicAligned) (p - 4) b.addr)
      b.addr p) (pre ++ { b with live := some (p, n) } :: post) := by
  obtain ⟨l, last, hpre, hb, hpost⟩ := h.at
  have hok := h.ok b (by simp)
  generalize hm : setUserPtr (update (update mem (p - 8) magicAligned) (p - 4)
    b.addr) b.addr p = mem'
  have hword : ∀ a, a ≠ b.addr + 20 → a ≠ p - 4 → a ≠ p - 8 → mem' a = mem a := by
    intro a h1 h2 h3
    rw [← hm]
    unfold setUserPtr
    rw [update_of_ne h1, update_of_ne h2, update_of_ne h3]
  have hsame : Same mem mem' b.addr b.stop := fun a ha =>
    hword a (by omega) (by omega) (by omega)
  have hother : ∀ c ∈ pre ++ post, BlockOk mem' c := h.ok_beside hsame (by omega)
  have hframe : ∀ c : Block, c.stop ≤ b.addr ∨ b.stop ≤ c.addr →
      header mem' c.addr = header mem c.addr := fun c hc =>
    header_eq fun k hk => hsame _ (by unfold Block.stop at *; omega)
  refine ⟨⟨⟨last, seg_append.mpr ⟨b.addr, l, ?_, rfl, ?_, ?_⟩⟩, ?_⟩, ?_⟩
  · exact hpre.frame fun c hc => hframe c (.inl (hpre.mem_range c hc).2)
  · rw [← hm, header_setUserPtr, @header_eq mem]
    · rw [hb]
      unfold Block.header Block.user
      simp [hl, Block.stop]
    · intro k hk
      rw [update_of_ne (by omega), update_of_ne (by omega)]
  · exact hpost.frame fun c hc => hframe c (.inr (hpost.mem_range c hc).1)
  · intro c hc
    rw [mem_append, mem_cons] at hc
    rcases hc with hc | rfl | hc
    · exact hother c (mem_append_left _ hc)
    · refine { hok with live := ?_ }
      rintro p' n' ⟨⟩
      refine ⟨hn, by dsimp only; omega, hend, .inr ⟨hp, hpage, ?_, ?_⟩⟩
      · rw [← hm]
        unfold setUserPtr
        rw [update_of_ne (by omega), update_of_ne (by omega), update_self]
      · rw [← hm]
        unfold setUserPtr
        rw [update_of_ne (by omega), update_self]
    · exact hother c (mem_append_right _ hc)
  · have hchain := h.inUse
    rw [isChain_append, isChain_cons] at hchain ⊢
    refine ⟨hchain.1, ⟨fun c hc => .inl rfl, hchain.2.1.2⟩, fun a ha c hc => ?_⟩
    obtain rfl : _ = c := Option.some.inj hc
    exact .inr rfl

/-- The mark, and the one header. -/
theorem mark_edit (hp : b.addr + 32 ≤ p) (hpage : p % 4096 = 0) :
    Edit p mem (setUserPtr (update (update mem (p - 8) magicAligned) (p - 4) b.addr)
      b.addr p) (pre ++ b :: post) (pre ++ { b with live := some (p, n) } :: post) := by
  have hkept := @addr_replace pre post b { b with live := some (p, n) } rfl []
  refine ⟨fun a ha => ?_, fun c hc _ => hkept c hc⟩
  unfold setUserPtr
  by_cases hin : b.addr ≤ a ∧ a < b.addr + 24
  · exact .inr (.inl ⟨_, mem_append_cons_self, hin⟩)
  by_cases hmark : a + 8 = p
  · refine .inr (.inr (.inl ⟨hmark, ?_⟩))
    rw [update_of_ne (by omega), update_of_ne (by omega), show a = p - 8 by omega, update_self]
  refine .inl ⟨?_, ?_, ?_⟩
  · rw [update_of_ne (by omega), update_of_ne (by omega), update_of_ne (by omega)]
  · rw [update_of_ne (by omega), update_of_ne (by omega), update_of_ne (by omega)]
  · intro hin
    obtain ⟨c, hc, hr⟩ := hin
    obtain ⟨c', hc', haddr⟩ := hkept c hc
    exact ⟨c', hc', by omega⟩

/-- **`kmalloc_aligned`.** Either it fails and nothing is held in addition, or it returns a
page boundary; the branch that gives the block back is never taken. -/
theorem kmallocAligned_spec (h : Inv s held) (n : Nat) :
    ((kmallocAligned n s).1 = 0 ∧ Inv (kmallocAligned n s).2 held ∧
      (s.base ≠ 0 → (kmallocAligned n s).2 = s.fail)) ∨
    ((kmallocAligned n s).1 ≠ 0 ∧ (kmallocAligned n s).1 % 4096 = 0 ∧ 0 < n ∧
      Inv (kmallocAligned n s).2 (((kmallocAligned n s).1, n) :: held) ∧
      (s.base ≠ 0 → ∃ blocks blocks', Tiled s.mem blocks ∧ Tiled (kmallocAligned n s).2.mem blocks' ∧
        Edit (kmallocAligned n s).1 s.mem (kmallocAligned n s).2.mem blocks blocks')) := by
  unfold kmallocAligned
  by_cases hn : n = 0 ∨ heapSize - headerSize - 4096 - 8 < n
  · rw [if_pos hn]
    exact .inl ⟨rfl, h, fun _ => rfl⟩
  rw [if_neg hn]
  have hk := kmalloc_spec h (n + 4096 + 8)
  generalize kmalloc (n + 4096 + 8) s = r at hk ⊢
  obtain ⟨raw, s'⟩ := r
  dsimp only at hk ⊢
  rcases hk with ⟨hraw, hinv, hmem, _⟩ | ⟨pre, b, post, hraw, hl, _, hbase, ht, hperm, hedit⟩
  · rw [if_pos hraw]
    exact .inl ⟨rfl, hinv, hmem⟩
  obtain ⟨l, last, hpre, _, hpost⟩ := ht.at
  obtain ⟨_, _, hfit, _⟩ := (ht.ok b (by simp)).live _ _ hl
  have hlow := hpre.le
  have hhigh := hpost.le
  unfold heapStart at hlow
  unfold heapEnd at hhigh
  -- the first page boundary eight bytes into the payload leaves room for the size
  obtain ⟨q, hq⟩ : ∃ q, alignPage (raw + 8) = q := ⟨_, rfl⟩
  have hround : q = (raw + 8 + 4095) / 4096 * 4096 := by
    rw [← hq]
    exact if_neg (by omega)
  have hroom : q + n ≤ b.stop := by omega
  rw [hq, if_neg (by omega),
    if_neg (not_outside (hpre.le.trans (by omega)) (hroom.trans hpost.le))]
  rw [show raw - headerSize = b.addr by unfold headerSize; omega]
  have hpage : q % 4096 = 0 := by rw [hround]; exact Nat.mul_mod_left _ _
  have hmark := mark_tiled ht hl (by omega) (by omega) hpage hroom
  refine .inr ⟨by omega, hpage, by omega, .inr ⟨hbase, _, hmark, ?_⟩, fun hne => ?_⟩
  · rw [lives_append]
    exact (hperm.cons _).trans perm_middle.symm
  · obtain ⟨blocks, ht0, hedit⟩ := hedit hne
    exact ⟨blocks, _, ht0, hmark, hedit.trans (mark_edit (by omega) hpage) ht0.toTiling
      hmark.toTiling⟩

/-- Where a client may write: into what is held. -/
def Store (held : List (Nat × Nat)) (mem mem' : Memory) : Prop :=
  ∀ a, (∀ x ∈ held, a < x.1 ∨ x.1 + x.2 ≤ a) → mem' a = mem a

/-- Two blocks are one block, or one is before the other. -/
theorem Tiling.apart {c : Block} (h : Tiling mem blocks) (hb : b ∈ blocks) (hc : c ∈ blocks) :
    b = c ∨ b.stop ≤ c.addr ∨ c.stop ≤ b.addr := by
  obtain ⟨pre, post, rfl⟩ := append_of_mem hb
  obtain ⟨l, last, hpre, _, hpost⟩ := h.at
  rw [mem_append, mem_cons] at hc
  rcases hc with hc | rfl | hc
  · exact .inr (.inr (hpre.mem_range c hc).2)
  · exact .inl rfl
  · exact .inr (.inl (hpost.mem_range c hc).1)

/-- Neither headers nor marks lie in what is held. -/
theorem store_tiled (ht : Tiled mem blocks) (hperm : held.Perm (lives blocks))
    (hw : Store held mem mem') : Tiled mem' blocks := by
  obtain ⟨last, hseg⟩ := ht.seg
  -- a word that is in no payload from its handed-out address on keeps its value
  have hkeep : ∀ a, (∀ b ∈ blocks, ∀ p n, b.live = some (p, n) → a < p ∨ b.stop ≤ a) →
      mem' a = mem a := by
    refine fun a ha => hw a fun x hx => ?_
    obtain ⟨b, hb, hl⟩ := mem_filterMap.mp (hperm.mem_iff.mp hx)
    have hin := (ht.ok b hb).live x.1 x.2 hl
    rcases ha b hb x.1 x.2 hl with h | h
    · exact .inl h
    · exact .inr (by omega)
  refine ⟨⟨⟨last, hseg.frame fun b hb => ?_⟩, fun b hb => ?_⟩, ht.inUse⟩
  · refine header_eq fun k hk => hkeep _ fun c hc p n hl => ?_
    have hin := (ht.ok c hc).live p n hl
    rcases ht.apart hb hc with rfl | h | h
    · omega
    · unfold Block.stop at h; omega
    · omega
  · have hok := ht.ok b hb
    refine { hok with live := fun p n hl => ?_ }
    obtain ⟨h0, h1, h2, h3⟩ := hok.live p n hl
    refine ⟨h0, h1, h2, h3.imp_right ?_⟩
    rintro ⟨h4, h5, h6, h7⟩
    -- the mark is in the block's own payload, before the address
    have hmark : ∀ a, b.addr + 24 ≤ a → a < p → mem' a = mem a := by
      refine fun a ha hap => hkeep a fun c hc p' n' hl' => ?_
      have hin := (ht.ok c hc).live p' n' hl'
      rcases ht.apart hb hc with rfl | h | h
      · rw [hl] at hl'
        cases hl'
        exact .inl hap
      · omega
      · omega
    refine ⟨h4, h5, ?_, ?_⟩
    · rw [hmark _ (by omega) (by omega), h6]
    · rw [hmark _ (by omega) (by omega), h7]

theorem store_inv (h : Inv s held) (hw : Store held s.mem mem') :
    Inv { s with mem := mem' } held := by
  rcases h with h | ⟨hbase, blocks, ht, hperm⟩
  · exact .inl h
  · exact .inr ⟨hbase, blocks, store_tiled ht hperm hw, hperm⟩

/-! ### Histories -/

/-- What a client holds after a call that returned `r`. -/
def hold (r n : Nat) (held : List (Nat × Nat)) : List (Nat × Nat) :=
  if r = 0 then held else (r, n) :: held

/-- The states of the heap and of its clients. Only what is held is freed (or the null
pointer, which a failed call returned), and only what is held is written. -/
inductive Run : State → List (Nat × Nat) → Prop
  | start {s : State} : s.base = 0 → Run s []
  | kmalloc {s : State} {held : List (Nat × Nat)} (n : Nat) : Run s held →
      Run (kmalloc n s).2 (hold (kmalloc n s).1 n held)
  | kmallocAligned {s : State} {held : List (Nat × Nat)} (n : Nat) : Run s held →
      Run (kmallocAligned n s).2 (hold (kmallocAligned n s).1 n held)
  | kfree {s : State} {held : List (Nat × Nat)} {p n : Nat} : Run s held → (p, n) ∈ held →
      Run (kfree p s) (held.erase (p, n))
  | kfreeNull {s : State} {held : List (Nat × Nat)} : Run s held → Run (kfree 0 s) held
  | store {s : State} {held : List (Nat × Nat)} {mem' : Memory} : Run s held →
      Store held s.mem mem' → Run { s with mem := mem' } held

theorem kmalloc_inv (h : Inv s held) (n : Nat) :
    Inv (kmalloc n s).2 (hold (kmalloc n s).1 n held) := by
  unfold hold
  rcases kmalloc_spec h n with ⟨hr, hinv, _⟩ | ⟨pre, b, post, hr, hl, _, hbase, ht, hperm, _⟩
  · rw [if_pos hr]; exact hinv
  rw [hr]
  refine .inr ⟨hbase, _, ht, ?_⟩
  rw [lives_append, lives_cons_some hl]
  exact (hperm.cons _).trans perm_middle.symm

theorem kmallocAligned_inv (h : Inv s held) (n : Nat) :
    Inv (kmallocAligned n s).2 (hold (kmallocAligned n s).1 n held) := by
  unfold hold
  rcases kmallocAligned_spec h n with ⟨hr, hinv, _⟩ | ⟨hr, _, _, hinv, _⟩
  · rw [if_pos hr]; exact hinv
  · rw [if_neg hr]; exact hinv

theorem Run.inv (h : Run s held) : Inv s held := by
  induction h with
  | start h => exact .inl ⟨h, rfl⟩
  | kmalloc n _ ih => exact kmalloc_inv ih n
  | kmallocAligned n _ ih => exact kmallocAligned_inv ih n
  | kfree _ hp ih => exact kfree_inv ih hp
  | kfreeNull _ ih => exact ih
  | store _ hw ih => exact store_inv ih hw

/-- What holds of the heap and its clients at every moment. -/
structure Sound (s : State) (held : List (Nat × Nat)) (blocks : List Block) : Prop where
  /-- The blocks tile the heap, linked both ways, with no two free neighbours. -/
  tiled : Tiled s.mem blocks
  /-- What is held is what the blocks in use were handed out for. -/
  lives : held.Perm (lives blocks)
  /-- It lies in the payload of its block. -/
  inside : ∀ x ∈ held, ∃ b ∈ blocks, b.live = some x ∧ b.addr + 24 ≤ x.1 ∧ x.1 + x.2 ≤ b.stop
  /-- No two of the clients share a byte. -/
  apart : held.Pairwise fun x y => x.1 + x.2 ≤ y.1 ∨ y.1 + y.2 ≤ x.1
  /-- No client has a byte of a header. -/
  headers : ∀ x ∈ held, ∀ b ∈ blocks, x.1 + x.2 ≤ b.addr ∨ b.addr + headerSize ≤ x.1

theorem Seg.lives_pairwise (h : Seg mem start prev blocks stop last)
    (hok : ∀ b ∈ blocks, BlockOk mem b) : (lives blocks).Pairwise fun x y => x.1 + x.2 ≤ y.1 := by
  induction blocks generalizing start prev with
  | nil => exact .nil
  | cons b blocks ih =>
    obtain ⟨h1, _, h3⟩ := h
    have hrest := ih h3 fun c hc => hok c (mem_cons_of_mem _ hc)
    cases hl : b.live with
    | none => rw [lives_cons_none hl]; exact hrest
    | some x =>
      rw [lives_cons_some hl]
      refine pairwise_cons.mpr ⟨fun y hy => ?_, hrest⟩
      obtain ⟨c, hc, hlc⟩ := mem_filterMap.mp hy
      have hb := (hok b mem_cons_self).live x.1 x.2 hl
      have hc' := (hok c (mem_cons_of_mem _ hc)).live y.1 y.2 hlc
      have := (h3.mem_range c hc).1
      omega

theorem Tiled.sound (ht : Tiled s.mem blocks) (hperm : held.Perm (Heap.lives blocks)) :
    Sound s held blocks := by
  obtain ⟨last, hseg⟩ := ht.seg
  refine ⟨ht, hperm, fun x hx => ?_, ?_, fun x hx c hc => ?_⟩
  · obtain ⟨b, hb, hl⟩ := mem_filterMap.mp (hperm.mem_iff.mp hx)
    obtain ⟨_, h1, h2, _⟩ := (ht.ok b hb).live x.1 x.2 hl
    exact ⟨b, hb, hl, h1, h2⟩
  · refine (hperm.pairwise_iff ?_).mpr ((hseg.lives_pairwise ht.ok).imp fun h => .inl h)
    exact fun h => h.symm
  · obtain ⟨b, hb, hl⟩ := mem_filterMap.mp (hperm.mem_iff.mp hx)
    obtain ⟨_, h1, h2, _⟩ := (ht.ok b hb).live x.1 x.2 hl
    rcases ht.apart hb hc with rfl | h | h
    · exact .inr h1
    · omega
    · unfold Block.stop at h
      unfold headerSize
      omega

/-- **The heap over every history.** Once something was allocated, the heap is `Sound`;
allocations are aligned as they should be, and `kmalloc` fails only for want of a free
block of the rounded size. -/
theorem heap_sound {s : State} {held : List (Nat × Nat)} (h : Run s held) :
    ((s.base = 0 ∧ held = []) ∨ ∃ blocks, Sound s held blocks) ∧
    (∀ n, (kmalloc n s).1 % 8 = 0) ∧ (∀ n, (kmallocAligned n s).1 % 4096 = 0) ∧
    ∀ n, 0 < n → (kmalloc n s).1 = 0 →
      ∀ blocks, Tiled (heapInitialize s).mem blocks →
        ∀ b ∈ blocks, b.live = none → b.size < (n + 7) / 8 * 8 := by
  have hinv := h.inv
  refine ⟨hinv.imp_right fun ⟨_, blocks, ht, hperm⟩ => ⟨blocks, ht.sound hperm⟩, fun n => ?_,
    fun n => ?_, fun n h0 hfail => ?_⟩
  · rcases kmalloc_spec hinv n with ⟨hr, _⟩ | ⟨pre, b, post, hr, _, _, _, ht, _⟩
    · rw [hr]
    · have := (ht.ok b (by simp)).addr_mod
      omega
  · rcases kmallocAligned_spec hinv n with ⟨hr, _⟩ | ⟨_, hr, _⟩
    · rw [hr]
    · exact hr
  · rcases kmalloc_spec hinv n with ⟨_, _, _, hall⟩ | ⟨pre, b, post, hr, _⟩
    · exact hall h0
    · omega

/-- The heap before the first allocation. -/
def unused : State := ⟨fun _ => 0, 0, 0, 0, 0⟩

theorem heap_sound_two_allocations :
    ∃ blocks, Sound (kmallocAligned 50 (kmalloc 100 unused).2).2
      [(0x01001000, 50), (0x01000018, 100)] blocks := by
  have hrun := Run.kmallocAligned 50 (Run.kmalloc 100 (@Run.start unused rfl))
  have h1 : (kmalloc 100 unused).1 = 0x01000018 := by decide +kernel
  have h2 : (kmallocAligned 50 (kmalloc 100 unused).2).1 = 0x01001000 := by decide +kernel
  rw [h2] at hrun
  exact (heap_sound hrun).1.resolve_left fun h => absurd h.2 (by decide)

end ZephyrOS.Heap
