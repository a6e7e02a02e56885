import Mathlib.Data.List.Chain
import ZephyrOS.Memory.Heap

/-!
# The blocks of the kernel heap

The headers in memory describe a list of blocks (`Seg`), and every operation is an
edit of that list at one place: `take` cuts a free block in two, `mergeNext` joins
two neighbours. A write to one header does not disturb the others because headers lie
at least a header apart; that is the whole of the frame reasoning.

A block in use remembers, besides what its header says, what the client asked for.
-/

namespace ZephyrOS.Heap

open List Nat

/-! ### Headers -/

/-- Two headers that do not overlap. -/
def Apart (a b : Nat) : Prop := a + 24 ≤ b ∨ b + 24 ≤ a

variable {mem mem' mem'' : Memory} {hi lo b v a size n : Nat}

/-- Memories with the same words in the header at `b`. -/
theorem header_eq {b : Nat} (h : ∀ k < 6, mem' (b + 4 * k) = mem (b + 4 * k)) :
    header mem' b = header mem b := by
  unfold header
  rw [← Nat.add_zero b, h 0 (by omega), h 1 (by omega), h 2 (by omega),
    h 3 (by omega), h 4 (by omega), h 5 (by omega)]

/-- The two memories differ at most between `lo` and `hi`. -/
def Same (mem mem' : Memory) (lo hi : Nat) : Prop := ∀ a, a < lo ∨ hi ≤ a → mem' a = mem a

theorem Same.trans (h : Same mem mem' lo hi) (h' : Same mem' mem'' lo hi) : Same mem mem'' lo hi :=
  fun a ha => (h' a ha).trans (h a ha)

/-- What a write to the header at `b` leaves alone. -/
def Outside (mem mem' : Memory) (b : Nat) : Prop := Same mem mem' b (b + 24)

theorem Outside.header {c : Nat} (h : Outside mem mem' b) (hbc : Apart b c) :
    header mem' c = header mem c :=
  header_eq fun k hk => h _ (by unfold Apart at hbc; omega)

theorem outside_update {a : Nat} (h : b ≤ a ∧ a < b + 24) :
    Outside mem (Function.update mem a v) b := by
  intro x hx
  have hne : x ≠ a := by omega
  exact Function.update_of_ne hne v mem

theorem Outside.trans (h : Outside mem mem' b)
    (h' : Outside mem' mem'' b) : Outside mem mem'' b := Same.trans h h'

section

variable (mem : Memory) (b v : Nat)

@[simp] theorem header_setMagic : header (setMagic mem b v) b = { header mem b with magic := v } := by
  simp [header, setMagic]

@[simp] theorem header_setSize : header (setSize mem b v) b = { header mem b with size := v } := by
  simp [header, setSize]

@[simp] theorem header_setFree : header (setFree mem b v) b = { header mem b with free := v } := by
  simp [header, setFree]

@[simp] theorem header_setNext : header (setNext mem b v) b = { header mem b with next := v } := by
  simp [header, setNext]

@[simp] theorem header_setPrev : header (setPrev mem b v) b = { header mem b with prev := v } := by
  simp [header, setPrev]

@[simp] theorem header_setUserPtr :
    header (setUserPtr mem b v) b = { header mem b with userPtr := v } := by
  simp [header, setUserPtr]

@[simp] theorem header_setHeader (h : Header) : header (setHeader mem b h) b = h := by
  simp [setHeader]

theorem outside_setSize : Outside mem (setSize mem b v) b := outside_update (by omega)
theorem outside_setFree : Outside mem (setFree mem b v) b := outside_update (by omega)
theorem outside_setNext : Outside mem (setNext mem b v) b := outside_update (by omega)
theorem outside_setPrev : Outside mem (setPrev mem b v) b := outside_update (by omega)
theorem outside_setUserPtr : Outside mem (setUserPtr mem b v) b := outside_update (by omega)

theorem outside_setHeader (h : Header) : Outside mem (setHeader mem b h) b :=
  (outside_update (by omega)).trans <| (outside_setSize _ _ _).trans <|
    (outside_setFree _ _ _).trans <| (outside_setNext _ _ _).trans <|
    (outside_setPrev _ _ _).trans (outside_setUserPtr _ _ _)

end

/-! ### Blocks -/

/-- A block; one in use has the address that was handed out and the size asked for. -/
structure Block where
  addr : Nat
  size : Nat
  live : Option (Nat × Nat)

/-- Where the payload ends and the next header begins. -/
def Block.stop (b : Block) : Nat := b.addr + 24 + b.size

def Block.user (b : Block) : Nat :=
  match b.live with
  | none => 0
  | some (p, _) => p

/-- The link to the header at `a`; there is none at the end of the heap. -/
def link (a : Nat) : Nat := if a = heapEnd then 0 else a

/-- The header a block has, given its predecessor. -/
def Block.header (b : Block) (prev : Nat) : Header :=
  ⟨magic, b.size, if b.live.isNone then 1 else 0, link b.stop, prev, b.user⟩

/-- `Seg mem start prev blocks stop last`: the memory from `start` to `stop` is cut into
`blocks`; the header before is at `prev`, and the last one at `last`. -/
def Seg (mem : Memory) : Nat → Nat → List Block → Nat → Nat → Prop
  | start, prev, [], stop, last => stop = start ∧ last = prev
  | start, prev, b :: blocks, stop, last =>
    b.addr = start ∧ Heap.header mem start = b.header prev ∧ Seg mem b.stop start blocks stop last

variable {start prev stop last l : Nat} {blocks pre post xs ys : List Block} {b c : Block}

theorem Block.stop_eq (b : Block) : b.stop = b.addr + 24 + b.size := rfl

theorem seg_append : Seg mem start prev (xs ++ ys) stop last ↔
      ∃ mid l, Seg mem start prev xs mid l ∧ Seg mem mid l ys stop last := by
  induction xs generalizing start prev with
  | nil =>
    constructor
    · exact fun h => ⟨start, prev, ⟨rfl, rfl⟩, h⟩
    · rintro ⟨mid, l, ⟨rfl, rfl⟩, h⟩; exact h
  | cons b xs ih =>
    constructor
    · rintro ⟨h1, h2, h3⟩
      obtain ⟨mid, l, hx, hy⟩ := ih.mp h3
      exact ⟨mid, l, ⟨h1, h2, hx⟩, hy⟩
    · rintro ⟨mid, l, ⟨h1, h2, hx⟩, hy⟩
      exact ⟨h1, h2, ih.mpr ⟨mid, l, hx, hy⟩⟩

section

variable (h : Seg mem start prev blocks stop last)
include h

theorem Seg.le : start ≤ stop := by
  induction blocks generalizing start prev with
  | nil => exact le_of_eq h.1.symm
  | cons b blocks ih =>
    have := ih h.2.2
    have := h.1
    unfold Block.stop at *
    omega

/-- The blocks lie between the ends of the stretch. -/
theorem Seg.mem_range :
    ∀ b ∈ blocks, start ≤ b.addr ∧ b.stop ≤ stop := by
  induction blocks generalizing start prev with
  | nil => simp
  | cons b blocks ih =>
    intro c hc
    rcases mem_cons.mp hc with rfl | hc
    · exact ⟨le_of_eq h.1.symm, Seg.le h.2.2⟩
    obtain ⟨h1, h2⟩ := ih h.2.2 c hc
    have := h.1
    unfold Block.stop at *
    omega

/-- Only the headers count. -/
theorem Seg.frame
    (heq : ∀ b ∈ blocks, Heap.header mem' b.addr = Heap.header mem b.addr) :
    Seg mem' start prev blocks stop last := by
  induction blocks generalizing start prev with
  | nil => exact h
  | cons b blocks ih =>
    obtain ⟨h1, h2, h3⟩ := h
    refine ⟨h1, ?_, ih h3 fun c hc => heq c (mem_cons_of_mem _ hc)⟩
    rw [← h2, ← h1]
    exact heq b mem_cons_self

/-- A stretch on one side of a header that was written. -/
theorem Seg.outside {c : Nat}
    (ho : Outside mem mem' c) (hside : stop ≤ c ∨ c + 24 ≤ start) :
    Seg mem' start prev blocks stop last := by
  refine h.frame fun b hb => ho.header ?_
  have := h.mem_range b hb
  unfold Apart
  unfold Block.stop at this
  omega

end

/-- Giving the first block of the rest another predecessor. -/
theorem Seg.relink (h : Seg mem start prev blocks heapEnd last) (hs : start ≠ 0)
    (new : Nat) : ∃ last', Seg (relink mem (link start) new) start new blocks heapEnd last' := by
  cases blocks with
  | nil => exact ⟨new, h.1, rfl⟩
  | cons b blocks =>
    obtain ⟨h1, h2, h3⟩ := h
    have hlt : start ≠ heapEnd := by
      have := h3.le
      unfold Block.stop at this
      omega
    unfold Heap.relink link
    rw [if_neg hlt, if_neg hs]
    refine ⟨last, h1, ?_, h3.outside (outside_setPrev _ _ _) (.inr ?_)⟩
    · rw [header_setPrev, h2]; rfl
    · unfold Block.stop; omega

theorem outside_relink (b : Nat) : Outside mem (Heap.relink mem (link b) v) b := by
  unfold Heap.relink link
  by_cases hb : b = heapEnd
  · rw [if_pos hb]; exact fun a _ => rfl
  rw [if_neg hb]
  split
  · exact fun a _ => rfl
  · exact outside_setPrev mem b v

/-- At the end of the heap there is nothing to relink. -/
theorem relink_word {b : Nat} (h : b ≠ heapEnd → a < b ∨ b + 24 ≤ a) :
    Heap.relink mem (link b) v a = mem a := by
  by_cases hb : b = heapEnd
  · unfold Heap.relink link
    rw [if_pos hb, if_pos rfl]
  · exact outside_relink b a (h hb)

/-! ### The invariant of a block list -/

/-- A block is where and as large as the allocator makes them, and what was handed out lies
in its payload; an address past the start of the payload has its mark before it. -/
structure BlockOk (mem : Memory) (b : Block) : Prop where
  addr_mod : b.addr % 8 = 0
  size_mod : b.size % 8 = 0
  size_pos : 8 ≤ b.size
  live : ∀ p n, b.live = some (p, n) → 0 < n ∧ b.addr + 24 ≤ p ∧ p + n ≤ b.stop ∧
    (p = b.addr + 24 ∨ (b.addr + 32 ≤ p ∧ p % 4096 = 0 ∧ mem (p - 8) = magicAligned ∧
      mem (p - 4) = b.addr))

/-- One of two neighbours is in use. -/
def OneInUse (a b : Block) : Prop := a.live.isSome = true ∨ b.live.isSome = true

/-- The heap is cut into blocks. -/
structure Tiling (mem : Memory) (blocks : List Block) : Prop where
  seg : ∃ last, Seg mem heapStart 0 blocks heapEnd last
  ok : ∀ b ∈ blocks, BlockOk mem b

/-- And no two neighbours are free. -/
structure Tiled (mem : Memory) (blocks : List Block) : Prop extends Tiling mem blocks where
  inUse : blocks.IsChain OneInUse

/-- The marks are in the payload, and so is everything else a block keeps. -/
theorem BlockOk.congr (h : BlockOk mem b)
    (heq : ∀ a, b.addr + 24 ≤ a → a < b.stop → mem' a = mem a) : BlockOk mem' b := by
  refine { h with live := fun p n hl => ?_ }
  obtain ⟨h0, h1, h2, h3⟩ := h.live p n hl
  refine ⟨h0, h1, h2, ?_⟩
  rcases h3 with h3 | ⟨h3, h4, h5, h6⟩
  · exact .inl h3
  · refine .inr ⟨h3, h4, ?_, ?_⟩
    · rw [heq (p - 8) (by omega) (by omega)]; exact h5
    · rw [heq (p - 4) (by omega) (by omega)]; exact h6

/-- Blocks beside the place that was written are as they were. -/
theorem BlockOk.same (h : BlockOk mem b)
    (hs : Same mem mem' lo hi) (hside : b.stop ≤ lo ∨ hi ≤ b.addr + 24) : BlockOk mem' b :=
  h.congr fun a h1 h2 => hs a (by omega)

/-- A block in its place. -/
theorem Tiling.at (h : Tiling mem (pre ++ b :: post)) :
    ∃ l last, Seg mem heapStart 0 pre b.addr l ∧
      header mem b.addr = b.header l ∧ Seg mem b.stop b.addr post heapEnd last := by
  obtain ⟨last, hseg⟩ := h.seg
  obtain ⟨mid, l, hpre, h1, h2, h3⟩ := seg_append.mp hseg
  subst h1
  exact ⟨l, last, hpre, h2, h3⟩

/-- A property of every block, but for those in the middle, which have it too. -/
theorem forall_replace {P : Block → Prop} {m : List Block} (hside : ∀ c ∈ pre ++ post, P c)
    (hm : ∀ c ∈ m, P c) : ∀ c ∈ pre ++ (m ++ post), P c := by
  intro c hc
  simp only [mem_append] at hc hside
  rcases hc with hc | hc | hc
  · exact hside c (.inl hc)
  · exact hm c hc
  · exact hside c (.inr hc)

/-- The blocks before and after one lie beside it. -/
theorem Tiling.ok_beside (h : Tiling mem (pre ++ b :: post))
    (hs : Same mem mem' b.addr hi) (hhi : hi ≤ b.stop + 24) :
    ∀ c ∈ pre ++ post, BlockOk mem' c := by
  obtain ⟨l, last, hpre, _, hpost⟩ := h.at
  intro c hc
  rcases mem_append.mp hc with hc | hc
  · refine (h.ok c (by simp [hc])).same hs (.inl (hpre.mem_range c hc).2)
  · have := (hpost.mem_range c hc).1
    refine (h.ok c (by simp [hc])).same hs (.inr (by omega))

/-! ### The words an edit writes -/

/-- `a` is a word of the header of one of the blocks. -/
def InHeader (blocks : List Block) (a : Nat) : Prop := ∃ b ∈ blocks, b.addr ≤ a ∧ a < b.addr + 24

/-- **An edit of the block list.** Headers, marks and what is left of a header lie at multiples
of eight, so words are looked at in pairs. `q` is the page boundary whose mark is written, if
any. -/
structure Edit (q : Nat) (mem mem' : Memory) (blocks blocks' : List Block) : Prop where
  /-- A pair is as it was, or in a header of the new list, or in the mark, or it is left over
  from a header that was struck out. -/
  pair : ∀ a, a % 8 = 0 →
    (mem' a = mem a ∧ mem' (a + 4) = mem (a + 4) ∧ (InHeader blocks a → InHeader blocks' a)) ∨
    InHeader blocks' a ∨ (a + 8 = q ∧ mem' a = magicAligned) ∨
    (mem' a ≠ magic ∧ mem' a ≠ magicAligned ∧ mem' (a + 4) = 0)
  /-- A block leaves the list only with its header struck out. -/
  kept : ∀ b ∈ blocks, mem' b.addr = magic → ∃ b' ∈ blocks', b'.addr = b.addr

/-- An edit that writes headers of the new list and nothing else. -/
theorem Edit.of_headers {blocks' : List Block}
    (hword : ∀ a, ¬ InHeader blocks' a → mem' a = mem a) (hmod : ∀ b ∈ blocks', b.addr % 8 = 0)
    (hkept : ∀ b ∈ blocks, ∃ b' ∈ blocks', b'.addr = b.addr) : Edit 0 mem mem' blocks blocks' := by
  refine ⟨fun a ha => ?_, fun b hb _ => hkept b hb⟩
  by_cases hin : InHeader blocks' a
  · exact .inr (.inl hin)
  refine .inl ⟨hword a hin, hword (a + 4) ?_, ?_⟩
  · rintro ⟨b, hb, h1, h2⟩
    have := hmod b hb
    exact hin ⟨b, hb, by omega, by omega⟩
  · rintro ⟨b, hb, h1, h2⟩
    obtain ⟨b', hb', haddr⟩ := hkept b hb
    exact ⟨b', hb', by omega, by omega⟩

theorem Edit.refl : Edit 0 mem mem blocks blocks :=
  ⟨fun _ _ => .inl ⟨rfl, rfl, id⟩, fun b hb _ => ⟨b, hb, rfl⟩⟩

/-- Every block but one as before, and that one where it was. -/
theorem addr_replace {b' : Block} (h : b'.addr = b.addr)
    (mid : List Block) : ∀ c ∈ pre ++ b :: post, ∃ c' ∈ pre ++ b' :: (mid ++ post), c'.addr = c.addr := by
  intro c hc
  rw [mem_append, mem_cons] at hc
  rcases hc with hc | rfl | hc
  · exact ⟨c, by simp [hc], rfl⟩
  · exact ⟨b', by simp, h⟩
  · exact ⟨c, by simp [hc], rfl⟩

/-- A word that is in none of the headers is not in that of a given block. -/
theorem not_inHeader (h : ¬ InHeader blocks a) (hb : b ∈ blocks) :
    ¬ (b.addr ≤ a ∧ a < b.addr + 24) := fun hz => h ⟨b, hb, hz⟩

/-- The link to the block before is an address, and so no mark. -/
theorem Seg.prev_lt (h : Seg mem start prev blocks stop last)
    (hprev : prev < start) : last < stop := by
  induction blocks generalizing start prev with
  | nil =>
    obtain ⟨h1, h2⟩ := h
    omega
  | cons b blocks ih =>
    obtain ⟨h1, _, h3⟩ := h
    exact ih h3 (by unfold Block.stop; omega)

/-- The first word of each pair of a header: the magic, or nothing like one. -/
theorem Tiling.inHeader (h : Tiling mem blocks) (ha : a % 8 = 0)
    (hin : InHeader blocks a) :
    mem a ≠ magicAligned ∧ (mem a = magic → ∃ b ∈ blocks, b.addr = a) := by
  obtain ⟨b, hb, h1, h2⟩ := hin
  obtain ⟨pre, post, rfl⟩ := append_of_mem hb
  obtain ⟨l, last, hpre, hbh, hpost⟩ := h.at
  have hmod := (h.ok b hb).addr_mod
  have hl : l < b.addr := hpre.prev_lt (by decide)
  have hend : b.addr ≤ heapEnd := by
    have := hpost.le
    unfold Block.stop at this
    omega
  unfold heapEnd at hend
  unfold magicAligned magic
  have hcase : a = b.addr ∨ a = b.addr + 8 ∨ a = b.addr + 16 := by omega
  rcases hcase with rfl | rfl | rfl
  · have hm : mem b.addr = magic := congrArg Header.magic hbh
    exact ⟨by rw [hm]; decide, fun _ => ⟨b, hb, rfl⟩⟩
  · have hf : mem (b.addr + 8) = (b.header l).free := congrArg Header.free hbh
    have hle : mem (b.addr + 8) ≤ 1 := by
      rw [hf]
      unfold Block.header
      dsimp only
      split <;> omega
    exact ⟨by omega, by omega⟩
  · have hp : mem (b.addr + 16) = l := congrArg Header.prev hbh
    exact ⟨by omega, by omega⟩

/-- Edits compose; only the last one may write a mark. -/
theorem Edit.trans {q : Nat} {zs : List Block}
    (h : Edit 0 mem mem' xs ys) (h' : Edit q mem' mem'' ys zs) (hx : Tiling mem xs)
    (hz : Tiling mem'' zs) : Edit q mem mem'' xs zs := by
  constructor
  · intro a ha
    rcases h'.pair a ha with ⟨h1, h2, h3⟩ | hlater
    · rcases h.pair a ha with ⟨g1, g2, g3⟩ | hin | ⟨hq, _⟩ | ⟨g1, g2, g3⟩
      · exact .inl ⟨h1.trans g1, h2.trans g2, fun hin => h3 (g3 hin)⟩
      · exact .inr (.inl (h3 hin))
      · omega
      · exact .inr (.inr (.inr ⟨by rw [h1]; exact g1, by rw [h1]; exact g2, by rw [h2]; exact g3⟩))
    · exact .inr hlater
  · intro b hb hm
    rcases h'.pair b.addr (hx.ok b hb).addr_mod with ⟨h1, _⟩ | hin | ⟨_, hq⟩ | ⟨hne, _⟩
    · rw [h1] at hm
      obtain ⟨c, hc, hcb⟩ := h.kept b hb hm
      rw [← h1, ← hcb] at hm
      obtain ⟨d, hd, hdc⟩ := h'.kept c hc hm
      exact ⟨d, hd, hdc.trans hcb⟩
    · exact (hz.inHeader (hx.ok b hb).addr_mod hin).2 hm
    · rw [hq] at hm
      cases hm
    · exact absurd hm hne

/-! ### Taking a block -/

section

variable (hb : header mem b.addr = b.header l)
include hb

/-- Cutting a free block in two and handing out the first part. -/
theorem take_split (hpre : Seg mem heapStart 0 pre b.addr l)
    (hpost : Seg mem b.stop b.addr post heapEnd last) (hsize : size + 40 ≤ b.size) : ∃ last', Seg (take mem b.addr size) heapStart 0
      (pre ++ ⟨b.addr, size, some (b.addr + 24, n)⟩ ::
        ⟨b.addr + 24 + size, b.size - size - 24, none⟩ :: post) heapEnd last' := by
  have hend : b.stop ≤ heapEnd := hpost.le
  have hstop := b.stop_eq
  have hpos : b.stop ≠ 0 := by omega
  unfold take
  rw [hb]
  dsimp only [Block.header]
  rw [if_pos (by unfold headerSize; omega)]
  generalize hnew : b.addr + headerSize + size = new
  unfold headerSize at hnew
  obtain ⟨last', hrest⟩ :=
    (hpost.outside (outside_setHeader mem new ⟨magic, b.size - size - headerSize, 1, link b.stop,
      b.addr, 0⟩) (.inr (by omega))).relink hpos new
  -- the writes to the chosen block come last and touch no other header
  have hlast : ∀ m : Memory, Outside m (setUserPtr (setFree (setSize (setNext m b.addr new) b.addr
      size) b.addr 0) b.addr (b.addr + headerSize)) b.addr := fun m =>
    (outside_setNext _ _ _).trans <| (outside_setSize _ _ _).trans <|
      (outside_setFree _ _ _).trans (outside_setUserPtr _ _ _)
  have hold : header (relink (setHeader mem new ⟨magic, b.size - size - headerSize, 1, link b.stop,
      b.addr, 0⟩) (link b.stop) new) b.addr = b.header l := by
    rw [(outside_relink _).header (.inr (by omega)),
      (outside_setHeader _ _ _).header (.inr (by omega)), hb]
  have hnewstop : Block.stop ⟨new, b.size - size - 24, none⟩ = b.stop := by
    unfold Block.stop
    dsimp only
    omega
  refine ⟨last', seg_append.mpr ⟨b.addr, l, ?_, rfl, ?_, ?_⟩⟩
  · refine ((hpre.outside (outside_setHeader _ new _) (.inl (by omega))).outside
      (outside_relink b.stop) (.inl (by omega))).outside (hlast _) (.inl (le_refl _))
  · rw [header_setUserPtr, header_setFree, header_setSize, header_setNext, hold]
    unfold Block.header Block.user Block.stop link
    rw [if_neg (show b.addr + 24 + size ≠ heapEnd by omega), ← hnew]
    rfl
  · refine ⟨rfl, ?_, ?_⟩
    · show header _ (b.addr + 24 + size) = _
      rw [hnew, (hlast _).header (.inl (by omega)), (outside_relink _).header (.inr (by omega)),
        header_setHeader]
      unfold Block.header Block.user
      rw [hnewstop]
      rfl
    · show Seg _ (Block.stop ⟨b.addr + 24 + size, b.size - size - 24, none⟩) (b.addr + 24 + size) _ _ _
      rw [hnew, hnewstop]
      exact hrest.outside (hlast _) (.inr (by omega))

/-- Handing out a block as it is. -/
theorem take_whole (hpre : Seg mem heapStart 0 pre b.addr l)
    (hpost : Seg mem b.stop b.addr post heapEnd last) (hsize : b.size < size + 40) : Seg (take mem b.addr size) heapStart 0
      (pre ++ { b with live := some (b.addr + 24, n) } :: post) heapEnd last := by
  have hstop := b.stop_eq
  have hout : ∀ m : Memory, Outside m (setUserPtr (setFree m b.addr 0) b.addr
      (b.addr + headerSize)) b.addr := fun m => (outside_setFree _ _ _).trans (outside_setUserPtr _ _ _)
  unfold take
  rw [hb]
  dsimp only [Block.header]
  rw [if_neg (by unfold headerSize; omega)]
  refine seg_append.mpr ⟨b.addr, l, hpre.outside (hout _) (.inl (le_refl _)), rfl, ?_, ?_⟩
  · rw [header_setUserPtr, header_setFree, hb]; rfl
  · exact hpost.outside (hout _) (.inr (by omega))

/-- A block that is not split: only its own header is written. -/
theorem take_whole_word (hsize : b.size < size + 40) (ha : ¬ (b.addr ≤ a ∧ a < b.addr + 24)) :
    take mem b.addr size a = mem a := by
  unfold take
  simp only [hb]
  rw [if_neg (by unfold headerSize Block.header; dsimp only; omega)]
  exact ((outside_setFree _ _ _).trans (outside_setUserPtr _ _ _)) a (by omega)

/-- A block that is split: its header, that of the new block and that of the next. -/
theorem take_split_word (hsize : size + 40 ≤ b.size) (ha : ¬ (b.addr ≤ a ∧ a < b.addr + 24))
    (hnew : ¬ (b.addr + 24 + size ≤ a ∧ a < b.addr + 24 + size + 24))
    (hnext : b.stop ≠ heapEnd → a < b.stop ∨ b.stop + 24 ≤ a) : take mem b.addr size a = mem a := by
  unfold take
  simp only [hb]
  rw [if_pos (by unfold headerSize Block.header; dsimp only; omega),
    ((outside_setFree _ b.addr _).trans (outside_setUserPtr _ _ _)) a (by omega),
    ((outside_setNext _ b.addr _).trans (outside_setSize _ _ _)) a (by omega)]
  show Heap.relink _ (link b.stop) _ a = _
  rw [relink_word hnext]
  exact outside_setHeader mem _ _ a (by unfold headerSize; omega)

/-- `take` writes to the chosen block and to the header after it. -/
theorem take_same : Same mem (take mem b.addr size) b.addr (b.stop + 24) := by
  have hstop := b.stop_eq
  intro a ha
  rcases lt_or_ge b.size (size + 40) with hsmall | hbig
  · exact take_whole_word hb hsmall (by omega)
  · exact take_split_word hb hbig (by omega) (by omega) (by omega)

end

/-- The block at the start of a stretch that is not the end of the heap. -/
theorem Seg.inHeader_next (h : Seg mem start prev post heapEnd last) (hne : start ≠ heapEnd)
    (h1 : start ≤ a) (h2 : a < start + 24) : InHeader post a := by
  cases post with
  | nil => exact absurd h.1.symm hne
  | cons c post => exact ⟨c, mem_cons_self, by rw [h.1]; exact h1, by rw [h.1]; exact h2⟩

/-- What the clients hold. -/
def lives (blocks : List Block) : List (Nat × Nat) := blocks.filterMap Block.live

/-- **Taking.** A free block that is large enough is handed out; what is left of it, if it
is split, is free, and everything else is as it was. -/
theorem take_tiled (h : Tiled mem (pre ++ b :: post))
    (hfree : b.live = none) (hmod : size % 8 = 0) (hle : size ≤ b.size) (hn : 0 < n)
    (hns : n ≤ size) :
    ∃ b' rest, b'.addr = b.addr ∧ size ≤ b'.size ∧ b'.live = some (b.addr + 24, n) ∧
      lives rest = lives post ∧ Tiled (take mem b.addr size) (pre ++ b' :: rest) ∧
      Edit 0 mem (take mem b.addr size) (pre ++ b :: post) (pre ++ b' :: rest) := by
  obtain ⟨l, last, hpre, hb, hpost⟩ := h.at
  have hok := h.ok b (by simp)
  have hother := h.ok_beside (@take_same mem size l b hb) (le_refl _)
  have hchain := h.inUse
  rw [isChain_append, isChain_cons] at hchain
  obtain ⟨hcpre, ⟨hcb, hcpost⟩, hcjoin⟩ := hchain
  have hused : ∀ c ∈ post.head?, c.live.isSome = true := by
    intro c hc
    rcases hcb c hc with hx | hx
    · rw [hfree] at hx; cases hx
    · exact hx
  -- the new block answers for itself and for the first part of the chain
  have hnew : ∀ sz, sz % 8 = 0 → size ≤ sz → BlockOk (take mem b.addr size)
      ⟨b.addr, sz, some (b.addr + 24, n)⟩ := by
    intro sz hsz hle'
    refine ⟨hok.addr_mod, hsz, by dsimp only; omega, ?_⟩
    rintro p m hl
    cases hl
    unfold Block.stop
    dsimp only
    omega
  rcases lt_or_ge b.size (size + 40) with hsmall | hbig
  · have ht : Tiled (take mem b.addr size) (pre ++ { b with live := some (b.addr + 24, n) } :: post) := by
      refine ⟨⟨⟨last, take_whole hb hpre hpost hsmall⟩, forall_replace (m := [_]) hother ?_⟩, ?_⟩
      · exact forall_mem_singleton.mpr (hnew b.size hok.size_mod hle)
      · rw [isChain_append, isChain_cons]
        refine ⟨hcpre, ⟨fun c _ => .inl rfl, hcpost⟩, ?_⟩
        intro x hx y hy
        cases hy
        exact .inr rfl
    refine ⟨{ b with live := some (b.addr + 24, n) }, post, rfl, hle, rfl, rfl, ht,
      .of_headers (fun a ha => ?_) (fun c hc => (ht.ok c hc).addr_mod) (addr_replace (by rfl) [])⟩
    have hz := not_inHeader ha mem_append_cons_self
    exact take_whole_word hb hsmall hz
  · have ht : Tiled (take mem b.addr size) (pre ++ ⟨b.addr, size, some (b.addr + 24, n)⟩ ::
        ⟨b.addr + 24 + size, b.size - size - 24, none⟩ :: post) := by
      refine ⟨⟨take_split hb hpre hpost hbig, forall_replace (m := [_, _]) hother ?_⟩, ?_⟩
      · have h1 := hok.addr_mod
        have h2 := hok.size_mod
        exact forall_mem_cons.mpr ⟨hnew size hmod (le_refl _), forall_mem_singleton.mpr
          ⟨by dsimp only; omega, by dsimp only; omega, by dsimp only; omega, nofun⟩⟩
      · rw [isChain_append, isChain_cons, isChain_cons]
        refine ⟨hcpre, ⟨fun c _ => .inl rfl, fun c hc => .inr (hused c hc), hcpost⟩, ?_⟩
        intro x hx y hy
        cases hy
        exact .inr rfl
    refine ⟨⟨b.addr, size, some (b.addr + 24, n)⟩, ⟨b.addr + 24 + size, b.size - size - 24, none⟩ ::
      post, rfl, le_refl _, rfl, rfl, ht, .of_headers (fun a ha => ?_)
      (fun c hc => (ht.ok c hc).addr_mod) (addr_replace (by rfl) [_])⟩
    have hz := not_inHeader ha mem_append_cons_self
    refine take_split_word hb hbig hz
      (not_inHeader (b := ⟨b.addr + 24 + size, b.size - size - 24, none⟩) ha (by simp)) fun hne => ?_
    -- the header after the block, if there is one, is the first of the rest
    by_contra hz
    obtain ⟨d, hd, hr⟩ := hpost.inHeader_next hne (a := a) (by omega) (by omega)
    exact ha ⟨d, by simp [hd], hr⟩

/-! ### Joining blocks -/

/-- With no free block after it, a block stays as it is. -/
theorem mergeNext_none (hb : header mem b.addr = b.header l)
    (hpost : Seg mem b.stop b.addr post heapEnd last)
    (hused : ∀ c ∈ post.head?, c.live.isSome = true) : mergeNext mem b.addr = mem := by
  unfold mergeNext
  cases post with
  | nil =>
    have hnext : (b.header l).next = 0 := if_pos hpost.1.symm
    simp only [hb, hnext, true_or, if_true]
  | cons c post =>
    obtain ⟨h1, h2, h3⟩ := hpost
    have hlt := h3.le
    have hnext : (b.header l).next = b.stop := if_neg (by unfold Block.stop at *; omega)
    have hc : (c.header b.addr).free = 0 := by
      have hlive := hused c rfl
      unfold Block.header
      cases hl : c.live with
      | none => rw [hl] at hlive; cases hlive
      | some x => rfl
    simp only [hb, hnext, h2, hc, or_true, if_true]

section

variable (hb : header mem b.addr = b.header l) (hc : header mem c.addr = c.header b.addr)
  (haddr : c.addr = b.stop) (hfree : c.live = none)
include hb hc haddr hfree

/-- Joining a block with the free one after it, write by write. -/
theorem mergeNext_eq (hend : c.stop ≤ heapEnd) : mergeNext mem b.addr = setHeader (relink (setNext (setSize mem b.addr
      (b.size + 24 + c.size)) b.addr (link c.stop)) (link c.stop) b.addr) c.addr
      ⟨magicFreed, 0, 1, 0, 0, 0⟩ := by
  have hbstop := b.stop_eq
  have hcstop := c.stop_eq
  have hnext : (b.header l).next = c.addr := by
    rw [haddr]
    exact if_neg (by omega)
  have hsum : u32 (b.size + headerSize + c.size) = b.size + 24 + c.size := by
    refine u32_of_lt ?_
    unfold headerSize
    unfold heapEnd at hend
    omega
  have hguard : ¬ (c.addr = 0 ∨ (c.header b.addr).free = 0) := by
    unfold Block.header
    rw [hfree, not_or]
    exact ⟨by omega, by simp⟩
  unfold mergeNext
  simp only [hb, hnext, hc, if_neg hguard]
  rw [← hsum]
  rfl

/-- Joining a block with the free one after it. -/
theorem mergeNext_free (hpre : Seg mem heapStart 0 pre b.addr l)
    (hpost : Seg mem c.stop c.addr post heapEnd last) : ∃ last', Seg (mergeNext mem b.addr) heapStart 0
      (pre ++ { b with size := b.size + 24 + c.size } :: post) heapEnd last' := by
  have hend : c.stop ≤ heapEnd := hpost.le
  have hbstop := b.stop_eq
  have hcstop := c.stop_eq
  rw [mergeNext_eq hb hc haddr hfree hend]
  obtain ⟨last', hrest⟩ := (hpost.outside ((outside_setSize mem b.addr (b.size + 24 + c.size)).trans
    (outside_setNext _ b.addr (link c.stop))) (.inr (by omega))).relink (by omega) b.addr
  have hstop : Block.stop { b with size := b.size + 24 + c.size } = c.stop := by
    unfold Block.stop
    dsimp only
    omega
  refine ⟨last', seg_append.mpr ⟨b.addr, l, ?_, rfl, ?_, ?_⟩⟩
  · refine ((hpre.outside ((outside_setSize _ _ _).trans (outside_setNext _ _ _))
      (.inl (le_refl _))).outside (outside_relink c.stop) (.inl (by omega))).outside
      (outside_setHeader _ c.addr _) (.inl (by omega))
  · rw [(outside_setHeader _ _ _).header (.inr (by omega)),
      (outside_relink _).header (.inr (by omega)), header_setNext, header_setSize, hb]
    unfold Block.header
    rw [hstop]
    rfl
  · rw [hstop]
    exact hrest.outside (outside_setHeader _ _ _) (.inr (by omega))

/-- It writes the two headers and the one after them. -/
theorem mergeNext_word (hend : c.stop ≤ heapEnd) (hinb : ¬ (b.addr ≤ a ∧ a < b.addr + 24))
    (hinc : ¬ (c.addr ≤ a ∧ a < c.addr + 24))
    (hnext : c.stop ≠ heapEnd → a < c.stop ∨ c.stop + 24 ≤ a) : mergeNext mem b.addr a = mem a := by
  rw [mergeNext_eq hb hc haddr hfree hend, outside_setHeader _ c.addr _ a (by omega), relink_word hnext]
  exact ((outside_setSize _ b.addr _).trans (outside_setNext _ _ _)) a (by omega)

end

/-- Two free neighbours become one free block. -/
theorem mergeNext_tiling (h : Tiling mem (pre ++ b :: c :: post))
    (hb : b.live = none) (hc : c.live = none) :
    Tiling (mergeNext mem b.addr) (pre ++ ⟨b.addr, b.size + 24 + c.size, none⟩ :: post) := by
  obtain ⟨l, last, hpre, hbh, h1, hch, hpost⟩ := h.at
  have hbstop := b.stop_eq
  have hcstop := c.stop_eq
  have hend := hpost.le
  rw [← h1] at hch hpost
  have hsame : Same mem (mergeNext mem b.addr) b.addr (c.stop + 24) := fun a ha =>
    mergeNext_word hbh hch h1 hc hend (by omega) (by omega) (by omega)
  have hbok := h.ok b (by simp)
  have hcok := h.ok c (by simp)
  refine ⟨?_, ?_⟩
  · have hjoin := mergeNext_free hbh hch h1 hc hpre hpost
    rwa [hb] at hjoin
  · intro d hd
    rcases mem_append.mp hd with hd | hd
    · exact (h.ok d (by simp [hd])).same hsame (.inl (hpre.mem_range d hd).2)
    rcases mem_cons.mp hd with rfl | hd
    · have := hbok.addr_mod
      have := hbok.size_mod
      have := hcok.size_mod
      exact ⟨by omega, by dsimp only; omega, by dsimp only; omega, nofun⟩
    · have := (hpost.mem_range d hd).1
      exact (h.ok d (by simp [hd])).same hsame (.inr (by omega))

/-- The header of the second block is struck out. -/
theorem mergeNext_edit (h : Tiling mem (pre ++ b :: c :: post))
    (hc : c.live = none) : Edit 0 mem (mergeNext mem b.addr) (pre ++ b :: c :: post)
      (pre ++ ⟨b.addr, b.size + 24 + c.size, none⟩ :: post) := by
  obtain ⟨l, last, _, hbh, h1, hch, hpost⟩ := h.at
  have hbmod := (h.ok b (by simp)).addr_mod
  have hcmod := (h.ok c (by simp)).addr_mod
  rw [← h1] at hch
  have hgone : header (mergeNext mem b.addr) c.addr = ⟨magicFreed, 0, 1, 0, 0, 0⟩ := by
    rw [mergeNext_eq hbh hch h1 hc hpost.le, header_setHeader]
  have hword := fun a => mergeNext_word (a := a) hbh hch h1 hc hpost.le
  generalize mergeNext mem b.addr = mem' at hgone hword ⊢
  have hnext : ∀ a, a % 8 = 0 → c.stop ≠ heapEnd → c.stop ≤ a → a < c.stop + 24 →
      InHeader (pre ++ ⟨b.addr, b.size + 24 + c.size, none⟩ :: post) a := by
    intro a _ hne h1 h2
    obtain ⟨d, hd, hr⟩ := hpost.inHeader_next hne h1 h2
    exact ⟨d, by simp [hd], hr⟩
  have hcstop : c.stop % 8 = 0 := by
    have := (h.ok c (by simp)).size_mod
    unfold Block.stop
    omega
  constructor
  · intro a ha
    by_cases hinb : b.addr ≤ a ∧ a < b.addr + 24
    · exact .inr (.inl ⟨_, mem_append_cons_self, hinb⟩)
    by_cases hinc : c.addr ≤ a ∧ a < c.addr + 24
    · -- what is left of the header that was struck out
      refine .inr (.inr (.inr ?_))
      have hcase : a = c.addr ∨ a = c.addr + 8 ∨ a = c.addr + 16 := by omega
      rcases hcase with rfl | rfl | rfl
      · have h1 : mem' c.addr = magicFreed := congrArg Header.magic hgone
        have h2 : mem' (c.addr + 4) = 0 := congrArg Header.size hgone
        exact ⟨by rw [h1]; decide, by rw [h1]; decide, h2⟩
      · have h1 : mem' (c.addr + 8) = 1 := congrArg Header.free hgone
        have h2 : mem' (c.addr + 12) = 0 := congrArg Header.next hgone
        exact ⟨by rw [h1]; decide, by rw [h1]; decide, h2⟩
      · have h1 : mem' (c.addr + 16) = 0 := congrArg Header.prev hgone
        have h2 : mem' (c.addr + 20) = 0 := congrArg Header.userPtr hgone
        exact ⟨by rw [h1]; decide, by rw [h1]; decide, h2⟩
    by_cases hinn : c.stop ≠ heapEnd ∧ c.stop ≤ a ∧ a < c.stop + 24
    · exact .inr (.inl (hnext a ha hinn.1 hinn.2.1 hinn.2.2))
    refine .inl ⟨hword a hinb hinc (by omega), hword (a + 4) (by omega) (by omega) (by omega), ?_⟩
    rintro ⟨d, hd, hr⟩
    simp only [mem_append, mem_cons] at hd
    rcases hd with hd | rfl | rfl | hd
    · exact ⟨d, by simp [hd], hr⟩
    · exact absurd hr hinb
    · exact absurd hr hinc
    · exact ⟨d, by simp [hd], hr⟩
  · intro d hd hmagic
    simp only [mem_append, mem_cons] at hd
    rcases hd with hd | rfl | rfl | hd
    · exact ⟨d, by simp [hd], rfl⟩
    · exact ⟨_, mem_append_cons_self, rfl⟩
    · have h1 : mem' d.addr = magicFreed := congrArg Header.magic hgone
      rw [h1] at hmagic
      cases hmagic
    · exact ⟨d, by simp [hd], rfl⟩

/-- Marking a block free. -/
theorem setFree_tiling (h : Tiling mem (pre ++ b :: post)) :
    Tiling (setUserPtr (setFree mem b.addr 1) b.addr 0) (pre ++ { b with live := none } :: post) := by
  obtain ⟨l, last, hpre, hb, hpost⟩ := h.at
  have hout : Outside mem (setUserPtr (setFree mem b.addr 1) b.addr 0) b.addr :=
    (outside_setFree _ _ _).trans (outside_setUserPtr _ _ _)
  have hbstop := b.stop_eq
  refine ⟨⟨last, seg_append.mpr ⟨b.addr, l, hpre.outside hout (.inl (le_refl _)), rfl, ?_,
    hpost.outside hout (.inr (by omega))⟩⟩, ?_⟩
  · rw [header_setUserPtr, header_setFree, hb]; rfl
  · have hok := h.ok b (by simp)
    exact forall_replace (m := [_]) (h.ok_beside hout (by omega))
      (forall_mem_singleton.mpr { hok with live := nofun })

/-- Only its header is written. -/
theorem setFree_edit (h : Tiling mem (pre ++ b :: post)) :
    Edit 0 mem (setUserPtr (setFree mem b.addr 1) b.addr 0)
      (pre ++ b :: post) (pre ++ { b with live := none } :: post) := by
  have ht := setFree_tiling h
  refine .of_headers (fun a ha => ?_) (fun c hc => (ht.ok c hc).addr_mod) (addr_replace (by rfl) [])
  have hz := not_inHeader ha mem_append_cons_self
  exact ((outside_setFree _ b.addr _).trans (outside_setUserPtr _ _ _)) a (by dsimp only at hz; omega)

/-- Joining a freed block with what follows it. -/
theorem mergeNext_after (h : Tiling mem (pre ++ b :: post))
    (hb : b.live = none) (hchain : post.IsChain OneInUse) :
    ∃ size post', Tiling (mergeNext mem b.addr) (pre ++ ⟨b.addr, size, none⟩ :: post') ∧
      Edit 0 mem (mergeNext mem b.addr) (pre ++ b :: post) (pre ++ ⟨b.addr, size, none⟩ :: post') ∧
      lives post' = lives post ∧ post'.IsChain OneInUse ∧ ∀ c ∈ post'.head?, c.live.isSome = true := by
  obtain ⟨l, last, hpre, hbh, hpost⟩ := h.at
  by_cases hused : ∀ c ∈ post.head?, c.live.isSome = true
  · rw [mergeNext_none hbh hpost hused]
    have hsame : ⟨b.addr, b.size, none⟩ = b := by rw [← hb]
    refine ⟨b.size, post, ?_, ?_, rfl, hchain, hused⟩
    · rwa [hsame]
    · rw [hsame]
      exact .refl
  cases post with
  | nil => exact absurd (by simp) hused
  | cons c post =>
    have hc : c.live = none := by simpa using hused
    refine ⟨_, post, mergeNext_tiling h hb hc, mergeNext_edit h hc, ?_, (isChain_cons.mp hchain).2, ?_⟩
    · unfold lives
      rw [filterMap_cons, hc]
    · intro d hd
      rcases (isChain_cons.mp hchain).1 d hd with hx | hx
      · rw [hc] at hx; cases hx
      · exact hx

/-- **Releasing.** A block in use becomes free and is joined with its free neighbours. -/
theorem release_tiled (h : Tiled mem (pre ++ b :: post)) :
    ∃ blocks, Tiled (release mem b.addr) blocks ∧ lives blocks = lives pre ++ lives post ∧
      Edit 0 (setUserPtr (setFree mem b.addr 1) b.addr 0) (release mem b.addr)
        (pre ++ { b with live := none } :: post) blocks := by
  have hchain := h.inUse
  rw [isChain_append, isChain_cons] at hchain
  obtain ⟨hcpre, ⟨_, hcpost⟩, hcjoin⟩ := hchain
  have hfree := setFree_tiling h.toTiling
  obtain ⟨size, post', htil, hedit, hlives, hcpost', hused⟩ := mergeNext_after hfree rfl hcpost
  obtain ⟨l, last, hpre, hbh, hpost⟩ := htil.at
  have hprev : (header (mergeNext (setUserPtr (setFree mem b.addr 1) b.addr 0) b.addr) b.addr).prev
      = l := by rw [hbh]; rfl
  unfold release
  simp only [hprev]
  -- the block before, if there is one, is at `l`
  rcases eq_nil_or_concat pre with rfl | ⟨pre', a, rfl⟩
  · have hl : l = 0 := hpre.2
    rw [if_neg (by simp [hl])]
    refine ⟨_, ⟨htil, ?_⟩, ?_, hedit⟩
    · rw [nil_append, isChain_cons]
      exact ⟨fun c hc => .inr (hused c hc), hcpost'⟩
    · exact hlives
  · rw [concat_eq_append] at *
    obtain ⟨mid, l', _, ha1, hah, hstop, hl⟩ := seg_append.mp hpre
    subst ha1
    subst hl
    have hjoin : ∀ x ∈ pre'.getLast?, OneInUse x a := by
      intro x hx
      exact (isChain_append.mp hcpre).2.2 x hx a rfl
    have hlow : heapStart ≤ a.addr := (hpre.mem_range a (by simp)).1
    cases ha : a.live with
    | some x =>
      rw [if_neg (by rw [hah]; simp [Block.header, ha])]
      refine ⟨_, ⟨htil, ?_⟩, ?_, hedit⟩
      · rw [isChain_append, isChain_cons]
        refine ⟨hcpre, ⟨fun c hc => .inr (hused c hc), hcpost'⟩, ?_⟩
        intro y hy z _
        rw [getLast?_append, getLast?_singleton] at hy
        cases hy
        left; rw [ha]; rfl
      · unfold lives at *
        rw [filterMap_append, filterMap_cons, hlives]
    | none =>
      rw [if_pos (by rw [hah]; simp [Block.header, ha]; unfold heapStart at hlow; omega)]
      rw [← append_cons pre' a (⟨b.addr, size, none⟩ :: post')] at htil hedit
      have hmerged := mergeNext_tiling htil ha rfl
      refine ⟨_, ⟨hmerged, ?_⟩, ?_, ?_⟩
      · rw [isChain_append, isChain_cons]
        refine ⟨(isChain_append.mp hcpre).1, ⟨fun c hc => .inr (hused c hc), hcpost'⟩, ?_⟩
        intro x hx y hy
        rcases hjoin x hx with hu | hu
        · exact .inl hu
        · rw [ha] at hu; cases hu
      · unfold lives at *
        rw [filterMap_append, filterMap_cons, hlives, filterMap_append, filterMap_cons, ha]
        simp
      · exact hedit.trans (mergeNext_edit htil rfl) hfree hmerged

end ZephyrOS.Heap
