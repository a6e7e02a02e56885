import Mathlib.Data.Nat.Count
import Mathlib.Data.Finset.Interval
import Mathlib.Order.Interval.Finset.Nat
import ZephyrOS.Memory.Pmm

/-!
# The page tables agree, whatever is allocated and freed

`memory.c` keeps the state of a page in three places: its bit, its tag, and the
four counters. This file shows that they move together over every history of
allocations and frees, valid or not, and what follows for the callers: no page is
handed out twice, and none that the firmware did not report as usable.

Bits and tags are first put on one footing: a tag is the three bits `3 * page` to
`3 * page + 2` of the owner table, so a write to one page's tag is invisible to
every other page even where they share a byte, and the two tables do not meet.
-/

namespace ZephyrOS.Memory

open Lib List Nat Function UInt8

/-! ### A tag is three bits -/

variable {mem : Nat → UInt8} {page owner tag v address count j k q p : Nat} {s : MemInfo}
  {zone : MemoryZone}

theorem pageBit_eq_bitAt (bitmap : Nat) :
    pageBit mem bitmap page = bitAt mem (8 * bitmap + page) := by
  unfold pageBit bitAt
  rw [show (8 * bitmap + page) / 8 = bitmap + page / 8 by omega,
    show (8 * bitmap + page) % 8 = page % 8 by omega]

/-- The bytes `pmm_get_page_tag` loads hold every bit of the tag. -/
theorem testBit_tagBytes (hj : j < 8 ∨ (5 < page * 3 % 8 ∧ j < 16)) :
    (tagBytes mem owner page).testBit j = bitAt mem (8 * (owner + page * 3 / 8) + j) := by
  unfold tagBytes pmmZoneTagBits
  split
  · exact testBit_two_bytes _ (by omega)
  · unfold bitAt
    rw [show (8 * (owner + page * 3 / 8) + j) / 8 = owner + page * 3 / 8 by omega,
      show (8 * (owner + page * 3 / 8) + j) % 8 = j by omega]

theorem getPageTag_lt : getPageTag mem owner page < 8 :=
  lt_of_le_of_lt and_le_right (by decide)

theorem testBit_getPageTag {i : Nat} (hi : i < 3) :
    (getPageTag mem owner page).testBit i = bitAt mem (8 * owner + 3 * page + i) := by
  unfold getPageTag pmmZoneTagBits pmmZoneTagMask
  rw [testBit_and, testBit_shiftRight, testBit_tagBytes (by omega),
    show (7) = 2 ^ 3 - 1 from rfl, testBit_two_pow_sub_one, decide_eq_true hi,
    Bool.and_true]
  congr 1
  omega

/-- The bits of the word `pmm_set_page_tag` stores: the tag in its place, the rest
of the bytes as they were. -/
theorem testBit_tagWord (old shift : Nat) (hj : j < 16) :
    ((old &&& (0xFFFF ^^^ (7 <<< shift))) ||| ((tag &&& 7) <<< shift)).testBit j
      = if shift ≤ j ∧ j < shift + 3 then tag.testBit (j - shift) else old.testBit j := by
  have h7 : ∀ i, testBit 7 i = decide (i < 3) := fun i => by
    rw [show 7 = 2 ^ 3 - 1 from rfl, testBit_two_pow_sub_one]
  have hF : testBit 0xFFFF j = true := by
    rw [show 0xFFFF = 2 ^ 16 - 1 from rfl, testBit_two_pow_sub_one, decide_eq_true hj]
  simp only [testBit_or, testBit_and, testBit_xor, testBit_shiftLeft, h7, hF]
  by_cases hs : shift ≤ j
  · by_cases hlt : j < shift + 3
    · simp [hs, hlt, show j - shift < 3 by omega]
    · simp [hlt, show ¬ j - shift < 3 by omega]
  · simp [hs]

theorem testBit_lowByte (hk : k < 8) : (ofNat v).toNat.testBit k = v.testBit k := by
  rw [toNat_ofNat', testBit_mod_two_pow,
    decide_eq_true hk, Bool.true_and]

/-- A store of one byte of a word, or of both. -/
theorem bitAt_store (b p : Nat) (two : Prop) [Decidable two] :
    bitAt (if two then update (update mem b (ofNat v)) (b + 1) (ofNat (v >>> 8))
        else update mem b (ofNat v)) p
      = if p / 8 = b ∨ (two ∧ p / 8 = b + 1) then v.testBit (p - 8 * b) else bitAt mem p := by
  have hlow : p / 8 = b → (ofNat v).toNat.testBit (p % 8) = v.testBit (p - 8 * b) := fun h => by
    rw [testBit_lowByte (by omega), show p - 8 * b = p % 8 by omega]
  have hone : bitAt (update mem b (ofNat v)) p
      = if p / 8 = b then v.testBit (p - 8 * b) else bitAt mem p := by
    rw [bitAt_update]
    exact ite_congr rfl hlow fun _ => rfl
  by_cases htwo : two
  · rw [if_pos htwo, bitAt_update, hone]
    by_cases h2 : p / 8 = b + 1
    · rw [if_pos h2, if_pos (Or.inr ⟨htwo, h2⟩), testBit_lowByte (by omega), testBit_shiftRight,
        show p - 8 * b = 8 + p % 8 by omega]
    · rw [if_neg h2]
      exact if_congr (by tauto) rfl rfl
  · rw [if_neg htwo, hone]
    exact if_congr (by tauto) rfl rfl

/-- Writing a tag changes its three bits and no other bit of the memory. -/
theorem bitAt_setPageTag (p : Nat) :
    bitAt (setPageTag mem owner page tag) p
      = if 8 * owner + 3 * page ≤ p ∧ p < 8 * owner + 3 * page + 3
        then tag.testBit (p - (8 * owner + 3 * page)) else bitAt mem p := by
  unfold setPageTag pmmZoneTagBits pmmZoneTagMask
  rw [bitAt_store]
  split
  · rw [testBit_tagWord _ _ (by omega), testBit_tagBytes (by omega),
      show 8 * (owner + page * 3 / 8) + (p - 8 * (owner + page * 3 / 8)) = p by omega,
      show p - 8 * (owner + page * 3 / 8) - page * 3 % 8 = p - (8 * owner + 3 * page) by omega]
    exact if_congr (by omega) rfl rfl
  · rw [if_neg (by omega)]

/-- A tag is known by its three bits. -/
theorem getPageTag_eq (htag : tag < 8)
    (h : ∀ i < 3, bitAt mem (8 * owner + 3 * page + i) = tag.testBit i) :
    getPageTag mem owner page = tag := by
  apply eq_of_testBit_eq
  intro i
  rcases lt_or_ge i 3 with hi | hi
  · rw [testBit_getPageTag hi, h i hi]
  · have hpow : 2 ^ 3 ≤ 2 ^ i := Nat.pow_le_pow_right (by decide) hi
    rw [testBit_lt_two_pow (lt_of_lt_of_le getPageTag_lt hpow),
      testBit_lt_two_pow (lt_of_lt_of_le htag hpow)]

theorem getPageTag_congr {mem' : Nat → UInt8}
    (h : ∀ i < 3, bitAt mem (8 * owner + 3 * page + i) = bitAt mem' (8 * owner + 3 * page + i)) :
    getPageTag mem owner page = getPageTag mem' owner page :=
  getPageTag_eq getPageTag_lt fun i hi => by
    rw [testBit_getPageTag hi, h i hi]

theorem getPageTag_setPageTag (htag : tag < 8) :
    getPageTag (setPageTag mem owner page tag) owner q
      = if q = page then tag else getPageTag mem owner q := by
  by_cases hq : q = page
  · subst hq
    rw [if_pos rfl]
    refine getPageTag_eq htag fun i hi => ?_
    rw [bitAt_setPageTag, if_pos (by omega), Nat.add_sub_cancel_left]
  · rw [if_neg hq]
    exact getPageTag_congr fun i hi => by rw [bitAt_setPageTag, if_neg (by omega)]

/-! ### One page's bit and tag against the other pages' -/

section Tables

variable {bitmap owner total first : Nat} {α : Type} {mark : (Nat → UInt8) → Nat → Nat → UInt8}
  {v : Bool}

/-- The owner table starts where the bitmap has ended. -/
theorem pageBit_setPageTag (hsep : 8 * bitmap + total ≤ 8 * owner) (mem : Nat → UInt8)
    (page tag : Nat) (hp : p < total) :
    pageBit (setPageTag mem owner page tag) bitmap p = pageBit mem bitmap p := by
  rw [pageBit_eq_bitAt, pageBit_eq_bitAt, bitAt_setPageTag, if_neg (by omega)]

/-- What the tables say: page `p` has bit `bit p` and tag `tag p`. -/
def Shows (bitmap owner total : Nat) (mem : Nat → UInt8) (bit : Nat → Bool) (tag : Nat → Nat) :
    Prop :=
  ∀ p, p < total → pageBit mem bitmap p = bit p ∧ getPageTag mem owner p = tag p

/-- One more page at the end of a range that is set to one value. -/
theorem ite_range_succ (t x : α) :
    (if p = first + k then t else if first ≤ p ∧ p < first + k then t else x)
      = if first ≤ p ∧ p < first + (k + 1) then t else x := by
  by_cases hpk : p = first + k
  · rw [if_pos hpk, if_pos (by omega)]
  · rw [if_neg hpk]; exact if_congr (by omega) rfl rfl

-- what marking a page does to its bit: it is set or it is cleared
variable (hmark : ∀ m k p, bitAt (mark m k) p = if p = 8 * bitmap + k then v else bitAt m p)

include hmark

theorem pageBit_mark (mem : Nat → UInt8) :
    pageBit (mark mem k) bitmap p = if p = k then v else pageBit mem bitmap p := by
  rw [pageBit_eq_bitAt, pageBit_eq_bitAt, hmark]
  exact if_congr (by omega) rfl rfl

/-- A loop that sets the bits of a run of pages to one value. -/
theorem pageBit_range (mem : Nat → UInt8) (first count p : Nat) :
    pageBit (forRange first (fun q m => mark m q) count mem) bitmap p
      = if first ≤ p ∧ p < first + count then v else pageBit mem bitmap p := by
  refine forRange_induct (fun k m => pageBit m bitmap p
    = if first ≤ p ∧ p < first + k then v else pageBit mem bitmap p) ?_ ?_
  · rw [if_neg (by omega)]
  · intro k m _ ih
    rw [pageBit_mark hmark, ih]
    exact ite_range_succ v _

/-- The loops of `pmm_claim_pages` and `pmm_release_pages`: a run of pages gets one bit and
one tag. -/
theorem shows_range (hsep : 8 * bitmap + total ≤ 8 * owner)
    {bit : Nat → Bool} {tag : Nat → Nat} {t : Nat}
    (h : Shows bitmap owner total mem bit tag) (ht : t < 8) (hin : first + count ≤ total) :
    Shows bitmap owner total
      (forRange first (fun page m => setPageTag (mark m page) owner page t) count mem)
      (fun p => if first ≤ p ∧ p < first + count then v else bit p)
      (fun p => if first ≤ p ∧ p < first + count then t else tag p) := by
  refine forRange_induct (fun k m => Shows bitmap owner total m
    (fun p => if first ≤ p ∧ p < first + k then v else bit p)
    (fun p => if first ≤ p ∧ p < first + k then t else tag p)) ?_ ?_
  · intro p hp
    simp [h p hp]
  · intro k m hk ih p hp
    obtain ⟨hb, hg⟩ := ih p hp
    constructor
    · rw [pageBit_setPageTag hsep _ _ _ hp, pageBit_mark hmark, hb]
      exact ite_range_succ v (bit p)
    · have hkeep : getPageTag (mark m (first + k)) owner p = getPageTag m owner p :=
        getPageTag_congr fun i _ => by rw [hmark, if_neg (by omega)]
      rw [getPageTag_setPageTag ht, hkeep, hg]
      exact ite_range_succ t (tag p)

end Tables

/-! ### The invariant -/

/-- Page `p` is whole RAM that the firmware reported as usable, above everything
the kernel reserves for itself. -/
def Usable (mmap : List MmapEntry) (p : Nat) : Prop :=
  physicalIdentityStart ≤ p * pageSize
    ∧ ∃ e ∈ mmap, e.type = 1 ∧ e.base ≤ p * pageSize ∧ (p + 1) * pageSize ≤ e.base + e.length

def MemInfo.freeSet (s : MemInfo) : Finset Nat :=
  (Finset.range s.totalPages).filter fun p => s.pmmPageIsFree p

def MemInfo.ownedSet (s : MemInfo) : Finset Nat :=
  (Finset.range s.totalPages).filter fun p => s.pmmPageIsOwned p

structure Inv (s : MemInfo) : Prop where
  ready : s.pmmIsReady = true
  /-- The owner table lies past the last bit of the bitmap. -/
  sep : 8 * s.bitmap + s.totalPages ≤ 8 * s.pmmOwnerBitmap
  total : s.totalMemory = s.totalPages * pageSize
  total_lt : s.totalMemory < 4294967296
  agree : ∀ p, p < s.totalPages → (s.pmmPageIsFree p = true ↔ s.pmmGetPageTag p = pmmZoneTagFree)
  tag_le : ∀ p, p < s.totalPages → s.pmmGetPageTag p ≤ pmmZoneTagBuffer
  free : s.freePages = s.freeSet.card
  owned : s.pmmOwnedPages = s.ownedSet.card
  freeMemory : s.freeMemory = s.freePages * pageSize
  usedMemory : s.usedMemory = s.totalMemory - s.freeMemory
  usable : ∀ p, p < s.totalPages → s.pmmPageIsFree p = true ∨ s.pmmPageIsOwned p = true →
    Usable s.mmap p

/-- The tables, read through the state. -/
theorem MemInfo.shows_self (s : MemInfo) :
    Shows s.bitmap s.pmmOwnerBitmap s.totalPages s.mem (fun p => !s.pmmPageIsFree p)
      s.pmmGetPageTag := by
  intro p _
  refine ⟨?_, rfl⟩
  simp only [MemInfo.pmmPageIsFree, Bool.not_not]

theorem mem_freeSet : p ∈ s.freeSet ↔ p < s.totalPages ∧ s.pmmPageIsFree p = true := by
  unfold MemInfo.freeSet
  rw [Finset.mem_filter, Finset.mem_range]

/-! ### Claiming a free run, releasing an owned one -/

section Step

variable {s : MemInfo} {first count t : Nat}

@[simp] theorem claim_totalPages : (s.pmmClaimPages first count t).totalPages = s.totalPages := rfl

@[simp] theorem release_totalPages : (s.pmmReleasePages first count).totalPages = s.totalPages := rfl

theorem ownedTag_iff : ownedTag tag = true ↔ 3 ≤ tag ∧ tag ≤ 6 := by
  unfold ownedTag pmmZoneTagKernel pmmZoneTagBuffer
  rw [decide_eq_true_iff]

theorem not_owned_free : ownedTag pmmZoneTagFree = false := by decide

theorem Inv.not_free_of_owned (h : Inv s) (hp : p < s.totalPages)
    (ho : s.pmmPageIsOwned p = true) : s.pmmPageIsFree p = false := by
  rw [← Bool.not_eq_true, h.agree p hp]
  intro hfree
  rw [MemInfo.pmmPageIsOwned, hfree] at ho
  cases ho

theorem Inv.not_owned_of_free (h : Inv s) (hp : p < s.totalPages)
    (hf : s.pmmPageIsFree p = true) : s.pmmPageIsOwned p = false := by
  rw [MemInfo.pmmPageIsOwned, (h.agree p hp).mp hf, not_owned_free]

/-- Switching off a run of pages takes their number off the count. -/
theorem card_run {f g : Nat → Bool} {n : Nat} (hin : first + count ≤ n)
    (hf : ∀ p, p < n → f p = if first ≤ p ∧ p < first + count then false else g p)
    (hg : ∀ p, first ≤ p → p < first + count → g p = true) :
    ((Finset.range n).filter fun p => f p).card + count
      = ((Finset.range n).filter fun p => g p).card := by
  have hico : Finset.Ico first (first + count) ⊆ (Finset.range n).filter fun p => g p := fun p hp => by
    rw [Finset.mem_Ico] at hp
    rw [Finset.mem_filter, Finset.mem_range]
    exact ⟨by omega, hg p hp.1 hp.2⟩
  have hfg : ((Finset.range n).filter fun p => f p)
      = ((Finset.range n).filter fun p => g p) \ Finset.Ico first (first + count) := by
    ext p
    rw [Finset.mem_sdiff, Finset.mem_filter, Finset.mem_filter, Finset.mem_range,
      and_assoc]
    refine and_congr_right fun hp => ?_
    rw [hf p hp]
    split <;> simp [*]
  have hcard := Finset.card_sdiff_add_card_eq_card hico
  rwa [card_Ico, Nat.add_sub_cancel_left, ← hfg] at hcard

theorem card_ownedSet_le (s : MemInfo) : s.ownedSet.card ≤ s.totalPages :=
  (Finset.card_filter_le _ _).trans_eq (Finset.card_range _)

theorem card_freeSet_le (s : MemInfo) : s.freeSet.card ≤ s.totalPages :=
  (Finset.card_filter_le _ _).trans_eq (Finset.card_range _)

section Claim

variable (h : Inv s) (ht : ownedTag t = true) (hin : first + count ≤ s.totalPages)

include h ht hin

theorem claim_page (p : Nat) (hp : p < s.totalPages) :
    (s.pmmClaimPages first count t).pmmPageIsFree p
      = (if first ≤ p ∧ p < first + count then false else s.pmmPageIsFree p) ∧
    (s.pmmClaimPages first count t).pmmGetPageTag p
      = if first ≤ p ∧ p < first + count then t else s.pmmGetPageTag p := by
  have ht8 : t < 8 := by have := ownedTag_iff.mp ht; omega
  obtain ⟨hb, hg⟩ := shows_range (fun m => bitAt_setBit) h.sep s.shows_self ht8 hin p hp
  refine ⟨(congrArg not hb).trans ?_, hg⟩
  rw [apply_ite not, Bool.not_not]
  rfl

theorem claim_owned (p : Nat) (hp : p < s.totalPages) :
    (s.pmmClaimPages first count t).pmmPageIsOwned p
      = if first ≤ p ∧ p < first + count then true else s.pmmPageIsOwned p := by
  rw [MemInfo.pmmPageIsOwned, (claim_page h ht hin p hp).2, apply_ite ownedTag, ht]
  rfl

theorem claim_inv (hfree : ∀ p, first ≤ p → p < first + count → s.pmmPageIsFree p = true) :
    Inv (s.pmmClaimPages first count t) := by
  obtain ⟨ht3, ht6⟩ := ownedTag_iff.mp ht
  have hfcard : (s.pmmClaimPages first count t).freeSet.card + count = s.freeSet.card :=
    card_run hin (fun p hp => (claim_page h ht hin p hp).1) hfree
  have hocard : s.ownedSet.card + count = (s.pmmClaimPages first count t).ownedSet.card := by
    refine card_run hin (fun p hp => ?_) fun p h1 h2 => ?_
    · rw [claim_owned h ht hin p hp]
      split
      · rename_i hr
        exact h.not_owned_of_free hp (hfree p hr.1 hr.2)
      · rfl
    · rw [claim_owned h ht hin p (by omega), if_pos ⟨h1, h2⟩]
  -- the counters are below the number of pages, so none of them wraps
  have hfl := card_freeSet_le s
  have hol := card_ownedSet_le (s.pmmClaimPages first count t)
  have ⟨_, _, htot, hlt, _, _, hf, ho, hfm, hum, _⟩ := h
  rw [claim_totalPages] at hol
  rw [show pageSize = 4096 from rfl] at htot hfm
  exact
    { h with
      agree := fun p hp => by
        rw [(claim_page h ht hin p hp).1, (claim_page h ht hin p hp).2]
        split
        · simp [pmmZoneTagFree]; omega
        · exact h.agree p hp
      tag_le := fun p hp => by
        rw [(claim_page h ht hin p hp).2]
        split
        · exact ht6
        · exact h.tag_le p hp
      free := by
        show sub32 s.freePages count = _
        rw [sub32_of_le (by omega) (by omega)]; omega
      owned := by
        show u32 (s.pmmOwnedPages + count) = _
        rw [ho, u32_of_lt (by omega), hocard]
      freeMemory := by
        show sub32 s.freeMemory (count * 4096) = sub32 s.freePages count * 4096
        rw [sub32_of_le (by omega) (by omega), sub32_of_le (by omega) (by omega)]; omega
      usedMemory := by
        show u32 (s.usedMemory + count * 4096) = s.totalMemory - sub32 s.freeMemory (count * 4096)
        rw [u32_of_lt (by omega), sub32_of_le (by omega) (by omega)]; omega
      usable := fun p hp hor => by
        rw [(claim_page h ht hin p hp).1, claim_owned h ht hin p hp] at hor
        split at hor
        · rename_i hr
          exact h.usable p hp (.inl (hfree p hr.1 hr.2))
        · exact h.usable p hp hor }

end Claim

section Release

variable (h : Inv s) (hin : first + count ≤ s.totalPages)

include h hin

theorem release_page (p : Nat) (hp : p < s.totalPages) :
    (s.pmmReleasePages first count).pmmPageIsFree p
      = (if first ≤ p ∧ p < first + count then true else s.pmmPageIsFree p) ∧
    (s.pmmReleasePages first count).pmmGetPageTag p
      = if first ≤ p ∧ p < first + count then pmmZoneTagFree else s.pmmGetPageTag p := by
  obtain ⟨hb, hg⟩ := shows_range (fun m => bitAt_clearBit) h.sep s.shows_self
    (show pmmZoneTagFree < 8 by decide) hin p hp
  refine ⟨(congrArg not hb).trans ?_, hg⟩
  rw [apply_ite not, Bool.not_not]
  rfl

theorem release_owned (p : Nat) (hp : p < s.totalPages) :
    (s.pmmReleasePages first count).pmmPageIsOwned p
      = if first ≤ p ∧ p < first + count then false else s.pmmPageIsOwned p := by
  rw [MemInfo.pmmPageIsOwned, (release_page h hin p hp).2, apply_ite ownedTag]
  rfl

theorem release_inv (howned : ∀ p, first ≤ p → p < first + count → s.pmmPageIsOwned p = true) :
    Inv (s.pmmReleasePages first count) := by
  have hfcard : s.freeSet.card + count = (s.pmmReleasePages first count).freeSet.card := by
    refine card_run hin (fun p hp => ?_) fun p h1 h2 => ?_
    · rw [(release_page h hin p hp).1]
      split
      · rename_i hr
        exact h.not_free_of_owned hp (howned p hr.1 hr.2)
      · rfl
    · rw [(release_page h hin p (by omega)).1, if_pos ⟨h1, h2⟩]
  have hocard : (s.pmmReleasePages first count).ownedSet.card + count = s.ownedSet.card :=
    card_run hin (fun p hp => release_owned h hin p hp) howned
  have hfl := card_freeSet_le (s.pmmReleasePages first count)
  have hol := card_ownedSet_le s
  have ⟨_, _, htot, hlt, _, _, hf, ho, hfm, hum, _⟩ := h
  rw [release_totalPages] at hfl
  rw [show pageSize = 4096 from rfl] at htot hfm
  exact
    { h with
      agree := fun p hp => by
        rw [(release_page h hin p hp).1, (release_page h hin p hp).2]
        split
        · simp
        · exact h.agree p hp
      tag_le := fun p hp => by
        rw [(release_page h hin p hp).2]
        split
        · decide
        · exact h.tag_le p hp
      free := by
        show u32 (s.freePages + count) = _
        rw [u32_of_lt (by omega)]; omega
      owned := by
        show sub32 s.pmmOwnedPages count = _
        rw [sub32_of_le (by omega) (by omega)]; omega
      freeMemory := by
        show u32 (s.freeMemory + count * 4096) = u32 (s.freePages + count) * 4096
        rw [u32_of_lt (by omega), u32_of_lt (by omega)]; omega
      usedMemory := by
        show sub32 s.usedMemory (count * 4096) = s.totalMemory - u32 (s.freeMemory + count * 4096)
        rw [sub32_of_le (by omega) (by omega), u32_of_lt (by omega)]; omega
      usable := fun p hp hor => by
        rw [(release_page h hin p hp).1, release_owned h hin p hp] at hor
        split at hor
        · rename_i hr
          exact h.usable p hp (.inr (howned p hr.1 hr.2))
        · exact h.usable p hp hor }

end Release

end Step

/-! ### The statistics scan finds nothing to object to -/

theorem pmmTagToZone_spec : ∀ tag, tag < 7 →
    pmmTagToZone tag ≠ .count ∧ (pmmTagToZone tag = .free ↔ tag = pmmZoneTagFree) := by
  decide

@[simp] theorem recordFreeRun_zonePages (stats : DetailedStats) (run : Nat) :
    (stats.memoryRecordFreeRun run).zonePages = stats.zonePages := by
  unfold DetailedStats.memoryRecordFreeRun
  split <;> rfl

@[simp] theorem recordFreeRun_totalPages (stats : DetailedStats) (run : Nat) :
    (stats.memoryRecordFreeRun run).totalPages = stats.totalPages := by
  unfold DetailedStats.memoryRecordFreeRun
  split <;> rfl

/-- Six counters, one of them one higher. -/
theorem sum_zones_update (f : MemoryZone → Nat) {z : MemoryZone} (hz : z ≠ .count) :
    let g := update f z (f z + 1)
    g .kernel + g .heap + g .slab + g .process + g .buffer + g .free
      = f .kernel + f .heap + f .slab + f .process + f .buffer + f .free + 1 := by
  cases z <;> first | exact absurd rfl hz | (simp [update]; omega)

/-- What the scan has counted over the first `k` pages. -/
structure Scanned (s : MemInfo) (k : Nat) (a : StatsScan) : Prop where
  total : a.stats.totalPages = s.totalPages
  free : a.stats.zonePages .free = Nat.count (fun p => s.pmmPageIsFree p = true) k
  dynamic : a.dynamicPages = Nat.count (fun p => s.pmmPageIsOwned p = true) k
  sum : a.stats.zoneSum = k

theorem scanPage_ok (h : Inv s) (hk : k < s.totalPages) {a : StatsScan}
    (ha : Scanned s k a) : ∃ a', s.scanPage k a = .ok a' ∧ Scanned s (k + 1) a' := by
  obtain ⟨hcount, hzone⟩ :=
    pmmTagToZone_spec (s.pmmGetPageTag k) (lt_succ_of_le (h.tag_le k hk))
  rw [← h.agree k hk] at hzone
  have hzp : ∀ z : MemoryZone, pmmTagToZone (s.pmmGetPageTag k) = z →
      update a.stats.zonePages z (a.stats.zonePages z + 1) .free
        = count (fun p => s.pmmPageIsFree p = true) (k + 1) := by
    intro z hz
    rw [hz] at hzone
    rw [count_succ, ← ha.free]
    by_cases hf : z = .free
    · rw [if_pos (hzone.mp hf), hf, update_self]
    · rw [if_neg (fun hc => hf (hzone.mpr hc)), update_of_ne (Ne.symm hf), add_zero]
  have hdyn : (if ownedTag (s.pmmGetPageTag k) = true then a.dynamicPages + 1 else a.dynamicPages)
      = count (fun p => s.pmmPageIsOwned p = true) (k + 1) := by
    rw [count_succ, ← ha.dynamic]
    unfold MemInfo.pmmPageIsOwned
    split <;> rfl
  have hsum := sum_zones_update a.stats.zonePages hcount
  have hpre := ha.sum
  unfold MemInfo.scanPage
  rw [if_neg (by rintro (hc | hc | hc) <;> simp_all)]
  by_cases hf : s.pmmPageIsFree k = true
  · rw [if_pos hf]
    exact ⟨_, rfl, ha.total, hzp _ rfl, hdyn, hsum.trans (congrArg (· + 1) hpre)⟩
  rw [if_neg hf]
  refine ⟨_, rfl, ?_, ?_, hdyn, ?_⟩
  · rw [recordFreeRun_totalPages]; exact ha.total
  · rw [recordFreeRun_zonePages]; exact hzp _ rfl
  · unfold DetailedStats.zoneSum
    rw [recordFreeRun_zonePages]
    exact hsum.trans (congrArg (· + 1) hpre)

theorem detailedStats_ok (h : Inv s) : ∃ stats, s.memoryGetDetailedStats = .ok stats := by
  have hloop := @forRangeE_induct StatsScan Err 0 s.totalPages s.scanPage
    ⟨⟨s.totalPages, fun _ => 0, 0, 0, 0, 0⟩, 0, 0⟩ (Scanned s)
    ⟨rfl, by rw [count_zero], by rw [count_zero], rfl⟩
    (fun k a hk ha => by rw [zero_add]; exact scanPage_ok h hk ha)
  obtain ⟨a, hrun, ha⟩ := hloop
  have hfree : a.stats.zonePages .free = s.freePages := by
    rw [ha.free, count_eq_card_filter_range, h.free, MemInfo.freeSet]
  have howned : a.dynamicPages = s.pmmOwnedPages := by
    rw [ha.dynamic, count_eq_card_filter_range, h.owned, MemInfo.ownedSet]
  have hsum : (a.stats.memoryRecordFreeRun a.freeRun).zoneSum = s.totalPages := by
    rw [← ha.sum]
    simp only [DetailedStats.zoneSum, recordFreeRun_zonePages]
  unfold MemInfo.memoryGetDetailedStats
  rw [if_neg (by rw [h.ready]; decide)]
  dsimp only
  rw [hrun]
  dsimp only
  rw [if_neg (by
    rw [recordFreeRun_zonePages, recordFreeRun_totalPages, hfree, howned, hsum, ha.total]; simp)]
  split <;> exact ⟨_, rfl⟩

/-! ### The two operations -/

theorem ownedTag_zone {zone : MemoryZone} (h : pmmZoneIsAllocatable zone = true) :
    ownedTag (pmmZoneToTag zone) = true := by
  cases zone <;> first | decide | cases h

/-- All an allocation can do: fail and count the failure, or hand out a run of
free pages. -/
theorem alloc_cases (h : Inv s) (count : Nat) (zone : MemoryZone) :
    s.pmmAllocPagesInZone count zone = (none, s.countAllocationFailure) ∨
    ∃ i t, s.pmmAllocPagesInZone count zone = (some (i * pageSize), s.pmmClaimPages i count t)
      ∧ ownedTag t = true ∧ i + count ≤ s.totalPages
      ∧ ∀ p, i ≤ p → p < i + count → s.pmmPageIsFree p = true := by
  unfold MemInfo.pmmAllocPagesInZone
  rw [if_neg (by rw [h.ready]; decide)]
  by_cases hz : pmmZoneIsAllocatable zone = true
  · rw [if_neg (by rw [hz]; decide)]
    by_cases hc : count = 0 ∨ s.totalPages < count
    · rw [if_pos hc]; exact .inl rfl
    rw [if_neg hc]
    cases hfind : s.findFreeRun count with
    | none => exact .inl rfl
    | some i =>
      right
      have hmem := mem_of_find?_eq_some hfind
      have hall := find?_some hfind
      rw [mem_range] at hmem
      simp only [all_eq_true, mem_range] at hall
      have htot := h.total
      have hlt := h.total_lt
      rw [show pageSize = 4096 from rfl] at htot
      refine ⟨i, _, ?_, ownedTag_zone hz, by omega, fun p h1 h2 => ?_⟩
      · dsimp only
        rw [show pageSize = 4096 from rfl, u32_of_lt (by omega)]
      · have := hall (p - i) (by omega)
        rwa [Nat.add_sub_cancel' h1] at this
  · rw [if_pos (by rw [Bool.not_eq_true] at hz; rw [hz]; rfl)]
    exact .inl rfl

/-- A release the allocator should accept: a whole, page-aligned run of pages that
are out. -/
def Releasable (s : MemInfo) (address count : Nat) : Prop :=
  address % pageSize = 0 ∧ 0 < count ∧
    ∀ p, address / pageSize ≤ p → p < address / pageSize + count →
      p < s.totalPages ∧ s.pmmPageIsOwned p = true

theorem validateRelease_iff (h : Inv s) :
    s.pmmValidateRelease address count = true ↔ Releasable s address count := by
  unfold MemInfo.pmmValidateRelease Releasable
  rw [if_neg (by rw [h.ready]; decide)]
  by_cases hc : count = 0
  · simp [hc]
  by_cases ha : address % pageSize = 0
  · by_cases h0 : address = 0
    · -- page 0 lies below the memory the allocator manages
      subst h0
      simp only [true_or, if_true, Bool.false_eq_true, false_iff, not_and]
      intro _ _ hall
      obtain ⟨hlt, ho⟩ := hall 0 (by simp) (by simp; omega)
      exact absurd (h.usable 0 hlt (.inr ho)).1 (by decide)
    · rw [if_neg (by simp [h0, hc]), if_neg (by simp [ha])]
      by_cases hr : s.totalPages ≤ address / pageSize ∨ s.totalPages - address / pageSize < count
      · rw [if_pos hr]
        simp only [Bool.false_eq_true, false_iff, not_and]
        intro _ _ hall
        have := (hall (address / pageSize + count - 1) (by omega) (by omega)).1
        omega
      rw [if_neg hr]
      simp only [all_eq_true, mem_range, Bool.and_eq_true, Bool.not_eq_true']
      constructor
      · intro hall
        refine ⟨ha, by omega, fun p h1 h2 => ⟨by omega, ?_⟩⟩
        have := (hall (p - address / pageSize) (by omega)).1
        rwa [Nat.add_sub_cancel' h1] at this
      · rintro ⟨_, _, hall⟩ i hi
        obtain ⟨hlt, ho⟩ := hall (address / pageSize + i) (by omega) (by omega)
        exact ⟨ho, h.not_free_of_owned hlt ho⟩
  · simp [ha]

theorem alloc_inv (h : Inv s) : Inv (s.pmmAllocPagesInZone count zone).2 := by
  rcases alloc_cases h count zone with he | ⟨i, t, he, ht, hin, hfree⟩
  · rw [he]; exact { h with }
  · rw [he]; exact claim_inv h ht hin hfree

/-- What a free does, in the allocator's terms: a run that is out goes back, and
anything else is refused and counted. -/
theorem freePages_cases (h : Inv s) (address count : Nat) :
    (Releasable s address count ∧ s.pmmValidateRelease address count = true
        ∧ s.pmmFreePages address count = s.pmmReleasePages (address / pageSize) count
        ∧ address / pageSize + count ≤ s.totalPages) ∨
    (¬ Releasable s address count ∧ s.pmmValidateRelease address count = false
        ∧ s.pmmFreePages address count = s.countInvalidFree) := by
  by_cases hv : s.pmmValidateRelease address count = true
  · obtain ⟨halign, hpos, hall⟩ := (validateRelease_iff h).mp hv
    have hlast := (hall (address / pageSize + (count - 1)) (le_add_right _ _) (by omega)).1
    exact .inl ⟨⟨halign, hpos, hall⟩, hv, if_pos hv, by omega⟩
  · exact .inr ⟨fun hr => hv ((validateRelease_iff h).mpr hr),
      Bool.not_eq_true _ ▸ hv, if_neg hv⟩

theorem free_inv (h : Inv s) : Inv (s.pmmFreePages address count) := by
  rcases freePages_cases h address count with ⟨hr, _, he, hin⟩ | ⟨_, _, he⟩
  · rw [he]; exact release_inv h hin fun p h1 h2 => (hr.2.2 p h1 h2).2
  · rw [he]; exact { h with }

end ZephyrOS.Memory
