import ZephyrOS.Fs.BlockCacheInv

/-!
# `block_cache_validate_state` accepts every good cache

The self-check walks every chain and the LRU list with its own bookkeeping
(`hash_seen`, `lru_seen`, the previous entry) and then looks at each entry. In a
good cache the walks meet exactly the lists of the invariant.
-/

namespace ZephyrOS.BlockCache

open Lib (Linked DLinked)

open List

variable {c : Cache} {ch : Nat → List Nat} {l : List Nat}

/-- The walk along one chain meets its entries, each for the first time. -/
theorem validateBucket_eq (h : WF c ch l) {bucket : Nat} (hb : bucket < blockCacheHashBuckets) :
    ∀ (chain : List Nat) (guard : Nat) (start : Option Nat) (seen : List Nat),
      Linked (fun i => (c.entries i).hashNext) start chain → (∀ i ∈ chain, i ∈ ch bucket) →
      chain.length ≤ guard → (∀ i ∈ chain, i ∉ seen) →
      c.validateBucket bucket guard start seen = some (chain.reverse ++ seen)
  | [], guard, start, seen, hl, _, _, _ => by
    obtain rfl : start = none := hl
    cases guard <;> rfl
  | i :: chain, 0, start, seen, _, _, hg, _ => absurd hg (by simp)
  | i :: chain, guard + 1, start, seen, hl, hmem, hg, hnew => by
    have hnd := hl.nodup
    obtain ⟨rfl, hl⟩ := hl
    obtain ⟨hlt, hs, hbk⟩ := (h.inChain bucket i hb).mp (hmem i mem_cons_self)
    obtain ⟨hid, hz⟩ := (h.blocks i hlt).key hs
    have hterm : blockCacheTextTerminated (c.entries i).deviceId = true := decide_eq_true hid
    rw [Cache.validateBucket, if_neg (Nat.not_le.mpr hlt), if_neg (hnew i mem_cons_self), if_neg]
    · rw [validateBucket_eq h hb chain guard _ (i :: seen) hl
        (fun j hj => hmem j (mem_cons_of_mem i hj)) (by simpa using hg)]
      · simp
      · intro j hj hc
        rcases mem_cons.mp hc with hc | hc
        · exact (nodup_cons.mp hnd).1 (hc ▸ hj)
        · exact hnew j (mem_cons_of_mem i hj) hc
    · rw [hterm]
      rintro (hc | hc | hc | hc)
      · exact hs hc
      · cases hc
      · exact hc hz
      · exact hc hbk

/-- After the first `n` buckets `hash_seen` marks the entries of their chains. -/
theorem validateBuckets_prefix (h : WF c ch l) : ∀ n, n ≤ blockCacheHashBuckets →
    ∃ seen, (List.range n).foldl (fun seen bucket => seen.bind fun seen =>
        c.validateBucket bucket blockCacheCapacity (c.buckets bucket) seen) (some []) = some seen
      ∧ ∀ j, j ∈ seen ↔ ∃ b, b < n ∧ j ∈ ch b
  | 0, _ => ⟨[], rfl, fun j => by simp⟩
  | n + 1, hn => by
    obtain ⟨seen, hfold, hseen⟩ := validateBuckets_prefix h n (Nat.le_of_succ_le hn)
    have hb : n < blockCacheHashBuckets := hn
    rw [range_succ, foldl_append, hfold]
    refine ⟨(ch n).reverse ++ seen, ?_, fun j => ?_⟩
    · refine validateBucket_eq h hb (ch n) _ _ seen (h.chains.linked n hb) (fun _ hi => hi)
        (h.chain_length_le hb) fun i hi hc => ?_
      -- an entry of an earlier chain has another bucket
      obtain ⟨b, hbn, hib⟩ := (hseen i).mp hc
      have h1 := ((h.inChain n i hb).mp hi).2.2
      have h2 := ((h.inChain b i (Nat.lt_trans hbn hb)).mp hib).2.2
      omega
    · rw [mem_append, mem_reverse, hseen]
      constructor
      · rintro (hj | ⟨b, hbn, hj⟩)
        · exact ⟨n, Nat.lt_succ_self n, hj⟩
        · exact ⟨b, Nat.lt_succ_of_lt hbn, hj⟩
      · rintro ⟨b, hbn, hj⟩
        rcases Nat.lt_succ_iff_lt_or_eq.mp hbn with hlt | rfl
        · exact .inr ⟨b, hlt, hj⟩
        · exact .inl hj

theorem validateBuckets_eq (h : WF c ch l) : ∃ seen, c.validateBuckets = some seen
    ∧ ∀ j, j < blockCacheCapacity → (j ∈ seen ↔ (c.blocks j).state ≠ .free) := by
  obtain ⟨seen, hfold, hseen⟩ := validateBuckets_prefix h blockCacheHashBuckets (Nat.le_refl _)
  refine ⟨seen, hfold, fun j hj => (hseen j).trans ⟨?_, fun hs => ?_⟩⟩
  · rintro ⟨b, hb, hjb⟩
    exact ((h.inChain b j hb).mp hjb).2.1
  · exact ⟨_, bucket_lt _, (h.inChain _ j (bucket_lt _)).mpr ⟨hj, hs, rfl⟩⟩

/-- The walk along the LRU list from any point on. -/
theorem validateLru_eq (h : WF c ch l) : ∀ (b a : List Nat) (guard : Nat), l = a ++ b →
    b.length ≤ guard →
    c.validateLru guard a.getLast? b.head? a.reverse = some (l.getLast?, l.reverse)
  | [], a, guard, hl, _ => by
    rw [append_nil] at hl
    rw [hl]
    cases guard <;> rfl
  | i :: b, a, 0, _, hg => absurd hg (by simp)
  | i :: b, a, guard + 1, hl, hg => by
    have hil : i ∈ l := by rw [hl]; simp
    obtain ⟨hlt, hs⟩ := (h.inLru i).mp hil
    have hlru := h.lru
    have hnd := DLinked.nodup hlru
    rw [hl] at hlru hnd
    obtain ⟨hprev, hnext⟩ := DLinked.around hlru
    have hia : i ∉ a.reverse := fun hc =>
      (nodup_append.mp hnd).2.2 i (mem_reverse.mp hc) i mem_cons_self rfl
    rw [head?_cons, Cache.validateLru, if_neg (Nat.not_le.mpr hlt), if_neg hia, if_neg, hnext]
    · have ih := validateLru_eq h b (a ++ [i]) guard (by rw [hl]; simp) (by simpa using hg)
      simpa using ih
    · rintro (hc | hc)
      · rw [show lruState (c.entries i).state = true from hs] at hc
        cases hc
      · exact hc hprev

theorem validateEntry_ok (h : WF c ch l) {j : Nat} (hj : j < blockCacheCapacity) {hashSeen lruSeen : Bool}
    (hh : hashSeen = true ↔ (c.blocks j).state ≠ .free) (hl : lruSeen = true ↔ j ∈ l) :
    validateEntry (c.entries j) hashSeen lruSeen = true := by
  have hok := h.blocks j hj
  rw [h.inLru j] at hl
  have hoffl : lruState (c.blocks j).state = false →
      (c.entries j).lruPrevious = none ∧ (c.entries j).lruNext = none := fun hn =>
    DLinked.off h.lru j fun hc => by
      have := ((h.inLru j).mp hc).2
      rw [hn] at this
      cases this
  unfold validateEntry
  by_cases hs : (c.entries j).state = .free
  · rw [if_pos hs]
    obtain ⟨hid, hr, hp, hf, he⟩ := hok.reset hs
    have hlinks := hoffl (by rw [show (c.blocks j).state = .free from hs]; decide)
    have hnext := h.chains.off j fun b hb hc => ((h.inChain b j hb).mp hc).2.1 hs
    exact decide_eq_true ⟨hid, hnext, hlinks.1, hlinks.2, hr, hp, hf, he⟩
  rw [if_neg hs]
  obtain ⟨hid, hz⟩ := hok.key hs
  have hseen : lruState (c.entries j).state = lruSeen := by
    rw [Bool.eq_iff_iff, hl]
    exact ⟨fun hc => ⟨hj, hc⟩, fun hc => hc.2⟩
  refine decide_eq_true ⟨hh.mpr hs, hseen, decide_eq_true hid, hok.generation, hz, ?_, hok.range,
    fun hc => hok.clean (.inr hc), hok.held⟩
  cases hst : lruState (c.entries j).state with
  | true => exact .inl rfl
  | false => exact .inr (hoffl hst)

theorem validateState_ok (hg : Good c) : blockCacheValidateState c = .ok () := by
  obtain ⟨ch, l, h⟩ := hg
  obtain ⟨hashSeen, hbuckets, hhash⟩ := validateBuckets_eq h
  have hlru := validateLru_eq h l [] blockCacheCapacity rfl h.lru_length_le
  rw [getLast?_nil, reverse_nil, ← Linked.head h.lru.fwd] at hlru
  have htail : c.lruTail = l.getLast? := by
    rw [Linked.head h.lru.bwd, head?_reverse]
  unfold blockCacheValidateState
  rw [hbuckets]
  rw [hlru]
  dsimp only
  rw [if_neg (not_not.mpr htail.symm), if_neg, if_neg, if_neg, if_neg]
  · cases c.durability <;> decide
  · rw [Bool.not_eq_true, Bool.not_eq_false', all_eq_true]
    intro j hj
    have hjc := mem_range.mp hj
    refine validateEntry_ok h hjc ?_ ?_
    · rw [decide_eq_true_iff]; exact hhash j hjc
    · rw [decide_eq_true_iff, mem_reverse]
  · -- the last entry points nowhere
    rw [htail]
    rcases eq_nil_or_concat l with rfl | ⟨a, i, rfl⟩
    · simp
    have hend := h.lru
    rw [concat_eq_append] at hend ⊢
    have hnext := (DLinked.around hend).2
    simp only [getLast?_concat, Option.any_some, decide_eq_true_eq]
    exact not_not.mpr hnext
  · -- and neither does the first
    rw [Linked.head h.lru.fwd]
    cases l with
    | nil => simp
    | cons i b =>
      have hprev := (DLinked.around (a := []) h.lru).1
      simp only [head?_cons, Option.any_some, decide_eq_true_eq]
      exact not_not.mpr hprev

end ZephyrOS.BlockCache
