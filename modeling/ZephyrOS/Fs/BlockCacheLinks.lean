import Mathlib.Data.List.Perm.Subperm
import ZephyrOS.Fs.BlockCache

/-!
# The links of the block cache

What the four list primitives of `block_cache.c` do, in terms of the lists they
maintain: `Chains c ch` says that bucket `b` of the hash heads the chain `ch b`,
and `LruList c l` that the LRU list is `l`. A primitive changes one list and
leaves everything an entry holds besides its links alone.
-/

namespace ZephyrOS.BlockCache

open Lib (Linked DLinked)

open List Function

/-! ### Writing one entry -/

section Modify

variable {c : Cache} {i j : Nat} {f : Entry → Entry}

theorem modify_entries : (c.modify i f).entries j = if j = i then f (c.entries i) else c.entries j := by
  by_cases h : j = i
  · rw [if_pos h, h]; exact update_self _ _ _
  · rw [if_neg h]; exact update_of_ne h _ _

@[simp] theorem modify_entries_self : (c.modify i f).entries i = f (c.entries i) := by
  rw [modify_entries, if_pos rfl]

theorem modify_entries_of_ne (h : j ≠ i) : (c.modify i f).entries j = c.entries j := by
  rw [modify_entries, if_neg h]

@[simp] theorem modify_lruHead : (c.modify i f).lruHead = c.lruHead := rfl

end Modify

/-- Nothing but links differs. -/
structure SameBlocks (c c' : Cache) : Prop where
  block : ∀ j, (c'.entries j).toBlock = (c.entries j).toBlock
  syncActive : c'.syncActive = c.syncActive

/-- The hash links are the same. -/
structure SameHash (c c' : Cache) : Prop where
  next : ∀ j, (c'.entries j).hashNext = (c.entries j).hashNext
  buckets : c'.buckets = c.buckets

/-- The LRU links are the same. -/
structure SameLru (c c' : Cache) : Prop where
  previous : ∀ j, (c'.entries j).lruPrevious = (c.entries j).lruPrevious
  next : ∀ j, (c'.entries j).lruNext = (c.entries j).lruNext
  head : c'.lruHead = c.lruHead
  tail : c'.lruTail = c.lruTail

/-- The LRU list of the cache is `l`. -/
def LruList (c : Cache) (l : List Nat) : Prop :=
  DLinked (fun i => (c.entries i).lruPrevious) (fun i => (c.entries i).lruNext) c.lruHead c.lruTail l

variable {c c' : Cache}

theorem LruList.congr {l : List Nat} (h : LruList c l) (hs : SameLru c c') : LruList c' l := by
  unfold LruList
  rw [hs.head, hs.tail]
  exact DLinked.congr h hs.previous hs.next

/-- Bucket `b` heads the chain `ch b`; an entry in no chain points nowhere. -/
structure Chains (c : Cache) (ch : Nat → List Nat) : Prop where
  linked : ∀ b, b < blockCacheHashBuckets →
    Linked (fun i => (c.entries i).hashNext) (c.buckets b) (ch b)
  off : ∀ j, (∀ b, b < blockCacheHashBuckets → j ∉ ch b) → (c.entries j).hashNext = none

theorem Chains.congr {ch : Nat → List Nat} (h : Chains c ch) (hs : SameHash c c') :
    Chains c' ch := by
  refine ⟨fun b hb => ?_, fun j hj => ?_⟩
  · rw [hs.buckets]
    exact Linked.congr (fun i _ => hs.next i) (h.linked b hb)
  · rw [hs.next]
    exact h.off j hj

/-! ### The LRU list -/

section Lru

variable {c : Cache} {i : Nat} {l : List Nat}

/-- The fields after `lruRemove` of a linked entry. -/
theorem lruRemove_fields (hp : (c.entries i).lruPrevious ≠ some i)
    (hlinked : ¬ (c.lruHead ≠ some i ∧ c.lruTail ≠ some i
      ∧ (c.entries i).lruPrevious = none ∧ (c.entries i).lruNext = none)) :
    SameBlocks c (c.lruRemove i) ∧ SameHash c (c.lruRemove i)
    ∧ (∀ j, ((c.lruRemove i).entries j).lruNext = if j = i then none
        else if (c.entries i).lruPrevious = some j then (c.entries i).lruNext
        else (c.entries j).lruNext)
    ∧ (∀ j, ((c.lruRemove i).entries j).lruPrevious = if j = i then none
        else if (c.entries i).lruNext = some j then (c.entries i).lruPrevious
        else (c.entries j).lruPrevious)
    ∧ (c.lruRemove i).lruHead
        = (if (c.entries i).lruPrevious = none then (c.entries i).lruNext else c.lruHead)
    ∧ (c.lruRemove i).lruTail
        = (if (c.entries i).lruNext = none then (c.entries i).lruPrevious else c.lruTail) := by
  unfold Cache.lruRemove
  rw [if_neg hlinked]
  cases hprev : (c.entries i).lruPrevious with
  | none =>
    cases hnext : (c.entries i).lruNext with
    | none =>
      simp only [hprev, hnext]
      refine ⟨⟨fun j => ?_, rfl⟩, ⟨fun j => ?_, rfl⟩, fun j => ?_, fun j => ?_, rfl, rfl⟩ <;>
        simp only [modify_entries] <;> split <;> simp_all
    | some n =>
      simp only [hprev, hnext]
      refine ⟨⟨fun j => ?_, rfl⟩, ⟨fun j => ?_, rfl⟩, fun j => ?_, fun j => ?_, rfl, rfl⟩ <;>
        simp only [modify_entries] <;> grind
  | some p =>
    have hpi : i ≠ p := fun hc => hp (by rw [hprev, hc])
    cases hnext : (c.entries i).lruNext with
    | none =>
      simp only [modify_entries_of_ne hpi, hprev, hnext]
      refine ⟨⟨fun j => ?_, rfl⟩, ⟨fun j => ?_, rfl⟩, fun j => ?_, fun j => ?_, rfl, rfl⟩ <;>
        simp only [modify_entries] <;> grind
    | some n =>
      simp only [modify_entries_of_ne hpi, hprev, hnext]
      refine ⟨⟨fun j => ?_, rfl⟩, ⟨fun j => ?_, rfl⟩, fun j => ?_, fun j => ?_, rfl, rfl⟩ <;>
        simp only [modify_entries] <;> grind

theorem lruRemove_of_notMem (h : LruList c l) (hi : i ∉ l) : c.lruRemove i = c := by
  have hoff := DLinked.off h i hi
  have hhead : c.lruHead ≠ some i := fun hc =>
    hi (mem_of_head? ((Linked.head h.fwd).symm.trans hc))
  have htail : c.lruTail ≠ some i := fun hc =>
    hi (mem_reverse.mp (mem_of_head? ((Linked.head h.bwd).symm.trans hc)))
  unfold Cache.lruRemove
  rw [if_pos ⟨hhead, htail, hoff.1, hoff.2⟩]

/-- Unlinking takes the entry out of the list, wherever it stands. -/
theorem lruRemove_spec (h : LruList c l) (i : Nat) :
    LruList (c.lruRemove i) (l.erase i) ∧ SameBlocks c (c.lruRemove i) ∧ SameHash c (c.lruRemove i) := by
  by_cases hi : i ∈ l
  · obtain ⟨a, b, rfl⟩ := append_of_mem hi
    have hnd := h.nodup
    have hia : i ∉ a := fun hc => (nodup_append.mp hnd).2.2 i hc i mem_cons_self rfl
    obtain ⟨hprev, hnext⟩ := DLinked.around h
    -- an entry of the list has a link, or is its head
    have hlinked : ¬ (c.lruHead ≠ some i ∧ c.lruTail ≠ some i
        ∧ (c.entries i).lruPrevious = none ∧ (c.entries i).lruNext = none) := by
      rintro ⟨hh, _, hp, _⟩
      rw [hprev, getLast?_eq_none_iff] at hp
      subst hp
      exact hh h.fwd.1
    have hpi : (c.entries i).lruPrevious ≠ some i := fun hc =>
      hia (mem_of_getLast? (hprev.symm.trans hc))
    obtain ⟨hsb, hsh, hn', hp', hh', ht'⟩ := lruRemove_fields hpi hlinked
    refine ⟨?_, hsb, hsh⟩
    rw [erase_append_right _ hia, erase_cons_head]
    unfold LruList
    rw [hh', ht']
    have hhd : (if (c.entries i).lruPrevious = none then (c.entries i).lruNext else c.lruHead)
        = if a = [] then (c.entries i).lruNext else c.lruHead :=
      if_congr (by rw [hprev, getLast?_eq_none_iff]) rfl rfl
    have htl : (if (c.entries i).lruNext = none then (c.entries i).lruPrevious else c.lruTail)
        = if b = [] then (c.entries i).lruPrevious else c.lruTail :=
      if_congr (by rw [hnext, head?_eq_none_iff]) rfl rfl
    rw [hhd, htl]
    refine DLinked.remove h (fun j hj hne => ?_) (fun j hj hne => ?_) (fun j hj => ?_)
      (fun j hj => ?_) ?_
    · rw [hn', if_neg hj, if_neg (fun hc => hne (hprev.symm.trans hc))]
    · rw [hp', if_neg hj, if_neg (fun hc => hne (hnext.symm.trans hc))]
    · have hji : j ≠ i := fun hc => hia (hc ▸ mem_of_getLast? hj)
      rw [hn', if_neg hji, if_pos (hprev.trans hj)]
    · have hji : j ≠ i := fun hc =>
        (nodup_cons.mp (nodup_append.mp hnd).2.1).1 (hc ▸ mem_of_head? hj)
      rw [hp', if_neg hji, if_pos (hnext.trans hj)]
    · rw [hp', hn', if_pos rfl, if_pos rfl]
      exact ⟨rfl, rfl⟩
  · rw [lruRemove_of_notMem h hi, erase_of_not_mem hi]
    exact ⟨h, ⟨fun _ => rfl, rfl⟩, ⟨fun _ => rfl, rfl⟩⟩

theorem lruPushFront_spec (h : LruList c l) (hi : i ∉ l) :
    LruList (c.lruPushFront i) (i :: l) ∧ SameBlocks c (c.lruPushFront i)
      ∧ SameHash c (c.lruPushFront i) := by
  have hhead := Linked.head h.fwd
  unfold Cache.lruPushFront
  cases hl : l with
  | nil =>
    rw [hl] at hhead h
    simp only [modify_lruHead, hhead, head?_nil]
    refine ⟨?_, ⟨fun j => ?_, rfl⟩, ⟨fun j => ?_, rfl⟩⟩
    · refine DLinked.push h (by simp) (fun j hj => ?_) (fun j hj _ => ?_) (by simp) ?_ ?_
      · dsimp only; rw [modify_entries_of_ne hj]
      · dsimp only; rw [modify_entries_of_ne hj]
      · simp
      · simp [hhead]
    · simp only [modify_entries]; split <;> simp_all
    · simp only [modify_entries]; split <;> simp_all
  | cons x l' =>
    rw [hl] at hhead h hi
    have hxi : x ≠ i := fun hc => hi (hc ▸ mem_cons_self)
    rw [head?_cons] at hhead
    simp only [modify_lruHead, hhead]
    refine ⟨?_, ⟨fun j => ?_, rfl⟩, ⟨fun j => ?_, rfl⟩⟩
    · refine DLinked.push h hi (fun j hj => ?_) (fun j hj hne => ?_) (fun j hj => ?_) ?_ ?_
      · simp only [modify_entries]; grind
      · have hjx : j ≠ x := fun hc => hne (by rw [hc]; rfl)
        dsimp only; rw [modify_entries_of_ne hjx, modify_entries_of_ne hj]
      · obtain rfl : x = j := Option.some.inj hj
        simp
      · dsimp only; rw [modify_entries_of_ne (Ne.symm hxi)]; simp
      · dsimp only; rw [modify_entries_of_ne (Ne.symm hxi)]; simp [hhead]
    · simp only [modify_entries]; grind
    · simp only [modify_entries]; grind

end Lru

/-! ### The hash chains -/

section Hash

variable {c : Cache} {i : Nat} {ch : Nat → List Nat}

theorem bucket_lt (b : Block) : b.bucket < blockCacheHashBuckets :=
  Nat.mod_lt _ (by decide)

/-- The fields after `hashRemove` of an entry whose predecessor is `previous`. -/
theorem hashRemove_fields {previous : Option Nat}
    (hwalk : Lib.walkPrev (fun j => (c.entries j).hashNext) i blockCacheCapacity none
      (c.buckets (c.entries i).bucket) = some previous) (hpi : previous ≠ some i) :
    SameBlocks c (c.hashRemove i) ∧ SameLru c (c.hashRemove i)
      ∧ (∀ j, ((c.hashRemove i).entries j).hashNext = if j = i then none
          else if previous = some j then (c.entries i).hashNext else (c.entries j).hashNext)
      ∧ (c.hashRemove i).buckets = if previous = none
          then update c.buckets (c.entries i).bucket (c.entries i).hashNext
          else c.buckets := by
  unfold Cache.hashRemove
  simp only [hwalk]
  cases previous with
  | none =>
    refine ⟨⟨fun j => ?_, rfl⟩, ⟨fun j => ?_, fun j => ?_, rfl, rfl⟩, fun j => ?_, rfl⟩ <;>
      simp only [modify_entries] <;> split <;> simp_all
  | some p =>
    refine ⟨⟨fun j => ?_, rfl⟩, ⟨fun j => ?_, fun j => ?_, rfl, rfl⟩, fun j => ?_, rfl⟩ <;>
      simp only [modify_entries] <;> grind

/-- Removing an entry from its chain. The chain is short enough for the walk
because its nodes are distinct entries. -/
theorem hashRemove_spec (h : Chains c ch) (hin : i ∈ ch (c.entries i).bucket)
    (hlt : ∀ b j, b < blockCacheHashBuckets → j ∈ ch b → j < blockCacheCapacity)
    (hdisj : ∀ b j, b < blockCacheHashBuckets → j ∈ ch b → (c.entries j).bucket = b) :
    Chains (c.hashRemove i) (update ch (c.entries i).bucket ((ch (c.entries i).bucket).erase i))
      ∧ SameBlocks c (c.hashRemove i) ∧ SameLru c (c.hashRemove i) := by
  have hb := bucket_lt (c.entries i).toBlock
  generalize hbk : (c.entries i).bucket = b at hin hb
  obtain ⟨x, y, hxy⟩ := append_of_mem hin
  have hl := h.linked b hb
  rw [hxy] at hl
  have hnd := hl.nodup
  have hix : i ∉ x := fun hc => (nodup_append.mp hnd).2.2 i hc i mem_cons_self rfl
  have hlen : x.length < blockCacheCapacity := by
    have hsub : (x ++ i :: y) ⊆ range blockCacheCapacity := fun j hj => by
      rw [mem_range]
      exact hlt b j hb (hxy ▸ hj)
    have hle := (List.Nodup.subperm hnd hsub).length_le
    rw [length_range, length_append, length_cons] at hle
    omega
  have hwalk := @Lib.walkPrev_eq Nat _ (fun j => (c.entries j).hashNext) i x y (c.buckets b) none
    blockCacheCapacity hl hix hlen
  have herase : (ch b).erase i = x ++ y := by
    rw [hxy, erase_append_right _ hix, erase_cons_head]
  have hni : i ∉ x ++ y := by
    rw [← herase, hxy]
    exact hnd.not_mem_erase
  rw [Option.or_none, ← hbk] at hwalk
  obtain ⟨hsb, hsl, hnext, hbuckets⟩ := hashRemove_fields hwalk (fun hc => hix (mem_of_getLast? hc))
  simp only [getLast?_eq_none_iff, hbk] at hbuckets
  refine ⟨⟨fun b' hb' => ?_, fun j hj => ?_⟩, hsb, hsl⟩
  · rw [hbuckets, ite_apply]
    by_cases hbb : b' = b
    · subst hbb
      rw [update_self, update_self, herase]
      refine Linked.unlink hl (fun j hj hne => ?_) fun j hj => ?_
      · have hji : j ≠ i := fun hc => hni (hc ▸ hj)
        rw [hnext, if_neg hji, if_neg hne]
      · have hji : j ≠ i := fun hc => hix (hc ▸ mem_of_getLast? hj)
        rw [hnext, if_neg hji, if_pos hj]
    · -- the other chains share no entry with this one
      rw [update_of_ne hbb, update_of_ne hbb, ite_self]
      refine Linked.congr (fun j hj => ?_) (h.linked b' hb')
      have hjb : (c.entries j).bucket = b' := hdisj b' j hb' hj
      have hji : j ≠ i := fun hc => hbb (by rw [← hjb, hc, hbk])
      have hjx : x.getLast? ≠ some j := fun hc => by
        have hjx : j ∈ ch b := by rw [hxy]; exact mem_append_left _ (mem_of_getLast? hc)
        exact hbb (by rw [← hjb, hdisj b j hb hjx])
      rw [hnext, if_neg hji, if_neg hjx]
  · have hjb := hj b hb
    rw [update_self, herase] at hjb
    rw [hnext]
    by_cases hji : j = i
    · rw [if_pos hji]
    have hjx : x.getLast? ≠ some j := fun hc =>
      hjb (mem_append_left _ (mem_of_getLast? hc))
    rw [if_neg hji, if_neg hjx]
    refine h.off j fun b' hb' hc => hj b' hb' ?_
    by_cases hbb : b' = b
    · rw [hbb, update_self]
      exact (mem_erase_of_ne hji).mpr (hbb ▸ hc)
    · rwa [update_of_ne hbb]

theorem hashInsert_spec (h : Chains c ch) (hnew : ∀ b, b < blockCacheHashBuckets → i ∉ ch b) :
    Chains (c.hashInsert i) (update ch (c.entries i).bucket (i :: ch (c.entries i).bucket))
      ∧ SameBlocks c (c.hashInsert i) ∧ SameLru c (c.hashInsert i) := by
  unfold Cache.hashInsert
  generalize hbk : (c.entries i).bucket = b
  -- a new entry is in no chain, so the links of the chains stay
  have hkeep : ∀ b', b' < blockCacheHashBuckets → ∀ j ∈ ch b',
      ((c.modify i fun e => { e with hashNext := c.buckets b }).entries j).hashNext
        = (c.entries j).hashNext := by
    intro b' hb' j hj
    have hji : j ≠ i := fun hc => hnew b' hb' (hc ▸ hj)
    rw [modify_entries_of_ne hji]
  refine ⟨⟨fun b' hb' => ?_, fun j hj => ?_⟩, ⟨fun j => ?_, rfl⟩, ⟨fun j => ?_, fun j => ?_, rfl, rfl⟩⟩
  · have hold := Linked.congr (hkeep b' hb') (h.linked b' hb')
    dsimp only
    by_cases hbb : b' = b
    · subst hbb
      rw [update_self, update_self]
      refine ⟨rfl, ?_⟩
      dsimp only
      rw [modify_entries_self]
      exact hold
    · rw [update_of_ne hbb, update_of_ne hbb]
      exact hold
  · have hb : b < blockCacheHashBuckets := hbk ▸ bucket_lt (c.entries i).toBlock
    have hjb := hj b hb
    rw [update_self] at hjb
    have hji : j ≠ i := fun hc => hjb (hc ▸ mem_cons_self)
    rw [modify_entries_of_ne hji]
    refine h.off j fun b' hb' hc => ?_
    by_cases hbb : b' = b
    · exact hjb (mem_cons_of_mem _ (hbb ▸ hc))
    · exact hj b' hb' (by rwa [update_of_ne hbb])
  · simp only [modify_entries]; split <;> simp_all
  · simp only [modify_entries]; split <;> simp_all
  · simp only [modify_entries]; split <;> simp_all

end Hash

end ZephyrOS.BlockCache
