import ZephyrOS.Memory.Compress
import ZephyrOS.Lib.Region
import ZephyrOS.Lib.Window
import Mathlib.Data.Nat.Bitwise

/-!
# The codec round trip

The encoder's output is described once, by the list of tokens its greedy search
picks, cut into groups of eight. The encoder's loop writes exactly those groups,
and the decoder's loops, run over any buffer that holds them, rebuild the source
token by token. Both halves meet at `Token.Covers`: a token at source index `i`
says something true about the source from `i` on.

The one input the two sides disagree about is the empty one. The encoder reserves
the first flag byte and returns it unwritten, and the decoder rejects it unless
the caller's buffer happened to hold a zero there.
-/

namespace ZephyrOS.Compress

open Lib Function List Nat

/-! ## Tokens -/

/-- What the encoder can send: one byte, or a reference to earlier source bytes. -/
inductive Token where
  | lit (b : UInt8)
  | ref (pos len : Nat)
  deriving DecidableEq

namespace Token

/-- How a token is written. -/
def bytes : Token → List UInt8
  | lit b => [b]
  | ref pos len => [refLow pos, refHigh pos len]

/-- How many source bytes a token stands for. -/
def span : Token → Nat
  | lit _ => 1
  | ref _ len => len

def isRef : Token → Bool
  | lit _ => false
  | ref _ _ => true

/-- A token sent at source index `i` is right: it names the bytes that stand there. -/
def Covers (src : Nat → UInt8) (srcSize i : Nat) : Token → Prop
  | lit b => i < srcSize ∧ src i = b
  | ref pos len =>
    (2 ≤ len ∧ len ≤ 17) ∧ pos + len ≤ i ∧ i ≤ pos + 4096 ∧ i + len ≤ srcSize
      ∧ ∀ k, k < len → src (pos + k) = src (i + k)

variable {src : Nat → UInt8} {srcSize i : Nat} {t : Token}

theorem Covers.end_le (h : t.Covers src srcSize i) : i + t.span ≤ srcSize := by
  cases t with
  | lit b => exact h.1
  | ref pos len => exact h.2.2.2.1

theorem Covers.span_pos (h : t.Covers src srcSize i) : 0 < t.span := by
  cases t with
  | lit b => exact one_pos
  | ref pos len => exact lt_of_lt_of_le Nat.two_pos h.1.1

/-- A token is never longer than what it stands for. -/
theorem Covers.bytes_le (h : t.Covers src srcSize i) : t.bytes.length ≤ t.span := by
  cases t with
  | lit b => exact le_refl 1
  | ref pos len => exact h.1.1

end Token

/-! ## What the search finds -/

variable {src buf : Nat → UInt8} {srcSize bufSize cap pos len si i : Nat} {t : Token}
  {ts us : List Token} {n : Nat} {s : CompressState} {done : List (List Token)} {cur : List Token}
  {fuel : Nat} {flags : UInt8} {dst out : Nat → UInt8} {outCap : Nat}

/-- The source at `candidate` is the source at `si` for `len` bytes, all before `si`. -/
def Agrees (src : Nat → UInt8) (srcSize si candidate len : Nat) : Prop :=
  candidate + len ≤ si ∧ si + len ≤ srcSize ∧ ∀ k, k < len → src (candidate + k) = src (si + k)

theorem matchLength_spec {candidate : Nat} :
    ∀ (fuel len : Nat), Agrees src srcSize si candidate len →
      Agrees src srcSize si candidate (matchLength src srcSize si candidate fuel len)
        ∧ matchLength src srcSize si candidate fuel len ≤ len + fuel
  | 0, len, h => ⟨h, le_refl _⟩
  | fuel + 1, len, h => by
    rw [matchLength]
    split
    · rename_i hc
      have hstep : Agrees src srcSize si candidate (len + 1) := by
        refine ⟨by omega, by omega, fun k hk => ?_⟩
        rcases lt_or_eq_of_le (le_of_lt_succ hk) with hlt | rfl
        · exact h.2.2 k hlt
        · exact hc.2.2
      obtain ⟨hr, hle⟩ := matchLength_spec fuel (len + 1) hstep
      exact ⟨hr, by omega⟩
    · exact ⟨h, le_add_right _ _⟩

/-- A match is a true one if it is long enough to send. -/
def TrueMatch (src : Nat → UInt8) (srcSize si : Nat) (best : Nat × Nat) : Prop :=
  2 ≤ best.1 → (Token.ref best.2 best.1).Covers src srcSize si

theorem searchMatch_true {start : Nat} (hsi : si < srcSize) (hstart : si ≤ start + 4096) :
    ∀ (j : Nat) (best : Nat × Nat), j ≤ si → TrueMatch src srcSize si best →
      TrueMatch src srcSize si (searchMatch src srcSize si start j best)
  | 0, best, _, hb => hb
  | j + 1, best, hj, hb => by
    rw [searchMatch]
    by_cases hs : j + 1 > start
    · rw [if_pos hs]
      -- a candidate that beats the best so far is itself a true match
      have hnew : TrueMatch src srcSize si (matchLength src srcSize si j (compressLzssF - 1) 0, j) := by
        intro hl
        have h0 : Agrees src srcSize si j 0 :=
          ⟨by omega, by omega, fun k hk => absurd hk (not_lt_zero k)⟩
        obtain ⟨⟨r1, r2, r3⟩, r4⟩ := matchLength_spec (compressLzssF - 1) 0 h0
        exact ⟨⟨hl, by simpa [compressLzssF] using r4⟩, r1, by omega, r2, r3⟩
      dsimp only
      split
      · split
        · exact hnew
        · exact searchMatch_true hsi hstart j _ (by omega) hnew
      · exact searchMatch_true hsi hstart j best (by omega) hb
    · rw [if_neg hs]
      exact hb

/-- The token the encoder sends at `si`. -/
def nextToken (src : Nat → UInt8) (srcSize si : Nat) : Token :=
  if (bestMatch src srcSize si).1 ≥ compressLzssThreshold then
    .ref (bestMatch src srcSize si).2 (bestMatch src srcSize si).1
  else .lit (src si)

theorem nextToken_covers (h : si < srcSize) :
    (nextToken src srcSize si).Covers src srcSize si := by
  unfold nextToken
  split
  · rename_i hb
    unfold bestMatch at hb ⊢
    split at hb
    · rename_i ht
      rw [if_pos ht]
      refine searchMatch_true h ?_ si (0, 0) (le_refl _) (by simp [TrueMatch]) hb
      have hN : compressLzssN = 4096 := rfl
      split <;> omega
    · simp [compressLzssThreshold] at hb
  · exact ⟨h, rfl⟩

/-- The tokens the encoder sends from `si` to the end. -/
def parse (src : Nat → UInt8) (srcSize : Nat) : Nat → Nat → List Token
  | 0, _ => []
  | fuel + 1, si =>
    if si < srcSize then
      nextToken src srcSize si :: parse src srcSize fuel (si + (nextToken src srcSize si).span)
    else []

/-- The bytes of a list of tokens, flag bytes not counted. -/
def payload (ts : List Token) : List UInt8 := ts.flatMap Token.bytes

@[simp] theorem payload_nil : payload [] = [] := rfl

@[simp] theorem payload_cons : payload (t :: ts) = t.bytes ++ payload ts := by simp [payload]

@[simp] theorem payload_append : payload (ts ++ us) = payload ts ++ payload us := by simp [payload]

/-- The size of the compressed text: the tokens and one flag byte for every eight of them. -/
def compressedSize (src : Nat → UInt8) (srcSize : Nat) : Nat :=
  max 1 ((payload (parse src srcSize srcSize 0)).length
    + ((parse src srcSize srcSize 0).length + 7) / 8)

/-- The rest of the source bounds both the tokens left and the bytes they take. -/
theorem parse_length_le :
    ∀ (fuel si : Nat), (payload (parse src srcSize fuel si)).length ≤ srcSize - si
      ∧ (parse src srcSize fuel si).length ≤ srcSize - si
  | 0, si => by simp [parse]
  | fuel + 1, si => by
    rw [parse]
    split
    · rename_i h
      have hc : (nextToken src srcSize si).Covers src srcSize si := nextToken_covers h
      have h1 := hc.bytes_le
      have h2 := hc.span_pos
      have h3 := hc.end_le
      obtain ⟨r1, r2⟩ := parse_length_le fuel (si + (nextToken src srcSize si).span)
      simp only [payload_cons, length_append, length_cons]
      omega
    · simp

/-- `compress_get_max_size` is enough whenever the result fits a `uint32_t`. -/
theorem compressedSize_le_max (hfit : compressedSize src srcSize < 4294967296)
    (hcap : compressGetMaxSize srcSize ≤ cap) : compressedSize src srcSize ≤ cap := by
  obtain ⟨r1, r2⟩ := @parse_length_le src srcSize srcSize 0
  have hmax : compressUint32Max = 4294967295 := rfl
  unfold compressGetMaxSize at hcap
  unfold compressedSize at hfit ⊢
  dsimp only at hcap
  split at hcap <;> omega

/-! ## Bytes of a token -/

theorem refPos_eq : refPos pos = (4078 + pos) % 4096 :=
  and_two_pow_sub_one_eq_mod _ 12

theorem refLow_toNat : (refLow pos).toNat = refPos pos % 256 := by
  unfold refLow
  rw [show 0xFF = 2 ^ 8 - 1 from rfl, and_two_pow_sub_one_eq_mod]
  simp

theorem refHigh_toNat (h : len ≤ 17) :
    (refHigh pos len).toNat = (len - 2) * 16 + refPos pos / 256 := by
  have hp : refPos pos / 256 < 16 := by rw [refPos_eq]; omega
  have hn : (refPos pos >>> 8) &&& 0x0F = refPos pos / 256 := by
    rw [show 0x0F = 2 ^ 4 - 1 from rfl, and_two_pow_sub_one_eq_mod]
    omega
  have ho : (refPos pos / 256 ||| (len - 2) <<< 4) = (len - 2) * 16 + refPos pos / 256 := by
    rw [Nat.or_comm, ← shiftLeft_add_eq_or_of_lt (by simpa using hp), shiftLeft_eq]
  unfold refHigh compressLzssThreshold
  rw [hn, UInt8.toNat_ofNat']
  omega

/-- The decoder reads the position it was sent. -/
theorem ref_pos_decode (h : len ≤ 17) :
    (refLow pos).toNat ||| (((refHigh pos len).toNat &&& 0x0F) <<< 8) = refPos pos := by
  have hp : refPos pos < 4096 := by rw [refPos_eq]; omega
  rw [refHigh_toNat h, refLow_toNat, show 0x0F = 2 ^ 4 - 1 from rfl,
    and_two_pow_sub_one_eq_mod, Nat.or_comm,
    ← shiftLeft_add_eq_or_of_lt (mod_lt _ (by decide))]
  omega

/-- The decoder reads the length it was sent. -/
theorem ref_len_decode (h2 : 2 ≤ len) (h : len ≤ 17) :
    (((refHigh pos len).toNat >>> 4) &&& 0x0F) + compressLzssThreshold = len := by
  have hp : refPos pos < 4096 := by rw [refPos_eq]; omega
  rw [refHigh_toNat h, show 0x0F = 2 ^ 4 - 1 from rfl, and_two_pow_sub_one_eq_mod]
  unfold compressLzssThreshold
  omega

/-! ## Flag groups -/

/-- The flag bits of a group whose first token has bit `k`. -/
def flagsOf : Nat → List Token → Nat
  | _, [] => 0
  | k, t :: ts => (if t.isRef then 1 <<< k else 0) ||| flagsOf (k + 1) ts

theorem flagsOf_snoc : ∀ (k : Nat) (ts : List Token),
    flagsOf k (ts ++ [t]) = flagsOf k ts ||| (if t.isRef then 1 <<< (k + ts.length) else 0)
  | k, [] => by simp [flagsOf]
  | k, u :: ts => by
    rw [cons_append, flagsOf, flagsOf_snoc (k + 1) ts, flagsOf, Nat.or_assoc,
      length_cons, show k + 1 + ts.length = k + (ts.length + 1) by omega]

theorem flagsOf_lt : ∀ (k : Nat) (ts : List Token), flagsOf k ts < 2 ^ (k + ts.length)
  | k, [] => Nat.two_pow_pos _
  | k, t :: ts => by
    have ih := flagsOf_lt (k + 1) ts
    rw [length_cons, show k + (ts.length + 1) = k + 1 + ts.length by omega]
    refine or_lt_two_pow ?_ ih
    split
    · rw [one_shiftLeft]; exact Nat.pow_lt_pow_right (by decide) (by omega)
    · exact Nat.two_pow_pos _

theorem testBit_kind (k j : Nat) :
    (if t.isRef then 1 <<< k else 0 : Nat).testBit j = (t.isRef && decide (k = j)) := by
  cases t <;> simp [Token.isRef, one_shiftLeft, testBit_two_pow]

/-- The tokens only touch the bits from the first one's on. -/
theorem flagsOf_testBit_lt {k : Nat} : ∀ (m : Nat) (ts : List Token), k < m →
    (flagsOf m ts).testBit k = false
  | _, [], _ => zero_testBit k
  | m, t :: ts, h => by
    rw [flagsOf, testBit_or, testBit_kind, flagsOf_testBit_lt (m + 1) ts (by omega)]
    simp
    omega

/-- Bit `k + j` of the flags is the kind of the `j`-th token. -/
theorem flagsOf_testBit : ∀ (k j : Nat) (ts : List Token),
    (flagsOf k ts).testBit (k + j) = (ts[j]?).any Token.isRef
  | k, j, [] => by simp [flagsOf]
  | k, 0, t :: ts => by
    rw [flagsOf, testBit_or, testBit_kind, add_zero, flagsOf_testBit_lt (k + 1) ts (lt_succ_self k)]
    simp
  | k, j + 1, t :: ts => by
    rw [flagsOf, testBit_or, testBit_kind, show k + (j + 1) = k + 1 + j by omega,
      flagsOf_testBit (k + 1) j ts]
    simp
    omega

/-- The decoder's test of one flag bit. -/
theorem and_one_shiftLeft_ne_zero (bit : Nat) : (n &&& (1 <<< bit) ≠ 0) ↔ n.testBit bit = true := by
  rw [one_shiftLeft, and_two_pow]
  cases n.testBit bit <;> simp

/-- A group as it is written: the flag byte, then the tokens. -/
def groupBytes (g : List Token) : List UInt8 := UInt8.ofNat (flagsOf 0 g) :: payload g

/-- The whole compressed text. -/
def encodeGroups (gs : List (List Token)) : List UInt8 := gs.flatMap groupBytes

theorem encodeGroups_snoc (gs : List (List Token)) (g : List Token) :
    encodeGroups (gs ++ [g]) = encodeGroups gs ++ groupBytes g := by simp [encodeGroups]

/-! ## The encoder writes those groups -/

/--
The encoder's invariant while a flag slot is open: the groups in `done` are
written, the slot at `flagOffset` is still empty, and the tokens of `cur` follow
it.
-/
structure Filling (s : CompressState) (done : List (List Token)) (cur : List Token) : Prop where
  full : ∀ g ∈ done, g.length = 8
  flags : s.flags.toNat = flagsOf 0 cur
  off : s.flagOffset = (encodeGroups done).length
  held : Holds s.dst 0 (encodeGroups done)
  cells : Holds s.dst (s.flagOffset + 1) (payload cur)
  di : s.di = s.flagOffset + 1 + (payload cur).length


/-- Filling the open slot completes the group. -/
theorem Filling.close (h : Filling s done cur) :
    Holds (update s.dst s.flagOffset s.flags) 0 (encodeGroups (done ++ [cur]))
      ∧ (encodeGroups (done ++ [cur])).length = s.di := by
  have hflags : s.flags = UInt8.ofNat (flagsOf 0 cur) := by rw [← h.flags]; simp
  rw [encodeGroups_snoc, holds_append, groupBytes, holds_cons]
  refine ⟨⟨h.held.update_outside (.inr (by rw [h.off]; omega)), ?_, ?_⟩, ?_⟩
  · rw [h.off, zero_add, update_self, hflags]
  · rw [zero_add, ← h.off]
    exact h.cells.update_outside (.inl (by omega))
  · rw [length_append, length_cons, h.di, h.off]
    omega

/-- **One token.** With room left, the encoder appends exactly the next token. -/
theorem compressEmit_filling (h : Filling s done cur) (hpos : cur.length = s.flagPos)
    (hlt : s.flagPos < 8)
    (hcap : s.di + (nextToken src srcSize s.si).bytes.length ≤ cap) (hcap32 : cap < 4294967296) :
    ∃ s', compressEmit src srcSize cap s = .ok s'
      ∧ s'.si = s.si + (nextToken src srcSize s.si).span
      ∧ s'.flagPos = s.flagPos
      ∧ s'.di = s.di + (nextToken src srcSize s.si).bytes.length
      ∧ Filling s' done (cur ++ [nextToken src srcSize s.si]) := by
  have hoff := h.off
  have hdi := h.di
  unfold compressEmit
  unfold nextToken at hcap ⊢
  by_cases hb : (bestMatch src srcSize s.si).1 ≥ compressLzssThreshold
  · simp only [if_pos hb, Token.bytes, length_cons, length_nil] at hcap ⊢
    rw [u32_of_lt (by omega),
      u32_of_lt (by omega), if_neg (by omega)]
    refine ⟨_, rfl, rfl, rfl, rfl, h.full, ?_, hoff, ?_, ?_, ?_⟩
    · have hsh : 1 <<< s.flagPos < 256 := by
        rw [one_shiftLeft]
        exact Nat.pow_lt_pow_right (by decide) hlt
      simp only [UInt8.toNat_or, h.flags, flagsOf_snoc, Token.isRef, if_true, zero_add, hpos,
        UInt8.toNat_ofNat', mod_eq_of_lt hsh]
    · exact (h.held.update_outside (.inr (by omega))).update_outside (.inr (by omega))
    · have h1 := (h.cells.snoc (v := refLow (bestMatch src srcSize s.si).2)).snoc
        (v := refHigh (bestMatch src srcSize s.si).2 (bestMatch src srcSize s.si).1)
      simpa [Token.bytes, hdi, add_assoc] using h1
    · simp only [hdi, payload_append, length_append, payload_cons, payload_nil, Token.bytes]
      rfl
  · simp only [if_neg hb, Token.bytes, length_cons, length_nil] at hcap ⊢
    rw [u32_of_lt (by omega), if_neg (by omega)]
    refine ⟨_, rfl, rfl, rfl, rfl, h.full, ?_, hoff, ?_, ?_, ?_⟩
    · simp [h.flags, flagsOf_snoc, Token.isRef]
    · exact h.held.update_outside (.inr (by omega))
    · have h1 := h.cells.snoc (v := src s.si)
      simpa [Token.bytes, hdi] using h1
    · simp only [hdi, payload_append, length_append, payload_cons, payload_nil, Token.bytes]
      rfl

/-- What the loop leaves: the whole text, but for a last slot the caller still has to fill. -/
def Written (s : CompressState) (ts : List Token) : Prop :=
  ∃ (done : List (List Token)) (cur : List Token),
    done.flatten ++ cur = ts ∧ (∀ g ∈ done, g.length = 8) ∧ cur.length = s.flagPos
      ∧ s.flagPos < 8 ∧
      ((cur ≠ [] ∧ Filling s done cur) ∨
        (cur = [] ∧ s.di = (encodeGroups done).length ∧ Holds s.dst 0 (encodeGroups done)))

/-- With enough fuel, the parse is empty only at the end of the source. -/
theorem parse_eq_nil (hf : srcSize - si ≤ fuel) :
    parse src srcSize fuel si = [] ↔ srcSize ≤ si := by
  cases fuel with
  | zero => simp only [parse, true_iff]; omega
  | succ n =>
    rw [parse]
    split
    · simp only [reduceCtorEq, false_iff]; omega
    · simp only [true_iff]; omega

/-- At the end of the source the loop does nothing more. -/
theorem compressLoop_end (h : srcSize ≤ s.si) : compressLoop src srcSize cap fuel s = .ok s := by
  cases fuel with
  | zero => rfl
  | succ n => rw [compressLoop, if_neg (not_lt.mpr h)]

/--
**The loop.** From an open group with source left, and room for everything still
to come, the loop ends with the remaining tokens written.
-/
theorem compressLoop_written (hcap32 : cap < 4294967296) :
    ∀ (fuel : Nat) (s : CompressState) (done : List (List Token)) (cur : List Token),
      Filling s done cur → cur.length = s.flagPos → s.flagPos < 8 →
      s.si < srcSize → srcSize - s.si ≤ fuel →
      s.di + (payload (parse src srcSize fuel s.si)).length
        + ((cur.length + (parse src srcSize fuel s.si).length + 7) / 8 - 1) ≤ cap →
      ∃ s', compressLoop src srcSize cap fuel s = .ok s'
        ∧ Written s' (done.flatten ++ cur ++ parse src srcSize fuel s.si)
  | 0, s, done, cur, _, _, _, hsi, hf, _ => by omega
  | fuel + 1, s, done, cur, h, hpos, hlt, hsi, hf, hroom => by
    have hcov : (nextToken src srcSize s.si).Covers src srcSize s.si := nextToken_covers hsi
    have hspan := hcov.span_pos
    rw [parse, if_pos hsi] at hroom ⊢
    simp only [payload_cons, length_append, length_cons] at hroom
    have hfits : s.di + (nextToken src srcSize s.si).bytes.length ≤ cap := by omega
    obtain ⟨s1, he, h1si, h1pos, h1di, h1⟩ := compressEmit_filling h hpos hlt hfits hcap32
    generalize nextToken src srcSize s.si = t at *
    rw [compressLoop, if_pos hsi, he]
    rw [← h1si] at hroom ⊢
    have hf' : srcSize - s1.si ≤ fuel := by omega
    have hnil : parse src srcSize fuel s1.si = [] ↔ _ := parse_eq_nil hf'
    unfold compressFlag
    by_cases h8 : s1.flagPos + 1 = 8
    · -- the group is complete: its flag byte is written now
      obtain ⟨hheld, hlen⟩ := h1.close
      have hfull : ∀ g ∈ done ++ [cur ++ [t]], g.length = 8 := by
        intro g hg
        rcases mem_append.mp hg with hg | hg
        · exact h.full g hg
        · rw [mem_singleton.mp hg, length_append, length_singleton]; omega
      simp only [if_pos h8]
      by_cases hmore : s1.si < srcSize
      · have hne : (parse src srcSize fuel s1.si).length ≠ 0 := by
          intro h0; have := hnil.mp (length_eq_zero_iff.mp h0); omega
        simp only [if_pos hmore]
        rw [if_neg (by omega), u32_of_lt (by omega)]
        obtain ⟨s2, hl, hw⟩ := compressLoop_written hcap32 fuel
          { s1 with
            di := s1.di + 1
            flags := 0
            flagPos := 0
            flagOffset := s1.di
            dst := update s1.dst s1.flagOffset s1.flags }
          (done ++ [cur ++ [t]]) []
          ⟨hfull, rfl, hlen.symm, hheld, Holds.nil, rfl⟩ rfl (show 0 < 8 by decide) hmore hf'
          (by simp only [length_nil]; omega)
        refine ⟨s2, hl, ?_⟩
        simpa [append_assoc] using hw
      · simp only [if_neg hmore]
        refine ⟨_, compressLoop_end (not_lt.mp hmore), ?_⟩
        rw [hnil.mpr (not_lt.mp hmore)]
        exact ⟨done ++ [cur ++ [t]], [], by simp, hfull, rfl, show 0 < 8 by decide,
          .inr ⟨rfl, hlen.symm, hheld⟩⟩
    · simp only [if_neg h8]
      have hpos' : (cur ++ [t]).length = s1.flagPos + 1 := by simp; omega
      have h2 : Filling { s1 with flagPos := s1.flagPos + 1 } done (cur ++ [t]) :=
        { h1 with }
      by_cases hmore : s1.si < srcSize
      · obtain ⟨s2, hl, hw⟩ := compressLoop_written hcap32 fuel _ _ _ h2 hpos'
          (show s1.flagPos + 1 < 8 by omega) hmore hf'
          (by simp only [length_append, length_singleton]; omega)
        refine ⟨s2, hl, ?_⟩
        simpa [append_assoc] using hw
      refine ⟨_, compressLoop_end (not_lt.mp hmore), ?_⟩
      rw [hnil.mpr (not_lt.mp hmore)]
      exact ⟨done, cur ++ [t], by simp, h.full, hpos', show s1.flagPos + 1 < 8 by omega,
        .inl ⟨by simp, h2⟩⟩

/-! ## The decoder rebuilds the source -/

/-- The tokens are right one after the other, from source index `i` on. -/
def CoversAll (src : Nat → UInt8) (srcSize : Nat) : Nat → List Token → Prop
  | _, [] => True
  | i, t :: ts => t.Covers src srcSize i ∧ CoversAll src srcSize (i + t.span) ts

/-- How many source bytes a list of tokens stands for. -/
def spans (ts : List Token) : Nat := (ts.map Token.span).sum

@[simp] theorem spans_nil : spans [] = 0 := rfl

@[simp] theorem spans_cons : spans (t :: ts) = t.span + spans ts := by
  simp [spans]

@[simp] theorem spans_append : spans (ts ++ us) = spans ts + spans us := by
  simp [spans]

theorem coversAll_append :
    ∀ {i : Nat} {ts us : List Token}, CoversAll src srcSize i (ts ++ us) ↔
      CoversAll src srcSize i ts ∧ CoversAll src srcSize (i + spans ts) us
  | i, [], us => by simp [CoversAll]
  | i, t :: ts, us => by
    simp only [cons_append, CoversAll, @coversAll_append (i + t.span) ts us, spans_cons, and_assoc,
      add_assoc]

/-- The parse covers the whole of the source. -/
theorem parse_covers :
    ∀ (fuel si : Nat), si ≤ srcSize → srcSize - si ≤ fuel →
      CoversAll src srcSize si (parse src srcSize fuel si)
        ∧ si + spans (parse src srcSize fuel si) = srcSize
  | 0, si, hle, hf => ⟨trivial, by simp only [parse, spans_nil]; omega⟩
  | fuel + 1, si, hle, hf => by
    rw [parse]
    split
    · rename_i h
      have hc : (nextToken src srcSize si).Covers src srcSize si := nextToken_covers h
      have hpos := hc.span_pos
      obtain ⟨r1, r2⟩ := parse_covers fuel (si + (nextToken src srcSize si).span) hc.end_le (by omega)
      exact ⟨⟨hc, r1⟩, by simp only [spans_cons]; omega⟩
    · exact ⟨trivial, by simp only [spans_nil]; omega⟩

/-- The decoder has rebuilt the first `n` source bytes and its ring follows them. -/
structure Decoded (src : Nat → UInt8) (s : DecompressState) (n : Nat) : Prop where
  di : s.di = n
  r : s.r = (4078 + n) % 4096
  out : ∀ k, k < n → s.dst k = src k
  ring : Window 4096 4078 src n s.ring

theorem Decoded.put {s : DecompressState} (h : Decoded src s n) :
    Decoded src (s.put (src n)) (n + 1) := by
  refine ⟨congrArg succ h.di, ?_, ?_, ?_⟩
  · show (s.r + 1) &&& (2 ^ 12 - 1) = _
    rw [and_two_pow_sub_one_eq_mod, h.r]
    omega
  · intro k hk
    show update s.dst s.di (src n) k = src k
    rcases lt_or_eq_of_le (le_of_lt_succ hk) with hlt | heq
    · rw [h.di, update_of_ne (Nat.ne_of_lt hlt)]
      exact h.out k hlt
    · rw [heq, h.di, update_self]
  · show Window 4096 4078 src (n + 1) (update s.ring s.r (src n))
    rw [h.r]
    exact h.ring.push

/-- **A back reference is copied right**, even at distance exactly one ring. -/
theorem copyRef_decoded (hfar : i ≤ pos + 4096) :
    ∀ (n k : Nat) (s : DecompressState), Decoded src s (i + k) → pos + k + n ≤ i →
      i + k + n ≤ cap → (∀ j, j < k + n → src (pos + j) = src (i + j)) →
      ∃ s', copyRef cap (refPos pos) n k s = .ok s' ∧ Decoded src s' (i + k + n) ∧ s'.si = s.si
  | 0, k, s, h, _, _, _ => ⟨s, rfl, h, rfl⟩
  | n + 1, k, s, h, hpos, hcap, heq => by
    have hread : s.ring ((refPos pos + k) &&& (compressLzssN - 1)) = src (i + k) := by
      rw [show compressLzssN - 1 = 2 ^ 12 - 1 from rfl, and_two_pow_sub_one_eq_mod, refPos_eq,
        ← heq k (by omega), ← h.ring (pos + k) (by omega) (by omega)]
      congr 1
      omega
    rw [copyRef, if_neg (by rw [h.di]; omega), hread]
    obtain ⟨s', h1, h2, h3⟩ := copyRef_decoded hfar n (k + 1) _ h.put (by omega) (by omega)
      (fun j hj => heq j (by omega))
    refine ⟨s', h1, ?_, h3⟩
    rwa [show i + (k + 1) + n = i + k + (n + 1) by omega] at h2

/-- One token is decoded. -/
theorem decompressBits_token {bit : Nat} {s : DecompressState}
    (hflag : flags.toNat.testBit bit = t.isRef) (hbuf : Holds buf s.si t.bytes)
    (hle : s.si + t.bytes.length ≤ bufSize) (hcov : t.Covers src srcSize i) (h : Decoded src s i)
    (hcap : i + t.span ≤ cap) :
    ∃ s', decompressBits buf bufSize cap flags (n + 1) bit s
        = decompressBits buf bufSize cap flags n (bit + 1) s'
      ∧ Decoded src s' (i + t.span) ∧ s'.si = s.si + t.bytes.length := by
  rw [decompressBits]
  cases t with
  | lit b =>
    simp only [Token.bytes, Token.span, length_singleton] at hbuf hle hcap ⊢
    have hb : buf s.si = src i := by rw [(holds_cons.mp hbuf).1, hcov.2]
    rw [if_pos (by omega), if_neg (by rw [and_one_shiftLeft_ne_zero, hflag]; exact Bool.false_ne_true),
      if_neg (by rw [h.di]; omega), hb]
    exact ⟨_, rfl, Decoded.put { h with }, rfl⟩
  | ref pos len =>
    simp only [Token.bytes, Token.span, length_cons, length_nil] at hbuf hle hcap ⊢
    obtain ⟨⟨h2, h17⟩, hpi, hfar, _, hsame⟩ := hcov
    obtain ⟨hlow, hhigh⟩ := holds_cons.mp hbuf
    rw [if_pos (by omega), if_pos (by rw [and_one_shiftLeft_ne_zero, hflag]; rfl), if_neg (by omega)]
    simp only [hlow, (holds_cons.mp hhigh).1, ref_pos_decode h17, ref_len_decode h2 h17]
    obtain ⟨s', c1, c2, c3⟩ := copyRef_decoded hfar len 0 { s with si := s.si + 2 }
      { h with } (by omega) hcap (fun j hj => hsame j (by omega))
    rw [c1]
    exact ⟨s', rfl, c2, c3⟩

/-- **One flag group.** The bits of the flag byte from `bit` on announce `ts`. -/
theorem decompressBits_decoded :
    ∀ (ts : List Token) (n bit i : Nat) (s : DecompressState),
      (∀ j, flags.toNat.testBit (bit + j) = (ts[j]?).any Token.isRef) →
      Holds buf s.si (payload ts) → s.si + (payload ts).length ≤ bufSize →
      CoversAll src srcSize i ts → Decoded src s i → i + spans ts ≤ cap → ts.length ≤ n →
      (ts.length = n ∨ s.si + (payload ts).length = bufSize) →
      ∃ s', decompressBits buf bufSize cap flags n bit s = .ok s'
        ∧ Decoded src s' (i + spans ts) ∧ s'.si = s.si + (payload ts).length
  | [], n, bit, i, s, _, _, _, _, h, _, _, hend => by
    refine ⟨s, ?_, h, rfl⟩
    cases n with
    | zero => rfl
    | succ n =>
      have hsi : s.si = bufSize := by simpa using hend
      rw [decompressBits, if_neg (by omega)]
  | t :: ts, 0, bit, i, s, _, _, _, _, _, _, hn, _ => by simp at hn
  | t :: ts, n + 1, bit, i, s, hbits, hbuf, hle, hcov, h, hcap, hn, hend => by
    simp only [payload_cons, length_append, spans_cons, length_cons] at hbuf hle hcap hn hend ⊢
    obtain ⟨hb1, hb2⟩ := holds_append.mp hbuf
    obtain ⟨s1, heq, hd, hsi⟩ := decompressBits_token (hbits 0) hb1
      (show _ ≤ bufSize by omega) hcov.1 h (show _ ≤ cap by omega)
    obtain ⟨s', r1, r2, r3⟩ := decompressBits_decoded ts n (bit + 1) (i + t.span) s1
      (fun j => by rw [add_assoc, add_comm 1 j]; exact hbits (j + 1)) (by rw [hsi]; exact hb2)
      (by omega) hcov.2 hd (by omega) (by omega) (by omega)
    refine ⟨s', heq.trans r1, ?_, by omega⟩
    rwa [← add_assoc]

/-- Every group has a token, at most eight, and only the last has fewer. -/
def GroupsOk : List (List Token) → Prop
  | [] => True
  | g :: gs => g ≠ [] ∧ g.length ≤ 8 ∧ (gs ≠ [] → g.length = 8) ∧ GroupsOk gs

theorem groupsOk_append {tail : List (List Token)} (h : GroupsOk tail) :
    ∀ {gs : List (List Token)}, (∀ g ∈ gs, g.length = 8) → GroupsOk (gs ++ tail)
  | [], _ => h
  | g :: gs, hgs => by
    have h8 : g.length = 8 := hgs g mem_cons_self
    exact ⟨by intro hg; rw [hg] at h8; simp at h8, by omega, fun _ => h8,
      groupsOk_append h fun x hx => hgs x (mem_cons_of_mem _ hx)⟩

/-- **All groups.** -/
theorem decompressLoop_decoded :
    ∀ (gs : List (List Token)) (fuel i : Nat) (s : DecompressState),
      GroupsOk gs → Holds buf s.si (encodeGroups gs) →
      s.si + (encodeGroups gs).length = bufSize → CoversAll src srcSize i gs.flatten →
      Decoded src s i → i + spans gs.flatten ≤ cap → gs.length ≤ fuel →
      ∃ s', decompressLoop buf bufSize cap fuel s = .ok s' ∧ Decoded src s' (i + spans gs.flatten)
  | [], fuel, i, s, _, _, hlen, _, h, _, _ => by
    refine ⟨s, ?_, h⟩
    cases fuel with
    | zero => rfl
    | succ n =>
      have hsi : s.si = bufSize := by simpa [encodeGroups] using hlen
      rw [decompressLoop, if_neg (by omega)]
  | g :: gs, 0, i, s, _, _, _, _, _, _, hf => by simp at hf
  | g :: gs, fuel + 1, i, s, hok, hbuf, hlen, hcov, h, hcap, hf => by
    obtain ⟨hne, h8, hfull, hok'⟩ := hok
    have henc : encodeGroups (g :: gs) = groupBytes g ++ encodeGroups gs := by
      simp [encodeGroups]
    rw [henc] at hbuf hlen
    simp only [length_append, groupBytes, length_cons] at hlen
    obtain ⟨hg, hgs⟩ := holds_append.mp hbuf
    obtain ⟨hflag, hpay⟩ := holds_cons.mp hg
    simp only [flatten_cons] at hcov hcap ⊢
    obtain ⟨hcg, hcgs⟩ := coversAll_append.mp hcov
    rw [spans_append] at hcap ⊢
    have hflt : flagsOf 0 g < 256 :=
      lt_of_lt_of_le (flagsOf_lt 0 g)
        (Nat.pow_le_pow_right (by decide) (show 0 + g.length ≤ 8 by omega))
    -- a group has at least one byte after its flag byte
    have hpos : 0 < (payload g).length := by
      cases g with
      | nil => exact absurd rfl hne
      | cons t ts => cases t <;> simp [Token.bytes]
    rw [decompressLoop, if_pos (by omega)]
    rw [if_neg (by omega), hflag]
    have hcut : g.length = 8 ∨ s.si + 1 + (payload g).length = bufSize := by
      cases gs with
      | nil => simp [encodeGroups] at hlen; omega
      | cons g' gs' => left; exact hfull (by simp)
    obtain ⟨s1, r1, r2, r3⟩ := decompressBits_decoded g 8 0 i { s with si := s.si + 1 }
      (by
        intro j
        rw [UInt8.toNat_ofNat', mod_eq_of_lt hflt]
        exact flagsOf_testBit 0 j g)
      hpay (by simp only; omega) hcg { h with } (show _ ≤ cap by omega)
      h8 hcut
    rw [r1]
    simp only at r3 ⊢
    obtain ⟨s', q1, q2⟩ := decompressLoop_decoded gs fuel (i + spans g) s1 hok'
      (by rw [r3, show s.si + 1 + (payload g).length = s.si + ((payload g).length + 1) by omega]
          exact hgs)
      (by omega) hcgs r2 (by omega) (by simp at hf; omega)
    exact ⟨s', q1, by rwa [show i + (spans g + spans gs.flatten)
      = i + spans g + spans gs.flatten by omega]⟩

/-! ## The round trip -/

/-- A byte string as the buffer the codec reads. -/
def srcAt (src : List UInt8) (i : Nat) : UInt8 := src.getD i 0

/--
Compressing `src` into `dst` and decompressing the result into `out` succeeds and
gives `src` back.
-/
def RoundTrips (src : List UInt8) (dst : Nat → UInt8) (cap : Nat) (out : Nat → UInt8)
    (outCap : Nat) : Prop :=
  ∃ (n : Nat) (dst' out' : Nat → UInt8),
    compressData (srcAt src) src.length dst cap = .ok (n, dst')
      ∧ decompressData dst' n out outCap = .ok (src.length, out') ∧ Holds out' 0 src

theorem length_le_encodeGroups : ∀ (gs : List (List Token)), gs.length ≤ (encodeGroups gs).length
  | [] => le_refl _
  | g :: gs => by
    have := length_le_encodeGroups gs
    simp only [encodeGroups, groupBytes, flatMap_cons, length_append, length_cons] at this ⊢
    omega

variable {src : List UInt8}

/-- A non-empty source is compressed to its groups, all flag bytes in place. -/
theorem compressData_groups {dst : Nat → UInt8} {cap : Nat} (hne : src ≠ [])
    (hsize : compressedSize (srcAt src) src.length ≤ cap) (hcap32 : cap < 4294967296) :
    ∃ (gs : List (List Token)) (dst' : Nat → UInt8),
      compressData (srcAt src) src.length dst cap = .ok ((encodeGroups gs).length, dst')
        ∧ Holds dst' 0 (encodeGroups gs) ∧ GroupsOk gs
        ∧ gs.flatten = parse (srcAt src) src.length src.length 0 := by
  have hlen : 0 < src.length := length_pos_iff.mpr hne
  have hnil : parse (srcAt src) _ _ 0 = [] ↔ _ := parse_eq_nil (le_refl src.length)
  have htoks : (parse (srcAt src) src.length src.length 0).length ≠ 0 := by
    intro h0; have := hnil.mp (length_eq_zero_iff.mp h0); omega
  unfold compressedSize at hsize
  obtain ⟨s, hloop, done, cur, hts, hfull, hpos, hlt, hend⟩ :=
    @compressLoop_written (srcAt src) src.length cap hcap32 src.length
      { si := 0, di := 1, flags := 0, flagPos := 0, flagOffset := 0, dst := dst } [] []
      ⟨by simp, rfl, rfl, Holds.nil, Holds.nil, rfl⟩ rfl (show 0 < 8 by decide) hlen
      (le_refl _) (by simp only [length_nil]; omega)
  unfold compressData
  rw [if_neg (by omega), hloop]
  rcases hend with ⟨hcur, hfill⟩ | ⟨hcur, hdi, hheld⟩
  · -- the last group is still open: its flag byte is written after the loop
    obtain ⟨hclose, hdi⟩ := hfill.close
    have hfp : s.flagPos > 0 := by
      rw [← hpos]; exact length_pos_iff.mpr hcur
    refine ⟨done ++ [cur], _, by simp only [hdi]; rfl, ?_, groupsOk_append ?_ hfull, ?_⟩
    · simpa only [if_pos hfp] using hclose
    · exact ⟨hcur, by omega, fun h => absurd rfl h, trivial⟩
    · simpa using hts
  · have hfp : ¬ s.flagPos > 0 := by rw [← hpos, hcur]; simp
    refine ⟨done, _, by simp only [hdi]; rfl, ?_, ?_, ?_⟩
    · simpa only [if_neg hfp] using hheld
    · rw [← append_nil done]
      exact groupsOk_append (show GroupsOk [] from trivial) hfull
    · simpa [hcur] using hts

/-- **Every non-empty source round-trips**, whatever the destination held before. -/
theorem roundTrips_of_ne_nil (hne : src ≠ []) (hsize : compressedSize (srcAt src) src.length ≤ cap)
    (hcap32 : cap < 4294967296) (hout : src.length ≤ outCap) :
    RoundTrips src dst cap out outCap := by
  obtain ⟨gs, dst', hc, hheld, hok, hflat⟩ := @compressData_groups src dst cap hne hsize hcap32
  obtain ⟨hcov, hspan⟩ := @parse_covers (srcAt src) src.length src.length 0 (zero_le _) (le_refl _)
  rw [← hflat] at hcov hspan
  obtain ⟨s, hd, hdec⟩ := @decompressLoop_decoded (srcAt src) dst' src.length
    (encodeGroups gs).length outCap gs (encodeGroups gs).length 0
    { si := 0, di := 0, r := compressLzssN - compressLzssF, dst := out, ring := fun _ => 0x20 }
    hok hheld (zero_add _) hcov
    ⟨rfl, rfl, fun k hk => absurd hk (not_lt_zero k), Window.zero _ _ _ _⟩
    (by omega) (length_le_encodeGroups gs)
  rw [hspan] at hdec
  refine ⟨_, dst', s.dst, hc, ?_, ?_⟩
  · unfold decompressData; rw [hd, ← hdec.di]
  · intro i x hi
    rw [zero_add, hdec.out i (List.getElem?_eq_some_iff.mp hi).1]
    simp [srcAt, getD_eq_getElem?_getD, hi]

/-- The empty source is compressed to one byte that is never written. -/
theorem roundTrips_nil_iff (hcap : 0 < cap) : RoundTrips [] dst cap out outCap ↔ dst 0 = 0 := by
  have hc : compressData (srcAt []) 0 dst cap = .ok (1, dst) := by
    unfold compressData
    rw [if_neg (by omega)]
    rfl
  have hd : decompressData dst 1 out outCap
      = if dst 0 = 0 then .ok (0, out) else .error .invalid := by
    by_cases h0 : dst 0 = 0
    · simp [decompressData, decompressLoop, h0]
    · simp [decompressData, decompressLoop, h0]
  constructor
  · rintro ⟨n, dst', out', h1, h2, -⟩
    rw [length_nil, hc] at h1
    obtain ⟨rfl, rfl⟩ : 1 = n ∧ dst = dst' := by simpa using h1
    rw [hd] at h2
    by_contra h0
    rw [if_neg h0] at h2
    exact absurd h2 (by simp)
  · intro h0
    exact ⟨1, dst, out, hc, by rw [hd, if_pos h0]; rfl, Holds.nil⟩

/--
**The codec's round trip, exactly.** For every source whose compressed size fits
a `uint32_t`, every destination of at least the advertised size and every output
buffer with room for the source, the round trip works if and only if the source
is not empty or the destination's first byte was already zero.
-/
theorem compress_round_trip_iff (src : List UInt8) (dst out : Nat → UInt8) (cap outCap : Nat)
    (hfit : compressedSize (srcAt src) src.length < 4294967296)
    (hcap : compressGetMaxSize src.length ≤ cap) (hcap32 : cap < 4294967296)
    (hout : src.length ≤ outCap) :
    RoundTrips src dst cap out outCap ↔ (src ≠ [] ∨ dst 0 = 0) := by
  have hsize := compressedSize_le_max hfit hcap
  have hpos : 0 < cap := by unfold compressedSize at hsize; omega
  by_cases hne : src = []
  · subst hne
    simp [roundTrips_nil_iff hpos]
  · exact ⟨fun _ => .inl hne, fun _ => roundTrips_of_ne_nil hne hsize hcap32 hout⟩

/-- Three bytes into a destination full of `0xAA`. -/
theorem compress_round_trip_abc : RoundTrips [0x61, 0x62, 0x63] (fun _ => 0xAA) 67 (fun _ => 0) 3 :=
  (compress_round_trip_iff [0x61, 0x62, 0x63] (fun _ => 0xAA) (fun _ => 0) 67 3 (by decide)
    (by decide) (by decide) (by decide)).mpr (.inl (by decide))

/-- The empty source into a destination that held `1`. -/
theorem compress_empty_not_round_trip :
    ¬ RoundTrips [] (fun _ => 1) (compressGetMaxSize 0) (fun _ => 0) 0 := by
  rw [roundTrips_nil_iff (by decide)]
  decide

end ZephyrOS.Compress
