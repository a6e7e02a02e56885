import ZephyrOS.Core.Errors
import ZephyrOS.Lib.Unicode

/-!
# Names from UTF-8 to UTF-16

`storage_utf8_to_utf16` of `fs/storage.c` turns the bytes of a name into the units of its long
entry. Which lead bytes it takes and a range check on the decoded value decide what is
accepted. That rules out surrogates, values above `0x10FFFF` and the overlong forms of two
bytes, but not the overlong forms of three and four bytes: `E0 80 80` decodes to 0.

So what is accepted is a grammar of its own: the encodings of scalar values, and those overlong
forms. A string that is not of this grammar, or has no overlong form in it, is accepted
exactly when it is well-formed UTF-8, and the units are its UTF-16 encoding.
-/

namespace ZephyrOS.Storage

open Lib List Nat

/-! ### The code -/

/-- The bits a lead byte contributes and the number of bytes that follow it. -/
def leadByte (first : UInt8) : Option (Nat × Nat) :=
  if first < 0x80 then some (first.toNat, 0)
  else if 0xC2 ≤ first ∧ first ≤ 0xDF then some ((first &&& 0x1F).toNat, 1)
  else if 0xE0 ≤ first ∧ first ≤ 0xEF then some ((first &&& 0x0F).toNat, 2)
  else if 0xF0 ≤ first ∧ first ≤ 0xF4 then some ((first &&& 0x07).toNat, 3)
  else none

/-- The loop over the bytes that follow. The terminator of the string is not one of them. -/
def continuation : Nat → Nat → List UInt8 → Option (Nat × List UInt8)
  | 0, codepoint, rest => some (codepoint, rest)
  | _ + 1, _, [] => none
  | extra + 1, codepoint, next :: rest =>
    if next &&& 0xC0 ≠ 0x80 then none
    else continuation extra ((codepoint <<< 6) ||| (next &&& 0x3F).toNat) rest

/-- One code point of the input, and what is left of it. -/
def nextCodepoint (first : UInt8) (rest : List UInt8) : Option (Nat × List UInt8) :=
  match leadByte first with
  | none => none
  | some (bits, extra) =>
    match continuation extra bits rest with
    | none => none
    | some (codepoint, rest) =>
      if 0x10FFFF < codepoint ∨ (0xD800 ≤ codepoint ∧ codepoint ≤ 0xDFFF) then none
      else some (codepoint, rest)

/-- The units of a code point. -/
def unitsOf (codepoint : Nat) : List Nat :=
  if codepoint ≤ 0xFFFF then [codepoint]
  else [0xD800 ||| ((codepoint - 0x10000) >>> 10), 0xDC00 ||| ((codepoint - 0x10000) &&& 0x3FF)]

/-- The loop of `storage_utf8_to_utf16`. Every round takes at least one byte. -/
def utf8ToUtf16Loop (capacity : Nat) : Nat → List UInt8 → List Nat → Except Err (List Nat)
  | 0, _, units => .ok units
  | _ + 1, [], units => .ok units
  | rounds + 1, first :: rest, units =>
    if first = 0 then .ok units
    else
      match nextCodepoint first rest with
      | none => .error .invalid
      | some (codepoint, rest) =>
        if capacity < units.length + (unitsOf codepoint).length then .error .overflow
        else utf8ToUtf16Loop capacity rounds rest (units ++ unitsOf codepoint)

/-- `storage_utf8_to_utf16`. -/
def utf8ToUtf16 (input : List UInt8) (capacity : Nat) : Except Err (List Nat) :=
  utf8ToUtf16Loop capacity input.length input []

/-! ### One code point -/

variable {c : Char} {front : List UInt8} {extra codepoint : Nat} {rest bytes tail : List UInt8}
  {first : UInt8} {text : List Char}

theorem unitsOf_toNat : unitsOf c.toNat = utf16Char c := by
  have hc := char_scalar c
  unfold unitsOf utf16Char
  by_cases h : c.toNat ≤ 0xFFFF
  · rw [if_pos h, if_pos (by omega)]
  rw [if_neg h, if_neg (by omega)]
  have hhigh : (c.toNat - 0x10000) / 1024 < 1024 := by omega
  have h1 : 0xD800 ||| ((c.toNat - 0x10000) >>> 10) = 0xD800 + (c.toNat - 0x10000) / 1024 := by
    rw [shiftRight_eq_div_pow, show 0xD800 = 2 ^ 10 * 54 from rfl,
      ← two_pow_add_eq_or_of_lt hhigh]
  have h2 : 0xDC00 ||| ((c.toNat - 0x10000) &&& 0x3FF) = 0xDC00 + (c.toNat - 0x10000) % 1024 := by
    rw [show 0x3FF = 2 ^ 10 - 1 from rfl, and_two_pow_sub_one_eq_mod,
      show 0xDC00 = 2 ^ 10 * 55 from rfl,
      ← two_pow_add_eq_or_of_lt (mod_lt _ (by decide))]
  rw [h1, h2]

theorem leadByte_of_toNat {b : UInt8} :
    leadByte b = if b.toNat < 0x80 then some (b.toNat, 0)
      else if 0xC2 ≤ b.toNat ∧ b.toNat ≤ 0xDF then some (b.toNat - 0xC0, 1)
      else if 0xE0 ≤ b.toNat ∧ b.toNat ≤ 0xEF then some (b.toNat - 0xE0, 2)
      else if 0xF0 ≤ b.toNat ∧ b.toNat ≤ 0xF4 then some (b.toNat - 0xF0, 3)
      else none := by
  have h : ∀ n : Fin 256, leadByte (UInt8.ofNat n) = if n.val < 0x80 then some (n.val, 0)
      else if 0xC2 ≤ n.val ∧ n.val ≤ 0xDF then some (n.val - 0xC0, 1)
      else if 0xE0 ≤ n.val ∧ n.val ≤ 0xEF then some (n.val - 0xE0, 2)
      else if 0xF0 ≤ n.val ∧ n.val ≤ 0xF4 then some (n.val - 0xF0, 3)
      else none := by
    decide +kernel
  simpa using h ⟨b.toNat, b.toNat_lt⟩

/-- One more byte of a form, by values. -/
theorem continuation_cons {next : UInt8} (h : 128 ≤ next.toNat ∧ next.toNat < 192) :
    continuation (extra + 1) codepoint (next :: rest)
      = continuation extra (codepoint * 64 + (next.toNat - 128)) rest := by
  have hlow : (next &&& 0x3F).toNat = next.toNat - 128 := by
    rw [and_mask_toNat.1]; omega
  have hor : (codepoint <<< 6) ||| (next.toNat - 128) = codepoint * 64 + (next.toNat - 128) := by
    rw [shiftLeft_eq, Nat.mul_comm, ← two_pow_add_eq_or_of_lt (by omega)]
  rw [continuation, if_neg (not_not.mpr (continuation_iff.mpr h)), hlow, hor]

theorem continuation_cons_eq_some {value : Nat}
    (h : continuation (extra + 1) codepoint bytes = some (value, tail)) :
    ∃ next rest, bytes = next :: rest ∧ 128 ≤ next.toNat ∧ next.toNat < 192
      ∧ continuation extra (codepoint * 64 + (next.toNat - 128)) rest = some (value, tail) := by
  cases bytes with
  | nil => exact absurd h (by simp [continuation])
  | cons next rest =>
    by_cases hn : 128 ≤ next.toNat ∧ next.toNat < 192
    · rw [continuation_cons hn] at h
      exact ⟨next, rest, rfl, hn.1, hn.2, h⟩
    · rw [continuation, if_pos (fun h' => hn (continuation_iff.mp h'))] at h
      cases h

/-- A form of three or four bytes that is too long for its value starts like this. -/
def overlongPair (first second : UInt8) : Bool :=
  0x80 ≤ second.toNat
    && ((first.toNat == 0xE0 && second.toNat < 0xA0) || (first.toNat == 0xF0 && second.toNat < 0x90))

/-- The string has an overlong pair somewhere. -/
def hasOverlong : List UInt8 → Bool
  | first :: second :: rest => overlongPair first second || hasOverlong (second :: rest)
  | _ => false

/-- `Piece bytes tail`: a form the decoder takes at the start of `bytes`, before `tail`. Overlong
forms of surrogates are not among them. -/
inductive Piece : List UInt8 → List UInt8 → Prop where
  | char (c : Char) (tail : List UInt8) : Piece (String.utf8EncodeChar c ++ tail) tail
  | three {first b d : UInt8} (tail : List UInt8) : first.toNat = 0xE0 → 0x80 ≤ b.toNat → b.toNat < 0xA0 →
      0x80 ≤ d.toNat → d.toNat < 0xC0 → Piece (first :: b :: d :: tail) tail
  | four {first b d e : UInt8} (tail : List UInt8) : first.toNat = 0xF0 → 0x80 ≤ b.toNat → b.toNat < 0x90 →
      0x80 ≤ d.toNat → d.toNat < 0xC0 → 0x80 ≤ e.toNat → e.toNat < 0xC0 →
      ¬ (b.toNat = 0x8D ∧ 0xA0 ≤ d.toNat) → Piece (first :: b :: d :: e :: tail) tail

/-- Strings that are made of such pieces. -/
inductive Lax : List UInt8 → Prop where
  | nil : Lax []
  | piece {bytes tail : List UInt8} : Piece bytes tail → Lax tail → Lax bytes

/-- The same for the byte that carries six given bits. -/
theorem continuation_ofNat {n : Nat} (h : n < 64) :
    continuation (extra + 1) codepoint (UInt8.ofNat (n + 128) :: rest)
      = continuation extra (codepoint * 64 + n) rest := by
  have hn : (UInt8.ofNat (n + 128)).toNat = n + 128 := toNat_ofNat_byte (by omega)
  rw [continuation_cons (by omega), hn, Nat.add_sub_cancel]

/-- A lead byte whose bytes follow is decoded, if the value is a scalar. -/
theorem nextCodepoint_eq (bits extra : Nat) (hlead : leadByte first = some (bits, extra))
    (hcont : continuation extra bits rest = some (codepoint, tail))
    (hscalar : codepoint < 0xD800 ∨ 0xDFFF < codepoint ∧ codepoint < 0x110000) :
    nextCodepoint first rest = some (codepoint, tail) := by
  rw [nextCodepoint, hlead]
  dsimp only
  rw [hcont]
  dsimp only
  rw [if_neg (by omega)]

/-- A code point of a well-formed string is decoded. -/
theorem nextCodepoint_char :
    ∃ first rest, String.utf8EncodeChar c ++ tail = first :: rest
      ∧ nextCodepoint first rest = some (c.toNat, tail) := by
  have hc := char_scalar c
  -- One case for each number of bytes; the bytes are the digits of the value in base 64.
  rcases utf8EncodeChar_cases c with ⟨h, heq⟩ | ⟨h1, h2, heq⟩ | ⟨h1, h2, heq⟩ | ⟨h1, heq⟩ <;>
    rw [heq] <;> simp only [cons_append, nil_append] <;> refine ⟨_, _, rfl, ?_⟩
  · refine nextCodepoint_eq c.toNat 0 ?_ (rfl : continuation 0 c.toNat tail = _) hc
    rw [leadByte_of_toNat, toNat_ofNat_byte (by omega), if_pos h]
  · refine nextCodepoint_eq (c.toNat / 64) 1 ?_ ?_ hc
    · rw [leadByte_of_toNat, toNat_ofNat_byte (by omega), if_neg (by omega), if_pos (by omega),
        Nat.add_sub_cancel]
    · rw [continuation_ofNat (by omega), continuation,
        show c.toNat / 64 * 64 + c.toNat % 64 = c.toNat by omega]
  · refine nextCodepoint_eq (c.toNat / 4096) 2 ?_ ?_ hc
    · rw [leadByte_of_toNat, toNat_ofNat_byte (by omega), if_neg (by omega), if_neg (by omega),
        if_pos (by omega), Nat.add_sub_cancel]
    · rw [continuation_ofNat (by omega), continuation_ofNat (by omega), continuation,
        show (c.toNat / 4096 * 64 + c.toNat / 64 % 64) * 64 + c.toNat % 64 = c.toNat by omega]
  · refine nextCodepoint_eq (c.toNat / 262144) 3 ?_ ?_ hc
    · rw [leadByte_of_toNat, toNat_ofNat_byte (by omega), if_neg (by omega), if_neg (by omega),
        if_neg (by omega), if_pos (by omega), Nat.add_sub_cancel]
    · rw [continuation_ofNat (by omega), continuation_ofNat (by omega), continuation_ofNat (by omega),
        continuation, show ((c.toNat / 262144 * 64 + c.toNat / 4096 % 64) * 64
          + c.toNat / 64 % 64) * 64 + c.toNat % 64 = c.toNat by omega]

/-- What is decoded is a piece: the encoding of its value, or an overlong form. -/
theorem nextCodepoint_sound (h : nextCodepoint first rest = some (codepoint, tail)) :
    Piece (first :: rest) tail := by
  have hencoded : ∀ {c : Char}, first :: rest = String.utf8EncodeChar c ++ tail → Piece (first :: rest) tail :=
    fun heq => heq ▸ Piece.char _ _
  unfold nextCodepoint at h
  split at h
  · cases h
  rename_i bits extra hlead
  split at h
  · cases h
  rename_i value left hcont
  split at h
  · cases h
  obtain ⟨rfl, rfl⟩ := Prod.mk.inj (Option.some.inj h)
  rename_i hscalar
  have hchar : (Char.ofNat value).toNat = value := toNat_ofNat_scalar (by omega)
  rw [leadByte_of_toNat] at hlead
  rcases utf8EncodeChar_cases (Char.ofNat value) with hsize
  rw [hchar] at hsize
  split at hlead
  · -- One byte.
    obtain ⟨rfl, rfl⟩ := Prod.mk.inj (Option.some.inj hlead)
    obtain ⟨rfl, rfl⟩ := Prod.mk.inj (Option.some.inj hcont)
    apply hencoded
    rcases hsize with ⟨-, heq⟩ | ⟨h1, -⟩ | ⟨h1, -⟩ | ⟨h1, -⟩
    · rw [heq, UInt8.ofNat_toNat]; rfl
    all_goals omega
  split at hlead
  · -- Two bytes: the lead bytes C0 and C1 of overlong forms are refused.
    obtain ⟨rfl, rfl⟩ := Prod.mk.inj (Option.some.inj hlead)
    obtain ⟨b, more, rfl, hb1, hb2, hcont⟩ := continuation_cons_eq_some hcont
    obtain ⟨rfl, rfl⟩ := Prod.mk.inj (Option.some.inj hcont)
    apply hencoded
    rcases hsize with ⟨h1, -⟩ | ⟨h1, h2, heq⟩ | ⟨h1, h2, -⟩ | ⟨h1, -⟩
    · omega
    · rw [heq, ofNat_eq_of_toNat (b := first) (by omega), ofNat_eq_of_toNat (b := b) (by omega)]
      rfl
    all_goals omega
  split at hlead
  · -- Three bytes: too long for values below 0x800.
    obtain ⟨rfl, rfl⟩ := Prod.mk.inj (Option.some.inj hlead)
    obtain ⟨b, more, rfl, hb1, hb2, hcont⟩ := continuation_cons_eq_some hcont
    obtain ⟨d, more', rfl, hd1, hd2, hcont⟩ := continuation_cons_eq_some hcont
    obtain ⟨rfl, rfl⟩ := Prod.mk.inj (Option.some.inj hcont)
    by_cases hlong : first.toNat = 0xE0 ∧ b.toNat < 0xA0
    · exact .three _ hlong.1 hb1 hlong.2 hd1 hd2
    apply hencoded
    rcases hsize with ⟨h1, -⟩ | ⟨h1, h2, -⟩ | ⟨h1, h2, heq⟩ | ⟨h1, -⟩
    · omega
    · omega
    · rw [heq, ofNat_eq_of_toNat (b := first) (by omega), ofNat_eq_of_toNat (b := b) (by omega),
        ofNat_eq_of_toNat (b := d) (by omega)]
      rfl
    · omega
  split at hlead
  · -- Four bytes: too long for values below 0x10000.
    obtain ⟨rfl, rfl⟩ := Prod.mk.inj (Option.some.inj hlead)
    obtain ⟨b, more, rfl, hb1, hb2, hcont⟩ := continuation_cons_eq_some hcont
    obtain ⟨d, more', rfl, hd1, hd2, hcont⟩ := continuation_cons_eq_some hcont
    obtain ⟨e, more'', rfl, he1, he2, hcont⟩ := continuation_cons_eq_some hcont
    obtain ⟨rfl, rfl⟩ := Prod.mk.inj (Option.some.inj hcont)
    by_cases hlong : first.toNat = 0xF0 ∧ b.toNat < 0x90
    · exact .four _ hlong.1 hb1 hlong.2 hd1 hd2 he1 he2 (by omega)
    apply hencoded
    rcases hsize with ⟨h1, -⟩ | ⟨h1, h2, -⟩ | ⟨h1, h2, -⟩ | ⟨h1, heq⟩
    · omega
    · omega
    · omega
    · rw [heq, ofNat_eq_of_toNat (b := first) (by omega), ofNat_eq_of_toNat (b := b) (by omega),
        ofNat_eq_of_toNat (b := d) (by omega), ofNat_eq_of_toNat (b := e) (by omega)]
      rfl
  · cases hlead

theorem length_utf16Char_le (c : Char) :
    (utf16Char c).length ≤ (String.utf8EncodeChar c).length := by
  have hpos : 0 < (String.utf8EncodeChar c).length := by
    rw [String.length_utf8EncodeChar]; exact c.utf8Size_pos
  unfold utf16Char
  split
  · exact hpos
  rcases utf8EncodeChar_cases c with ⟨h1, -⟩ | ⟨-, h1, -⟩ | ⟨-, h1, -⟩ | ⟨-, heq⟩
  · omega
  · omega
  · omega
  · rw [heq]
    simp

theorem Piece.suffix (h : Piece bytes tail) : tail <:+ bytes := by
  cases h with
  | char c tail => exact suffix_append _ _
  | @three first b d tail => exact ⟨[first, b, d], rfl⟩
  | @four first b d e tail => exact ⟨[first, b, d, e], rfl⟩

/-- Every piece is decoded, to no more units than it has bytes. -/
theorem Piece.decoded (h : Piece bytes tail) : ∃ first rest codepoint, bytes = first :: rest
    ∧ nextCodepoint first rest = some (codepoint, tail)
    ∧ (unitsOf codepoint).length + tail.length ≤ bytes.length := by
  cases h with
  | char c tail =>
    obtain ⟨first, rest, heq, hnext⟩ := nextCodepoint_char
    refine ⟨first, rest, c.toNat, heq, hnext, ?_⟩
    rw [unitsOf_toNat, length_append]
    exact Nat.add_le_add_right (length_utf16Char_le c) _
  | @three first b d tail hfirst hb1 hb2 hd1 hd2 =>
    refine ⟨first, _, (b.toNat - 128) * 64 + (d.toNat - 128), rfl, nextCodepoint_eq 0 2 ?_ ?_ (by omega), ?_⟩
    · rw [leadByte_of_toNat, hfirst]
      rfl
    · rw [continuation_cons ⟨hb1, by omega⟩, continuation_cons ⟨hd1, hd2⟩, continuation,
        Nat.zero_mul, Nat.zero_add]
    · rw [unitsOf, if_pos (by omega)]
      simp only [length_cons, length_nil]
      omega
  | @four first b d e tail hfirst hb1 hb2 hd1 hd2 he1 he2 hsurrogate =>
    refine ⟨first, _, ((b.toNat - 128) * 64 + (d.toNat - 128)) * 64 + (e.toNat - 128), rfl,
      nextCodepoint_eq 0 3 ?_ ?_ (by omega), ?_⟩
    · rw [leadByte_of_toNat, hfirst]
      rfl
    · rw [continuation_cons ⟨hb1, by omega⟩, continuation_cons ⟨hd1, hd2⟩, continuation_cons ⟨he1, he2⟩,
        continuation, Nat.zero_mul, Nat.zero_add]
    · rw [unitsOf, if_pos (by omega)]
      simp only [length_cons, length_nil]
      omega

/-! ### Overlong forms -/

theorem overlongPair_eq_false {second : UInt8}
    (h : ¬ (first.toNat = 0xE0 ∧ second.toNat < 0xA0) ∧ ¬ (first.toNat = 0xF0 ∧ second.toNat < 0x90)) :
    overlongPair first second = false := by
  simp only [overlongPair, Bool.and_eq_false_iff, Bool.or_eq_false_iff, decide_eq_false_iff_not,
    beq_eq_false_iff_ne]
  omega

theorem hasOverlong_cons (h : first.toNat ≠ 0xE0 ∧ first.toNat ≠ 0xF0) :
    hasOverlong (first :: rest) = hasOverlong rest := by
  cases rest with
  | nil => rfl
  | cons second rest =>
    rw [hasOverlong, overlongPair_eq_false ⟨fun h' => h.1 h'.1, fun h' => h.2 h'.1⟩, Bool.false_or]

theorem hasOverlong_of_tail (h : hasOverlong rest = true) : hasOverlong (first :: rest) = true := by
  cases rest with
  | nil => exact absurd h (by simp [hasOverlong])
  | cons second rest => simp [hasOverlong, h]

theorem hasOverlong_append (h : hasOverlong bytes = true) :
    hasOverlong (front ++ bytes) = true := by
  induction front with
  | nil => exact h
  | cons first front ih => exact hasOverlong_of_tail ih

/-- The bytes of a scalar value have no overlong pair. -/
theorem hasOverlong_char : hasOverlong (String.utf8EncodeChar c ++ rest) = hasOverlong rest := by
  have hc := char_scalar c
  have hplain : ∀ n rest, n < 0xE0 → hasOverlong (UInt8.ofNat n :: rest) = hasOverlong rest := by
    intro n rest hn
    have hbyte := toNat_ofNat_byte (by omega : n < 256)
    exact hasOverlong_cons ⟨by omega, by omega⟩
  rcases utf8EncodeChar_cases c with ⟨h, heq⟩ | ⟨h1, h2, heq⟩ | ⟨h1, h2, heq⟩ | ⟨h1, heq⟩ <;>
    rw [heq] <;> simp only [cons_append, nil_append]
  · exact hplain _ _ (by omega)
  · rw [hplain _ _ (by omega), hplain _ _ (by omega)]
  · -- After E0 the value is at least 0x800, so the second byte is at least A0.
    have hlead := toNat_ofNat_byte (by omega : c.toNat / 4096 + 224 < 256)
    have hsecond := toNat_ofNat_byte (by omega : c.toNat / 64 % 64 + 128 < 256)
    rw [hasOverlong, overlongPair_eq_false (by omega), Bool.false_or, hplain _ _ (by omega),
      hplain _ _ (by omega)]
  · -- After F0 the value is at least 0x10000, so the second byte is at least 90.
    have hlead := toNat_ofNat_byte (by omega : c.toNat / 262144 + 240 < 256)
    have hsecond := toNat_ofNat_byte (by omega : c.toNat / 4096 % 64 + 128 < 256)
    rw [hasOverlong, overlongPair_eq_false (by omega), Bool.false_or, hplain _ _ (by omega),
      hplain _ _ (by omega), hplain _ _ (by omega)]

theorem hasOverlong_utf8 (text : List Char) : hasOverlong (utf8 text) = false := by
  induction text with
  | nil => rfl
  | cons c text ih => rw [utf8_cons, hasOverlong_char, ih]

/-! ### The whole string -/

/-- A well-formed string is accepted, with its UTF-16 units. -/
theorem utf8ToUtf16Loop_utf8 {capacity : Nat} :
    ∀ (rounds : Nat) (units : List Nat), (∀ b ∈ utf8 text, b ≠ 0) → (utf8 text).length ≤ rounds →
      units.length + (utf8 text).length ≤ capacity →
      utf8ToUtf16Loop capacity rounds (utf8 text) units = .ok (units ++ utf16 text) := by
  induction text with
  | nil =>
    intro rounds units _ _ _
    cases rounds <;> simp [utf8ToUtf16Loop]
  | cons c text ih =>
    intro rounds units hnul hrounds hcap
    obtain ⟨first, rest, heq, hnext⟩ := nextCodepoint_char
    have hlen := length_utf16Char_le c
    have hfirst : first ≠ 0 := by
      apply hnul
      rw [utf8_cons, heq]
      exact mem_cons_self
    rw [utf8_cons, length_append] at hrounds hcap
    have hpos : 0 < (String.utf8EncodeChar c).length := by
      rw [String.length_utf8EncodeChar]; exact c.utf8Size_pos
    -- one round takes one character, of one byte at least
    obtain ⟨rounds, rfl⟩ : ∃ r, rounds = r + 1 := ⟨rounds - 1, by omega⟩
    rw [utf8_cons, heq, utf8ToUtf16Loop, if_neg hfirst, hnext]
    dsimp only
    rw [unitsOf_toNat, if_neg (by omega), ih rounds, utf16_cons, append_assoc]
    · intro b hb
      apply hnul
      exact mem_append_right _ hb
    · omega
    · rw [length_append]; omega

/-- **What is accepted** is made of pieces. -/
theorem utf8ToUtf16Loop_iff {capacity rounds : Nat} {units : List Nat}
    (hnul : ∀ b ∈ bytes, b ≠ 0) (hrounds : bytes.length ≤ rounds)
    (hcap : units.length + bytes.length ≤ capacity) :
    (∃ result, utf8ToUtf16Loop capacity rounds bytes units = .ok result) ↔ Lax bytes := by
  induction rounds generalizing bytes units with
  | zero =>
    rw [length_eq_zero_iff.mp (by omega : bytes.length = 0)]
    exact iff_of_true ⟨_, rfl⟩ .nil
  | succ rounds ih =>
    cases bytes with
    | nil => exact iff_of_true ⟨_, rfl⟩ .nil
    | cons first rest =>
      -- One round takes one piece, on either side.
      have hround : ∀ {tail}, Piece (first :: rest) tail → ((∃ result,
          utf8ToUtf16Loop capacity (rounds + 1) (first :: rest) units = .ok result) ↔ Lax tail) := by
        intro tail hpiece
        obtain ⟨_, _, codepoint, heq, hnext, hlen⟩ := hpiece.decoded
        obtain ⟨rfl, rfl⟩ := cons.inj heq
        have hpos : 0 < (unitsOf codepoint).length := by
          unfold unitsOf
          split <;> exact Nat.succ_pos _
        rw [utf8ToUtf16Loop, if_neg (hnul first mem_cons_self), hnext]
        dsimp only
        rw [if_neg (by omega)]
        exact ih (fun b hb => hnul b (hpiece.suffix.subset hb)) (by omega)
          (by rw [length_append]; omega)
      constructor
      · intro h
        have ⟨result, hresult⟩ := h
        rw [utf8ToUtf16Loop, if_neg (hnul first mem_cons_self)] at hresult
        split at hresult
        · cases hresult
        rename_i hnext
        have hpiece := nextCodepoint_sound hnext
        exact .piece hpiece ((hround hpiece).mp h)
      · intro h
        cases h with
        | piece hpiece htail => exact (hround hpiece).mpr htail

/-- A string of pieces is well-formed, or has an overlong form. -/
theorem Lax.utf8_or_overlong (h : Lax bytes) : (∃ text, bytes = utf8 text) ∨ hasOverlong bytes = true := by
  induction h with
  | nil => exact .inl ⟨[], rfl⟩
  | piece hpiece _ ih =>
    cases hpiece with
    | char c tail =>
      rcases ih with ⟨text, rfl⟩ | hlong
      · exact .inl ⟨c :: text, rfl⟩
      · exact .inr (hasOverlong_append hlong)
    | three tail hfirst hb1 hb2 => simp [hasOverlong, overlongPair, hfirst, hb1, hb2]
    | four tail hfirst hb1 hb2 => simp [hasOverlong, overlongPair, hfirst, hb1, hb2]

/-- The string is accepted exactly if it is well-formed UTF-8, and then the units are its UTF-16
encoding. -/
structure StrictlyDecoded (input : List UInt8) (capacity : Nat) : Prop where
  accepts_iff : (∃ units, utf8ToUtf16 input capacity = .ok units) ↔ ∃ text, input = utf8 text
  units_eq : ∀ text units, input = utf8 text → utf8ToUtf16 input capacity = .ok units →
    units = utf16 text

/-- **Acceptance is strict up to overlong forms.** The only strings decoded wrongly are those
made of pieces with an overlong form of three or four bytes among them. -/
theorem strictlyDecoded_iff {input : List UInt8} {capacity : Nat} (hnul : ∀ b ∈ input, b ≠ 0)
    (hcap : input.length < capacity) :
    StrictlyDecoded input capacity ↔ ¬ (Lax input ∧ hasOverlong input = true) := by
  have hcomplete : ∀ text, input = utf8 text → utf8ToUtf16 input capacity = .ok (utf16 text) := by
    intro text heq
    subst heq
    exact utf8ToUtf16Loop_utf8 _ [] hnul (Nat.le_refl _) (by simpa using Nat.le_of_lt hcap)
  have haccepts : (∃ units, utf8ToUtf16 input capacity = .ok units) ↔ Lax input :=
    utf8ToUtf16Loop_iff hnul (Nat.le_refl _) (by simpa using Nat.le_of_lt hcap)
  constructor
  · rintro hstrict ⟨hlax, hlong⟩
    obtain ⟨text, heq⟩ := hstrict.accepts_iff.mp (haccepts.mpr hlax)
    rw [heq, hasOverlong_utf8] at hlong
    cases hlong
  · intro hgood
    refine ⟨⟨fun haccepted => ?_, fun ⟨text, heq⟩ => ⟨_, hcomplete text heq⟩⟩, ?_⟩
    · have hlax := haccepts.mp haccepted
      exact hlax.utf8_or_overlong.resolve_right fun hlong => hgood ⟨hlax, hlong⟩
    · intro text units heq hunits
      rw [hcomplete text heq] at hunits
      exact (Except.ok.inj hunits).symm

/-- A name of sixteen units, the first two of them a surrogate pair. -/
theorem strictlyDecoded_surrogates :
    StrictlyDecoded (utf8 (Char.ofNat 0x1F600 :: "café-notes.txt".toList)) 256 :=
  (strictlyDecoded_iff (by decide +kernel) (by decide +kernel)).mpr fun h => absurd h.2 (by decide +kernel)

/-- `E0 80 80`, an overlong form of the terminator, is accepted as the unit 0. -/
theorem utf8ToUtf16_overlong_accepted :
    utf8ToUtf16 [0xE0, 0x80, 0x80] 256 = .ok [0] ∧ ¬ ∃ text, [0xE0, 0x80, 0x80] = utf8 text := by
  refine ⟨by decide, ?_⟩
  intro htext
  obtain ⟨text, heq⟩ := htext
  have hlong := hasOverlong_utf8 text
  rw [← heq] at hlong
  cases hlong

end ZephyrOS.Storage
