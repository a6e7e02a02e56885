import ZephyrOS.Core.Errors
import Mathlib.Logic.Function.Basic

/-!
# The LZSS codec

`src/memory/compress.c`. The encoder addresses the window by source index, the
decoder by a ring cursor, and a flag byte announces the kinds of the next eight
tokens. The flag byte's slot is reserved before the tokens and filled in after
them, which is why the encoder carries `flagOffset` around.

Buffers are functions from offsets to bytes. The encoder's own ring is written
and never read, so it is left out, and so are the statistics it accumulates.
-/

namespace ZephyrOS.Compress

open Function

def compressLzssN : Nat := 4096
def compressLzssF : Nat := 18
def compressLzssThreshold : Nat := 2
def compressUint32Max : Nat := 0xFFFFFFFF

/-- `compress_get_max_size`. -/
def compressGetMaxSize (originalSize : Nat) : Nat :=
  let overhead := originalSize / 8 + 64
  if originalSize > compressUint32Max - overhead then compressUint32Max
  else originalSize + overhead

/-! ## The encoder -/

/--
The innermost loop: how far the source at `candidate` agrees with the source at
`si`. The fuel is the `len < COMPRESS_LZSS_F - 1` test.
-/
def matchLength (src : Nat → UInt8) (srcSize si candidate : Nat) : Nat → Nat → Nat
  | 0, len => len
  | fuel + 1, len =>
    if candidate + len < si ∧ si + len < srcSize ∧ src (candidate + len) = src (si + len) then
      matchLength src srcSize si candidate fuel (len + 1)
    else len

/-- The search over candidates `j - 1`, downwards from `si`; `best` is `(best_len, best_pos)`. -/
def searchMatch (src : Nat → UInt8) (srcSize si searchStart : Nat) : Nat → Nat × Nat → Nat × Nat
  | 0, best => best
  | j + 1, best =>
    if j + 1 > searchStart then
      let len := matchLength src srcSize si j (compressLzssF - 1) 0
      if len > best.1 ∧ len ≥ compressLzssThreshold then
        if len = compressLzssF - 1 then (len, j)
        else searchMatch src srcSize si searchStart j (len, j)
      else searchMatch src srcSize si searchStart j best
    else best

/-- The best match at `si`, `(0, 0)` when there is none worth taking. -/
def bestMatch (src : Nat → UInt8) (srcSize si : Nat) : Nat × Nat :=
  if si ≥ compressLzssThreshold then
    searchMatch src srcSize si (if si ≥ compressLzssN then si - compressLzssN else 0) si (0, 0)
  else (0, 0)

/-- The locals of `compress_data`, with the destination buffer. -/
structure CompressState where
  si : Nat
  di : Nat
  flags : UInt8
  flagPos : Nat
  flagOffset : Nat
  dst : Nat → UInt8

/-- The ring position a back reference to source index `bestPos` is sent as. -/
def refPos (bestPos : Nat) : Nat :=
  (compressLzssN - compressLzssF + bestPos) &&& (compressLzssN - 1)

/-- The low byte of a back reference. -/
def refLow (bestPos : Nat) : UInt8 := UInt8.ofNat (refPos bestPos &&& 0xFF)

/-- The high nibble of the position and the length, in one byte. -/
def refHigh (bestPos bestLen : Nat) : UInt8 :=
  UInt8.ofNat (((refPos bestPos >>> 8) &&& 0x0F) ||| ((bestLen - compressLzssThreshold) <<< 4))

/-- Emit one token: a back reference when the search found one, else a literal. -/
def compressEmit (src : Nat → UInt8) (srcSize dstCapacity : Nat) (s : CompressState) :
    Except Err CompressState :=
  let best := bestMatch src srcSize s.si
  if best.1 ≥ compressLzssThreshold then
    if u32 (s.di + 2) > dstCapacity then .error .overflow
    else
      .ok { s with
        si := s.si + best.1
        di := u32 (s.di + 2)
        flags := s.flags ||| UInt8.ofNat (1 <<< s.flagPos)
        dst := update (update s.dst s.di (refLow best.2)) (u32 (s.di + 1)) (refHigh best.2 best.1) }
  else
    if u32 (s.di + 1) > dstCapacity then .error .overflow
    else
      .ok { s with
        si := s.si + 1
        di := u32 (s.di + 1)
        dst := update s.dst s.di (src s.si) }

/-- Count the token, and close the flag group when it has eight. -/
def compressFlag (srcSize dstCapacity : Nat) (s : CompressState) : Except Err CompressState :=
  if s.flagPos + 1 = 8 then
    let closed : CompressState :=
      { s with flags := 0, flagPos := 0, dst := update s.dst s.flagOffset s.flags }
    if s.si < srcSize then
      if s.di ≥ dstCapacity then .error .overflow
      else .ok { closed with flagOffset := s.di, di := u32 (s.di + 1) }
    else .ok closed
  else .ok { s with flagPos := s.flagPos + 1 }

/-- The `while (si < src_size)` loop. Every round consumes a byte, so `srcSize` rounds finish it. -/
def compressLoop (src : Nat → UInt8) (srcSize dstCapacity : Nat) :
    Nat → CompressState → Except Err CompressState
  | 0, s => .ok s
  | fuel + 1, s =>
    if s.si < srcSize then
      match compressEmit src srcSize dstCapacity s with
      | .error e => .error e
      | .ok s' =>
        match compressFlag srcSize dstCapacity s' with
        | .error e => .error e
        | .ok s'' => compressLoop src srcSize dstCapacity fuel s''
    else .ok s

/-- `compress_data`: the compressed size and the destination buffer. -/
def compressData (src : Nat → UInt8) (srcSize : Nat) (dst : Nat → UInt8) (dstCapacity : Nat) :
    Except Err (Nat × (Nat → UInt8)) :=
  if dstCapacity = 0 then .error .overflow
  else
    -- `flag_offset = di++`: the first flag byte is reserved, not yet written
    match compressLoop src srcSize dstCapacity srcSize
        { si := 0, di := 1, flags := 0, flagPos := 0, flagOffset := 0, dst := dst } with
    | .error e => .error e
    | .ok s =>
      .ok (s.di, if s.flagPos > 0 then update s.dst s.flagOffset s.flags else s.dst)

/-! ## The decoder -/

/-- The locals of `decompress_data`, with the destination buffer and the ring. -/
structure DecompressState where
  si : Nat
  di : Nat
  r : Nat
  dst : Nat → UInt8
  ring : Nat → UInt8

/-- Write one byte to the output and to the ring. -/
def DecompressState.put (s : DecompressState) (c : UInt8) : DecompressState :=
  { s with
    di := s.di + 1
    r := (s.r + 1) &&& (compressLzssN - 1)
    dst := update s.dst s.di c
    ring := update s.ring s.r c }

/-- The copy loop of a back reference, from its `k`-th byte on. -/
def copyRef (dstCapacity pos : Nat) : Nat → Nat → DecompressState → Except Err DecompressState
  | 0, _, s => .ok s
  | n + 1, k, s =>
    if s.di ≥ dstCapacity then .error .overflow
    else copyRef dstCapacity pos n (k + 1) (s.put (s.ring ((pos + k) &&& (compressLzssN - 1))))

/-- The `for (bit ...)` loop of one flag byte, from `bit` on; the fuel is `8 - bit`. -/
def decompressBits (src : Nat → UInt8) (srcSize dstCapacity : Nat) (flags : UInt8) :
    Nat → Nat → DecompressState → Except Err DecompressState
  | 0, _, s => .ok s
  | n + 1, bit, s =>
    if s.si < srcSize then
      if flags.toNat &&& (1 <<< bit) ≠ 0 then
        if s.si + 1 ≥ srcSize then .error .invalid
        else
          let b1 := (src s.si).toNat
          let b2 := (src (s.si + 1)).toNat
          let pos := b1 ||| ((b2 &&& 0x0F) <<< 8)
          let len := ((b2 >>> 4) &&& 0x0F) + compressLzssThreshold
          match copyRef dstCapacity pos len 0 { s with si := s.si + 2 } with
          | .error e => .error e
          | .ok s' => decompressBits src srcSize dstCapacity flags n (bit + 1) s'
      else
        if s.di ≥ dstCapacity then .error .overflow
        else
          decompressBits src srcSize dstCapacity flags n (bit + 1)
            (({ s with si := s.si + 1 } : DecompressState).put (src s.si))
    else .ok s

/-- The `while (si < src_size)` loop; every round consumes the flag byte at least. -/
def decompressLoop (src : Nat → UInt8) (srcSize dstCapacity : Nat) :
    Nat → DecompressState → Except Err DecompressState
  | 0, s => .ok s
  | fuel + 1, s =>
    if s.si < srcSize then
      let flags := src s.si
      if s.si + 1 = srcSize then
        if srcSize = 1 ∧ s.di = 0 ∧ flags = 0 then .ok { s with si := s.si + 1 }
        else .error .invalid
      else
        match decompressBits src srcSize dstCapacity flags 8 0 { s with si := s.si + 1 } with
        | .error e => .error e
        | .ok s' => decompressLoop src srcSize dstCapacity fuel s'
    else .ok s

/-- `decompress_data`: the decoded size and the destination buffer. -/
def decompressData (src : Nat → UInt8) (srcSize : Nat) (dst : Nat → UInt8) (dstCapacity : Nat) :
    Except Err (Nat × (Nat → UInt8)) :=
  match decompressLoop src srcSize dstCapacity srcSize
      { si := 0, di := 0, r := compressLzssN - compressLzssF, dst := dst, ring := fun _ => 0x20 } with
  | .error e => .error e
  | .ok s => .ok (s.di, s.dst)

end ZephyrOS.Compress
