import ZephyrOS.Net.TcpSegment

/-!
# TCP segments are read as they were written

The checksum is a sum in one's complement: folding the carries in keeps the sum modulo `65535`
and the difference between nothing and something, so a segment is accepted if and only if its
sum is a positive multiple of `65535`. A byte enters the sum with the weight `256` or `1`, and no
change of a single one is a multiple of `65535`.
-/

namespace ZephyrOS.Tcp

open List

/-! ### The sum -/

variable {sum fuel i : Nat} {bytes : List UInt8}

/-- Folding keeps the rest of a positive sum modulo `65535`, taken from `1` to `65535`. -/
theorem foldSum_step : (sum % 65536 + sum / 65536 - 1) % 65535 = (sum - 1) % 65535 := by
  have hsum : sum - 1 = sum % 65536 + sum / 65536 - 1 + 65535 * (sum / 65536) := by omega
  rw [hsum, Nat.add_mul_mod_self_left]

theorem foldSum_small (hpos : 0 < sum) (h : sum < 65536) :
    foldSum fuel sum = (sum - 1) % 65535 + 1 := by
  have hsum : (sum - 1) % 65535 + 1 = sum := by omega
  cases fuel with
  | zero => exact hsum.symm
  | succ fuel => rw [foldSum, if_pos (by omega), hsum]

/-- What is left of a sum of 32 bits after the carries. -/
theorem foldSum_eq (hpos : 0 < sum) (hlt : sum < 4294967296) :
    foldSum 4 sum = (sum - 1) % 65535 + 1 := by
  by_cases h1 : sum / 65536 = 0
  · exact foldSum_small hpos (by omega)
  rw [foldSum, if_neg h1, ← foldSum_step]
  -- one round leaves at most one carry
  generalize hs : sum % 65536 + sum / 65536 = s
  by_cases h2 : s / 65536 = 0
  · exact foldSum_small (by omega) (by omega)
  rw [foldSum, if_neg h2, ← foldSum_step]
  exact foldSum_small (by omega) (by omega)

theorem addBytes_add (k sum : Nat) (bytes : List UInt8) :
    addBytes (sum + k) bytes = addBytes sum bytes + k := by
  induction sum, bytes using addBytes.induct with
  | case1 sum a b rest ih => rw [addBytes, addBytes, Nat.add_right_comm, ih]
  | case2 sum a => rw [addBytes, addBytes, Nat.add_right_comm]
  | case3 sum => rfl

theorem addBytes_append {bytes : List UInt8} (h : bytes.length % 2 = 0)
    (more : List UInt8) : addBytes sum (bytes ++ more) = addBytes (addBytes sum bytes) more := by
  induction sum, bytes using addBytes.induct with
  | case1 sum a b rest ih =>
    rw [length_cons, length_cons] at h
    exact ih (by omega)
  | case2 sum a => cases h
  | case3 sum => rfl

theorem addBytes_le (sum : Nat) (bytes : List UInt8) :
    addBytes sum bytes ≤ sum + 65535 * ((bytes.length + 1) / 2) := by
  induction sum, bytes using addBytes.induct with
  | case1 sum a b rest ih =>
    have ha := a.toNat_lt
    have hb := b.toNat_lt
    rw [addBytes, length_cons, length_cons]
    omega
  | case2 sum a =>
    have ha := a.toNat_lt
    rw [addBytes, length_singleton]
    omega
  | case3 sum => exact Nat.le_refl sum

/-- A byte has the weight `256` or `1`. -/
theorem addBytes_set (sum : Nat) (hi : i < bytes.length) (b : UInt8) :
    ∃ w, (w = 256 ∨ w = 1) ∧
      addBytes sum (bytes.set i b) + w * bytes[i].toNat = addBytes sum bytes + w * b.toNat := by
  induction sum, bytes using addBytes.induct generalizing i with
  | case1 sum x y rest ih =>
    match i with
    | 0 =>
      refine ⟨256, .inl rfl, ?_⟩
      rw [set_cons_zero, addBytes, addBytes, addBytes_add, addBytes_add, getElem_cons_zero]
      omega
    | 1 =>
      refine ⟨1, .inr rfl, ?_⟩
      rw [set_cons_succ, set_cons_zero, addBytes, addBytes, addBytes_add, addBytes_add,
        getElem_cons_succ, getElem_cons_zero]
      omega
    | i + 2 =>
      obtain ⟨w, hw, hset⟩ := ih (by simpa using hi)
      exact ⟨w, hw, hset⟩
  | case2 sum x =>
    cases i with
    | zero =>
      refine ⟨256, .inl rfl, ?_⟩
      simp only [set_cons_zero, addBytes, getElem_cons_zero]
      omega
    | succ i => simp at hi
  | case3 sum => cases hi

/-- What the pseudo header adds. -/
def pseudoSum (sourceIp destinationIp : UInt32) (length : Nat) : Nat :=
  sourceIp.toNat / 65536 + sourceIp.toNat % 65536 + destinationIp.toNat / 65536
    + destinationIp.toNat % 65536 + protocolTcp + length

section

variable (sourceIp destinationIp : UInt32) {segment : List UInt8}

theorem checksum_eq (h : segment.length < 65536) :
    0 < addBytes (pseudoSum sourceIp destinationIp segment.length) segment
      ∧ checksum sourceIp destinationIp segment
        = 65534 - (addBytes (pseudoSum sourceIp destinationIp segment.length) segment - 1) % 65535 := by
  have hs := sourceIp.toNat_lt
  have hd := destinationIp.toNat_lt
  have hsum : 0 < pseudoSum sourceIp destinationIp segment.length
      ∧ pseudoSum sourceIp destinationIp segment.length < 400000 := by
    unfold pseudoSum protocolTcp
    omega
  change _ ∧ 65535 - foldSum 4 (addBytes (pseudoSum sourceIp destinationIp segment.length) segment) = _
  generalize pseudoSum sourceIp destinationIp segment.length = start at hsum ⊢
  have hle := addBytes_le start segment
  have hadd := addBytes_add start 0 segment
  rw [Nat.zero_add] at hadd
  have hpos : 0 < addBytes start segment := by omega
  refine ⟨hpos, ?_⟩
  rw [foldSum_eq hpos (by omega)]
  omega

/-- A segment passes if and only if its sum is a multiple of `65535`. -/
theorem checksum_eq_zero_iff (h : segment.length < 65536) :
    checksum sourceIp destinationIp segment = 0
      ↔ addBytes (pseudoSum sourceIp destinationIp segment.length) segment % 65535 = 0 := by
  obtain ⟨hpos, heq⟩ := checksum_eq sourceIp destinationIp h
  omega

theorem checksum_set_ne_zero (h : segment.length < 65536)
    (hzero : checksum sourceIp destinationIp segment = 0) (hi : i < segment.length)
    {b : UInt8} (hb : b ≠ segment[i]) : checksum sourceIp destinationIp (segment.set i b) ≠ 0 := by
  have hlen : (segment.set i b).length = segment.length := length_set
  rw [checksum_eq_zero_iff _ _ h] at hzero
  rw [Ne, checksum_eq_zero_iff _ _ (hlen ▸ h), hlen]
  obtain ⟨w, hw, hset⟩ := addBytes_set (pseudoSum sourceIp destinationIp segment.length) hi b
  have hbyte : b.toNat ≠ segment[i].toNat := fun h => hb (UInt8.toNat_inj.mp h)
  have hb := b.toNat_lt
  have ha := segment[i].toNat_lt
  generalize segment[i].toNat = a at *
  -- the sums differ by the weight times a number below 256, and 65535 divides no such number
  rcases hw with rfl | rfl <;> omega

end

/-! ### The bytes of a segment -/

theorem readU16_written {v : Nat} (h : v < 65536) :
    (UInt8.ofNat (v / 256)).toNat * 256 + (UInt8.ofNat v).toNat = v := by
  rw [UInt8.toNat_ofNat', UInt8.toNat_ofNat']
  omega

theorem readU32_eq {data : List UInt8} {offset : Nat} {value : UInt32}
    (hhigh : readU16 data offset = value.toNat / 65536)
    (hlow : readU16 data (offset + 2) = value.toNat % 65536) : readU32 data offset = value := by
  rw [readU32, hhigh, hlow, Nat.div_add_mod', UInt32.ofNat_toNat]

def headerSize (flags : UInt8) : Nat := if hasFlag flags flagSyn then synHeaderSize else headerMinSize

/-- The part of the header before the checksum. -/
def headerStart (sourcePort destinationPort : Nat) (sequence acknowledgment : UInt32)
    (flags : UInt8) (window : Nat) : List UInt8 :=
  writeU16 sourcePort ++ writeU16 destinationPort ++ writeU32 sequence ++ writeU32 acknowledgment
    ++ [UInt8.ofNat (headerSize flags / 4 * 16), flags] ++ writeU16 window

/-- The part after it. -/
def headerEnd (flags : UInt8) (payload : List UInt8) : List UInt8 :=
  writeU16 0 ++ (if hasFlag flags flagSyn then [2, 4] ++ writeU16 localMss else []) ++ payload

section

variable {sourcePort destinationPort window sum start : Nat}
  {sequence acknowledgment destinationIp sourceIp : UInt32} {flags : UInt8}
  {payload data : List UInt8}

theorem rawSegment_eq :
    rawSegment sourcePort destinationPort sequence acknowledgment flags window payload sum
      = headerStart sourcePort destinationPort sequence acknowledgment flags window
        ++ (writeU16 sum ++ headerEnd flags payload) := by
  simp only [rawSegment, headerStart, headerEnd, headerSize, append_assoc]

theorem length_rawSegment
    (h : data = rawSegment sourcePort destinationPort sequence acknowledgment flags window payload sum) :
    data.length = headerSize flags + payload.length := by
  rw [h, rawSegment_eq, headerEnd, headerSize, synHeaderSize, headerMinSize]
  cases hasFlag flags flagSyn <;> simp [headerStart, writeU16, writeU32] <;> omega

theorem headerSize_eq (flags : UInt8) : headerSize flags = 24 ∨ headerSize flags = 20 := by
  unfold headerSize
  cases hasFlag flags flagSyn
  · exact .inr rfl
  · exact .inl rfl

/-- The field of the checksum adds what it holds. -/
theorem addBytes_rawSegment (h : sum < 65536) :
    addBytes start
        (rawSegment sourcePort destinationPort sequence acknowledgment flags window payload sum)
      = addBytes start
        (rawSegment sourcePort destinationPort sequence acknowledgment flags window payload 0) + sum := by
  have hstart : (headerStart sourcePort destinationPort sequence acknowledgment flags window).length % 2
      = 0 := by simp [headerStart, writeU16, writeU32]
  have hfield : ∀ value, (writeU16 value).length % 2 = 0 := fun value => by simp [writeU16]
  rw [rawSegment_eq, rawSegment_eq, addBytes_append hstart, addBytes_append hstart,
    addBytes_append (hfield sum), addBytes_append (hfield 0), ← addBytes_add]
  congr 1
  simp only [writeU16, addBytes, readU16_written h, readU16_written (v := 0) (by omega), Nat.add_zero]

/-- **A segment of ours passes our check.** -/
theorem checksum_buildSegment (hp : payload.length ≤ localMss)
    (hdata : data = buildSegment sourceIp destinationIp sourcePort destinationPort sequence
      acknowledgment flags window payload) :
    data.length < 65536 ∧ checksum sourceIp destinationIp data = 0 := by
  have hlen := length_rawSegment hdata
  unfold buildSegment at hdata
  generalize hraw : rawSegment _ _ _ _ _ _ _ 0 = raw at hdata
  have hsize := headerSize_eq flags
  unfold localMss at hp
  have hlt : data.length < 65536 := by omega
  have hsame := (length_rawSegment hraw.symm).trans hlen.symm
  obtain ⟨hpos, heq⟩ := checksum_eq sourceIp destinationIp (hsame ▸ hlt)
  refine ⟨hlt, ?_⟩
  rw [checksum_eq_zero_iff _ _ hlt, ← hsame, hdata, addBytes_rawSegment (by omega), hraw, heq]
  omega

theorem parseOptions_mss (hkind : byteAt data 20 = 2) (hlength : byteAt data 21 = 4)
    (hmss : readU16 data 22 = localMss) : parseOptions data synHeaderSize = .ok localMss := by
  unfold parseOptions synHeaderSize headerMinSize
  rw [parseOptionsLoop, if_neg (by omega), if_neg (by omega), if_neg (by omega), if_neg (by omega)]
  rw [hlength, if_neg (by omega), if_pos hkind, hmss]
  rfl

/-- The options of our headers: the size of our segments, or none. -/
theorem parseOptions_rawSegment
    (h : data = rawSegment sourcePort destinationPort sequence acknowledgment flags window payload sum) :
    parseOptions data (headerSize flags) = .ok localMss ∧ data.drop (headerSize flags) = payload
      ∧ byteAt data 12 = headerSize flags / 4 * 16 := by
  have hmss : localMss < 65536 := by simp [localMss]
  subst h
  unfold rawSegment headerSize
  cases hasFlag flags flagSyn with
  | false => exact ⟨rfl, rfl, rfl⟩
  | true =>
    refine ⟨?_, rfl, rfl⟩
    exact parseOptions_mss rfl rfl (readU16_written hmss)

/-- **What was written is read.** -/
theorem parseSegment_rawSegment (hs : sourcePort ≠ 0 ∧ sourcePort < 65536)
    (hd : destinationPort ≠ 0 ∧ destinationPort < 65536) (hw : window < 65536)
    (hurg : hasFlag flags flagUrg = false) (hfin : ¬ (hasFlag flags flagSyn ∧ hasFlag flags flagFin))
    {packet : Packet} (hprotocol : packet.protocol = protocolTcp)
    (hpayload : packet.payload
      = rawSegment sourcePort destinationPort sequence acknowledgment flags window payload sum) :
    parseSegment packet = .ok ⟨sourcePort, destinationPort, sequence, acknowledgment, window,
      headerSize flags, flags, localMss, payload⟩ := by
  obtain ⟨hoptions, hdrop, hheader⟩ := parseOptions_rawSegment hpayload
  have hlen := length_rawSegment hpayload
  have hseq := sequence.toNat_lt
  have hack := acknowledgment.toNat_lt
  have hsource : readU16 packet.payload 0 = sourcePort := hpayload ▸ readU16_written hs.2
  have hdestination : readU16 packet.payload 2 = destinationPort := hpayload ▸ readU16_written hd.2
  have hsequence : readU32 packet.payload 4 = sequence :=
    hpayload ▸ readU32_eq (readU16_written (by omega)) (readU16_written (by omega))
  have hacknowledgment : readU32 packet.payload 8 = acknowledgment :=
    hpayload ▸ readU32_eq (readU16_written (by omega)) (readU16_written (by omega))
  have hwindow : readU16 packet.payload 14 = window := hpayload ▸ readU16_written hw
  have hflags : packet.payload.getD 13 0 = flags := hpayload ▸ rfl
  have hurgent : readU16 packet.payload 18 = 0 := hpayload ▸ readU16_written (by omega)
  have hn : headerSize flags / 4 * 16 / 16 * 4 = headerSize flags := by
    have hsize := headerSize_eq flags
    omega
  unfold parseSegment
  rw [if_neg (by rw [headerMinSize]; have := headerSize_eq flags; omega)]
  simp only [hheader, hn, hflags, hsource, hdestination, hoptions, hsequence, hacknowledgment, hwindow,
    hdrop]
  rw [if_neg (by rw [headerMinSize, headerMaxSize]; have := headerSize_eq flags; omega),
    if_neg (by simp [hs.1, hd.1, hurg, hfin])]

/-- **The codec of segments.** What `tcp_build_segment` writes passes the check, `tcp_parse_segment`
reads it back, and a change of any one byte is noticed. -/
theorem buildSegment_codec (sourceIp destinationIp : UInt32)
    (hs : sourcePort ≠ 0 ∧ sourcePort < 65536) (hd : destinationPort ≠ 0 ∧ destinationPort < 65536)
    (hw : window < 65536) (hurg : hasFlag flags flagUrg = false)
    (hfin : ¬ (hasFlag flags flagSyn ∧ hasFlag flags flagFin)) (hp : payload.length ≤ localMss)
    (hdata : data = buildSegment sourceIp destinationIp sourcePort destinationPort sequence
      acknowledgment flags window payload) :
    data.length < 65536 ∧ checksum sourceIp destinationIp data = 0
      ∧ (∀ packet : Packet, packet.protocol = protocolTcp → packet.payload = data →
        parseSegment packet = .ok ⟨sourcePort, destinationPort, sequence, acknowledgment, window,
          headerSize flags, flags, localMss, payload⟩)
      ∧ ∀ i b, (hi : i < data.length) → b ≠ data[i] →
        checksum sourceIp destinationIp (data.set i b) ≠ 0 := by
  obtain ⟨hlt, hzero⟩ := checksum_buildSegment hp hdata
  refine ⟨hlt, hzero, ?_, ?_⟩
  · intro packet hprotocol hpayload
    exact parseSegment_rawSegment hs hd hw hurg hfin hprotocol (hpayload.trans hdata)
  · intro i b hi hb
    exact checksum_set_ne_zero sourceIp destinationIp hlt hzero hi hb

end

/-- The first segment of a connection, with a byte of data. -/
theorem buildSegment_codec_syn :
    checksum 1 2 (buildSegment 1 2 80 8080 5 0 flagSyn 4096 [7]) = 0
      ∧ checksum 1 2 ((buildSegment 1 2 80 8080 5 0 flagSyn 4096 [7]).set 24 8) ≠ 0 := by
  obtain ⟨_, hzero, _, hset⟩ := buildSegment_codec 1 2 (by decide) (by decide) (by decide) (by decide)
    (by decide) (by decide) (rfl : buildSegment 1 2 80 8080 5 0 flagSyn 4096 [7] = _)
  exact ⟨hzero, hset 24 8 (by decide) (by decide)⟩

end ZephyrOS.Tcp
