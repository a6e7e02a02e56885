import ZephyrOS.Core.Errors

/-!
# TCP segments

The bytes of a segment as `tcp.c` writes and reads them: the header with the one option it
sends, the checksum over the pseudo header, and the parser with its checks. Sequence
numbers are `UInt32`, whose arithmetic wraps as the source's does; 16-bit fields are
numbers below `2^16`.
-/

namespace ZephyrOS.Tcp

def protocolTcp : Nat := 6
def headerMinSize : Nat := 20
def headerMaxSize : Nat := 60
def synHeaderSize : Nat := 24
def localMss : Nat := 536

def flagFin : UInt8 := 0x01
def flagSyn : UInt8 := 0x02
def flagRst : UInt8 := 0x04
def flagPsh : UInt8 := 0x08
def flagAck : UInt8 := 0x10
def flagUrg : UInt8 := 0x20

def hasFlag (flags flag : UInt8) : Bool := flags &&& flag != 0

/-! ### Bytes -/

def byteAt (data : List UInt8) (offset : Nat) : Nat := (data.getD offset 0).toNat

def readU16 (data : List UInt8) (offset : Nat) : Nat :=
  byteAt data offset * 256 + byteAt data (offset + 1)

def readU32 (data : List UInt8) (offset : Nat) : UInt32 :=
  UInt32.ofNat (readU16 data offset * 65536 + readU16 data (offset + 2))

def writeU16 (value : Nat) : List UInt8 := [UInt8.ofNat (value / 256), UInt8.ofNat value]

def writeU32 (value : UInt32) : List UInt8 :=
  writeU16 (value.toNat / 65536) ++ writeU16 (value.toNat % 65536)

/-! ### Checksum -/

/-- `tcp_add_bytes`. The sum stays below `2^32`: a segment has less than `2^16` bytes. -/
def addBytes : Nat → List UInt8 → Nat
  | sum, a :: b :: rest => addBytes (sum + (a.toNat * 256 + b.toNat)) rest
  | sum, [a] => sum + a.toNat * 256
  | sum, [] => sum

/-- The loop that folds the carries in; a 32-bit sum needs two rounds. -/
def foldSum : Nat → Nat → Nat
  | 0, sum => sum
  | fuel + 1, sum =>
    if sum / 65536 = 0 then sum else foldSum fuel (sum % 65536 + sum / 65536)

/-- `tcp_checksum`. -/
def checksum (sourceIp destinationIp : UInt32) (segment : List UInt8) : Nat :=
  let sum := sourceIp.toNat / 65536 + sourceIp.toNat % 65536 + destinationIp.toNat / 65536
    + destinationIp.toNat % 65536 + protocolTcp + segment.length
  65535 - foldSum 4 (addBytes sum segment)

/-! ### Writing -/

/-- The segment with a given checksum field. -/
def rawSegment (sourcePort destinationPort : Nat) (sequence acknowledgment : UInt32)
    (flags : UInt8) (window : Nat) (payload : List UInt8) (sum : Nat) : List UInt8 :=
  let headerLength := if hasFlag flags flagSyn then synHeaderSize else headerMinSize
  writeU16 sourcePort ++ writeU16 destinationPort ++ writeU32 sequence ++ writeU32 acknowledgment
    ++ [UInt8.ofNat (headerLength / 4 * 16), flags] ++ writeU16 window ++ writeU16 sum ++ writeU16 0
    ++ (if hasFlag flags flagSyn then [2, 4] ++ writeU16 localMss else []) ++ payload

/-- `tcp_build_segment`. -/
def buildSegment (sourceIp destinationIp : UInt32) (sourcePort destinationPort : Nat)
    (sequence acknowledgment : UInt32) (flags : UInt8) (window : Nat) (payload : List UInt8) :
    List UInt8 :=
  rawSegment sourcePort destinationPort sequence acknowledgment flags window payload
    (checksum sourceIp destinationIp
      (rawSegment sourcePort destinationPort sequence acknowledgment flags window payload 0))

/-! ### Reading -/

/-- What TCP reads of an `ipv4_packet_view_t`. -/
structure Packet where
  sourceIp : UInt32
  destinationIp : UInt32
  protocol : Nat
  payload : List UInt8
  /-- `payload_length` is a 16-bit field. -/
  length_lt : payload.length < 65536

/-- `tcp_segment_view_t`. -/
structure Segment where
  sourcePort : Nat
  destinationPort : Nat
  sequence : UInt32
  acknowledgment : UInt32
  window : Nat
  headerLength : Nat
  flags : UInt8
  mss : Nat
  payload : List UInt8
  deriving DecidableEq

/-- The loop of `tcp_parse_options`; a round reads at least one byte, so the header's length
is enough fuel. -/
def parseOptionsLoop (segment : List UInt8) (headerLength : Nat) : Nat → Nat → Nat → Except Err Nat
  | 0, _, mss => .ok mss
  | fuel + 1, offset, mss =>
    if headerLength ≤ offset then .ok mss
    else if byteAt segment offset = 0 then .ok mss
    else if byteAt segment offset = 1 then
      parseOptionsLoop segment headerLength fuel (offset + 1) mss
    else if headerLength ≤ offset + 1 then .error .invalid
    else
      let length := byteAt segment (offset + 1)
      if length < 2 ∨ headerLength < offset + length then .error .invalid
      else if byteAt segment offset = 2 then
        if length ≠ 4 then .error .invalid
        else if readU16 segment (offset + 2) = 0 then .error .invalid
        else parseOptionsLoop segment headerLength fuel (offset + length)
          (readU16 segment (offset + 2))
      else parseOptionsLoop segment headerLength fuel (offset + length) mss

/-- `tcp_parse_options`. -/
def parseOptions (segment : List UInt8) (headerLength : Nat) : Except Err Nat :=
  parseOptionsLoop segment headerLength headerLength headerMinSize localMss

/-- `tcp_parse_segment`. -/
def parseSegment (packet : Packet) : Except Err Segment :=
  if packet.protocol ≠ protocolTcp ∨ packet.payload.length < headerMinSize then .error .invalid
  else
    let headerLength := byteAt packet.payload 12 / 16 * 4
    if headerLength < headerMinSize ∨ headerMaxSize < headerLength
        ∨ packet.payload.length < headerLength ∨ byteAt packet.payload 12 % 16 ≠ 0
        ∨ readU16 packet.payload 18 ≠ 0 then .error .invalid
    else
      let flags := packet.payload.getD 13 0
      let sourcePort := readU16 packet.payload 0
      let destinationPort := readU16 packet.payload 2
      if sourcePort = 0 ∨ destinationPort = 0 ∨ hasFlag flags flagUrg
          ∨ (hasFlag flags flagSyn ∧ hasFlag flags flagFin) then .error .invalid
      else
        match parseOptions packet.payload headerLength with
        | .error _ => .error .invalid
        | .ok mss =>
          .ok { sourcePort := sourcePort
                destinationPort := destinationPort
                sequence := readU32 packet.payload 4
                acknowledgment := readU32 packet.payload 8
                window := readU16 packet.payload 14
                headerLength := headerLength
                flags := flags
                mss := mss
                payload := packet.payload.drop headerLength }

/-! ### Sequence numbers -/

/-- `tcp_sequence_less`: the difference, read as a signed number, is negative. -/
def sequenceLess (first second : UInt32) : Bool := 2147483648 ≤ (first - second).toNat

/-- `tcp_sequence_between`. -/
def sequenceBetween (value first last : UInt32) : Bool :=
  !sequenceLess value first && !sequenceLess last value

end ZephyrOS.Tcp
