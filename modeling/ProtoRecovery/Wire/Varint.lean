import ProtoRecovery.Text.Bytes

/-! # Varints: numbers below 2^64 in groups of seven bits, the lowest group first -/
namespace ProtoRecovery.Wire

/-- The most bytes a varint has. Of the tenth only the lowest bit is left. -/
def varintRoom : Nat := 10

/-- Reads a varint of at most `room` bytes. Leading zero groups are accepted. -/
def readVarintIn : (room : Nat) → Bytes → Option (Nat × Bytes)
  | 0, _ => none
  | _ + 1, [] => none
  | room + 1, b :: r =>
    if b < 0x80 then if room = 0 && 1 < b then none else some (b.toNat, r)
    else (readVarintIn room r).map fun (high, rest) => (b.toNat - 128 + 128 * high, rest)

def readVarint (t : Bytes) : Option (Nat × Bytes) := readVarintIn varintRoom t

def writeVarintIn : (room n : Nat) → Bytes
  | 0, _ => []
  | room + 1, n =>
    if n < 128 then [UInt8.ofNat n] else UInt8.ofNat (n % 128 + 128) :: writeVarintIn room (n / 128)

def writeVarint (n : Nat) : Bytes := writeVarintIn varintRoom n

/-- A 32-bit number as a varint value: a negative one is extended to 64 bits. -/
def varintOfInt32 (i : Int32) : Nat := i.toInt64.toUInt64.toNat

def int32OfVarint (n : Nat) : Int32 := Int32.ofNat n

def readVarintsIn : (room : Bytes) → Bytes → Option (List Nat)
  | _, [] => some []
  | [], _ :: _ => none
  | _ :: room, b :: r => do
    let (n, rest) ← readVarint (b :: r)
    let others ← readVarintsIn room rest
    pure (n :: others)

def readPacked (t : Bytes) : Option (List Nat) := readVarintsIn t t

end ProtoRecovery.Wire
