import ProtoRecovery.Text.Bytes

/-! # Decimal and hexadecimal digits -/
namespace ProtoRecovery.Text

def decimal (n : Nat) : Bytes := (Nat.toDigits 10 n).map fun c => UInt8.ofNat c.toNat

def decimalInt (i : Int) : Bytes := if i < 0 then 0x2d :: decimal i.natAbs else decimal i.natAbs

/-- A number in decimal, filled up with zeros to at least `width` digits. -/
def decimalPadded (width n : Nat) : Bytes :=
  let digits := decimal n
  List.replicate (width - digits.length) 0x30 ++ digits

def digit? (b : UInt8) : Option Nat := if 0x30 ≤ b && b ≤ 0x39 then some (b.toNat - 0x30) else none

/-- Reads decimal digits after a number already read. -/
def readDigits : (value : Nat) → Bytes → Option Nat
  | value, [] => some value
  | value, b :: r => (digit? b).bind fun d => readDigits (value * 10 + d) r

def readDecimal (t : Bytes) : Option Nat := if t.isEmpty then none else readDigits 0 t

def readDecimalInt : Bytes → Option Int
  | 0x2d :: t => (readDecimal t).map fun n => -(n : Int)
  | t => (readDecimal t).map fun n => (n : Int)

def hexDigit (n : Nat) : UInt8 := UInt8.ofNat (if n < 10 then 0x30 + n else 0x57 + n)

/-- The `width` lowest hexadecimal digits of a number, most significant first. -/
def hex : (width n : Nat) → Bytes
  | 0, _ => []
  | width + 1, n => hex width (n / 16) ++ [hexDigit (n % 16)]

def hexValue? (b : UInt8) : Option Nat :=
  if 0x30 ≤ b && b ≤ 0x39 then some (b.toNat - 0x30)
  else if 0x61 ≤ b && b ≤ 0x66 then some (b.toNat - 0x57)
  else if 0x41 ≤ b && b ≤ 0x46 then some (b.toNat - 0x37)
  else none

def readHex (digits : Bytes) : Option Nat :=
  digits.foldl (fun value b => value.bind fun v => (hexValue? b).map (v * 16 + ·)) (some 0)

end ProtoRecovery.Text
