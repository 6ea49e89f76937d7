import ProtoRecovery.Text.Bytes

/-! # Whole numbers on a command line: with a sign, a mark for the base, and separators -/
namespace ProtoRecovery.Cli

inductive NumberFault | malformed | outOfRange deriving DecidableEq, Repr

def underscore : UInt8 := 0x5f

def wordCount : Nat := 0x10000000000000000

def negativeCount : Nat := 0x8000000000000000

def lower (b : UInt8) : UInt8 := if 0x41 ≤ b && b ≤ 0x5a then b + 0x20 else b

def digitValue? (b : UInt8) : Option Nat :=
  if 0x30 ≤ b && b ≤ 0x39 then some (b.toNat - 0x30)
  else if 0x61 ≤ lower b && lower b ≤ 0x7a then some ((lower b).toNat - 0x61 + 10)
  else none

/-- Reads digits after a number already read. Separators are passed over. A number that grows
beyond 64 bits is refused before the rest is looked at. -/
def readDigits (base : Nat) : (value : Nat) → Bytes → Except NumberFault Nat
  | value, [] => .ok value
  | value, b :: r =>
    if b = underscore then readDigits base value r
    else match digitValue? b with
      | none => .error .malformed
      | some d =>
        if base ≤ d then .error .malformed
        else if wordCount ≤ value * base + d then .error .outOfRange
        else readDigits base (value * base + d) r

/-- The base that the front of a number shows and the digits after its mark. A leading zero alone
is the mark of base eight. -/
def baseOf : Bytes → Nat × Bytes
  | 0x30 :: mark :: digit :: r =>
    if lower mark = 0x62 then (2, digit :: r)
    else if lower mark = 0x6f then (8, digit :: r)
    else if lower mark = 0x78 then (16, digit :: r)
    else (8, mark :: digit :: r)
  | 0x30 :: r => (8, r)
  | t => (10, t)

/-- Separators stand one by one between digits; a mark counts as a digit. -/
def wellSeparated (marked : Bool) (digits : Bytes) : Bool :=
  match Bytes.split underscore digits with
  | [] => true
  | first :: others => (marked || !first.isEmpty) && others.all fun piece => !piece.isEmpty

def readMagnitude (t : Bytes) : Except NumberFault Nat :=
  if t.isEmpty then .error .malformed
  else
    let (base, digits) := baseOf t
    match readDigits base 0 digits with
    | .error e => .error e
    | .ok n => if wellSeparated (base != 10) digits then .ok n else .error .malformed

def signOf : Bytes → Bool × Bytes
  | 0x2b :: t => (false, t)
  | 0x2d :: t => (true, t)
  | t => (false, t)

def readNumber (t : Bytes) : Except NumberFault Int64 :=
  let (negative, t) := signOf t
  match readMagnitude t with
  | .error e => .error e
  | .ok n =>
    if negative then if n ≤ negativeCount then .ok (Int64.ofInt (-n)) else .error .outOfRange
    else if n < negativeCount then .ok (Int64.ofNat n) else .error .outOfRange

end ProtoRecovery.Cli
