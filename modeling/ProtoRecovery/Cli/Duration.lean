import ProtoRecovery.Cli.Number
import ProtoRecovery.Rounding
import ProtoRecovery.Text.Decimal

/-! # Durations: numbers with units, to the nanosecond -/
namespace ProtoRecovery.Cli.Duration

def microsecond : Nat := 1000
def millisecond : Nat := 1000 * microsecond
def second : Nat := 1000 * millisecond
def minute : Nat := 60 * second
def hour : Nat := 60 * minute

/-- The units and their lengths. The micro sign may be either of two characters. -/
def units : List (Bytes × Nat) :=
  [(utf8 "ns", 1), (utf8 "us", microsecond), (utf8 "\u00b5s", microsecond),
    (utf8 "\u03bcs", microsecond), (utf8 "ms", millisecond), (utf8 "s", second), (utf8 "m", minute),
    (utf8 "h", hour)]

def bound : Nat := negativeCount

def isDigit (b : UInt8) : Bool := 0x30 ≤ b && b ≤ 0x39

/-- The digits of a fraction over the power of ten that belongs to them. Digits beyond the bound
are left out. -/
def fraction : (value : Nat) → (scale : Rounded) → Bytes → Nat × Rounded
  | value, scale, [] => (value, scale)
  | value, scale, b :: r =>
    let next := value * 10 + (b.toNat - 0x30)
    if value ≤ (bound - 1) / 10 && next ≤ bound then fraction next (scale.mul (.ofNat 10)) r
    else (value, scale)

/-- The whole nanoseconds in a fraction of a unit, as far as rounded numbers tell. -/
def fractionOf (length : Nat) (decimals : Bytes) : Nat :=
  let (value, scale) := fraction 0 (.ofNat 1) decimals
  ((Rounded.ofNat value).mul ((Rounded.ofNat length).div scale)).floor

def piece? (t : Bytes) : Option (Nat × Bytes) := do
  let whole := t.takeWhile isDigit
  let t := t.dropWhile isDigit
  let (decimals, t) := match t with
    | 0x2e :: t => (t.takeWhile isDigit, t.dropWhile isDigit)
    | t => ([], t)
  guard (!whole.isEmpty || !decimals.isEmpty)
  let value ← Text.readDigits 0 whole
  guard (value ≤ bound)
  let isUnit := fun b => b != Bytes.dot && !isDigit b
  let length ← units.lookup (t.takeWhile isUnit)
  guard (value ≤ bound / length)
  let total := value * length + fractionOf length decimals
  guard (total ≤ bound)
  pure (total, t.dropWhile isUnit)

/-- Reads pieces up to the end, after those that came before. The sum is kept in 64 bits. -/
def pieces? (sum : Nat) (t : Bytes) : Option Nat :=
  match piece? t with
  | none => none
  | some (length, rest) =>
    let sum := (sum + length) % wordCount
    if bound < sum then none
    else if rest.isEmpty then some sum
    else if rest.length < t.length then pieces? sum rest
    else none
termination_by t.length

def read? (t : Bytes) : Option Int :=
  let (negative, t) := signOf t
  if t = [0x30] then some 0
  else match pieces? 0 t with
    | none => none
    | some n => if negative then some (-n) else if n < bound then some n else none

def decimals (n places : Nat) : Bytes :=
  let scale := Nat.pow 10 places
  let digits := ((Text.decimalPadded places (n % scale)).reverse.dropWhile (· == 0x30)).reverse
  Text.decimal (n / scale) ++ if digits.isEmpty then [] else Bytes.dot :: digits

def text (n : Nat) : Bytes :=
  if n = 0 then utf8 "0s"
  else if n < microsecond then Text.decimal n ++ utf8 "ns"
  else if n < millisecond then decimals n 3 ++ utf8 "\u00b5s"
  else if n < second then decimals n 6 ++ utf8 "ms"
  else
    let minutes := n / minute
    let hours := minutes / 60
    (if hours = 0 then [] else Text.decimal hours ++ utf8 "h") ++
      (if minutes = 0 then [] else Text.decimal (minutes % 60) ++ utf8 "m") ++
      decimals (n % minute) 9 ++ utf8 "s"

end ProtoRecovery.Cli.Duration
