import ProtoRecovery.Text.Decimal

/-! # Time stamps: a moment as a directory name

Seconds are counted in 64 bits that go round, from the first of March of a year long before any
date in use. A year is taken to start in March, so that a leap day is its last. -/
namespace ProtoRecovery

/-- A moment by its parts, any of which may lie outside its usual range. -/
structure Moment where
  year : Int64
  month : Int64
  day : Int64
  hour : Int64
  minute : Int64
  second : Int64
  deriving DecidableEq, Repr

structure Reading where
  year : Int
  month : Nat
  day : Nat
  hour : Nat
  minute : Nat
  second : Nat
  deriving DecidableEq, Repr

namespace Moment

/-- How many years before the year zero the count of days starts, a multiple of 400. -/
def yearsBefore : Nat := 292277022400

/-- Brings a part into the range below `base`; the next larger part takes the rest. -/
def carry (high low base : Int64) : Int64 × Int64 :=
  let borrowed := if low < 0 then (-low - 1) / base + 1 else 0
  let low := low + borrowed * base
  let carried := if base ≤ low then low / base else 0
  (high - borrowed + carried, low - carried * base)

/-- The number of a day in the proleptic Gregorian calendar. The month is in its range. -/
def dayNumber (year month day : Int64) : UInt64 :=
  let early := month < 3
  let year := year.toUInt64 - (if early then 1 else 0) + yearsBefore.toUInt64
  let month := (if early then month + 12 else month).toUInt64
  146097 * (year / 100) / 4 + 1461 * (year % 100) / 4 + (153 * month - 457) / 5 + day.toUInt64 - 1

def seconds (t : Moment) : UInt64 :=
  let (year, month) := carry t.year (t.month - 1) 12
  let (minute, second) := carry t.minute t.second 60
  let (hour, minute) := carry t.hour minute 60
  let (day, hour) := carry t.day hour 24
  dayNumber year (month + 1) day * 86400 + (hour * 3600 + minute * 60 + second).toUInt64

def date (days : Nat) : Int × Nat × Nat :=
  let quarters := 4 * days + 3
  let inCentury := quarters % 146097 / 4 * 4 + 3
  let inYear := 5 * (inCentury % 1461 / 4) + 461
  let month := inYear / 153
  let year : Int := quarters / 146097 * 100 + inCentury / 1461 - yearsBefore
  let day := inYear % 153 / 5 + 1
  if 12 < month then (year + 1, month - 12, day) else (year, month, day)

def read (seconds : Nat) : Reading :=
  let (year, month, day) := date (seconds / 86400)
  { year, month, day, hour := seconds / 3600 % 24, minute := seconds / 60 % 60, second := seconds % 60 }

def reading (t : Moment) : Reading := read t.seconds.toNat

end Moment

namespace Reading

def padded (width : Nat) (n : Int) : Bytes :=
  if n < 0 then 0x2d :: Text.decimalPadded width n.natAbs else Text.decimalPadded width n.natAbs

def stamp (r : Reading) : Bytes :=
  padded 4 r.year ++ padded 2 r.month ++ padded 2 r.day ++ utf8 "-" ++
    padded 2 r.hour ++ padded 2 r.minute ++ padded 2 r.second

def clock (r : Reading) : Bytes :=
  padded 4 r.year ++ utf8 "/" ++ padded 2 r.month ++ utf8 "/" ++ padded 2 r.day ++ utf8 " " ++
    padded 2 r.hour ++ utf8 ":" ++ padded 2 r.minute ++ utf8 ":" ++ padded 2 r.second

end Reading

def Moment.stamp (t : Moment) : Bytes := t.reading.stamp

def Moment.clock (t : Moment) : Bytes := t.reading.clock

end ProtoRecovery
