import ProtoRecovery.Wire.Varint

/-! # Records: a message in wire format as numbered payloads -/
namespace ProtoRecovery.Wire

/-- What a record carries. A group is skipped and only known to be well formed. -/
inductive Payload
  | varint (n : Nat) | fixed64 (b : Bytes) | bytes (b : Bytes) | group | fixed32 (b : Bytes)
  deriving DecidableEq, Repr

structure Record where
  number : Nat
  payload : Payload
  deriving DecidableEq, Repr

/-- The largest field number of a message, which has 29 bits. -/
def maxNumber : Nat := 0x1fffffff

/-- The largest field number inside a skipped group, which has 31 bits. -/
def maxGroupNumber : Nat := 0x7fffffff

/-- How deeply messages, and separately groups, may be nested. -/
def maxDepth : Nat := 10000

def readTag (max : Nat) (t : Bytes) : Option (Nat × Nat × Bytes) := do
  let (tag, rest) ← readVarint t
  if 1 ≤ tag / 8 && tag / 8 ≤ max then some (tag / 8, tag % 8, rest) else none

def readExactly : (n : Nat) → Bytes → Option (Bytes × Bytes)
  | 0, t => some ([], t)
  | n + 1, t =>
    match t.drop n with
    | [] => none
    | _ :: rest => some (t.take (n + 1), rest)

def readDelimited (t : Bytes) : Option (Bytes × Bytes) := do
  let (n, rest) ← readVarint t
  readExactly n rest

def readFlat (wireType : Nat) (t : Bytes) : Option (Payload × Bytes) :=
  match wireType with
  | 0 => (readVarint t).map fun (n, rest) => (.varint n, rest)
  | 1 => (readExactly 8 t).map fun (b, rest) => (.fixed64 b, rest)
  | 2 => (readDelimited t).map fun (b, rest) => (.bytes b, rest)
  | 5 => (readExactly 4 t).map fun (b, rest) => (.fixed32 b, rest)
  | _ => none

/-- Skips to the end of the outermost of the groups that are open, the innermost being first in
the list. Each group ends with its own number. -/
def skipGroups : (fuel : Nat) → (opened : List Nat) → Bytes → Option Bytes
  | _, [], t => some t
  | 0, _ :: _, _ => none
  | fuel + 1, group :: outer, t => do
    let (number, wireType, rest) ← readTag maxGroupNumber t
    match wireType with
    | 3 => if maxDepth ≤ outer.length then none else skipGroups fuel (number :: group :: outer) rest
    | 4 => if number = group then skipGroups fuel outer rest else none
    | _ => do
      let (_, rest) ← readFlat wireType rest
      skipGroups fuel (group :: outer) rest

def readRecord (t : Bytes) : Option (Record × Bytes) := do
  let (number, wireType, rest) ← readTag maxNumber t
  match wireType with
  | 3 => (skipGroups rest.length [number] rest).map fun rest => (⟨number, .group⟩, rest)
  | _ => (readFlat wireType rest).map fun (payload, rest) => (⟨number, payload⟩, rest)

structure Scan where
  records : List Record
  complete : Bool
  deriving DecidableEq, Repr

/-- Records as far as they can be read; the length of `room` bounds their number. -/
def scanIn : (room : Bytes) → Bytes → Scan
  | _, [] => ⟨[], true⟩
  | [], _ :: _ => ⟨[], false⟩
  | _ :: room, b :: r =>
    match readRecord (b :: r) with
    | none => ⟨[], false⟩
    | some (record, rest) =>
      let others := scanIn room rest
      ⟨record :: others.records, others.complete⟩

/-- The records of a message. A record has a byte at least, so there are no more of them than
bytes. -/
def scan (t : Bytes) : Scan := scanIn t t

end ProtoRecovery.Wire
