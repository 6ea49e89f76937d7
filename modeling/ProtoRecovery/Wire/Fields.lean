import ProtoRecovery.ErrorClass
import ProtoRecovery.Wire.Grammar
import ProtoRecovery.Wire.Record

/-! # Fields: the bytes of a descriptor set read down to its innermost messages -/
namespace ProtoRecovery.Wire

/-- The two fields that a message must have: both belong to a part of an option name. -/
inductive RequiredField | namePart | isExtension deriving DecidableEq, Repr

inductive DecodeError | malformed | tooDeep | missing (field : RequiredField)
  deriving DecidableEq, Repr

namespace DecodeError

def message : DecodeError → Bytes
  | malformed => utf8 "proto: cannot parse invalid wire-format data"
  | tooDeep => utf8 "proto: exceeded maximum recursion depth"
  | missing .namePart =>
    utf8 "proto: required field google.protobuf.UninterpretedOption.NamePart.name_part not set"
  | missing .isExtension =>
    utf8 "proto: required field google.protobuf.UninterpretedOption.NamePart.is_extension not set"

end DecodeError

/-- What a field holds: a number, a text, packed numbers, a message with its own numbered fields, or
something that no field of a descriptor set is read from. -/
inductive Value
  | number (n : Nat) | text (t : Bytes) | packed (numbers : List Nat)
  | message (fields : List (Nat × Value)) | skipped
  deriving Repr

abbrev Fields := List (Nat × Value)

/-- What the payload of a field holds, when `inner` reads the messages in it. -/
def readValue (inner : MessageKind → Bytes → Except DecodeError Fields) (kind : MessageKind) (number : Nat) :
    Payload → Except DecodeError Value
  | .varint n => .ok (.number n)
  | .bytes b =>
    match kind.content? number with
    | some (.submessage sub) => (inner sub b).map .message
    | some .numbers =>
      match readPacked b with
      | some numbers => .ok (.packed numbers)
      | none => .error .malformed
    | none => .ok (.text b)
  | .fixed64 _ | .group | .fixed32 _ => .ok .skipped

def readEach (inner : MessageKind → Bytes → Except DecodeError Fields) (kind : MessageKind) :
    List Record → Except DecodeError Fields
  | [] => .ok []
  | ⟨number, payload⟩ :: others =>
    match readValue inner kind number payload with
    | .error e => .error e
    | .ok value =>
      match readEach inner kind others with
      | .error e => .error e
      | .ok fields => .ok ((number, value) :: fields)

/-- Reads the bytes of a message, with those inside it down to a depth. A failure inside counts
before one behind it. -/
def readFields : (depth : Nat) → MessageKind → Bytes → Except DecodeError Fields
  | 0, _, _ => .error .tooDeep
  | depth + 1, kind, t =>
    let found := scan t
    match readEach (readFields depth) kind found.records with
    | .error e => .error e
    | .ok fields => if found.complete then .ok fields else .error .malformed

/-- A required field that is missing below a field with this number. -/
abbrev Gap := Nat × RequiredField

/-- The gap below the smallest field number; of several there, the first. -/
def firstGap : List Gap → Option Gap
  | [] => none
  | gap :: others =>
    match firstGap others with
    | none => some gap
    | some other => some (if gap.1 ≤ other.1 then gap else other)

def ownGaps (kind : MessageKind) (fields : Fields) : List Gap :=
  match kind with
  | .namePart =>
    let named := fields.any fun
      | (1, .text _) => true
      | _ => false
    let flagged := fields.any fun
      | (2, .number _) => true
      | _ => false
    (if named then [] else [(1, .namePart)]) ++ (if flagged then [] else [(2, .isExtension)])
  | _ => []

/-- The first required field, in the order of field numbers, that a message or one inside it lacks,
down to a depth. -/
def missing? : (depth : Nat) → MessageKind → Fields → Option RequiredField
  | 0, _, _ => none
  | depth + 1, kind, fields =>
    let gaps := fields.filterMap fun
      | (number, .message inner) =>
        match kind.content? number with
        | some (.submessage sub) => (missing? depth sub inner).map fun field => (number, field)
        | _ => none
      | _ => none
    (firstGap (gaps ++ ownGaps kind fields)).map (·.2)

end ProtoRecovery.Wire
