import ProtoRecovery.Schema.Basic
import ProtoRecovery.Wire.Fields

/-! # Descriptor sets read from wire format -/
namespace ProtoRecovery.Wire
open Schema

def textsAt (number : Nat) (fields : Fields) : List Bytes :=
  fields.filterMap fun
    | (n, .text t) => if n = number then some t else none
    | _ => none

/-- A text that may be repeated: the last one counts. -/
def textAt (number : Nat) (fields : Fields) : Option Bytes := (textsAt number fields).getLast?

def varintsAt (number : Nat) (fields : Fields) : List Nat :=
  fields.filterMap fun
    | (n, .number v) => if n = number then some v else none
    | _ => none

def numberAt (number : Nat) (fields : Fields) : Option Int32 :=
  (varintsAt number fields).getLast?.map int32OfVarint

def flagAt (number : Nat) (fields : Fields) : Bool :=
  (varintsAt number fields).getLast?.any (· != 0)

/-- Numbers that may be given one by one or packed. -/
def numbersAt (number : Nat) (fields : Fields) : List Int32 :=
  fields.flatMap fun
    | (n, .number v) => if n = number then [int32OfVarint v] else []
    | (n, .packed numbers) => if n = number then numbers.map int32OfVarint else []
    | _ => []

def messagesAt (number : Nat) (fields : Fields) : List Fields :=
  fields.filterMap fun
    | (n, .message inner) => if n = number then some inner else none
    | _ => none

/-- The fields of a message that may be repeated: all its parts count together. -/
def partAt (number : Nat) (fields : Fields) : Fields := (messagesAt number fields).flatten

def entriesAt {α : Type} (read : Fields → α) (number : Nat) (fields : Fields) : List (Option α) :=
  (messagesAt number fields).map fun inner => some (read inner)

def enumValue (fields : Fields) : EnumValue := { name := textAt 1 fields, number := numberAt 2 fields }

def enumType (fields : Fields) : EnumType :=
  { name := textAt 1 fields, values := entriesAt enumValue 2 fields }

def method (fields : Fields) : Method := { name := textAt 1 fields }

def service (fields : Fields) : Service :=
  { name := textAt 1 fields, methods := entriesAt method 2 fields }

def oneof (fields : Fields) : Oneof := { name := textAt 1 fields }

def features (fields : Fields) : Features :=
  { presence := numberAt 1 fields, encoding := numberAt 5 fields }

def field (fields : Fields) : Field :=
  { name := textAt 1 fields, number := numberAt 3 fields, label := numberAt 4 fields
    type := numberAt 5 fields, typeName := textAt 6 fields, oneofIndex := numberAt 9 fields
    features := features (partAt 21 (partAt 8 fields)) }

def message : (depth : Nat) → Fields → Message
  | 0, _ => {}
  | depth + 1, fields =>
    { name := textAt 1 fields, fields := entriesAt field 2 fields
      nested := entriesAt (message depth) 3 fields, enums := entriesAt enumType 4 fields
      oneofs := entriesAt oneof 8 fields, extensions := entriesAt field 6 fields
      mapEntry := flagAt 7 (partAt 7 fields), features := features (partAt 12 (partAt 7 fields)) }

def file (fields : Fields) : File :=
  { name := textAt 1 fields, package := textAt 2 fields, dialect := textAt 12 fields
    edition := numberAt 14 fields, dependencies := textsAt 3 fields
    publicIndices := numbersAt 10 fields, weakIndices := numbersAt 11 fields
    messages := entriesAt (message maxDepth) 4 fields, enums := entriesAt enumType 5 fields
    services := entriesAt service 6 fields, extensions := entriesAt field 7 fields
    features := features (partAt 50 (partAt 8 fields)) }

/-- The files of a descriptor set, as stored and in order. Bytes that are malformed anywhere are
refused as a whole. -/
def decodeSet (t : Bytes) : Except DecodeError (List File) :=
  match readFields maxDepth .fileSet t with
  | .error e => .error e
  | .ok fields =>
    match missing? maxDepth .fileSet fields with
    | some field => .error (.missing field)
    | none => .ok ((messagesAt 1 fields).map file)

end ProtoRecovery.Wire
