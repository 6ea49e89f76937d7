import ProtoRecovery.ErrorClass
import ProtoRecovery.Schema.Kind

/-! # Faults of a schema: why a field cannot be shown -/
namespace ProtoRecovery.Outline
open Schema

inductive NamedKind | message | enum deriving DecidableEq, Repr

def NamedKind.word : NamedKind → Bytes
  | message => utf8 "message"
  | enum => utf8 "enum"

/-- A field that cannot be shown, given by its full name. -/
inductive Fault
  | oneofIndex (field : Bytes) (index : Int32) (declared : Nat)
  | untyped (field : Bytes)
  | unnamedType (kind : NamedKind) (field : Bytes)
  | unsupported (field : Bytes) (type : Int32)
  deriving DecidableEq, Repr

namespace Fault

def malformed : Bytes := utf8 "protosrc: malformed descriptor: "

def typeText (code : Int32) : Bytes :=
  if code = Kind.groupCode then utf8 "TYPE_GROUP" else Text.decimalInt code.toInt

def message : Fault → Bytes
  | oneofIndex field index declared =>
    malformed ++ utf8 "field " ++ field ++ utf8 " references oneof index " ++
      Text.decimalInt index.toInt ++ utf8 ", message declares " ++ Text.decimal declared
  | untyped field => malformed ++ utf8 "field " ++ field ++ utf8 " has neither a type nor a type name"
  | unnamedType kind field => malformed ++ kind.word ++ utf8 " field " ++ field ++ utf8 " has no type name"
  | unsupported field type =>
    utf8 "protosrc: unsupported field type: field " ++ field ++ utf8 " has type " ++ typeText type

def errorClass : Fault → ErrorClass
  | unsupported .. => .unsupportedType
  | _ => .malformedSchema

end Fault
end ProtoRecovery.Outline
