import ProtoRecovery.Schema.Basic
import ProtoRecovery.Text.Decimal

/-! # What the codes of field types, labels and editions stand for -/
namespace ProtoRecovery.Schema

inductive Scalar
  | double | float | int64 | uint64 | int32 | fixed64 | fixed32 | bool | string | bytes
  | uint32 | sfixed32 | sfixed64 | sint32 | sint64
  deriving DecidableEq, Repr

namespace Scalar

def all : List Scalar :=
  [double, float, int64, uint64, int32, fixed64, fixed32, bool, string, bytes, uint32, sfixed32,
    sfixed64, sint32, sint64]

def code : Scalar → Int32
  | double => 1 | float => 2 | int64 => 3 | uint64 => 4 | int32 => 5 | fixed64 => 6
  | fixed32 => 7 | bool => 8 | string => 9 | bytes => 12 | uint32 => 13 | sfixed32 => 15
  | sfixed64 => 16 | sint32 => 17 | sint64 => 18

def keyword : Scalar → Bytes
  | double => utf8 "double" | float => utf8 "float" | int64 => utf8 "int64"
  | uint64 => utf8 "uint64" | int32 => utf8 "int32" | fixed64 => utf8 "fixed64"
  | fixed32 => utf8 "fixed32" | bool => utf8 "bool" | string => utf8 "string"
  | bytes => utf8 "bytes" | uint32 => utf8 "uint32" | sfixed32 => utf8 "sfixed32"
  | sfixed64 => utf8 "sfixed64" | sint32 => utf8 "sint32" | sint64 => utf8 "sint64"

def ofCode? (code : Int32) : Option Scalar := all.find? fun s => s.code == code

def ofKeyword? (word : Bytes) : Option Scalar := all.find? fun s => s.keyword == word

end Scalar

/-- The kind of value a field type code stands for. -/
inductive Kind
  | scalar (s : Scalar) | message | enum | group | unknown (code : Int32)
  deriving DecidableEq, Repr

namespace Kind

def groupCode : Int32 := 10
def messageCode : Int32 := 11
def enumCode : Int32 := 14

def ofCode (code : Int32) : Kind :=
  if code = groupCode then group
  else if code = messageCode then message
  else if code = enumCode then enum
  else match Scalar.ofCode? code with
    | some s => scalar s
    | none => unknown code

end Kind

inductive Label | optional | required | repeated deriving DecidableEq, Repr

namespace Label

def code : Label → Int32
  | optional => 1 | required => 2 | repeated => 3

def keyword : Label → Bytes
  | optional => utf8 "optional" | required => utf8 "required" | repeated => utf8 "repeated"

def ofCode? (n : Int32) : Option Label :=
  [optional, required, repeated].find? fun l => l.code == n

def ofKeyword? (word : Bytes) : Option Label :=
  [optional, required, repeated].find? fun l => l.keyword == word

end Label

namespace Features

def required : Int32 := 3

def delimited : Int32 := 2

end Features

namespace Edition

def named : List (Int32 × Bytes) :=
  [(0, utf8 "UNKNOWN"), (1, utf8 "1_TEST_ONLY"), (2, utf8 "2_TEST_ONLY"), (900, utf8 "LEGACY"),
    (998, utf8 "PROTO2"), (999, utf8 "PROTO3"), (1000, utf8 "2023"), (1001, utf8 "2024"),
    (99997, utf8 "99997_TEST_ONLY"), (99998, utf8 "99998_TEST_ONLY"),
    (99999, utf8 "99999_TEST_ONLY"), (2147483647, utf8 "MAX")]

/-- The name of an edition; one without a name is written as its number. -/
def name (code : Int32) : Bytes :=
  match named.find? fun entry => entry.1 == code with
  | some entry => entry.2
  | none => Text.decimalInt code.toInt

def ofName? (word : Bytes) : Option Int32 :=
  (named.find? fun entry => entry.2 == word).map (·.1)

end Edition

def proto2 : Bytes := utf8 "proto2"

/-- The dialects in which `optional` is what a field is without a label. -/
def proto3 : Bytes := utf8 "proto3"
def editions : Bytes := utf8 "editions"

end ProtoRecovery.Schema
