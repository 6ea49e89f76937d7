import ProtoRecovery.Schema.Basic
import ProtoRecovery.Wire.Record

/-! # Descriptor sets written in wire format, fields in the order of their numbers -/
namespace ProtoRecovery.Wire.Encode
open Schema

def tag (number wireType : Nat) : Bytes := writeVarint (number * 8 + wireType)

def text (number : Nat) (t : Bytes) : Bytes := tag number 2 ++ writeVarint t.length ++ t

def number (field : Nat) (i : Int32) : Bytes := tag field 0 ++ writeVarint (varintOfInt32 i)

def text? (number : Nat) (t : Option Bytes) : Bytes := t.elim [] (text number)

def number? (field : Nat) (i : Option Int32) : Bytes := i.elim [] (number field)

def part (number : Nat) (content : Bytes) : Bytes := if content.isEmpty then [] else text number content

def entries {α : Type} (number : Nat) (write : α → Bytes) (l : List (Option α)) : Bytes :=
  l.flatMap fun e => e.elim [] fun a => text number (write a)

def enumValue (v : EnumValue) : Bytes := text? 1 v.name ++ number? 2 v.number

def enumType (e : EnumType) : Bytes := text? 1 e.name ++ entries 2 enumValue e.values

def method (m : Method) : Bytes := text? 1 m.name

def service (s : Service) : Bytes := text? 1 s.name ++ entries 2 method s.methods

def oneof (o : Oneof) : Bytes := text? 1 o.name

def features (f : Features) : Bytes := number? 1 f.presence ++ number? 5 f.encoding

def field (f : Field) : Bytes :=
  text? 1 f.name ++ number? 3 f.number ++ number? 4 f.label ++ number? 5 f.type ++
    text? 6 f.typeName ++ part 8 (part 21 (features f.features)) ++ number? 9 f.oneofIndex

def messageOptions (mapEntry : Bool) (f : Features) : Bytes :=
  (if mapEntry then number 7 1 else []) ++ part 12 (features f)

mutual
def message : Message → Bytes
  | ⟨name, fields, nested, enums, oneofs, extensions, mapEntry, features⟩ =>
    text? 1 name ++ entries 2 field fields ++ nestedMessages 3 nested ++ entries 4 enumType enums ++
      entries 6 field extensions ++ part 7 (messageOptions mapEntry features) ++ entries 8 oneof oneofs
def nestedMessages (number : Nat) : List (Option Message) → Bytes
  | [] => []
  | none :: r => nestedMessages number r
  | some m :: r => text number (message m) ++ nestedMessages number r
end

def file (f : File) : Bytes :=
  text? 1 f.name ++ text? 2 f.package ++ f.dependencies.flatMap (text 3) ++
    nestedMessages 4 f.messages ++ entries 5 enumType f.enums ++ entries 6 service f.services ++
    entries 7 field f.extensions ++ part 8 (part 50 (features f.features)) ++
    f.publicIndices.flatMap (number 10) ++ f.weakIndices.flatMap (number 11) ++
    text? 12 f.dialect ++ number? 14 f.edition

def set (files : List File) : Bytes := files.flatMap fun f => text 1 (file f)

end ProtoRecovery.Wire.Encode
