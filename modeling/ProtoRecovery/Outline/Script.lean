import ProtoRecovery.Layout.Writer
import ProtoRecovery.Outline.Basic

/-! # Writing an outline: the calls to a line writer that show it -/
namespace ProtoRecovery.Outline
open Schema Writer

inductive Order | servicesFirst | messagesFirst deriving DecidableEq, Repr

def FieldLine.text (l : FieldLine) : Bytes :=
  (match l.label with
    | none => []
    | some label => label.keyword ++ utf8 " ") ++
  l.type ++ utf8 " " ++ l.name ++ utf8 " = " ++ Text.decimalInt l.number.toInt ++ utf8 ";"

def block (keyword : String) (name : Bytes) (content : List Op) : List Op :=
  .line (utf8 keyword ++ utf8 " " ++ name ++ utf8 " \x7b") :: .deeper :: content ++ [.closeBlock]

def Item.script : Item → List Op
  | field l => [.line l.text]
  | oneof name members => block "oneof" name (members.map fun l => .line l.text)

def Enum.script (e : Enum) : List Op :=
  block "enum" e.name (e.values.map fun (name, number) =>
    .line (name ++ utf8 " = " ++ Text.decimalInt number.toInt ++ utf8 ";"))

mutual
/-- A message. Each nested declaration has an empty line before it. -/
def Message.script : Message → List Op
  | ⟨name, items, nested, enums⟩ =>
    block "message" name (items.flatMap Item.script ++ nestedScript nested ++
      enums.flatMap fun e => .blank :: e.script)
def nestedScript : List Message → List Op
  | [] => []
  | m :: r => .blank :: m.script ++ nestedScript r
end

def serviceScript (name : Bytes) : List Op := block "service" name []

def Access.keyword : Access → Bytes
  | ordinary => []
  | reexported => utf8 "public "
  | weak => utf8 "weak "

def Heading.text : Heading → Bytes
  | dialect name => utf8 "syntax = " ++ Text.quote name ++ utf8 ";"
  | edition name => utf8 "edition = " ++ Text.quote name ++ utf8 ";"

/-- Lines that stand together; when there are any, an empty line follows. -/
def paragraph (lines : List Bytes) : List Op :=
  if lines.isEmpty then [] else lines.map Op.line ++ [.blank]

def File.header (f : File) : List Op :=
  paragraph (f.heading.toList.map Heading.text) ++
  paragraph (f.imports.map fun i => utf8 "import " ++ i.access.keyword ++ Text.quote i.path ++ utf8 ";") ++
  paragraph (f.package.toList.map fun p => utf8 "package " ++ p ++ utf8 ";")

def File.blocks (order : Order) (f : File) : List (List Op) :=
  let services := f.services.map serviceScript
  let enums := f.enums.map Enum.script
  let messages := f.messages.map Message.script
  match order with
  | .servicesFirst => services ++ enums ++ messages
  | .messagesFirst => messages ++ enums ++ services

def File.script (order : Order) (f : File) : List Op :=
  f.header ++ List.intercalate [.blank] (f.blocks order)

end ProtoRecovery.Outline
