import ProtoRecovery.Outline.Token
import ProtoRecovery.Proofs.Schema.Tree

/-! # Files all of whose names are in order -/
namespace ProtoRecovery.Schema

/-- What is asked of the names of declarations, and of package and type names, which have dots. -/
structure Naming where
  name : Bytes → Bool
  dotted : Bytes → Bool

/-- Names are not empty; letters, digits and the underscore make them up. -/
def Naming.identifiers : Naming where
  name t := !t.isEmpty && t.all Outline.Token.isNameByte
  dotted t := t.all fun b => Outline.Token.isNameByte b || b == Bytes.dot

/-- No name breaks the line it stands on. -/
def Naming.unbroken : Naming where
  name t := !t.contains Bytes.newline
  dotted t := !t.contains Bytes.newline

def Field.named (n : Naming) (f : Field) : Bool := n.name (textOf f.name) && f.typeName.all n.dotted

def EnumType.named (n : Naming) (e : EnumType) : Bool :=
  n.name (textOf e.name) && e.values.reduceOption.all fun v => n.name (textOf v.name)

/-- The names in a message, without the messages inside it. -/
def Message.named (n : Naming) (m : Message) : Bool :=
  n.name (textOf m.name) && m.fields.reduceOption.all (Field.named n) &&
    m.oneofs.reduceOption.all (fun o => n.name (textOf o.name)) && m.enums.reduceOption.all (EnumType.named n)

/-- All names in a file; entries that are absent have none. -/
def File.named (n : Naming) (f : File) : Bool :=
  f.package.all n.dotted && f.services.reduceOption.all (fun s => n.name (textOf s.name)) &&
    f.enums.reduceOption.all (EnumType.named n) && f.located.all fun (_, m) => m.named n

end ProtoRecovery.Schema
