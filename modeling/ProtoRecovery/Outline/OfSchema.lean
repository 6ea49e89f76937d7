import ProtoRecovery.Outline.Basic
import ProtoRecovery.Outline.Shape
import ProtoRecovery.Text.Blank

/-! # The outline of a schema file -/
namespace ProtoRecovery.Outline
open Schema

/-- How references to messages and enums are written: their last segment, or in full. -/
inductive TypeNames | short | qualified deriving DecidableEq, Repr

def TypeNames.reference : TypeNames → Bytes → Bytes
  | short, name => Bytes.lastSegment name
  | qualified, name => name

structure Style where
  typeNames : TypeNames := .short
  /-- Leading parts of import paths that are left out; the first that fits is. -/
  importLeads : List Bytes := [utf8 "./"]
  deriving DecidableEq, Repr

def reference (style : Style) (fault : Fault) (f : Field) : Except Fault Bytes :=
  if (textOf f.typeName).isEmpty then .error fault
  else .ok (style.typeNames.reference (textOf f.typeName))

def typeToken (style : Style) (scope : Bytes) (f : Field) : Except Fault Bytes :=
  let field := qualify scope (textOf f.name)
  match f.type with
  | none => reference style (.untyped field) f
  | some code =>
    match Kind.ofCode code with
    | .message => reference style (.unnamedType .message field) f
    | .enum => reference style (.unnamedType .enum field) f
    | .scalar s => .ok s.keyword
    | .group | .unknown _ => .error (.unsupported field code)

def fieldLine (style : Style) (scope : Bytes) (label : Option Label) (f : Field) : Except Fault FieldLine := do
  let type ← typeToken style scope f
  pure { label, type, name := textOf f.name, number := numberOf f.number }

/-- The label a field shows outside a oneof. Where optional is what a field is anyway, it is not
shown. -/
def shownLabel (dialect : Bytes) (f : Field) : Option Label :=
  match f.label.bind Label.ofCode? with
  | some .optional => if dialect = proto3 || dialect = editions then none else some .optional
  | label => label

/-- The only member of a oneof is shown as an optional field. -/
def item (style : Style) (dialect scope : Bytes) : Shape → Except Fault Item
  | .plain f => Item.field <$> fieldLine style scope (shownLabel dialect f) f
  | .lone f => Item.field <$> fieldLine style scope (some .optional) f
  | .group name members => Item.oneof name <$> members.mapM (fieldLine style scope none)

def ofEnum (e : EnumType) : Enum :=
  { name := textOf e.name, values := e.values.reduceOption.map fun v => (textOf v.name, numberOf v.number) }

mutual
def ofMessage (style : Style) (dialect scope : Bytes) : Schema.Message → Except Fault Message
  | ⟨name, fields, nested, enums, oneofs, _, _, _⟩ => do
    let inner := qualify scope (textOf name)
    let shapes ← shapes inner oneofs fields
    let items ← shapes.mapM (item style dialect inner)
    let nested ← ofMessages style dialect inner nested
    pure { name := textOf name, items, nested, enums := enums.reduceOption.map ofEnum }
def ofMessages (style : Style) (dialect scope : Bytes) : List (Option Schema.Message) → Except Fault (List Message)
  | [] => .ok []
  | none :: r => ofMessages style dialect scope r
  | some m :: r => do
    let first ← ofMessage style dialect scope m
    let others ← ofMessages style dialect scope r
    pure (first :: others)
end

/-- The path without the first leading part that fits; an empty part fits none. -/
def stripLead : (leads : List Bytes) → Bytes → Bytes
  | [], path => path
  | lead :: leads, path =>
    match if lead.isEmpty then none else Bytes.after? lead path with
    | some rest => rest
    | none => stripLead leads path

/-- Imports that are not blank, with the access that their position has. -/
def imports (style : Style) (f : Schema.File) : List Import :=
  (f.dependencies.zipIdx.filter fun (path, _) => !Text.isBlankText path).map fun (path, i) =>
    { access :=
        if f.publicIndices.contains (Int32.ofNat i) then .reexported
        else if f.weakIndices.contains (Int32.ofNat i) then .weak
        else .ordinary
      path := stripLead style.importLeads path }

/-- The heading; an edition counts only in the dialect of editions. -/
def heading (f : Schema.File) : Option Heading :=
  f.dialect.map fun dialect =>
    match if dialect = editions then f.edition else none with
    | some edition => .edition (Edition.name edition)
    | none => .dialect dialect

def ofFile (style : Style) (f : Schema.File) : Except Fault File := do
  let messages ← ofMessages style (textOf f.dialect) (textOf f.package) f.messages
  pure {
    heading := heading f
    imports := imports style f
    package := f.package
    services := f.services.reduceOption.map fun s => textOf s.name
    enums := f.enums.reduceOption.map ofEnum
    messages }

end ProtoRecovery.Outline
