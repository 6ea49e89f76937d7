import ProtoRecovery.Link.Normal
import ProtoRecovery.Outline.Reader

/-! # Compiling: the file that an outline describes, and what it refers to -/
namespace ProtoRecovery.Compile
open Schema Outline

def typeOf (token : Bytes) : Option Int32 × Option Bytes :=
  match Scalar.ofKeyword? token with
  | some s => (some s.code, none)
  | none => (none, some token)

def fieldOf (line : FieldLine) (oneofIndex : Option Nat) : Field :=
  let (type, typeName) := typeOf line.type
  { name := some line.name, number := some line.number
    label := some (line.label.getD .optional).code, type, typeName
    oneofIndex := oneofIndex.map Int32.ofNat }

/-- In the dialects without default presence, an optional field is the only member of a oneof of
its own. -/
def isLone (dialect : Bytes) (line : FieldLine) : Bool :=
  dialect = proto3 && line.label == some .optional

/-- The names of the oneofs that are written, and of those that optional fields stand for. -/
def oneofNames (lone : FieldLine → Bytes) (dialect : Bytes) (items : List Item) : List Bytes :=
  (items.filterMap fun
    | .oneof name _ => some name
    | _ => none) ++
  (items.filterMap fun
    | .field line => if isLone dialect line then some (lone line) else none
    | _ => none)

/-- The fields in order, when the next oneof that is written and the next one that is not have the
given indices. -/
def fieldsOf (dialect : Bytes) : (written unwritten : Nat) → List Item → List Field
  | _, _, [] => []
  | written, unwritten, .oneof _ members :: items =>
    (members.map fun line => fieldOf line (some written)) ++ fieldsOf dialect (written + 1) unwritten items
  | written, unwritten, .field line :: items =>
    if isLone dialect line then
      fieldOf line (some unwritten) :: fieldsOf dialect written (unwritten + 1) items
    else fieldOf line none :: fieldsOf dialect written unwritten items

def countOneofs (items : List Item) : Nat := (items.filter fun
  | .oneof _ _ => true
  | _ => false).length

def enumOf (e : Outline.Enum) : EnumType :=
  { name := some e.name
    values := e.values.map fun (name, number) => some { name := some name, number := some number } }

/-- How the oneof is named that an optional field of a message stands for. -/
abbrev Naming := Outline.Message → FieldLine → Bytes

mutual
def messageOf (naming : Naming) (dialect : Bytes) : Outline.Message → Schema.Message
  | ⟨name, items, nested, enums⟩ =>
    { name := some name
      fields := (fieldsOf dialect 0 (countOneofs items) items).map some
      nested := messagesOf naming dialect nested
      enums := enums.map fun e => some (enumOf e)
      oneofs := (oneofNames (naming ⟨name, items, nested, enums⟩) dialect items).map fun name =>
        some { name := some name } }
def messagesOf (naming : Naming) (dialect : Bytes) : List Outline.Message → List (Option Schema.Message)
  | [] => []
  | m :: r => some (messageOf naming dialect m) :: messagesOf naming dialect r
end

def indices (access : Access) (imports : List Import) : List Int32 :=
  (imports.zipIdx.filter fun (i, _) => i.access == access).map fun (_, n) => Int32.ofNat n

def fileOf (naming : Naming) (name : Bytes) (o : Outline.File) : Schema.File :=
  let (dialect, edition) := match o.heading with
    | some (.dialect d) => (if d = proto2 then none else some d, none)
    | some (.edition e) => (some editions, Edition.ofName? e)
    | none => (none, none)
  { name := some name, package := o.package, dialect, edition
    dependencies := o.imports.map (·.path)
    publicIndices := indices .reexported o.imports
    weakIndices := indices .weak o.imports
    messages := messagesOf naming (textOf dialect) o.messages
    enums := o.enums.map fun e => some (enumOf e)
    services := o.services.map fun s => some { name := some s } }

def declaredNames (m : Outline.Message) : List Bytes :=
  (m.items.flatMap fun
    | .field line => [line.name]
    | .oneof name members => name :: members.map (·.name)) ++
  m.nested.map (·.name) ++ m.enums.flatMap fun e => e.name :: e.values.map (·.1)

/-- The name with as many `X` before it as make it differ from those that are taken; `fuel` bounds
their number. -/
def unused (taken : List Bytes) : (fuel : Nat) → Bytes → Bytes
  | 0, name => name
  | fuel + 1, name => if taken.contains name then unused taken fuel (0x58 :: name) else name

/-- The oneof of an optional field is named after it, with an underscore in front. -/
def loneName : Naming := fun m line =>
  let taken := declaredNames m
  unused taken taken.length (if line.name.head? = some 0x5f then line.name else 0x5f :: line.name)

/-- The outline of a text, in which only ASCII stands outside quotes. -/
def outline? (t : Bytes) : Option Outline.File := if (Token.scan t).isSome then denoted? t else none

/-- A file that has been read, with the messages and enums that it can refer to. -/
structure Compiled where
  parsed : Schema.File
  visible : List Link.TypeName
  deriving Repr

def Compiled.describe (c : Compiled) : Schema.File := Link.normalFile c.visible c.parsed

mutual
def openFields (scope : Bytes) : Schema.Message → List (Bytes × Bytes)
  | ⟨name, fields, nested, _, _, _, _, _⟩ =>
    let inner := qualify scope (textOf name)
    ((fields.reduceOption.filter fun f => f.type.isNone).map fun f =>
      (qualify inner (textOf f.name), textOf f.typeName)) ++ openFieldsIn inner nested
def openFieldsIn (scope : Bytes) : List (Option Schema.Message) → List (Bytes × Bytes)
  | [] => []
  | none :: r => openFieldsIn scope r
  | some m :: r => openFields scope m ++ openFieldsIn scope r
end

end ProtoRecovery.Compile
