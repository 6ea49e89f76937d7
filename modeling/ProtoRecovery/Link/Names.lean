import ProtoRecovery.Outline.Fault
import ProtoRecovery.Schema.Kind

/-! # Names: what a file declares, and how a reference finds it -/
namespace ProtoRecovery.Link
open Schema
open Outline (NamedKind)

/-- A message or an enum by its full name. -/
structure TypeName where
  name : Bytes
  kind : NamedKind
  mapEntry : Bool := false
  deriving DecidableEq, Repr

def enumName (scope : Bytes) (e : EnumType) : TypeName :=
  { name := qualify scope (textOf e.name), kind := .enum }

mutual
def messageTypes (scope : Bytes) : Message → List TypeName
  | ⟨name, _, nested, enums, _, _, mapEntry, _⟩ =>
    let inner := qualify scope (textOf name)
    ⟨inner, .message, mapEntry⟩ :: (enums.reduceOption.map (enumName inner) ++ nestedTypes inner nested)
def nestedTypes (scope : Bytes) : List (Option Message) → List TypeName
  | [] => []
  | none :: r => nestedTypes scope r
  | some m :: r => messageTypes scope m ++ nestedTypes scope r
end

def types (f : File) : List TypeName :=
  let scope := textOf f.package
  f.enums.reduceOption.map (enumName scope) ++ nestedTypes scope f.messages

/-- The values of an enum are named beside it, not inside it. -/
def enumSymbols (scope : Bytes) (e : EnumType) : List Bytes :=
  qualify scope (textOf e.name) :: e.values.reduceOption.map fun v => qualify scope (textOf v.name)

def fieldSymbols (scope : Bytes) (fields : Entries Field) : List Bytes :=
  fields.reduceOption.map fun f => qualify scope (textOf f.name)

def serviceSymbols (scope : Bytes) (s : Service) : List Bytes :=
  let inner := qualify scope (textOf s.name)
  inner :: s.methods.reduceOption.map fun m => qualify inner (textOf m.name)

mutual
def messageSymbols (scope : Bytes) : Message → List Bytes
  | ⟨name, fields, nested, enums, oneofs, extensions, _, _⟩ =>
    let inner := qualify scope (textOf name)
    inner :: fieldSymbols inner fields ++ fieldSymbols inner extensions ++
      (oneofs.reduceOption.map fun o => qualify inner (textOf o.name)) ++
      enums.reduceOption.flatMap (enumSymbols inner) ++ nestedSymbols inner nested
def nestedSymbols (scope : Bytes) : List (Option Message) → List Bytes
  | [] => []
  | none :: r => nestedSymbols scope r
  | some m :: r => messageSymbols scope m ++ nestedSymbols scope r
end

def symbols (f : File) : List Bytes :=
  let scope := textOf f.package
  f.services.reduceOption.flatMap (serviceSymbols scope) ++ fieldSymbols scope f.extensions ++
    f.enums.reduceOption.flatMap (enumSymbols scope) ++ nestedSymbols scope f.messages

/-- A scope and those around it, the innermost first and the unnamed one last. -/
def enclosing (scope : Bytes) : List Bytes :=
  ((List.range ((Bytes.split Bytes.dot scope).length + 1)).map fun n =>
    Bytes.join Bytes.dot ((Bytes.split Bytes.dot scope).take n)).reverse

/-- Finds what a reference means: after a leading dot the name is full, otherwise the innermost
scope that has the name counts. -/
def resolve (visible : List TypeName) (scope reference : Bytes) : Option TypeName :=
  match reference with
  | 0x2e :: full => visible.find? fun t => t.name == full
  | relative =>
    (enclosing scope).findSome? fun s => visible.find? fun t => t.name == qualify s relative

end ProtoRecovery.Link
