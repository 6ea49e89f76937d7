import ProtoRecovery.Link.Names

/-! # Linked files: every reference resolved, every choice written out -/
namespace ProtoRecovery.Link
open Schema
open Outline (NamedKind)

def exported (f : File) : List Bytes :=
  (f.dependencies.zipIdx.filter fun (_, i) => f.publicIndices.contains (Int32.ofNat i)).map (·.1)

/-- The paths whose names can be used after importing `paths`. The files are in the order in which
each follows its own imports, so one pass from the last to the first follows every export. -/
def visiblePaths (files : List File) (paths : List Bytes) : List Bytes :=
  files.reverse.foldl (fun seen f => if seen.contains (textOf f.name) then seen ++ exported f else seen) paths

def visibleTypes (earlier : List File) (f : File) : List TypeName :=
  let paths := visiblePaths earlier f.dependencies
  types f ++ (earlier.filter fun g => paths.contains (textOf g.name)).flatMap types

def NamedKind.code : NamedKind → Int32
  | .message => Kind.messageCode
  | .enum => Kind.enumCode

/-- The stored label, unless the field's features require it; without a label a field is optional.
Editions show no field as required. -/
def labelCode (dialect : Bytes) (features : Features) (f : Field) : Int32 :=
  let label :=
    if features.presence = some Features.required then Label.required.code
    else f.label.getD Label.optional.code
  if dialect = editions && label = Label.required.code then Label.optional.code else label

/-- Where a field stands: the dialect of its file, the full name of its message, whether that is an
entry of a map, and the features that count there. -/
structure Place where
  dialect : Bytes
  scope : Bytes
  mapEntry : Bool := false
  features : Features := {}
  deriving DecidableEq, Repr

/-- The type and the type name once the reference is resolved. A message whose encoding is delimited
is a group, except in maps. Editions have no groups. -/
def fieldType (visible : List TypeName) (place : Place) (f : Field) : Option Int32 × Option Bytes :=
  let target := resolve visible place.scope (textOf f.typeName)
  let name := (target.map fun t => Bytes.dot :: t.name).or f.typeName
  match f.type with
  | none => (target.map fun t => NamedKind.code t.kind, name)
  | some code =>
    match Kind.ofCode code with
    | .enum => (some code, name)
    | .message | .group =>
      let delimited := code = Kind.groupCode || place.features.encoding = some Features.delimited
      let inMap := place.mapEntry || target.any (·.mapEntry)
      let grouped := delimited && !inMap && place.dialect ≠ editions
      (some (if grouped then Kind.groupCode else Kind.messageCode), name)
    | .scalar _ | .unknown _ => (some code, none)

def normalField (visible : List TypeName) (place : Place) (f : Field) : Field :=
  let place := { place with features := f.features.within place.features }
  let (type, typeName) := fieldType visible place f
  { name := some (textOf f.name), number := some (numberOf f.number)
    label := some (labelCode place.dialect place.features f), type, typeName
    oneofIndex := f.oneofIndex, features := f.features }

def normalFields (visible : List TypeName) (place : Place) (fields : Entries Field) : Entries Field :=
  fields.reduceOption.map fun f => some (normalField visible place f)

def normalEnum (e : EnumType) : EnumType :=
  { name := some (textOf e.name)
    values := e.values.reduceOption.map fun v =>
      some { name := some (textOf v.name), number := some (numberOf v.number) } }

def normalService (s : Service) : Service :=
  { name := some (textOf s.name)
    methods := s.methods.reduceOption.map fun m => some { name := some (textOf m.name) } }

mutual
def normalMessage (visible : List TypeName) (outer : Place) : Message → Message
  | ⟨name, fields, nested, enums, oneofs, extensions, mapEntry, features⟩ =>
    let place := { outer with
      scope := qualify outer.scope (textOf name), mapEntry, features := features.within outer.features }
    { name := some (textOf name)
      fields := normalFields visible place fields
      nested := normalMessages visible place nested
      enums := enums.reduceOption.map fun e => some (normalEnum e)
      oneofs := oneofs.reduceOption.map fun o => some { name := some (textOf o.name) }
      extensions := normalFields visible place extensions
      mapEntry, features }
def normalMessages (visible : List TypeName) (outer : Place) : List (Option Message) → List (Option Message)
  | [] => []
  | none :: r => normalMessages visible outer r
  | some m :: r => some (normalMessage visible outer m) :: normalMessages visible outer r
end

/-- The file with its references resolved among the names that are visible to it. The oldest
dialect and an empty package are left out; weak imports become plain ones. -/
def normalFile (visible : List TypeName) (f : File) : File :=
  let dialect := textOf f.dialect
  let scope := textOf f.package
  let place : Place := { dialect, scope, features := f.features }
  { name := some (textOf f.name)
    package := if scope.isEmpty then none else some scope
    dialect := if dialect = proto3 || dialect = editions then some dialect else none
    edition := if dialect = editions then f.edition else none
    dependencies := f.dependencies
    publicIndices := f.publicIndices
    weakIndices := []
    messages := normalMessages visible place f.messages
    enums := f.enums.reduceOption.map fun e => some (normalEnum e)
    services := f.services.reduceOption.map fun s => some (normalService s)
    extensions := normalFields visible place f.extensions
    features := f.features }

/-- Links a file against those before it. -/
def link (earlier : List File) (f : File) : File := normalFile (visibleTypes earlier f) f

def linkAll (files : List File) : List File :=
  files.foldl (fun linked f => linked ++ [link linked f]) []

end ProtoRecovery.Link
