import ProtoRecovery.Text.Bytes

/-! # Schema files as descriptors hold them

A value that a descriptor may leave out is an `Option`. An entry of a list may be absent too; such
an entry keeps its place but declares nothing. -/
namespace ProtoRecovery.Schema

/-- A list whose entries may be absent. -/
abbrev Entries (α : Type) := List (Option α)

structure EnumValue where
  name : Option Bytes := none
  number : Option Int32 := none
  deriving DecidableEq, Repr, Inhabited

structure EnumType where
  name : Option Bytes := none
  values : Entries EnumValue := []
  deriving DecidableEq, Repr, Inhabited

structure Method where
  name : Option Bytes := none
  deriving DecidableEq, Repr, Inhabited

structure Service where
  name : Option Bytes := none
  methods : Entries Method := []
  deriving DecidableEq, Repr, Inhabited

structure Oneof where
  name : Option Bytes := none
  deriving DecidableEq, Repr, Inhabited

/-- Choices, by their codes, that a declaration makes for its fields and all it holds: whether a
field must be present, and how messages are encoded. -/
structure Features where
  presence : Option Int32 := none
  encoding : Option Int32 := none
  deriving DecidableEq, Repr, Inhabited

def Features.within (inner outer : Features) : Features :=
  ⟨inner.presence.or outer.presence, inner.encoding.or outer.encoding⟩

/-- A field. Label and type are the stored codes, known or not. -/
structure Field where
  name : Option Bytes := none
  number : Option Int32 := none
  label : Option Int32 := none
  type : Option Int32 := none
  typeName : Option Bytes := none
  oneofIndex : Option Int32 := none
  features : Features := {}
  deriving DecidableEq, Repr, Inhabited

/-- A message. One that is an entry of a map only serves the field of that map. -/
structure Message where
  name : Option Bytes := none
  fields : Entries Field := []
  nested : List (Option Message) := []
  enums : Entries EnumType := []
  oneofs : Entries Oneof := []
  extensions : Entries Field := []
  mapEntry : Bool := false
  features : Features := {}
  deriving Repr, Inhabited

structure File where
  name : Option Bytes := none
  package : Option Bytes := none
  dialect : Option Bytes := none
  edition : Option Int32 := none
  dependencies : List Bytes := []
  publicIndices : List Int32 := []
  weakIndices : List Int32 := []
  messages : List (Option Message) := []
  enums : Entries EnumType := []
  services : Entries Service := []
  extensions : Entries Field := []
  features : Features := {}
  deriving Repr, Inhabited

abbrev textOf (t : Option Bytes) : Bytes := t.getD []

abbrev numberOf (n : Option Int32) : Int32 := n.getD 0

/-- A name inside a scope; the outermost scope has no name. -/
def qualify (scope name : Bytes) : Bytes :=
  if scope.isEmpty then name else scope ++ Bytes.dot :: name

end ProtoRecovery.Schema
