import ProtoRecovery.Schema.Kind

/-! # Outlines: exactly what a schema file shows as source text -/
namespace ProtoRecovery.Outline
open Schema

structure FieldLine where
  label : Option Label := none
  type : Bytes
  name : Bytes
  number : Int32
  deriving DecidableEq, Repr, Inhabited

/-- What stands in a message before its nested declarations. -/
inductive Item | field (line : FieldLine) | oneof (name : Bytes) (members : List FieldLine)
  deriving DecidableEq, Repr, Inhabited

structure Enum where
  name : Bytes
  values : List (Bytes × Int32)
  deriving DecidableEq, Repr, Inhabited

structure Message where
  name : Bytes
  items : List Item := []
  nested : List Message := []
  enums : List Enum := []
  deriving Repr, Inhabited

inductive Access | ordinary | reexported | weak deriving DecidableEq, Repr

structure Import where
  access : Access := .ordinary
  path : Bytes
  deriving DecidableEq, Repr

/-- The first line: the name of the dialect or of the edition. -/
inductive Heading | dialect (name : Bytes) | edition (name : Bytes) deriving DecidableEq, Repr

structure File where
  heading : Option Heading := none
  imports : List Import := []
  package : Option Bytes := none
  services : List Bytes := []
  enums : List Enum := []
  messages : List Message := []
  deriving Repr, Inhabited

end ProtoRecovery.Outline
