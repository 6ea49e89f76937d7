import ProtoRecovery.Outline.Fault

/-! # Shapes: how the fields of a message are gathered into its oneofs -/
namespace ProtoRecovery.Outline
open Schema

/-- A field outside any oneof, the only member of a oneof, or a oneof with its members. -/
inductive Shape
  | plain (field : Field) | lone (field : Field) | group (name : Bytes) (members : List Field)
  deriving DecidableEq, Repr

def Shape.fields : Shape → List Field
  | plain f => [f]
  | lone f => [f]
  | group _ members => members

def oneofAt? (oneofs : Entries Oneof) (index : Int32) : Option Oneof :=
  if index < 0 then none else (oneofs[index.toNatClampNeg]?).join

/-- The first field, in declaration order, whose oneof index points at no oneof. -/
def checkOneofs (scope : Bytes) (oneofs : Entries Oneof) : List Field → Except Fault Unit
  | [] => .ok ()
  | f :: r =>
    match f.oneofIndex with
    | none => checkOneofs scope oneofs r
    | some i =>
      if (oneofAt? oneofs i).isSome then checkOneofs scope oneofs r
      else .error (.oneofIndex (qualify scope (textOf f.name)) i oneofs.length)

def membersOf (fields : List Field) (index : Int32) : List Field :=
  fields.filter fun f => f.oneofIndex == some index

def oneofShape (oneofs : Entries Oneof) (fields : List Field) (first : Field) (index : Int32) : Shape :=
  let members := membersOf fields index
  if members.length = 1 then .lone first
  else .group (textOf ((oneofAt? oneofs index).bind (·.name))) members

/-- Shapes of the remaining fields, when the oneofs in `seen` have been placed already. -/
def gather (oneofs : Entries Oneof) (fields : List Field) : (seen : List Int32) → List Field → List Shape
  | _, [] => []
  | seen, f :: r =>
    match f.oneofIndex with
    | none => .plain f :: gather oneofs fields seen r
    | some i =>
      if seen.contains i then gather oneofs fields seen r
      else oneofShape oneofs fields f i :: gather oneofs fields (i :: seen) r

/-- The shapes of a message. A oneof is placed once, where its first member is declared, and
carries all of its members. -/
def shapes (scope : Bytes) (oneofs : Entries Oneof) (fields : Entries Field) : Except Fault (List Shape) := do
  let fields := fields.reduceOption
  checkOneofs scope oneofs fields
  pure (gather oneofs fields [] fields)

end ProtoRecovery.Outline
