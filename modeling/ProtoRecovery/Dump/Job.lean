import ProtoRecovery.Schema.Basic
import ProtoRecovery.Text.Decimal

/-! # Jobs: the files of a run and the names they are written under -/
namespace ProtoRecovery.Dump
open Schema

def positionName (index : Int) : Bytes := utf8 "unnamed_" ++ Text.decimalInt index ++ utf8 ".proto"

/-- The name a file is written under: its own, or one made of its package and its position. -/
def outputName (f : Option File) (index : Int) : Bytes :=
  let name := textOf (f.bind (·.name))
  let package := textOf (f.bind (·.package))
  if !name.isEmpty then name
  else if package.isEmpty then positionName index
  else Bytes.replace Bytes.dot Bytes.slash package ++ Bytes.slash :: positionName index

structure Job where
  name : Bytes
  file : File
  deriving Repr, Inhabited

/-- A job for each file that is present; absent entries count as positions. -/
def plan (files : List (Option File)) : List Job :=
  files.zipIdx.filterMap fun (f, i) => f.map fun file => ⟨outputName (some file) i, file⟩

end ProtoRecovery.Dump
