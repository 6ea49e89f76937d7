import ProtoRecovery.Render
import ProtoRecovery.Sink.Basic
import ProtoRecovery.Sorting.Ordered
import ProtoRecovery.Source.Basic

/-! # Reports: what a run has written and what failed -/
namespace ProtoRecovery.Dump

inductive FileError | render (error : RenderError) | sink (error : SinkError)
  deriving DecidableEq, Repr

namespace FileError

def message : FileError → Bytes
  | render error => error.message
  | sink error => error.message

def errorClass : FileError → ErrorClass
  | render error => error.errorClass
  | sink error => error.errorClass

end FileError

structure Failure where
  name : Bytes
  error : FileError
  deriving DecidableEq, Repr

def Failure.message (f : Failure) : Bytes := f.name ++ utf8 ": " ++ f.error.message

inductive RunError | load (error : SourceError) | file (failure : Failure) | cancelled
  deriving DecidableEq, Repr

namespace RunError

def message : RunError → Bytes
  | load error => utf8 "dump: load descriptors: " ++ error.message
  | file failure => utf8 "dump: " ++ failure.message
  | cancelled => utf8 "context canceled"

def errorClass : RunError → ErrorClass
  | load error => error.errorClass
  | file failure => failure.error.errorClass
  | cancelled => .cancelled

end RunError

/-- The result of a run: how many files it had, the names written, and the failures it went on
after, both in the order of names. -/
structure Report where
  files : Nat := 0
  written : List Bytes := []
  failed : List Failure := []
  deriving DecidableEq, Repr

def sortFailures (failures : List Failure) : List Failure :=
  Quicksort.sortList (fun a b => Bytes.le a.name b.name) failures

theorem sortFailures_perm (failures : List Failure) : (sortFailures failures).Perm failures :=
  Quicksort.sortList_perm _ failures

theorem sortFailures_pairwise (failures : List Failure) :
    (sortFailures failures).Pairwise fun a b => Bytes.le a.name b.name :=
  Quicksort.sortList_pairwise (fun a b c => Bytes.le_trans a.name b.name c.name)
    (fun a b => Bytes.le_total a.name b.name) failures

namespace Report

def failures? (r : Report) : Option Bytes :=
  if r.failed.isEmpty then none
  else
    let count := if r.failed.length = 1 then utf8 "1 error" else Text.decimal r.failed.length ++ utf8 " errors"
    some (count ++ utf8 " occurred:" ++ r.failed.flatMap (fun f => utf8 "\n\t* " ++ f.message) ++ utf8 "\n\n")

def errorClass (r : Report) : ErrorClass := .ofMany (r.failed.map fun f => f.error.errorClass)

end Report
end ProtoRecovery.Dump
