import ProtoRecovery.ErrorClass
import ProtoRecovery.Text.Bytes

/-! # Errors of a disk -/
namespace ProtoRecovery

inductive Refusal | notFound | notDirectory | isDirectory | fileExists | nameTooLong | invalidArgument
  deriving DecidableEq, Repr

namespace Refusal

def message : Refusal → Bytes
  | notFound => utf8 "no such file or directory"
  | notDirectory => utf8 "not a directory"
  | isDirectory => utf8 "is a directory"
  | fileExists => utf8 "file exists"
  | nameTooLong => utf8 "file name too long"
  | invalidArgument => utf8 "invalid argument"

def errorClass : Refusal → ErrorClass
  | notFound => .notFound
  | notDirectory => .notDirectory
  | isDirectory => .isDirectory
  | fileExists => .other
  | nameTooLong => .nameTooLong
  | invalidArgument => .invalidArgument

end Refusal

inductive Attempt | opening | reading | makingDirectory deriving DecidableEq, Repr

def Attempt.word : Attempt → Bytes
  | opening => utf8 "open"
  | reading => utf8 "read"
  | makingDirectory => utf8 "mkdir"

structure DiskError where
  attempt : Attempt
  path : Bytes
  refusal : Refusal
  deriving DecidableEq, Repr

def DiskError.message (e : DiskError) : Bytes :=
  e.attempt.word ++ utf8 " " ++ e.path ++ utf8 ": " ++ e.refusal.message

end ProtoRecovery
