import ProtoRecovery.Disk.Basic
import ProtoRecovery.Text.Quoted

/-! # Sinks: where texts go under a name -/
namespace ProtoRecovery

inductive SinkError
  | cancelled
  | invalidName (name : Bytes)
  | refused (name : Bytes)
  | brokenStream
  | disk (error : DiskError)
  deriving DecidableEq, Repr

namespace SinkError

def message : SinkError → Bytes
  | cancelled => utf8 "context canceled"
  | invalidName name => utf8 "sink: invalid file name: " ++ Text.quote name
  | refused name => utf8 "refused " ++ name
  | brokenStream => utf8 "write failed"
  | disk error => error.message

def errorClass : SinkError → ErrorClass
  | cancelled => .cancelled
  | invalidName _ => .invalidName
  | refused _ | brokenStream => .other
  | disk error => error.refusal.errorClass

end SinkError

/-- A sink over states of type `σ`: what one write does, given whether the work has been cancelled. -/
structure Sink (σ : Type) where
  write : (cancelled : Bool) → (name text : Bytes) → σ → Option SinkError × σ

def Sink.refusing {σ : Type} (names : List Bytes) (sink : Sink σ) : Sink σ where
  write cancelled name text s :=
    if names.contains name then (some (.refused name), s) else sink.write cancelled name text s

end ProtoRecovery
