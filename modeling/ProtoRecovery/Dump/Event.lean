import ProtoRecovery.Dump.Report

/-! # Events and log entries of a run -/
namespace ProtoRecovery.Dump

/-- What a run tells while it goes on; errors are given by their message. -/
inductive Event
  | runStarted
  | fileStarted (name : Bytes)
  | fileFinished (name : Bytes) (size : Int) (error : Option Bytes)
  | runFinished (files written failed : Int) (error : Option Bytes)
  deriving DecidableEq, Repr

def Event.ofAttempt (name : Bytes) : Except FileError Nat → Event
  | .ok size => .fileFinished name size none
  | .error e => .fileFinished name 0 (some e.message)

def joinMessages (messages : List (Option Bytes)) : Option Bytes :=
  let present := messages.reduceOption
  if present.isEmpty then none else some (Bytes.join Bytes.newline present)

/-- The last event of a run: its error is made of the run's own and the failures. -/
def Event.ofReport (r : Report) (error : Option RunError) : Event :=
  .runFinished r.files r.written.length r.failed.length
    (joinMessages [error.map RunError.message, r.failures?])

structure Notice where
  run : Bytes
  event : Event
  deriving DecidableEq, Repr

inductive LogEntry
  | loaded (files : Nat)
  | skipped (failure : Failure)
  | failed (error : RunError)
  | wrote (written files : Nat)
  deriving DecidableEq, Repr

def LogEntry.text (run duration : Bytes) : LogEntry → Bytes
  | loaded files => utf8 "run " ++ run ++ utf8 ": loaded " ++ Text.decimal files ++ utf8 " files"
  | skipped failure => utf8 "skipping " ++ failure.message
  | failed error => utf8 "run " ++ run ++ utf8 " failed: " ++ error.message
  | wrote written files =>
    utf8 "run " ++ run ++ utf8 ": wrote " ++ Text.decimal written ++ utf8 " of " ++
      Text.decimal files ++ utf8 " files in " ++ duration

def endLine (t : Bytes) : Bytes := if t.getLast? = some Bytes.newline then t else t ++ [Bytes.newline]

def LogEntry.line (lead run duration : Bytes) (e : LogEntry) : Bytes := endLine (lead ++ e.text run duration)

end ProtoRecovery.Dump
