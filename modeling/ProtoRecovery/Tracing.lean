import ProtoRecovery.Bus.Basic
import ProtoRecovery.Dump.Event

/-! # Tracing: spans that follow the events of runs -/
namespace ProtoRecovery.Tracing
open Dump

inductive Value | text (t : Bytes) | number (n : Int) deriving DecidableEq, Repr

/-- A stretch of work: when it was started among all spans, inside which other span, what is known
about it, and the error it ended with. -/
structure Span where
  ordinal : Nat
  name : Bytes
  parent : Option Nat := none
  attributes : List (Bytes × Value) := []
  error : Option Bytes := none
  deriving DecidableEq, Repr

structure Trace where
  /-- How many spans were started. -/
  started : Nat := 0
  /-- The spans that have ended, in order. -/
  ended : List Span := []
  deriving DecidableEq, Repr

/-- Texts as keys of open spans; a key has one entry. -/
abbrev Table := List (Bytes × Span)

namespace Table

def store (t : Table) (key : Bytes) (span : Span) : Table := (key, span) :: t.filter fun e => e.1 != key

def remove (t : Table) (key : Bytes) : Table := t.filter fun e => e.1 != key

end Table

structure Subscriber where
  runs : Table := []
  files : Table := []
  deriving DecidableEq, Repr

/-- The key of a file in a run. -/
def fileKey (run name : Bytes) : Bytes := run ++ 0 :: name

def runSpan (ordinal : Nat) (run : Bytes) : Span :=
  { ordinal, name := utf8 "protodump.run", attributes := [(utf8 "protodump.run_id", .text run)] }

def fileSpan (ordinal : Nat) (parent : Option Nat) (name : Bytes) : Span :=
  { ordinal, parent, name := utf8 "protodump.file", attributes := [(utf8 "protodump.file", .text name)] }

def Span.finishRun (s : Span) (files written failed : Int) (error : Option Bytes) : Span :=
  { s with
    attributes := s.attributes ++ [(utf8 "protodump.files", .number files),
      (utf8 "protodump.written", .number written), (utf8 "protodump.failed", .number failed)]
    error }

def Span.finishFile (s : Span) (size : Int) (error : Option Bytes) : Span :=
  { s with attributes := s.attributes ++ [(utf8 "protodump.bytes", .number size)], error }

/-- What a subscriber does on a notice. A start opens a span, that of a file inside the open span
of its run; a finish ends the span that is open under its key, if there is one. -/
def Subscriber.receive (s : Subscriber) (t : Trace) (n : Notice) : Subscriber × Trace :=
  match n.event with
  | .runStarted =>
    ({ s with runs := Table.store s.runs n.run (runSpan t.started n.run) },
      { t with started := t.started + 1 })
  | .fileStarted name =>
    let parent := (s.runs.lookup n.run).map Span.ordinal
    ({ s with files := Table.store s.files (fileKey n.run name) (fileSpan t.started parent name) },
      { t with started := t.started + 1 })
  | .fileFinished name size error =>
    let key := fileKey n.run name
    match s.files.lookup key with
    | none => (s, t)
    | some span =>
      ({ s with files := Table.remove s.files key },
        { t with ended := t.ended ++ [span.finishFile size error] })
  | .runFinished files written failed error =>
    match s.runs.lookup n.run with
    | none => (s, t)
    | some span =>
      ({ s with runs := Table.remove s.runs n.run },
        { t with ended := t.ended ++ [span.finishRun files written failed error] })

def Subscriber.follow (s : Subscriber) (t : Trace) : List Notice → Subscriber × Trace
  | [] => (s, t)
  | n :: notices => let (s, t) := s.receive t n; follow s t notices

inductive Topic | runStart | fileStart | fileFinish | runFinish deriving DecidableEq, Repr

def Topic.all : List Topic := [runStart, runFinish, fileStart, fileFinish]

def topicOf : Event → Topic
  | .runStarted => .runStart
  | .fileStarted _ => .fileStart
  | .fileFinished .. => .fileFinish
  | .runFinished .. => .runFinish

/-- A bus on which subscribers, known by number, share one tracer. A subscriber that was taken off
the bus keeps the spans it has open. -/
structure Hub where
  bus : Bus Topic Nat := {}
  subscribers : List Subscriber := []
  /-- The tokens of each subscriber. -/
  tokens : List (List (Token Topic)) := []
  trace : Trace := {}

namespace Hub

def subscribeAll (bus : Bus Topic Nat) (subscriber : Nat) : List Topic → Bus Topic Nat × List (Token Topic)
  | [] => (bus, [])
  | topic :: topics =>
    let (bus, token) := bus.subscribe topic subscriber
    let (bus, tokens) := subscribeAll bus subscriber topics
    (bus, token :: tokens)

def attach (h : Hub) : Hub :=
  let (bus, tokens) := subscribeAll h.bus h.subscribers.length Topic.all
  { h with bus, subscribers := h.subscribers ++ [{}], tokens := h.tokens ++ [tokens] }

def detach (h : Hub) (subscriber : Nat) : Hub :=
  { h with bus := ((h.tokens[subscriber]?).getD []).foldl Bus.unsubscribe h.bus }

def deliver (n : Notice) (h : Hub) (subscriber : Nat) : Hub :=
  match h.subscribers[subscriber]? with
  | none => h
  | some s =>
    let (s, trace) := s.receive h.trace n
    { h with subscribers := h.subscribers.set subscriber s, trace }

def publish (h : Hub) (n : Notice) : Hub :=
  ((h.bus.subscriptions (topicOf n.event)).map Subscription.handler).foldl (deliver n) h

end Hub
end ProtoRecovery.Tracing
