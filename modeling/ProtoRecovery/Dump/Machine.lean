import ProtoRecovery.Dump.Event
import ProtoRecovery.Dump.Job

/-! # The machine of a run: a submitting loop and jobs at work, interleaved in any order -/
namespace ProtoRecovery.Dump
open Schema

structure Work (σ : Type) where
  /-- The name of the run, which stands in all that it tells. -/
  run : Bytes := []
  render : File → Except RenderError Bytes
  sink : Sink σ
  /-- How many jobs may be at work at once. -/
  workers : Nat
  /-- Whether a failure is recorded and the run goes on, or ends the run. -/
  keepGoing : Bool

/-- Renders the file of a job and hands the text to the sink; gives the size of the text. -/
def Work.attempt {σ : Type} (w : Work σ) (cancelled : Bool) (job : Job) (sink : σ) :
    Except FileError Nat × σ :=
  match w.render job.file with
  | .error e => (.error (.render e), sink)
  | .ok text =>
    match w.sink.write cancelled job.name text sink with
    | (none, sink) => (.ok text.length, sink)
    | (some e, sink) => (.error (.sink e), sink)

/-- How far a job has come, from being launched to having nothing left but to give up its place. -/
inductive Phase
  | launched
  | announced
  | attempted (result : Except FileError Nat)
  | reported (result : Except FileError Nat)
  | recorded (failure : Option Failure)
  | settled

structure Active where
  job : Job
  phase : Phase := .launched

structure State (σ : Type) where
  /-- Jobs that the loop has not reached. -/
  waiting : List Job
  /-- The job that the loop has accepted and that waits for a free place. -/
  held : Option Job := none
  /-- Whether the loop has ended. -/
  closed : Bool := false
  active : List Active := []
  /-- Whether the work was cancelled from outside. -/
  cancelledOutside : Bool := false
  /-- Whether a failure has cancelled the work. -/
  cancelledInside : Bool := false
  /-- The failure that ends the run. -/
  failure : Option Failure := none
  written : List Bytes := []
  failed : List Failure := []
  events : List Notice := []
  log : List LogEntry := []
  sink : σ

namespace State
variable {σ : Type}

def cancelled (s : State σ) : Bool := s.cancelledOutside || s.cancelledInside

def finished (s : State σ) : Bool := s.closed && s.held.isNone && s.active.isEmpty

def cancel (s : State σ) : State σ := { s with cancelledOutside := true }

def set (s : State σ) (i : Nat) (a : Active) (phase : Phase) : State σ :=
  { s with active := s.active.set i { a with phase } }

def publish (w : Work σ) (s : State σ) (e : Event) : State σ := { s with events := s.events ++ [⟨w.run, e⟩] }

/-- Enters the result of an attempt into the run's lists; a failure that ends the run is left for
the next phase. -/
def record (w : Work σ) (s : State σ) (i : Nat) (a : Active) : Except FileError Nat → State σ
  | .ok _ => { s.set i a (.recorded none) with written := s.written ++ [a.job.name] }
  | .error e =>
    let failure : Failure := ⟨a.job.name, e⟩
    if w.keepGoing then
      { s.set i a (.recorded none) with
        failed := s.failed ++ [failure], log := s.log ++ [.skipped failure] }
    else s.set i a (.recorded (some failure))

/-- The first failure is kept and cancels the work; the job still holds its place. -/
def settle (s : State σ) (i : Nat) (a : Active) : Option Failure → State σ
  | none => s.set i a .settled
  | some f =>
    if s.failure.isSome then s.set i a .settled
    else { s.set i a .settled with failure := some f, cancelledInside := true }

def advance (w : Work σ) (s : State σ) (i : Nat) (a : Active) : State σ :=
  match a.phase with
  | .launched => (s.set i a .announced).publish w (.fileStarted a.job.name)
  | .announced =>
    let (result, sink) := w.attempt s.cancelled a.job s.sink
    { s.set i a (.attempted result) with sink }
  | .attempted result => (s.set i a (.reported result)).publish w (.ofAttempt a.job.name result)
  | .reported result => record w s i a result
  | .recorded failure => settle s i a failure
  | .settled => { s with active := s.active.eraseIdx i }

end State

/-- The moves of a run: the loop looks whether to go on and accepts a job; the accepted job gets
a place; a job at work takes a step; somebody cancels. -/
inductive Move | check | start | advance (i : Nat) | cancel deriving DecidableEq, Repr

variable {σ : Type}

def step (w : Work σ) (s : State σ) : Move → Option (State σ)
  | .check =>
    if s.closed || s.held.isSome then none
    else if s.cancelled then some { s with closed := true }
    else match s.waiting with
      | [] => some { s with closed := true }
      | job :: waiting => some { s with held := some job, waiting }
  | .start =>
    match s.held with
    | none => none
    | some job =>
      if s.active.length < w.workers then some { s with held := none, active := s.active ++ [{ job }] }
      else none
  | .advance i => (s.active[i]?).map fun a => s.advance w i a
  | .cancel => some s.cancel

/-- Follows moves, passing over those that are not possible. Whoever watches the events may cancel
the work as soon as one is published. -/
def follow (w : Work σ) (watch : Event → Bool) : List Move → State σ → State σ
  | [], s => s
  | move :: moves, s =>
    let next := (step w s move).getD s
    let heard := (next.events.drop s.events.length).any (watch ·.event)
    follow w watch moves (if heard then next.cancel else next)

/-- One job after another, with a loop that looks ahead: a job gets its place, the next is accepted,
and the job is brought to its end. -/
def serial (jobs : List Job) : List Move :=
  (List.replicate (jobs.length + 1)
    (.check :: .start :: .check :: List.replicate 6 (.advance 0))).flatten

end ProtoRecovery.Dump
