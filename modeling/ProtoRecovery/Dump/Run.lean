import ProtoRecovery.Dump.Machine

/-! # Runs: load, render and write, with a report, events and a log -/
namespace ProtoRecovery.Dump

variable {σ : Type}

structure Outcome (σ : Type) where
  report : Report
  error : Option RunError
  events : List Notice
  log : List LogEntry
  sink : σ

/-- The report and the error of a finished state. Work that was cancelled from outside ends with
an error even if no job failed. -/
def conclude (files : Nat) (s : State σ) : Report × Option RunError :=
  ({ files, written := Bytes.sort s.written, failed := sortFailures s.failed },
    (s.failure.map .file).or (if s.cancelledOutside then some .cancelled else none))

def closing (report : Report) : Option RunError → LogEntry
  | some e => .failed e
  | none => .wrote report.written.length report.files

/-- A run over the files of a source, with its jobs interleaved as the schedule says. A run waits for
its jobs: what the schedule leaves is done one job after another. -/
def execute (w : Work σ) (watch : Event → Bool) (schedule : List Job → List Move)
    (source : Source) (request : Request) (sink : σ) : Outcome σ :=
  let cancelled := request.cancelled || watch .runStarted
  match source { request with cancelled } with
  | .error e =>
    let error := some (.load e)
    { report := {}, error, sink
      events := [⟨w.run, .runStarted⟩, ⟨w.run, .ofReport {} error⟩]
      log := [closing {} error] }
  | .ok files =>
    let jobs := plan files
    let s := follow w watch (schedule jobs ++ serial jobs)
      { waiting := jobs, cancelledOutside := cancelled, sink }
    let (report, error) := conclude jobs.length s
    { report, error, sink := s.sink
      events := ⟨w.run, .runStarted⟩ :: s.events ++ [⟨w.run, .ofReport report error⟩]
      log := .loaded jobs.length :: s.log ++ [closing report error] }

def run (w : Work σ) (watch : Event → Bool) (source : Source) (request : Request) (sink : σ) : Outcome σ :=
  execute w watch (fun _ => []) source request sink

end ProtoRecovery.Dump
