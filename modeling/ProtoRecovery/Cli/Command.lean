import ProtoRecovery.Cli.Settings
import ProtoRecovery.Cli.Usage
import ProtoRecovery.Dump.Run
import ProtoRecovery.Sink.Directory
import ProtoRecovery.Sink.Stream

/-! # Commands: what the program does with its arguments -/
namespace ProtoRecovery.Cli
open Dump

inductive CommandError
  | flags (error : FlagError)
  | commandMissing
  | commandUnknown (name : Bytes)
  | topicUnknown (name : Bytes)
  | outMissing
  | sourceMissing
  | source (error : SourceError)
  | options (error : LayoutError)
  | run (error : RunError)
  | failures (report : Report)

namespace CommandError

def message : CommandError → Bytes
  | flags error => error.message
  | commandMissing => utf8 "missing command"
  | commandUnknown name => utf8 "unknown command " ++ Text.quote name
  | topicUnknown name => utf8 "unknown help topic " ++ Text.quote name
  | outMissing => utf8 "-out is required"
  | sourceMissing => utf8 "at least one -source.* flag is required"
  | source error => error.message
  | options error => utf8 "render options: " ++ error.message
  | run error => error.message
  | failures report =>
    Text.decimal report.failed.length ++ utf8 " of " ++ Text.decimal report.files ++
      utf8 " files failed: " ++ report.failures?.getD []

def errorClass : CommandError → ErrorClass
  | flags error => error.errorClass
  | source error => error.errorClass
  | options error => error.errorClass
  | run error => error.errorClass
  | failures report => report.errorClass
  | _ => .other

end CommandError

/-- What a command finds around it. -/
structure Environment where
  disk : Disk
  now : Moment
  /-- The name that a run gets. -/
  run : Bytes := []
  /-- How many jobs may be at work when the settings do not say. -/
  processors : Nat := 1
  /-- How the jobs of a run are interleaved. -/
  schedule : List Job → List Move := fun _ => []
  /-- Which attempts to write to the output fail. -/
  broken : Nat → Bool := fun _ => false
  /-- The files that are linked into the program. -/
  linked : List Schema.File := []
  compiler : Compiler := .plain
  /-- The server at an address. -/
  dial : (address : Bytes) → (timeout : Int) → Except Bytes Server := fun _ _ => .error (utf8 "no connection")

structure Result where
  error : Option CommandError := none
  output : Bytes := []
  /-- The help that goes with an error. -/
  usage : Bytes := []
  log : List LogEntry := []
  disk : Disk

/-- What is told beside the output: help, and the log, in which each line has the time before it. -/
def Result.diagnostics (r : Result) (time run duration : Bytes) : Bytes :=
  r.usage ++ r.log.flatMap (LogEntry.line (utf8 "protodump: " ++ time ++ utf8 " ") run duration)

def Settings.sources (s : Settings) (env : Environment) : Except SourceError (List Source) := do
  let sets ← if s.sets.isEmpty then pure [] else (Source.sets s.sets).map ([·])
  let texts ← if s.texts.isEmpty then pure [] else (Source.compiled env.compiler s.searchPaths s.texts).map ([·])
  let server := if s.server.isEmpty then [] else [Source.reflection s.server (env.dial s.server s.timeout)]
  let registry := if s.registry then [Source.registry env.linked] else []
  pure (sets ++ texts ++ server ++ registry)

/-- All sources as one, only with the packages that are asked for. -/
def Settings.source (s : Settings) (env : Environment) : Except CommandError Source :=
  match s.sources env with
  | .error e => .error (.source e)
  | .ok [] => .error .sourceMissing
  | .ok sources => .ok (Source.filtered s.packages (Source.concat sources))

def Settings.work {σ : Type} (s : Settings) (env : Environment) (options : RenderOptions) (sink : Sink σ) :
    Work σ :=
  { run := env.run, render := render options, sink, keepGoing := s.keepGoing
    workers := if 0 < s.workers then s.workers.toNatClampNeg else env.processors }

/-- How a run ends for the one who started it: failures it went on after count too. -/
def conclusion {σ : Type} (o : Outcome σ) : Option CommandError :=
  match o.error with
  | some e => some (.run e)
  | none => if o.report.failed.isEmpty then none else some (.failures o.report)

def dumpTo (s : Settings) (env : Environment) (source : Source) (options : RenderOptions) : Result :=
  let log := fun entries => if s.verbose then entries else []
  if s.out = utf8 "-" then
    let o := Dump.execute (s.work env options (Stream.sink env.broken)) (fun _ => false)
      env.schedule source { disk := env.disk } {}
    { error := conclusion o, output := o.sink.content, log := log o.log, disk := env.disk }
  else
    let base : Directory := ⟨s.out⟩
    let directory := if s.stamped then base.stamped env.now else base
    let o := Dump.execute (s.work env options directory.sink) (fun _ => false)
      env.schedule source { disk := env.disk } env.disk
    { error := conclusion o, log := log o.log, disk := o.sink }

def dump (env : Environment) (arguments : List Bytes) : Result :=
  let refuse := fun error => { error := some error, usage := dumpUsage, disk := env.disk }
  match readFlags Settings.flags {} arguments with
  | .error e => refuse (.flags e)
  | .ok (s, _) =>
    if s.out.isEmpty then refuse .outMissing
    else match s.source env with
      | .error e => refuse e
      | .ok source =>
        match s.renderOptions with
        | .error e => { error := some (.options e), disk := env.disk }
        | .ok options => dumpTo s env source options

def requested? : (arguments : List Bytes) → Option Settings
  | command :: rest =>
    if command = utf8 "dump" then (readFlags Settings.flags {} rest).toOption.map (·.1)
    else if Shape.of command = .ending then requested? rest
    else none
  | [] => none

def help (env : Environment) : (arguments : List Bytes) → Result
  | [] => { output := programUsage, disk := env.disk }
  | topic :: _ =>
    if topic = utf8 "dump" then { output := dumpUsage, disk := env.disk }
    else { error := some (.topicUnknown topic), disk := env.disk }

/-- Does what the arguments say. There are no flags before the command. -/
def execute (env : Environment) (arguments : List Bytes) : Result :=
  let refuse := fun error => { error := some error, usage := programUsage, disk := env.disk }
  match readFlags ([] : List (Flag Unit)) () arguments with
  | .error e => refuse (.flags e)
  | .ok (_, []) => refuse .commandMissing
  | .ok (_, command :: rest) =>
    if command = utf8 "dump" then dump env rest
    else if command = utf8 "help" then help env rest
    else refuse (.commandUnknown command)

end ProtoRecovery.Cli
