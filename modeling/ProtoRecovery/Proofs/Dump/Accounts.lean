import ProtoRecovery.Proofs.Dump.Completion
import ProtoRecovery.Proofs.Dump.Ledger
import ProtoRecovery.Sink.Memory

/-! # Accounts of a run: the report says exactly what was attempted, and how it ended -/
namespace ProtoRecovery.Dump
open Schema
variable {σ : Type}

/-- All that a run depends on. -/
structure Setup (σ : Type) where
  work : Work σ
  watch : Event → Bool := fun _ => false
  schedule : List Job → List Move := fun _ => []
  source : Source
  request : Request := {}
  sink : σ

namespace Setup
variable (r : Setup σ)

def outcome : Outcome σ := execute r.work r.watch r.schedule r.source r.request r.sink

/-- Whether the work was cancelled before the source is asked. -/
def early : Bool := r.request.cancelled || r.watch .runStarted

/-- What the source answers. -/
def loaded : Except SourceError (List (Option File)) := r.source { r.request with cancelled := r.early }

/-- The moves of the run: those of the schedule, and then what is left. -/
def moves (jobs : List Job) : List Move := r.schedule jobs ++ serial jobs

/-- The state in which the run has waited for all its jobs. -/
def final (jobs : List Job) : State σ := follow r.work r.watch (r.moves jobs) (begin jobs r.early r.sink)

def launches (jobs : List Job) : List Job := Dump.launches r.work r.watch (r.moves jobs) (begin jobs r.early r.sink)

def attempts (jobs : List Job) : List (Attempt σ) :=
  Dump.attempts r.work r.watch (r.moves jobs) (begin jobs r.early r.sink)

theorem ledger (jobs : List Job) : Ledger r.work jobs (r.launches jobs) (r.attempts jobs) (r.final jobs) :=
  ledger_follow ..

variable {r} {files : List (Option File)}

theorem finished (hw : 0 < r.work.workers) (jobs : List Job) :
    (r.final jobs).closed = true ∧ (r.final jobs).held = none ∧ (r.final jobs).active = [] := by
  have h : (r.final jobs).finished = true := finished_follow hw r.watch (r.schedule jobs) jobs r.early r.sink
  simpa [State.finished, and_assoc] using h

/-- A run without files ends at once. -/
theorem outcome_of_error {e : SourceError} (h : r.loaded = .error e) : r.outcome =
    { report := {}, error := some (.load e), sink := r.sink
      events := [⟨r.work.run, .runStarted⟩, ⟨r.work.run, .ofReport {} (some (.load e))⟩]
      log := [closing {} (some (.load e))] } := by
  simp only [outcome, execute]
  rw [show r.source { r.request with cancelled := r.request.cancelled || r.watch .runStarted } = .error e from h]

/-- A run with files leaves behind what the state has in which it ends. -/
theorem outcome_of_ok (loaded : r.loaded = .ok files) : r.outcome =
    let s := r.final (plan files)
    let (report, error) := conclude (plan files).length s
    { report, error, sink := s.sink
      events := ⟨r.work.run, .runStarted⟩ :: s.events ++ [⟨r.work.run, .ofReport report error⟩]
      log := .loaded (plan files).length :: s.log ++ [closing report error] } := by
  simp only [outcome, execute]
  rw [show r.source { r.request with cancelled := r.request.cancelled || r.watch .runStarted } = .ok files from loaded]
  rfl

/-- The report and the error are those of the state in which the run ends. -/
theorem conclusion (loaded : r.loaded = .ok files) :
    (r.outcome.report, r.outcome.error) = conclude (plan files).length (r.final (plan files)) := by
  rw [outcome_of_ok loaded]

theorem report_eq (loaded : r.loaded = .ok files) : r.outcome.report =
    { files := (plan files).length
      written := Bytes.sort (r.final (plan files)).written
      failed := sortFailures (r.final (plan files)).failed } :=
  (Prod.mk.inj (conclusion loaded)).1

/-- Each job that was started was attempted once. -/
theorem attempted (hw : 0 < r.work.workers) (jobs : List Job) :
    ((r.attempts jobs).map Attempt.job).Perm (r.launches jobs) := by
  have h := (r.ledger jobs).books.started
  rw [(r.finished hw jobs).2.2] at h
  exact (Multiset.coe_eq_coe.1 (by simpa using h)).symm

theorem launches_initial (jobs : List Job) : r.launches jobs <+: jobs := ⟨_, (r.ledger jobs).loop.order⟩

theorem job_mem {jobs : List Job} {x : Attempt σ} (hx : x ∈ r.attempts jobs) : x.job ∈ jobs := by
  have started : x.job ∈ (r.launches jobs : Multiset Job) := by
    rw [(r.ledger jobs).books.started]
    exact Multiset.mem_add.2 (.inl (Multiset.mem_coe.2 (List.mem_map_of_mem hx)))
  exact (launches_initial jobs).subset (Multiset.mem_coe.1 started)

/-- The names that are reported as written are those of the attempts that succeeded. -/
theorem written_perm (hw : 0 < r.work.workers) (loaded : r.loaded = .ok files) :
    r.outcome.report.written.Perm ((r.attempts (plan files)).filterMap (Attempt.written? r.work)) := by
  have h := (r.ledger (plan files)).books.written
  rw [(r.finished hw (plan files)).2.2, tally_nil, add_zero] at h
  rw [report_eq loaded]
  exact (Bytes.sort_perm _).trans (Multiset.coe_eq_coe.1 h).symm

/-- The failures that are reported are those of the attempts that failed, unless one ended the run. -/
theorem failed_perm (hw : 0 < r.work.workers) (loaded : r.loaded = .ok files)
    (failure : (r.final (plan files)).failure = none) :
    r.outcome.report.failed.Perm ((r.attempts (plan files)).filterMap (Attempt.failure? r.work)) := by
  obtain ⟨lost, hlost, hnone⟩ := (r.ledger (plan files)).books.failed
  rw [(r.finished hw (plan files)).2.2, hnone.1 failure, tally_nil, Multiset.coe_nil, add_zero, add_zero] at hlost
  rw [report_eq loaded]
  exact (sortFailures_perm _).trans (Multiset.coe_eq_coe.1 hlost).symm

theorem failed_of_aborting (loaded : r.loaded = .ok files) (aborting : r.work.keepGoing = false) :
    r.outcome.report.failed = [] := by
  have h := sortFailures_perm (r.final (plan files)).failed
  rw [(r.ledger (plan files)).books.aborting aborting] at h
  rw [report_eq loaded, (r.ledger (plan files)).books.aborting aborting]
  exact List.perm_nil.1 h

end Setup

/-- Each file that is present has its job, in the order of the files. -/
theorem plan_files (files : List (Option File)) : (plan files).map Job.file = files.reduceOption := by
  have h : ∀ entry ∈ files.zipIdx, (entry.1.map fun file => Job.mk (outputName (some file) entry.2) file).map
      Job.file = (id ∘ Prod.fst) entry := by
    rintro ⟨_ | file, i⟩ - <;> rfl
  rw [plan, List.map_filterMap, List.filterMap_congr h, ← List.filterMap_map, List.zipIdx_map_fst]
  rfl

/-- The report is true in every schedule: it counts the files that are present; the names that it lists
as written are, in order, those of the attempts in which the sink took the text; and the failures that it
lists are, in the order of names, those of the attempts that failed, unless a failure ends the run. Each
job that was started was attempted once, and jobs are started in their order. -/
theorem report_accounts (r : Setup σ) (hw : 0 < r.work.workers) {files : List (Option File)}
    (loaded : r.loaded = .ok files) :
    r.outcome.report.files = files.reduceOption.length ∧
    r.outcome.report.written.Pairwise (fun a b => Bytes.le a b) ∧
    r.outcome.report.written.Perm ((r.attempts (plan files)).filterMap (Attempt.written? r.work)) ∧
    (r.work.keepGoing = true → r.outcome.report.failed.Pairwise (fun a b => Bytes.le a.name b.name) ∧
      r.outcome.report.failed.Perm ((r.attempts (plan files)).filterMap (Attempt.failure? r.work))) ∧
    (r.work.keepGoing = false → r.outcome.report.failed = []) ∧
    ((r.attempts (plan files)).map Attempt.job).Perm (r.launches (plan files)) ∧
    r.launches (plan files) <+: plan files := by
  refine ⟨?_, ?_, Setup.written_perm hw loaded, fun going => ⟨?_, Setup.failed_perm hw loaded ?_⟩,
    Setup.failed_of_aborting loaded, Setup.attempted hw _, Setup.launches_initial _⟩
  · rw [Setup.report_eq loaded, ← plan_files, List.length_map]
  · rw [Setup.report_eq loaded]
    exact Bytes.sort_pairwise _
  · rw [Setup.report_eq loaded]
    exact sortFailures_pairwise _
  · exact ((r.ledger (plan files)).books.going going).1

private def bird (name : String) (kind : Int32) : File where
  name := some (utf8 name)
  messages := [some {
    name := some (utf8 "Bird")
    fields := [some { name := some (utf8 "egg"), number := some 1, type := some kind }] }]

private def flockFiles : List (Option File) :=
  [some (bird "crow" 11), none, some (bird "duck" 9), some (bird "auk" 9), some (bird "coot" 9)]

/-- Two jobs at work while the third is held, and then the work is cancelled. -/
private def flock (o : RenderOptions) : Setup Memory where
  work := { render := render o, sink := Memory.sink.refusing [utf8 "auk"], workers := 2, keepGoing := true }
  schedule _ := [.check, .start, .check, .start, .check, .advance 1, .advance 1, .advance 0, .cancel, .advance 1]
  source := Source.memory flockFiles
  sink := {}

theorem report_accounts_flock : 0 < (flock {}).work.workers ∧ (flock {}).loaded = .ok flockFiles ∧
    (flock {}).outcome.report.files = 4 ∧ (flock {}).outcome.report.written.Perm [utf8 "duck"] ∧
    (flock {}).outcome.report.failed.Perm [
      ⟨utf8 "crow", .render ⟨utf8 "crow", .schema (.unnamedType .message (utf8 "Bird.egg"))⟩⟩,
      ⟨utf8 "auk", .sink (.refused (utf8 "auk"))⟩] := by
  have loaded : (flock {}).loaded = .ok flockFiles := rfl
  obtain ⟨hfiles, -, hwritten, hfailed, -⟩ := report_accounts (flock {}) (by decide) loaded
  rw [show ((flock {}).attempts (plan flockFiles)).filterMap (Attempt.written? (flock {}).work) = [utf8 "duck"] by
    decide +kernel] at hwritten
  have hfailed := (hfailed rfl).2
  rw [show ((flock {}).attempts (plan flockFiles)).filterMap (Attempt.failure? (flock {}).work) = [
      ⟨utf8 "crow", .render ⟨utf8 "crow", .schema (.unnamedType .message (utf8 "Bird.egg"))⟩⟩,
      ⟨utf8 "auk", .sink (.refused (utf8 "auk"))⟩] by decide +kernel] at hfailed
  exact ⟨by decide, loaded, hfiles, hwritten, hfailed⟩

end ProtoRecovery.Dump
