import ProtoRecovery.Cli.Command
import ProtoRecovery.Proofs.Dump.Accounts
import ProtoRecovery.Wire.Encode

/-! # Success: a run without an error has done all its jobs -/
namespace ProtoRecovery

/-- As long as nothing is cancelled, the answers of a sink depend on name and text only. -/
def Sink.Settled {σ : Type} (sink : Sink σ) : Prop :=
  ∀ name text s t, (sink.write false name text s).1 = (sink.write false name text t).1

namespace Dump
open Schema
variable {σ : Type}

namespace Setup
variable {r : Setup σ} {files : List (Option File)}

/-- Nobody has cancelled the work from outside by the time the run looks for the last time. -/
def Undisturbed (r : Setup σ) (jobs : List Job) : Prop := (r.final jobs).cancelledOutside = false

instance (jobs : List Job) : Decidable (r.Undisturbed jobs) := inferInstanceAs (Decidable (_ = _))

/-- Each job was attempted once, and no attempt failed. -/
def WroteAll (r : Setup σ) (jobs : List Job) : Prop :=
  ((r.attempts jobs).map Attempt.job).Perm jobs ∧ ∀ x ∈ r.attempts jobs, x.error? r.work = none

theorem loaded_of_success (h : r.outcome.error = none) : ∃ files, r.loaded = .ok files := by
  cases hl : r.loaded with
  | ok files => exact ⟨files, rfl⟩
  | error e =>
    rw [outcome_of_error hl] at h
    cases h

theorem error_eq_none_iff (loaded : r.loaded = .ok files) :
    r.outcome.error = none ↔ (r.final (plan files)).failure = none ∧ r.Undisturbed (plan files) := by
  obtain ⟨-, herror⟩ := Prod.mk.inj (conclusion loaded)
  simp [herror, Undisturbed]

/-- Where no failure ended the run and nobody disturbed it, the work was never cancelled. -/
theorem calm {jobs : List Job} (failure : (r.final jobs).failure = none) (h : r.Undisturbed jobs) :
    (r.final jobs).cancelled = false := by
  have hoff : (r.final jobs).cancelledOutside = false := h
  simp [State.cancelled, hoff, (r.ledger jobs).causes.inside, failure]

/-- Such a run leaves no job out. -/
theorem launches_eq (hw : 0 < r.work.workers) {jobs : List Job} (failure : (r.final jobs).failure = none)
    (h : r.Undisturbed jobs) : r.launches jobs = jobs := by
  obtain ⟨closed, held, -⟩ := r.finished hw jobs
  have loop := (r.ledger jobs).loop
  obtain ⟨-, hcancelled | hwaiting⟩ := loop.ended closed
  · rw [calm failure h] at hcancelled
    cases hcancelled
  · simpa [held, hwaiting] using loop.order

theorem complete (hw : 0 < r.work.workers) {jobs : List Job} (failure : (r.final jobs).failure = none)
    (h : r.Undisturbed jobs) : ((r.attempts jobs).map Attempt.job).Perm jobs := by
  simpa [launches_eq hw failure h] using r.attempted hw jobs

end Setup

theorem Attempt.failure?_eq_none {w : Work σ} {x : Attempt σ} : x.failure? w = none ↔ x.error? w = none := by
  simp [failure?]

/-- An attempt writes a name or ends in a failure. -/
theorem length_results (w : Work σ) (tried : List (Attempt σ)) :
    (tried.filterMap (Attempt.written? w)).length + (tried.filterMap (Attempt.failure? w)).length = tried.length := by
  induction tried with
  | nil => rfl
  | cons x tried ih =>
    cases hx : x.error? w with
    | none => simp [Attempt.written?, Attempt.failure?, hx]; omega
    | some e => simp [Attempt.written?, Attempt.failure?, hx]; omega

theorem written_of_fine {w : Work σ} {tried : List (Attempt σ)} (h : ∀ x ∈ tried, x.error? w = none) :
    tried.filterMap (Attempt.written? w) = (tried.map Attempt.job).map Job.name := by
  rw [List.map_map, ← List.filterMap_eq_map]
  exact List.filterMap_congr fun x hx => by simp [Attempt.written?, h x hx]

namespace Setup
variable {r : Setup σ} {files : List (Option File)}

/-- Where no failure is reported and none ended the run, no attempt failed. -/
theorem fine_of_failed_nil (hw : 0 < r.work.workers) (loaded : r.loaded = .ok files)
    (failure : (r.final (plan files)).failure = none) (failed : r.outcome.report.failed = []) :
    ∀ x ∈ r.attempts (plan files), x.error? r.work = none := by
  have h := failed_perm hw loaded failure
  rw [failed] at h
  intro x hx
  exact Attempt.failure?_eq_none.1 (List.filterMap_eq_nil_iff.1 (List.nil_perm.1 h) x hx)

/-- A run without an error has attempted each job, and each is reported as written or as failed. -/
theorem complete_of_success (hw : 0 < r.work.workers) (success : r.outcome.error = none) :
    ∃ files, r.loaded = .ok files ∧ ((r.attempts (plan files)).map Attempt.job).Perm (plan files) ∧
      r.outcome.report.written.length + r.outcome.report.failed.length = r.outcome.report.files ∧
      (r.work.keepGoing = false →
        r.outcome.report.failed = [] ∧ r.outcome.report.written.Perm ((plan files).map Job.name)) := by
  obtain ⟨files, loaded⟩ := loaded_of_success success
  obtain ⟨failure, undisturbed⟩ := (error_eq_none_iff loaded).1 success
  have attempted := complete hw failure undisturbed
  have written := written_perm hw loaded
  refine ⟨files, loaded, attempted, ?_, fun aborting => ?_⟩
  · have hfiles : r.outcome.report.files = (plan files).length := by rw [report_eq loaded]
    rw [written.length_eq, (failed_perm hw loaded failure).length_eq, length_results, hfiles, ← attempted.length_eq,
      List.length_map]
  · have failed := failed_of_aborting loaded aborting
    rw [written_of_fine (fine_of_failed_nil hw loaded failure failed)] at written
    exact ⟨failed, written.trans (attempted.map Job.name)⟩

/-- Where no attempt failed before the work was cancelled, no failure ended the run. -/
theorem failure_eq_none {jobs : List Job} (undisturbed : r.Undisturbed jobs)
    (fine : ∀ x ∈ r.attempts jobs, x.cancelled = false → x.error? r.work = none) : (r.final jobs).failure = none := by
  refine Option.eq_none_iff_forall_ne_some.2 fun f hf => ?_
  obtain ⟨x, hx, hcalm, hfailure⟩ := (r.ledger jobs).causes.cause f hf undisturbed
  rw [Attempt.failure?_eq_none.2 (fine x hx hcalm)] at hfailure
  cases hfailure

/-- A run that nobody disturbs has no error, unless it stops at failures and an attempt failed. -/
theorem success_of_fine (loaded : r.loaded = .ok files) (undisturbed : r.Undisturbed (plan files))
    (fine : r.work.keepGoing = false → ∀ x ∈ r.attempts (plan files), x.error? r.work = none) :
    r.outcome.error = none := by
  refine (error_eq_none_iff loaded).2 ⟨?_, undisturbed⟩
  cases going : r.work.keepGoing with
  | true => exact ((r.ledger (plan files)).books.going going).1
  | false => exact failure_eq_none undisturbed fun x hx _ => fine going x hx

theorem wroteAll_of_success (hw : 0 < r.work.workers) (success : r.outcome.error = none)
    (failed : r.outcome.report.failed = []) : ∃ files, r.loaded = .ok files ∧ r.WroteAll (plan files) := by
  obtain ⟨files, loaded⟩ := loaded_of_success success
  obtain ⟨failure, undisturbed⟩ := (error_eq_none_iff loaded).1 success
  exact ⟨files, loaded, complete hw failure undisturbed, fine_of_failed_nil hw loaded failure failed⟩

end Setup

/-- The attempt on a job would not fail, whatever the state of the sink. -/
def Work.Manages (w : Work σ) (job : Job) : Prop := ∀ s, Attempt.error? w ⟨job, false, s⟩ = none

theorem manages_of_error? {w : Work σ} (h : w.sink.Settled) {x : Attempt σ} (calm : x.cancelled = false)
    (fine : x.error? w = none) : w.Manages x.job := by
  intro s
  rw [← fine]
  unfold Attempt.error?
  dsimp only
  rw [calm]
  cases w.render x.job.file with
  | error e => rfl
  | ok text => exact congrArg (Option.map FileError.sink) (h x.job.name text s x.sink)

theorem manages_congr {v w : Work σ} (render : v.render = w.render) (sink : v.sink = w.sink) (job : Job) :
    v.Manages job ↔ w.Manages job := by
  simp only [Work.Manages, Attempt.error?, render, sink]

/-- With such a sink and nobody to disturb it, a run succeeds without failures exactly when each job can
be done, whether it goes on after failures or not. -/
theorem Setup.clean_iff {r : Setup σ} {files : List (Option File)} (hw : 0 < r.work.workers)
    (settled : r.work.sink.Settled) (loaded : r.loaded = .ok files) (undisturbed : r.Undisturbed (plan files)) :
    r.outcome.error = none ∧ r.outcome.report.failed = [] ↔ ∀ job ∈ plan files, r.work.Manages job := by
  have causes := (r.ledger (plan files)).causes
  constructor
  · rintro ⟨success, failed⟩ job hjob
    have failure := ((error_eq_none_iff loaded).1 success).1
    obtain ⟨x, hx, rfl⟩ := List.mem_map.1 ((complete hw failure undisturbed).mem_iff.2 hjob)
    exact manages_of_error? settled (causes.calm (calm failure undisturbed) x hx)
      (fine_of_failed_nil hw loaded failure failed x hx)
  · intro manages
    have fine : ∀ x ∈ r.attempts (plan files), x.cancelled = false → x.error? r.work = none := by
      rintro ⟨job, _, sink⟩ hx rfl
      exact manages job (job_mem hx) sink
    have failure := failure_eq_none undisturbed fine
    refine ⟨(error_eq_none_iff loaded).2 ⟨failure, undisturbed⟩, ?_⟩
    have hnil : (r.attempts (plan files)).filterMap (Attempt.failure? r.work) = [] :=
      List.filterMap_eq_nil_iff.2 fun x hx =>
        Attempt.failure?_eq_none.2 (fine x hx (causes.calm (calm failure undisturbed) x hx))
    exact List.perm_nil.1 (hnil ▸ failed_perm hw loaded failure)

end Dump

namespace Cli
open Dump

/-- The run of a dump to the output. -/
def Settings.outputRun (s : Settings) (env : Environment) (source : Source) (options : RenderOptions) :
    Setup Stream where
  work := s.work env options (Stream.sink env.broken)
  schedule := env.schedule
  source := source
  request := { disk := env.disk }
  sink := {}

/-- The run of a dump into a directory. -/
def Settings.directoryRun (s : Settings) (env : Environment) (source : Source) (options : RenderOptions) :
    Setup Disk where
  work := s.work env options (if s.stamped then Directory.stamped ⟨s.out⟩ env.now else ⟨s.out⟩).sink
  schedule := env.schedule
  source := source
  request := { disk := env.disk }
  sink := env.disk

theorem dumpTo_error (s : Settings) (env : Environment) (source : Source) (options : RenderOptions) :
    (dumpTo s env source options).error = if s.out = utf8 "-" then conclusion (s.outputRun env source options).outcome
      else conclusion (s.directoryRun env source options).outcome := by
  unfold dumpTo
  dsimp only
  split <;> rfl

theorem conclusion_eq_none {σ : Type} {o : Outcome σ} (h : conclusion o = none) :
    o.error = none ∧ o.report.failed = [] := by
  unfold conclusion at h
  split at h
  · cases h
  · next success =>
    split at h
    · next failed => exact ⟨success, List.isEmpty_iff.1 failed⟩
    · cases h

theorem Settings.workers_pos {σ : Type} (s : Settings) {env : Environment} (h : 0 < env.processors)
    (options : RenderOptions) (sink : Sink σ) : 0 < (s.work env options sink).workers := by
  simp only [Settings.work]
  split
  · next hpos =>
    have hint : 0 < s.workers.toInt := by simpa using Int64.lt_iff_toInt_lt.1 hpos
    have hnat := s.workers.toNat_toInt
    omega
  · exact h

/-- A dump that ends without an error has come to its run. -/
theorem dump_eq_of_success {env : Environment} {arguments : List Bytes} (h : (dump env arguments).error = none) :
    ∃ s rest source options, readFlags Settings.flags {} arguments = .ok (s, rest) ∧ s.source env = .ok source ∧
      s.renderOptions = .ok options ∧ dump env arguments = dumpTo s env source options := by
  cases flags : readFlags Settings.flags {} arguments with
  | error e => simp [dump, flags] at h
  | ok read =>
    obtain ⟨s, rest⟩ := read
    cases out : s.out.isEmpty with
    | true => simp [dump, flags, out] at h
    | false =>
      cases hsource : s.source env with
      | error e => simp [dump, flags, out, hsource] at h
      | ok source =>
        cases hoptions : s.renderOptions with
        | error e => simp [dump, flags, out, hsource, hoptions] at h
        | ok options =>
          exact ⟨s, rest, source, options, rfl, hsource, hoptions, by simp [dump, flags, out, hsource, hoptions]⟩

/-- A dump that ends without an error has written each file that was loaded. -/
theorem wroteAll_of_dump {env : Environment} (hp : 0 < env.processors) {arguments : List Bytes}
    (success : (dump env arguments).error = none) :
    ∃ s rest source options files, readFlags Settings.flags {} arguments = .ok (s, rest) ∧
      s.source env = .ok source ∧ s.renderOptions = .ok options ∧ source { disk := env.disk } = .ok files ∧
      if s.out = utf8 "-" then (s.outputRun env source options).WroteAll (plan files)
      else (s.directoryRun env source options).WroteAll (plan files) := by
  obtain ⟨s, rest, source, options, flags, hsource, hoptions, hdump⟩ := dump_eq_of_success success
  rw [hdump, dumpTo_error] at success
  refine ⟨s, rest, source, options, ?_⟩
  split at success
  · next out =>
    obtain ⟨hrun, hfailed⟩ := conclusion_eq_none success
    obtain ⟨files, loaded, all⟩ := Setup.wroteAll_of_success (s.workers_pos hp options _) hrun hfailed
    exact ⟨files, flags, hsource, hoptions, loaded, by rwa [if_pos out]⟩
  · next out =>
    obtain ⟨hrun, hfailed⟩ := conclusion_eq_none success
    obtain ⟨files, loaded, all⟩ := Setup.wroteAll_of_success (s.workers_pos hp options _) hrun hfailed
    exact ⟨files, flags, hsource, hoptions, loaded, by rwa [if_neg out]⟩

end Cli
open Dump Schema

/-- A run that was cut short has an error. Without an error a run has attempted each job, and each is
reported; only a source that fails, a disturbance, or a failure that ends the run gives an error. A dump
without an error has written each file that was loaded. If the answers of the sink depend on name and text
only, a run that stops at failures succeeds exactly when one that goes on has none. -/
theorem no_truncated_success :
    (∀ {σ : Type} (r : Setup σ), 0 < r.work.workers → r.outcome.error = none →
      ∃ files, r.loaded = .ok files ∧ ((r.attempts (plan files)).map Attempt.job).Perm (plan files) ∧
        r.outcome.report.written.length + r.outcome.report.failed.length = r.outcome.report.files ∧
        (r.work.keepGoing = false →
          r.outcome.report.failed = [] ∧ r.outcome.report.written.Perm ((plan files).map Job.name))) ∧
    (∀ {σ : Type} (r : Setup σ) files, r.loaded = .ok files → r.Undisturbed (plan files) →
      (r.work.keepGoing = false → ∀ x ∈ r.attempts (plan files), x.error? r.work = none) → r.outcome.error = none) ∧
    (∀ (env : Cli.Environment) arguments, 0 < env.processors → (Cli.dump env arguments).error = none →
      ∃ s rest source options files, Cli.readFlags Cli.Settings.flags {} arguments = .ok (s, rest) ∧
        s.source env = .ok source ∧ s.renderOptions = .ok options ∧ source { disk := env.disk } = .ok files ∧
        if s.out = utf8 "-" then (s.outputRun env source options).WroteAll (plan files)
        else (s.directoryRun env source options).WroteAll (plan files)) ∧
    (∀ {σ : Type} (stopping going : Setup σ) files, 0 < stopping.work.workers → 0 < going.work.workers →
      stopping.work.keepGoing = false → going.work.keepGoing = true →
      stopping.work.render = going.work.render → stopping.work.sink = going.work.sink → going.work.sink.Settled →
      stopping.loaded = .ok files → going.loaded = .ok files →
      stopping.Undisturbed (plan files) → going.Undisturbed (plan files) →
      (stopping.outcome.error = none ↔ going.outcome.error = none ∧ going.outcome.report.failed = [])) := by
  refine ⟨fun r hw => r.complete_of_success hw, fun r files => r.success_of_fine,
    fun env arguments hp => Cli.wroteAll_of_dump hp, ?_⟩
  intro σ stopping going files hws hwg stops _ hrender hsink settled loadedS loadedG undisturbedS undisturbedG
  -- Both sides say that each job can be done: a run that stops at failures lists none.
  rw [Setup.clean_iff hwg settled loadedG undisturbedG,
    ← and_iff_left (a := stopping.outcome.error = none) (Setup.failed_of_aborting loadedS stops),
    Setup.clean_iff hws (hsink ▸ settled) loadedS undisturbedS]
  exact forall₂_congr fun job _ => manages_congr hrender hsink job

private def leaf (name : String) : File where
  name := some (utf8 name)
  messages := [some {
    name := some (utf8 "Leaf")
    fields := [some { name := some (utf8 "veins"), number := some 1, type := some 5 }] }]

private def leaves : List (Option File) := [some (leaf "oak"), none, some (leaf "elm")]

/-- Two jobs at work, of which the second is done first. -/
private def grove (o : RenderOptions) (refused : List Bytes) (keepGoing : Bool) : Setup Memory where
  work := { render := render o, sink := Memory.sink.refusing refused, workers := 2, keepGoing }
  schedule _ := [.check, .start, .check, .start, .advance 1, .advance 1, .advance 0]
  source := Source.memory leaves
  sink := {}

private def garden : Cli.Environment where
  disk := { nodes := [([utf8 "seeds"], .file (Wire.Encode.set [leaf "oak", leaf "elm"]))] }
  now := ⟨2024, 2, 29, 12, 0, 0⟩

private def harvest : List Bytes := [utf8 "-out=-", utf8 "-source.protoset=seeds", utf8 "-workers=2"]

private def harvested : Cli.Settings where
  out := utf8 "-"
  sets := [utf8 "seeds"]
  workers := 2

/-- What is read under some settings. -/
private def Cli.Settings.read? (s : Cli.Settings) (env : Cli.Environment) : Option (List (Option File)) :=
  (s.source env).toOption.bind fun source => (source { disk := env.disk }).toOption

private theorem settled_refusing (refused : List Bytes) : (Memory.sink.refusing refused).Settled := by
  intro name text s t
  simp only [Sink.refusing, Memory.sink]
  split
  · rfl
  · split <;> rfl

theorem no_truncated_success_grove :
    (grove {} [utf8 "oak"] true).outcome.report.written.length +
      (grove {} [utf8 "oak"] true).outcome.report.failed.length = 2 ∧
    (grove {} [] false).outcome.error = none ∧
    (∃ source options, (harvested.outputRun garden source options).WroteAll
      [⟨utf8 "oak", leaf "oak"⟩, ⟨utf8 "elm", leaf "elm"⟩]) ∧
    (grove {} [utf8 "oak"] false).outcome.error ≠ none := by
  obtain ⟨complete, fine, dumped, agree⟩ := no_truncated_success
  refine ⟨?_, ?_, ?_, ?_⟩
  · obtain ⟨-, -, -, hcount, -⟩ := complete (grove {} [utf8 "oak"] true) (by decide) (by decide +kernel)
    rw [hcount]
    rfl
  · exact fine (grove {} [] false) leaves rfl (by decide +kernel) (fun _ => by decide +kernel)
  · obtain ⟨s, rest, source, options, files, flags, hsource, -, hfiles, all⟩ :=
      dumped garden harvest (by decide) (by decide +kernel)
    have hread : Cli.readFlags Cli.Settings.flags {} harvest = .ok (harvested, []) := by decide +kernel
    cases hread.symm.trans flags
    have read : harvested.read? garden = some [some (leaf "oak"), some (leaf "elm")] := rfl
    rw [Cli.Settings.read?, hsource] at read
    simp only [Except.toOption, Option.bind_some, hfiles, Option.some.injEq] at read
    subst read
    exact ⟨source, options, all⟩
  · have h := agree (grove {} [utf8 "oak"] false) (grove {} [utf8 "oak"] true) leaves (by decide) (by decide)
      rfl rfl rfl rfl (settled_refusing _) rfl rfl (by decide +kernel) (by decide +kernel)
    have failed : (grove {} [utf8 "oak"] true).outcome.report.failed ≠ [] := by decide +kernel
    exact fun success => failed (h.1 success).2

end ProtoRecovery
