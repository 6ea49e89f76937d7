import ProtoRecovery.Proofs.Dump.Success

/-! # Aborts: what still starts once a failure has ended a run, and which failure is reported -/
namespace ProtoRecovery

/-- The sink takes nothing once the work is cancelled. -/
def Sink.Heeds {σ : Type} (sink : Sink σ) : Prop := ∀ name text s, (sink.write true name text s).1 ≠ none

theorem Directory.heeds (d : Directory) : d.sink.Heeds := fun _ _ _ => Option.some_ne_none _

namespace Dump
open Schema
variable {σ : Type} {w : Work σ} {watch : Event → Bool} {jobs launched : List Job} {tried : List (Attempt σ)}
  {s t : State σ} {job : Option Job} {x : Option (Attempt σ)}

/-! ## After a cancellation -/

theorem Effect.held_of_cancelled (h : Effect w s job x t) (hs : s.cancelled = true) :
    job.toList ++ t.held.toList = s.held.toList := by
  cases h with
  | accept isOpen held going next => simp [hs] at going
  | launch held room => simp [held]
  | _ => rfl

theorem Effect.cancelled_attempt (h : Effect w s job x t) (hs : s.cancelled = true) :
    ∀ y ∈ x.toList, y.cancelled = true := by
  cases h with
  | attempt => simpa using hs
  | _ => simp

/-- The work is cancelled: no job is accepted, one that was accepted is still started, and an attempt
meets the cancellation. -/
structure WindingDown (accepted launched : List Job) (tried : List (Attempt σ)) (s : State σ) : Prop where
  cancelled : s.cancelled = true
  order : launched ++ s.held.toList = accepted
  late : ∀ y ∈ tried, y.cancelled = true

theorem WindingDown.step {accepted : List Job} (hs : WindingDown accepted launched tried s) (h : Effect w s job x t) :
    WindingDown accepted (launched ++ job.toList) (tried ++ x.toList) t where
  cancelled := h.cancelled hs.cancelled
  order := by rw [List.append_assoc, h.held_of_cancelled hs.cancelled, hs.order]
  late := List.forall_mem_append.2 ⟨hs.late, h.cancelled_attempt hs.cancelled⟩

theorem windingDown_follow (w : Work σ) (watch : Event → Bool) (hs : s.cancelled = true) (moves : List Move) :
    WindingDown s.held.toList (launches w watch moves s) (attempts w watch moves s) (follow w watch moves s) := by
  have start : WindingDown s.held.toList [] [] s := ⟨hs, List.nil_append _, by simp⟩
  simpa using follow_invariant (fun hs h => WindingDown.step hs h) moves start

/-! ## One place for jobs -/

/-- Where failures end the run, one that an attempt ended in has cancelled the work or is about to. -/
theorem Ledger.doomed (hs : Ledger w jobs launched tried s) (aborting : w.keepGoing = false) {y : Attempt σ}
    (hy : y ∈ tried) (failed : y.error? w ≠ none) :
    s.cancelledInside = true ∨ tally Active.failures s.active ≠ 0 := by
  obtain ⟨lost, hlost, hnone⟩ := hs.books.failed
  rw [hs.causes.inside, Option.isSome_iff_ne_none, ← imp_iff_not_or]
  intro failure hzero
  rw [hs.books.aborting aborting, hnone.1 failure, hzero] at hlost
  have fine := List.filterMap_eq_nil_iff.1 ((Multiset.coe_eq_zero _).1 (by simpa using hlost)) y hy
  exact failed (Attempt.failure?_eq_none.1 fine)

theorem eq_singleton_of_getElem? {active : List Active} {i : Nat} {a : Active} (room : active.length ≤ 1)
    (h : active[i]? = some a) : i = 0 ∧ active = [a] := by
  obtain ⟨hi, rfl⟩ := List.getElem?_eq_some_iff.1 h
  obtain rfl : i = 0 := by omega
  exact ⟨rfl, List.eq_getElem_of_length_eq_one active (by omega)⟩

theorem Effect.room (h : Effect w s job x t) (one : w.workers = 1) (hs : s.active.length ≤ 1) :
    t.active.length ≤ 1 := by
  cases h with
  | idle | cancel | close | accept => exact hs
  | launch held room =>
    rw [one] at room
    simpa using room
  | leave h => exact (List.length_eraseIdx_le ..).trans hs
  | announce | attempt | report | write | skip | fail | settle | settleLater | settleFirst =>
    simpa [State.set, State.publish] using hs

theorem Effect.order (h : Effect w s job x t) (one : w.workers = 1) (room : s.active.length ≤ 1) :
    s.active.flatMap Active.untried ++ job.toList = x.toList.map Attempt.job ++ t.active.flatMap Active.untried := by
  cases h with
  | idle | cancel | close | accept => simp [State.cancel]
  | launch held free =>
    have hnil : s.active = [] := List.length_eq_zero_iff.1 (by omega)
    simp [hnil, Active.untried]
  | announce h | attempt h | report h | write h | skip _ h | fail _ h | settle h | settleLater _ h
  | settleFirst _ h | leave h =>
    obtain ⟨rfl, hactive⟩ := eq_singleton_of_getElem? room h
    simp [State.set, State.publish, hactive, Active.untried]

theorem Effect.cancelledInside (h : Effect w s job x t) (hs : s.cancelledInside = true) :
    t.cancelledInside = true := by
  cases h with
  | settleFirst => rfl
  | _ => exact hs

/-- With one place for jobs they are attempted in their order, and when one has failed, at most one more
is started, which the loop had accepted before. -/
structure Single (w : Work σ) (jobs launched : List Job) (tried : List (Attempt σ)) (s : State σ) : Prop
    extends Ledger w jobs launched tried s where
  room : s.active.length ≤ 1
  order : launched = tried.map Attempt.job ++ s.active.flatMap Active.untried
  stop : ∀ {fine y later}, tried = fine ++ y :: later → y.error? w ≠ none →
    launched.length + s.held.toList.length ≤ fine.length + 2 ∧ (∀ z ∈ later, z.cancelled = true) ∧
    (s.cancelledInside = true ∨ launched.length = fine.length + 1)

theorem Single.stop_step (hs : Single w jobs launched tried s) (aborting : w.keepGoing = false) (one : w.workers = 1)
    (h : Effect w s job x t) {fine later : List (Attempt σ)} {y : Attempt σ}
    (split : tried ++ x.toList = fine ++ y :: later) (failed : y.error? w ≠ none) :
    (launched ++ job.toList).length + t.held.toList.length ≤ fine.length + 2 ∧ (∀ z ∈ later, z.cancelled = true) ∧
      (t.cancelledInside = true ∨ (launched ++ job.toList).length = fine.length + 1) := by
  -- The job that failed held the place until its failure had cancelled the work.
  have cancelled : tally Active.failures s.active = 0 → ∀ y ∈ tried, y.error? w ≠ none → s.cancelledInside = true :=
    fun hzero y hy failed => (hs.toLedger.doomed aborting hy failed).resolve_right (not_not_intro hzero)
  have inside := h.cancelledInside
  cases h with
  | accept isOpen held going next =>
    obtain ⟨-, late, hinside | hcount⟩ := hs.stop (by simpa using split) failed
    · simp [State.cancelled, hinside] at going
    · exact ⟨by simp [hcount], late, .inr (by simpa using hcount)⟩
  | launch held room =>
    have hnil : s.active = [] := List.length_eq_zero_iff.1 (by omega)
    obtain ⟨hbound, late, -⟩ := hs.stop (by simpa using split) failed
    refine ⟨by simpa [held] using hbound, late, .inl (cancelled (by simp [hnil]) y ?_ failed)⟩
    simp [show tried = fine ++ y :: later by simpa using split]
  | @attempt i job h =>
    obtain ⟨rfl, hactive⟩ := eq_singleton_of_getElem? hs.room h
    have hlength : launched.length = tried.length + 1 := by simp [hs.order, hactive, Active.untried]
    rcases later.eq_nil_or_concat with rfl | ⟨more, z, rfl⟩
    · -- The attempt that failed is this one, and its job is the last that was started.
      obtain ⟨rfl, -⟩ := List.append_inj' split rfl
      have hheld : s.held.toList.length ≤ 1 := by cases s.held <;> simp
      refine ⟨?_, by simp, .inr (by simpa using hlength)⟩
      simp only [Option.toList_none, List.append_nil, State.set]
      omega
    · -- The failure came before, so this attempt meets a cancelled state.
      have hsplit : tried ++ [⟨job, s.cancelled, s.sink⟩] = (fine ++ y :: more) ++ [z] := by simpa using split
      obtain ⟨rfl, hz⟩ := List.append_inj' hsplit rfl
      obtain ⟨hbound, late, -⟩ := hs.stop rfl failed
      have hinside := cancelled (by simp [hactive, tally, Active.failures]) y (by simp) failed
      refine ⟨by simpa [State.set] using hbound, ?_, .inl hinside⟩
      obtain rfl : _ = z := by simpa using hz
      simpa [or_imp, forall_and, State.cancelled, hinside] using late
  | _ =>
    obtain ⟨hbound, late, hreason⟩ := hs.stop (by simpa using split) failed
    rw [Option.toList_none, List.append_nil]
    exact ⟨hbound, late, hreason.imp_left inside⟩

theorem Single.step (hs : Single w jobs launched tried s) (aborting : w.keepGoing = false) (one : w.workers = 1)
    (h : Effect w s job x t) : Single w jobs (launched ++ job.toList) (tried ++ x.toList) t where
  toLedger := hs.toLedger.step h
  room := h.room one hs.room
  order := by rw [hs.order, List.append_assoc, h.order one hs.room, List.map_append, List.append_assoc]
  stop := hs.stop_step aborting one h

theorem single_follow (watch : Event → Bool) (aborting : w.keepGoing = false) (one : w.workers = 1)
    (moves : List Move) (jobs : List Job) (cancelled : Bool) (sink : σ) :
    Single w jobs (launches w watch moves (begin jobs cancelled sink))
      (attempts w watch moves (begin jobs cancelled sink)) (follow w watch moves (begin jobs cancelled sink)) := by
  have start : Single w jobs [] [] (begin jobs cancelled sink) :=
    { toLedger := ledger_begin w jobs cancelled sink, room := by simp [begin], order := rfl, stop := by simp }
  simpa using follow_invariant (fun hs h => Single.step hs aborting one h) moves start

namespace Setup
variable {r : Setup σ} {files : List (Option File)} {fine later : List (Attempt σ)} {y : Attempt σ}

/-- The state that the first moves of a run lead to. -/
def reached (r : Setup σ) (jobs : List Job) (moves : List Move) : State σ :=
  follow r.work r.watch moves (begin jobs r.early r.sink)

theorem single (aborting : r.work.keepGoing = false) (one : r.work.workers = 1) (jobs : List Job) :
    Single r.work jobs (r.launches jobs) (r.attempts jobs) (r.final jobs) := single_follow r.watch aborting one ..

/-- All that was started was attempted, in the order in which it was started. -/
theorem attempts_eq_launches (aborting : r.work.keepGoing = false) (one : r.work.workers = 1) (jobs : List Job) :
    (r.attempts jobs).map Attempt.job = r.launches jobs := by
  have order := (single aborting one jobs).order
  rw [(r.finished (by omega) jobs).2.2] at order
  simpa using order.symm

theorem length_later (aborting : r.work.keepGoing = false) (one : r.work.workers = 1) {jobs : List Job}
    (split : r.attempts jobs = fine ++ y :: later) (failed : y.error? r.work ≠ none) : later.length ≤ 1 := by
  obtain ⟨hbound, -, -⟩ := (single aborting one jobs).stop split failed
  rw [← attempts_eq_launches aborting one, split] at hbound
  simp only [List.length_map, List.length_append, List.length_cons] at hbound
  omega

theorem written_perm_split (hw : 0 < r.work.workers) (loaded : r.loaded = .ok files)
    (split : r.attempts (plan files) = fine ++ y :: later) (hfine : ∀ z ∈ fine, z.error? r.work = none)
    (failed : y.error? r.work ≠ none) :
    r.outcome.report.written.Perm (fine.map (·.job.name) ++ later.filterMap (Attempt.written? r.work)) := by
  obtain ⟨e, he⟩ := Option.ne_none_iff_exists'.1 failed
  have h := written_perm hw loaded
  rwa [split, List.filterMap_append, written_of_fine hfine, List.map_map,
    List.filterMap_cons_none (by simp [Attempt.written?, he])] at h

end Setup

theorem Attempt.written?_of_cancelled (heeds : w.sink.Heeds) {y : Attempt σ} (late : y.cancelled = true) :
    y.written? w = none := by
  unfold written? error?
  cases w.render y.job.file with
  | error e => rfl
  | ok text =>
    obtain ⟨e, he⟩ := Option.ne_none_iff_exists'.1 (heeds y.job.name text y.sink)
    simp [late, he]

/-- Once the work is cancelled, of the jobs that are not started only the one that the loop had accepted
still is, and what is attempted meets the cancellation. So where failures end the run and there is one
place for jobs, at most one job is attempted after the first that failed, and the names of the jobs before
that one are written, with the name of that job if the sink takes it all the same. -/
theorem abort_leaves_accepted (r : Setup σ) (aborting : r.work.keepGoing = false) {files : List (Option File)}
    (loaded : r.loaded = .ok files) :
    (∀ earlier moves, (r.reached (plan files) earlier).cancelled = true →
      launches r.work r.watch moves (r.reached (plan files) earlier) <+:
        (r.reached (plan files) earlier).held.toList ∧
      ∀ y ∈ attempts r.work r.watch moves (r.reached (plan files) earlier), y.cancelled = true) ∧
    (r.work.workers = 1 → ∀ fine y later, r.attempts (plan files) = fine ++ y :: later →
      (∀ z ∈ fine, z.error? r.work = none) → y.error? r.work ≠ none →
      fine.map Attempt.job ++ [y.job] <+: plan files ∧ later.length ≤ 1 ∧ (∀ z ∈ later, z.cancelled = true) ∧
      r.outcome.report.written.Perm (fine.map (·.job.name) ++ later.filterMap (Attempt.written? r.work)) ∧
      (r.work.sink.Heeds → r.outcome.report.written.Perm (fine.map (·.job.name)))) := by
  constructor
  · intro earlier moves cancelled
    have h := windingDown_follow r.work r.watch cancelled moves
    exact ⟨⟨_, h.order⟩, h.late⟩
  · intro one fine y later split hfine failed
    obtain ⟨-, late, -⟩ := (Setup.single aborting one (plan files)).stop split failed
    have written := Setup.written_perm_split (by omega) loaded split hfine failed
    refine ⟨?_, Setup.length_later aborting one split failed, late, written, fun heeds => ?_⟩
    · have initial := Setup.launches_initial (r := r) (plan files)
      rw [← Setup.attempts_eq_launches aborting one, split, List.map_append, List.map_cons] at initial
      exact ((List.prefix_append_right_inj _).2 ((List.cons_prefix_cons).2 ⟨rfl, List.nil_prefix⟩)).trans initial
    · rwa [List.filterMap_eq_nil_iff.2 fun z hz => Attempt.written?_of_cancelled heeds (late z hz),
        List.append_nil] at written

private def egg (name : String) (kind : Int32) : File where
  name := some (utf8 name)
  package := some (utf8 "farm")
  messages := [some {
    name := some (utf8 "Egg")
    fields := [some { name := some (utf8 "shell"), number := some 1, type := some kind }] }]

private def eggs : List (Option File) := [some (egg "bad" 11), some (egg "next" 5), some (egg "last" 5)]

private def cracked : Failure :=
  ⟨utf8 "bad", .render ⟨utf8 "bad", .schema (.unnamedType .message (utf8 "farm.Egg.shell"))⟩⟩

private def brood (o : RenderOptions) : Setup Memory where
  work := { render := render o, sink := Memory.sink, workers := 1, keepGoing := false }
  source := Source.memory eggs
  sink := {}

private def nest (o : RenderOptions) (workers : Nat) : Setup Disk where
  work := { render := render o, sink := (Directory.mk (utf8 "out")).sink, workers, keepGoing := false }
  -- The second job, if it has a place, meets the cancellation and leaves before the first.
  schedule _ := [.check, .start, .check, .start] ++ List.replicate 5 (.advance 0) ++ List.replicate 6 (.advance 1)
  source := Source.memory eggs
  sink := {}

private theorem brood_attempts : (brood {}).attempts (plan eggs) ≠ [] := List.ne_nil_of_length_pos (by decide +kernel)

private theorem nest_attempts : (nest {} 1).attempts (plan eggs) ≠ [] := List.ne_nil_of_length_pos (by decide +kernel)

theorem abort_leaves_accepted_brood :
    ((brood {}).attempts (plan eggs)).tail.length ≤ 1 ∧ (brood {}).outcome.report.written.Perm [utf8 "next"] ∧
    (nest {} 1).outcome.report.written.Perm [] := by
  have inMemory : (brood {}).loaded = .ok eggs := rfl
  have onDisk : (nest {} 1).loaded = .ok eggs := rfl
  obtain ⟨-, few, -, taken, -⟩ := (abort_leaves_accepted (brood {}) rfl inMemory).2 rfl [] _ _
    (List.cons_head_tail brood_attempts).symm (by simp) (by decide +kernel)
  rw [show ((brood {}).attempts (plan eggs)).tail.filterMap (Attempt.written? (brood {}).work) = [utf8 "next"] by
    decide +kernel] at taken
  obtain ⟨-, -, -, -, untaken⟩ := (abort_leaves_accepted (nest {} 1) rfl onDisk).2 rfl [] _ _
    (List.cons_head_tail nest_attempts).symm (by simp) (by decide +kernel)
  exact ⟨few, taken, untaken (Directory.heeds _)⟩

/-- The job after the first that failed is started when the failure has cancelled the work, and is written. -/
theorem accepted_job_starts : ∃ earlier moves, (brood {}).moves (plan eggs) = earlier ++ moves ∧
    ((brood {}).reached (plan eggs) earlier).failure = some cracked ∧
    ((brood {}).reached (plan eggs) earlier).cancelledInside = true ∧
    (launches (brood {}).work (brood {}).watch moves ((brood {}).reached (plan eggs) earlier)).map Job.name =
      [utf8 "next"] ∧
    (brood {}).outcome.error = some (.file cracked) ∧ (brood {}).outcome.report.written = [utf8 "next"] :=
  ⟨((brood {}).moves (plan eggs)).take 8, ((brood {}).moves (plan eggs)).drop 8, (List.take_append_drop ..).symm,
    by decide +kernel, by decide +kernel, by decide +kernel, by decide +kernel, by decide +kernel⟩

/-- The error of a run that nobody disturbs is a failure, and one that came before the work was
cancelled: none of those that the cancellation brings about. -/
theorem abort_reports_cause (r : Setup σ) {files : List (Option File)} (loaded : r.loaded = .ok files)
    (undisturbed : r.Undisturbed (plan files)) {e : RunError} (h : r.outcome.error = some e) :
    ∃ x ∈ r.attempts (plan files), ∃ err, x.job ∈ plan files ∧ x.cancelled = false ∧ x.error? r.work = some err ∧
      e = .file ⟨x.job.name, err⟩ ∧ e.message = utf8 "dump: " ++ (x.job.name ++ utf8 ": " ++ err.message) := by
  obtain ⟨-, herror⟩ := Prod.mk.inj (Setup.conclusion loaded)
  have hoff : (r.final (plan files)).cancelledOutside = false := undisturbed
  simp only [h, hoff, Bool.false_eq_true, if_false, Option.or_none] at herror
  obtain ⟨f, hf, rfl⟩ := Option.map_eq_some_iff.1 herror.symm
  obtain ⟨x, hx, calm, hfailure⟩ := (r.ledger (plan files)).causes.cause f hf hoff
  obtain ⟨err, herr, rfl⟩ := Option.map_eq_some_iff.1 hfailure
  exact ⟨x, hx, err, Setup.job_mem hx, calm, herr, rfl, rfl⟩

theorem abort_reports_cause_nest : (nest {} 2).loaded = .ok eggs ∧
    ((nest {} 2).attempts (plan eggs)).map (Attempt.failure? (nest {} 2).work) =
      [some cracked, some ⟨utf8 "next", .sink .cancelled⟩] ∧
    ∃ x ∈ (nest {} 2).attempts (plan eggs), ∃ err, x.cancelled = false ∧ x.error? (nest {} 2).work = some err ∧
      RunError.file cracked = .file ⟨x.job.name, err⟩ := by
  have loaded : (nest {} 2).loaded = .ok eggs := rfl
  have herror : (nest {} 2).outcome.error = some (.file cracked) := by decide +kernel
  obtain ⟨x, hx, err, -, calm, herr, hfile, -⟩ := abort_reports_cause (nest {} 2) loaded (by decide +kernel) herror
  exact ⟨loaded, by decide +kernel, x, hx, err, calm, herr, hfile⟩

end Dump
end ProtoRecovery
