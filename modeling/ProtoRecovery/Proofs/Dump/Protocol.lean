import ProtoRecovery.Proofs.Dump.Diary

/-! # Protocol: the events of a run from the first to the last -/
namespace ProtoRecovery.Dump
variable {σ : Type} {w : Work σ} {s t : State σ} {job : Option Job} {x : Option (Attempt σ)}

/-- The name that an event tells to be written. -/
def Event.wrote? : Event → Option Bytes
  | .fileFinished name _ none => some name
  | _ => none

/-- The name that is told to be written and is not yet entered. -/
def Active.entering (a : Active) : List Bytes :=
  match a.phase with
  | .reported (.ok _) => [a.job.name]
  | _ => []

/-- What is told to be written is entered, or about to be. -/
def State.Tallies (s : State σ) : Prop :=
  (↑(s.events.filterMap fun notice => notice.event.wrote?) : Multiset Bytes) =
    ↑s.written + tally Active.entering s.active

theorem State.Tallies.step (hs : s.Tallies) (h : Effect w s job x t) : t.Tallies := by
  unfold State.Tallies at hs ⊢
  cases h with
  | idle | cancel | close | accept => exact hs
  | launch => simpa [Active.entering] using hs
  | @report i job result h =>
    rw [tally_eq h] at hs
    cases result with
    | ok size =>
      simp only [State.publish, State.set, tally_set h, List.filterMap_append, ← Multiset.coe_add, hs]
      simp [Active.entering, Event.ofAttempt, Event.wrote?, add_comm]
    | error e =>
      simp only [State.publish, State.set, tally_set h, List.filterMap_append, ← Multiset.coe_add, hs]
      simp [Active.entering, Event.ofAttempt, Event.wrote?]
  | write h =>
    simp only [State.set, tally_set h, hs, tally_eq h, ← Multiset.coe_add]
    simp [Active.entering, add_assoc]
  | leave h => simpa [tally_eq h, Active.entering] using hs
  | announce h =>
    rw [tally_eq h] at hs
    simp only [State.publish, State.set, tally_set h, List.filterMap_append, ← Multiset.coe_add, hs]
    simp [Active.entering, Event.wrote?]
  | attempt h | skip _ h | fail _ h | settle h | settleLater _ h | settleFirst _ h =>
    rw [tally_eq h] at hs
    simp only [State.set, tally_set h, hs]
    simp [Active.entering]

theorem tallies_follow (w : Work σ) (watch : Event → Bool) (moves : List Move) (jobs : List Job) (cancelled : Bool)
    (sink : σ) : (follow w watch moves (begin jobs cancelled sink)).Tallies :=
  @follow_invariant σ w watch (fun _ _ s => s.Tallies) (fun hs h => hs.step h) moves [] [] _ rfl

theorem joinMessages_eq_none {messages : List (Option Bytes)} :
    joinMessages messages = none ↔ ∀ message ∈ messages, message = none := by
  have h : messages.reduceOption = messages.filterMap id := rfl
  simp [joinMessages, h, List.filterMap_eq_nil_iff]

theorem Report.failures?_eq_none (r : Report) : r.failures? = none ↔ r.failed = [] := by
  simp [Report.failures?]

namespace Setup
variable {r : Setup σ} {files : List (Option Schema.File)}

/-- The jobs that are started, in order; none if nothing was loaded. -/
def started (r : Setup σ) : List Job :=
  match r.loaded with
  | .ok files => r.launches (plan files)
  | .error _ => []

/-- The attempts that are made, in order. -/
def tried (r : Setup σ) : List (Attempt σ) :=
  match r.loaded with
  | .ok files => r.attempts (plan files)
  | .error _ => []

theorem diary (r : Setup σ) (jobs : List Job) :
    ∃ crew told, Diary r.work (r.launches jobs) (r.attempts jobs) (r.final jobs) crew told := diary_follow ..

/-- A run waits for its jobs; without a place for any, none is started. -/
theorem final_active (r : Setup σ) (jobs : List Job) : (r.final jobs).active = [] := by
  rcases Nat.eq_zero_or_pos r.work.workers with hw | hw
  · obtain ⟨crew, told, h⟩ := r.diary jobs
    have hlength : (r.final jobs).active.length = crew.length := by simpa using h.crew.length_eq.symm
    exact List.length_eq_zero_iff.1 (by have := h.page.places; omega)
  · exact (r.finished hw jobs).2.2

/-- What is told while jobs are at work stands between the first event and the last. -/
theorem events_eq (loaded : r.loaded = .ok files) : r.outcome.events =
    ⟨r.work.run, .runStarted⟩ :: (r.final (plan files)).events ++
      [⟨r.work.run, .ofReport r.outcome.report r.outcome.error⟩] := by
  rw [outcome_of_ok loaded]

end Setup

/-- The last event carries the numbers of the report, and an error unless the run has none. -/
theorem Event.ofReport_eq (report : Report) (error : Option RunError) : ∃ message : Option Bytes,
    Event.ofReport report error =
      .runFinished report.files report.written.length report.failed.length message ∧
    (message = none ↔ error = none ∧ report.failed = []) := by
  refine ⟨_, rfl, ?_⟩
  rw [joinMessages_eq_none]
  simp [Report.failures?_eq_none]

/-- The events of a run, all under its name: the first tells its start and the last its end, with the
numbers of the report and an error unless there is none. Between them each job that was started has two
events, that of its start and later that of its end, which carries the size of the text that the sink took
or the error; at no time are more jobs between the two than there are workers; and the names that are told
to be written are those of the report. -/
theorem run_tells (r : Setup σ) : ∃ (told : List (Nat × Event)) (error : Option Bytes),
    r.outcome.events = ⟨r.work.run, .runStarted⟩ :: told.map (fun entry => Notice.mk r.work.run entry.2) ++
      [⟨r.work.run, .runFinished r.outcome.report.files r.outcome.report.written.length
        r.outcome.report.failed.length error⟩] ∧
    (error = none ↔ r.outcome.error = none ∧ r.outcome.report.failed = []) ∧
    (∀ entry ∈ told, entry.1 < r.started.length) ∧
    (∀ k job, r.started[k]? = some job → Complete r.work r.tried job (eventsOf told k)) ∧
    (∀ n (ks : List Nat), ks.Nodup → (∀ k ∈ ks, (eventsOf (told.take n) k).length = 1) →
      ks.length ≤ r.work.workers) ∧
    (told.filterMap fun entry => entry.2.wrote?).Perm r.outcome.report.written := by
  obtain ⟨error, hlast, herror⟩ := Event.ofReport_eq r.outcome.report r.outcome.error
  cases loaded : r.loaded with
  | error e =>
    refine ⟨[], error, ?_, herror, by simp, by simp [Setup.started, loaded], fun n ks _ between => ?_, ?_⟩
    · rw [← hlast, Setup.outcome_of_error loaded]
      rfl
    · cases ks with
      | nil => simp
      | cons k ks => simpa [eventsOf] using between k List.mem_cons_self
    · simp [Setup.outcome_of_error loaded]
  | ok files =>
    obtain ⟨crew, told, diary⟩ := r.diary (plan files)
    have hactive := r.final_active (plan files)
    have hcrew : crew = [] := by simpa [hactive] using diary.crew
    have htallies : (r.final (plan files)).Tallies := tallies_follow ..
    rw [State.Tallies, hactive, diary.events, tally_nil, add_zero, Multiset.coe_eq_coe, List.filterMap_map] at htallies
    refine ⟨told, error, ?_, herror, ?_, fun k job hjob => ?_, diary.room, ?_⟩
    · rw [Setup.events_eq loaded, hlast, diary.events]
    · simpa [Setup.started, loaded] using diary.page.about
    · simp only [Setup.started, loaded] at hjob
      simpa only [Setup.tried, loaded] using diary.page.gone k job hjob (by simp [hcrew])
    · rw [Setup.report_eq loaded]
      exact htallies.trans (Bytes.sort_perm _).symm

private def vessel (name : String) : Schema.File where
  name := some (utf8 name)
  messages := [some { name := some (utf8 "Hull") }]

/-- Two jobs at work, of which the second is done first. The sink refuses the text of the other. -/
private def harbour (o : RenderOptions) : Setup Memory where
  work := {
    run := utf8 "tide", render := render o, sink := Memory.sink.refusing [utf8 "tug"], workers := 2, keepGoing := true }
  schedule _ := [.check, .start, .check, .start, .advance 0, .advance 1, .advance 1, .advance 1, .advance 0]
  source := Source.memory [some (vessel "tug"), none, some (vessel "barge")]
  sink := {}

/-- What is told in the harbour between the first event and the last. -/
private def sailings : List Event :=
  [.fileStarted (utf8 "tug"), .fileStarted (utf8 "barge"), .fileFinished (utf8 "barge") 17 none,
    .fileFinished (utf8 "tug") 0 (some (utf8 "refused tug"))]

theorem run_tells_harbour :
    (harbour {}).outcome.events.map (·.event) = .runStarted :: sailings ++
      [.runFinished 2 1 1 (some (utf8 "1 error occurred:\n\t* tug: refused tug\n\n"))] ∧
    ∃ told : List (Nat × Event), told.map Prod.snd = sailings ∧
      Complete (harbour {}).work (harbour {}).tried ⟨utf8 "tug", vessel "tug"⟩ (eventsOf told 0) ∧
      Complete (harbour {}).work (harbour {}).tried ⟨utf8 "barge", vessel "barge"⟩ (eventsOf told 1) := by
  have events : (harbour {}).outcome.events.map (·.event) = .runStarted :: sailings ++
      [.runFinished 2 1 1 (some (utf8 "1 error occurred:\n\t* tug: refused tug\n\n"))] := by decide +kernel
  obtain ⟨told, error, htold, -, -, jobs, -⟩ := run_tells (harbour {})
  have between := events
  rw [htold, List.map_append, List.map_cons, List.map_map, List.cons_append, List.cons_append, List.cons.injEq] at between
  have hsailings := (List.append_inj' between.2 rfl).1
  exact ⟨events, told, hsailings, jobs 0 _ rfl, jobs 1 _ rfl⟩

end ProtoRecovery.Dump
