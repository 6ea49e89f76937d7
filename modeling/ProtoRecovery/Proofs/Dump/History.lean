import ProtoRecovery.Dump.Run

/-! # Histories of a run: what each move does, which jobs it starts and which it attempts -/
namespace ProtoRecovery.Dump
variable {σ : Type}

/-- An attempt on a job, with what it met: whether the work had been cancelled, and the sink. -/
structure Attempt (σ : Type) where
  job : Job
  cancelled : Bool
  sink : σ

/-- Why an attempt failed: the file was not rendered, or the sink did not take the text. -/
def Attempt.error? (w : Work σ) (x : Attempt σ) : Option FileError :=
  match w.render x.job.file with
  | .error e => some (.render e)
  | .ok text => (w.sink.write x.cancelled x.job.name text x.sink).1.map .sink

/-- What went wrong, if something did. -/
def errorOf : Except FileError Nat → Option FileError
  | .ok _ => none
  | .error e => some e

theorem errorOf_attempt (w : Work σ) (x : Attempt σ) :
    errorOf (w.attempt x.cancelled x.job x.sink).1 = x.error? w := by
  unfold Work.attempt Attempt.error?
  cases w.render x.job.file with
  | error e => rfl
  | ok text =>
    dsimp only
    rcases w.sink.write x.cancelled x.job.name text x.sink with ⟨_ | e, s⟩ <;> rfl

namespace State

/-- The job that a move starts. -/
def launch? (w : Work σ) (s : State σ) : Move → Option Job
  | .start => if s.active.length < w.workers then s.held else none
  | _ => none

/-- The attempt that a move makes. -/
def attempt? (s : State σ) : Move → Option (Attempt σ)
  | .advance i => (s.active[i]?).bind fun
    | ⟨job, .announced⟩ => some ⟨job, s.cancelled, s.sink⟩
    | _ => none
  | _ => none

end State

/-- The state in which the loop has all jobs before it. -/
def begin (jobs : List Job) (cancelled : Bool) (sink : σ) : State σ :=
  { waiting := jobs, cancelledOutside := cancelled, sink }

/-- The state after a move, or the same state if the move is not possible; whoever watches may have
cancelled the work. -/
def after (w : Work σ) (watch : Event → Bool) (s : State σ) (move : Move) : State σ :=
  let next := (step w s move).getD s
  if (next.events.drop s.events.length).any (watch ·.event) then next.cancel else next

theorem after_cases (w : Work σ) (watch : Event → Bool) (s : State σ) (move : Move) :
    after w watch s move = (step w s move).getD s ∨ after w watch s move = ((step w s move).getD s).cancel := by
  unfold after
  dsimp only
  split
  · exact .inr rfl
  · exact .inl rfl

/-- Whoever watches changes nothing but the cancellation. -/
theorem apply_after {β : Type} (f : State σ → β) (hf : ∀ t, f t.cancel = f t) (w : Work σ) (watch : Event → Bool)
    (s : State σ) (move : Move) : f (after w watch s move) = f ((step w s move).getD s) := by
  rcases after_cases w watch s move with ha | ha
  · rw [ha]
  · rw [ha, hf]

/-- The jobs that are started along moves, in order. -/
def launches (w : Work σ) (watch : Event → Bool) : List Move → State σ → List Job
  | [], _ => []
  | move :: moves, s => (s.launch? w move).toList ++ launches w watch moves (after w watch s move)

/-- The attempts that are made along moves, in order. -/
def attempts (w : Work σ) (watch : Event → Bool) : List Move → State σ → List (Attempt σ)
  | [], _ => []
  | move :: moves, s => (s.attempt? move).toList ++ attempts w watch moves (after w watch s move)

theorem follow_cons (w : Work σ) (watch : Event → Bool) (move : Move) (moves : List Move) (s : State σ) :
    follow w watch (move :: moves) s = follow w watch moves (after w watch s move) := rfl

theorem follow_append (w : Work σ) (watch : Event → Bool) (moves more : List Move) (s : State σ) :
    follow w watch (moves ++ more) s = follow w watch more (follow w watch moves s) := by
  induction moves generalizing s with
  | nil => rfl
  | cons move moves ih => exact ih (after w watch s move)

/-- All that a move can do: the job that it starts, the attempt that it makes, and the next state. -/
inductive Effect (w : Work σ) (s : State σ) : Option Job → Option (Attempt σ) → State σ → Prop
  | idle : Effect w s none none s
  | cancel : Effect w s none none s.cancel
  | close (held : s.held = none) (ending : s.cancelled = true ∨ s.waiting = []) :
      Effect w s none none { s with closed := true }
  | accept {job : Job} {waiting : List Job} (isOpen : s.closed = false) (held : s.held = none)
      (going : s.cancelled = false) (next : s.waiting = job :: waiting) :
      Effect w s none none { s with held := some job, waiting }
  | launch {job : Job} (held : s.held = some job) (room : s.active.length < w.workers) :
      Effect w s (some job) none { s with held := none, active := s.active ++ [{ job }] }
  | announce {i : Nat} {job : Job} (at' : s.active[i]? = some ⟨job, .launched⟩) :
      Effect w s none none ((s.set i ⟨job, .launched⟩ .announced).publish w (.fileStarted job.name))
  | attempt {i : Nat} {job : Job} (at' : s.active[i]? = some ⟨job, .announced⟩) :
      Effect w s none (some ⟨job, s.cancelled, s.sink⟩)
        { s.set i ⟨job, .announced⟩ (.attempted (w.attempt s.cancelled job s.sink).1) with
          sink := (w.attempt s.cancelled job s.sink).2 }
  | report {i : Nat} {job : Job} {result : Except FileError Nat}
      (at' : s.active[i]? = some ⟨job, .attempted result⟩) :
      Effect w s none none
        ((s.set i ⟨job, .attempted result⟩ (.reported result)).publish w (.ofAttempt job.name result))
  | write {i : Nat} {job : Job} {size : Nat} (at' : s.active[i]? = some ⟨job, .reported (.ok size)⟩) :
      Effect w s none none
        { s.set i ⟨job, .reported (.ok size)⟩ (.recorded none) with written := s.written ++ [job.name] }
  | skip {i : Nat} {job : Job} {e : FileError} (going : w.keepGoing = true)
      (at' : s.active[i]? = some ⟨job, .reported (.error e)⟩) :
      Effect w s none none
        { s.set i ⟨job, .reported (.error e)⟩ (.recorded none) with
          failed := s.failed ++ [⟨job.name, e⟩], log := s.log ++ [.skipped ⟨job.name, e⟩] }
  | fail {i : Nat} {job : Job} {e : FileError} (aborting : w.keepGoing = false)
      (at' : s.active[i]? = some ⟨job, .reported (.error e)⟩) :
      Effect w s none none (s.set i ⟨job, .reported (.error e)⟩ (.recorded (some ⟨job.name, e⟩)))
  | settle {i : Nat} {job : Job} (at' : s.active[i]? = some ⟨job, .recorded none⟩) :
      Effect w s none none (s.set i ⟨job, .recorded none⟩ .settled)
  | settleLater {i : Nat} {job : Job} {f : Failure} (known : s.failure.isSome = true)
      (at' : s.active[i]? = some ⟨job, .recorded (some f)⟩) :
      Effect w s none none (s.set i ⟨job, .recorded (some f)⟩ .settled)
  | settleFirst {i : Nat} {job : Job} {f : Failure} (first : s.failure = none)
      (at' : s.active[i]? = some ⟨job, .recorded (some f)⟩) :
      Effect w s none none
        { s.set i ⟨job, .recorded (some f)⟩ .settled with failure := some f, cancelledInside := true }
  | leave {i : Nat} {job : Job} (at' : s.active[i]? = some ⟨job, .settled⟩) :
      Effect w s none none { s with active := s.active.eraseIdx i }

theorem effect_advance (w : Work σ) {s : State σ} {i : Nat} {a : Active} (h : s.active[i]? = some a) :
    Effect w s none (s.attempt? (.advance i)) (s.advance w i a) := by
  obtain ⟨job, phase⟩ := a
  rw [State.attempt?, h]
  cases phase with
  | launched => exact .announce h
  | announced => exact .attempt h
  | attempted result => exact .report h
  | reported result =>
    cases result with
    | ok size => exact .write h
    | error e =>
      simp only [State.advance, State.record]
      split
      · next going => exact .skip going h
      · next aborting => exact .fail (Bool.eq_false_iff.2 aborting) h
  | recorded failure =>
    cases failure with
    | none => exact .settle h
    | some f =>
      simp only [State.advance, State.settle]
      split
      · next known => exact .settleLater known h
      · next first => exact .settleFirst (Option.not_isSome_iff_eq_none.1 first) h
  | settled => exact .leave h

theorem effect_step (w : Work σ) (s : State σ) (move : Move) :
    Effect w s (s.launch? w move) (s.attempt? move) ((step w s move).getD s) := by
  cases move with
  | check =>
    simp only [step]
    split
    · exact .idle
    · next h =>
      obtain ⟨isOpen, held⟩ : s.closed = false ∧ s.held = none := by simpa using h
      split
      · next ending => exact .close held (.inl ending)
      · next going =>
        split
        · next ending => exact .close held (.inr ending)
        · next next => exact .accept isOpen held (Bool.eq_false_iff.2 going) next
  | start =>
    rw [State.launch?, step]
    cases held : s.held with
    | none => simpa [State.attempt?] using Effect.idle
    | some job =>
      dsimp only
      split
      · next room => exact .launch held room
      · exact .idle
  | advance i =>
    rw [step]
    cases h : s.active[i]? with
    | none => simpa [State.launch?, State.attempt?, h] using Effect.idle
    | some a => exact effect_advance w h
  | cancel => exact .cancel

/-- What each effect keeps, all moves keep: the jobs started and the attempts made grow along the way. -/
theorem follow_invariant {w : Work σ} {watch : Event → Bool} {P : List Job → List (Attempt σ) → State σ → Prop}
    (keeps : ∀ {launched tried s job x t}, P launched tried s → Effect w s job x t →
      P (launched ++ job.toList) (tried ++ x.toList) t)
    (moves : List Move) {launched : List Job} {tried : List (Attempt σ)} {s : State σ} (h : P launched tried s) :
    P (launched ++ launches w watch moves s) (tried ++ attempts w watch moves s) (follow w watch moves s) := by
  induction moves generalizing launched tried s with
  | nil => simpa [launches, attempts] using! h
  | cons move moves ih =>
    have hstep := keeps h (effect_step w s move)
    -- That somebody who watches cancels the work is an effect of its own.
    have hafter : P (launched ++ (s.launch? w move).toList) (tried ++ (s.attempt? move).toList)
        (after w watch s move) := by
      rcases after_cases w watch s move with ha | ha <;> rw [ha]
      · exact hstep
      · simpa using keeps hstep .cancel
    simpa [launches, attempts, follow_cons] using ih hafter

end ProtoRecovery.Dump
