import ProtoRecovery.Proofs.Dump.History

/-! # Completion: a run with a place for a job never gets stuck, and waits for all its jobs -/
namespace ProtoRecovery.Dump
variable {σ : Type} {w : Work σ} {watch : Event → Bool} {s t : State σ}

/-- How much is left: the jobs that the loop still has to reach and its end, the job that it holds,
and the jobs at work. -/
def State.remaining (s : State σ) : Nat :=
  (bif s.closed then 0 else s.waiting.length + 1) + s.held.toList.length + s.active.length

theorem State.finished_of_remaining (h : s.remaining = 0) : s.finished = true := by
  unfold State.remaining at h
  cases closed : s.closed with
  | false => simp [closed] at h
  | true => simpa [State.finished, closed] using h

theorem Effect.remaining_le {job : Option Job} {x : Option (Attempt σ)} (h : Effect w s job x t) :
    t.remaining ≤ s.remaining := by
  cases h with
  | close => simp [State.remaining]
  | accept isOpen held going next => simp [State.remaining, isOpen, held, next]
  | launch held => simp [State.remaining, held]; omega
  | leave => simp [State.remaining, List.length_eraseIdx_le]
  | idle | cancel => exact Nat.le_refl _
  | announce | attempt | report | write | skip | fail | settle | settleLater | settleFirst =>
    exact Nat.le_of_eq (by simp [State.remaining, State.set, State.publish])

theorem remaining_after_le (w : Work σ) (watch : Event → Bool) (s : State σ) (move : Move) :
    (after w watch s move).remaining ≤ s.remaining := by
  rw [apply_after State.remaining fun _ => rfl]
  exact (effect_step w s move).remaining_le

theorem remaining_follow_le (w : Work σ) (watch : Event → Bool) (moves : List Move) (s : State σ) :
    (follow w watch moves s).remaining ≤ s.remaining := by
  induction moves generalizing s with
  | nil => exact Nat.le_refl _
  | cons move moves ih => exact Nat.le_trans (ih _) (remaining_after_le w watch s move)

/-- How many steps a job has before it, the one that gives up its place included. -/
def Phase.steps : Phase → Nat
  | .launched => 6
  | .announced => 5
  | .attempted _ => 4
  | .reported _ => 3
  | .recorded _ => 2
  | .settled => 1

theorem Phase.steps_pos (p : Phase) : 0 < p.steps := by cases p <;> simp [Phase.steps]

theorem Phase.steps_le (p : Phase) : p.steps ≤ 6 := by cases p <;> simp [Phase.steps]

/-- The first job at work gives up its place or comes closer to that. -/
theorem advance_first (w : Work σ) {a : Active} {rest : List Active} (h : s.active = a :: rest) :
    (s.advance w 0 a).remaining < s.remaining ∨
      ∃ b : Active, (s.advance w 0 a).active = b :: rest ∧ b.phase.steps < a.phase.steps := by
  obtain ⟨job, phase⟩ := a
  cases phase with
  | launched =>
    exact .inr ⟨⟨job, .announced⟩, by simp [State.advance, State.set, State.publish, h], by simp [Phase.steps]⟩
  | announced =>
    exact .inr ⟨⟨job, .attempted (w.attempt s.cancelled job s.sink).1⟩, by simp [State.advance, State.set, h],
      by simp [Phase.steps]⟩
  | attempted result =>
    exact .inr ⟨⟨job, .reported result⟩, by simp [State.advance, State.set, State.publish, h], by simp [Phase.steps]⟩
  | reported result =>
    have moved : ∃ f, (s.advance w 0 ⟨job, .reported result⟩).active = ⟨job, .recorded f⟩ :: rest := by
      cases result with
      | ok size => exact ⟨none, by simp [State.advance, State.record, State.set, h]⟩
      | error e =>
        simp only [State.advance, State.record]
        split
        · exact ⟨none, by simp [State.set, h]⟩
        · exact ⟨some ⟨job.name, e⟩, by simp [State.set, h]⟩
    obtain ⟨f, moved⟩ := moved
    exact .inr ⟨⟨job, .recorded f⟩, moved, by simp [Phase.steps]⟩
  | recorded failure =>
    have moved : (s.advance w 0 ⟨job, .recorded failure⟩).active = ⟨job, .settled⟩ :: rest := by
      cases failure with
      | none => simp [State.advance, State.settle, State.set, h]
      | some f =>
        simp only [State.advance, State.settle]
        split <;> simp [State.set, h]
    exact .inr ⟨⟨job, .settled⟩, moved, by simp [Phase.steps]⟩
  | settled => exact .inl (by simp [State.advance, State.remaining, h])

/-- As many steps as the first job at work has before it bring it to its end. -/
theorem remaining_advances (w : Work σ) (watch : Event → Bool) {n : Nat} {a : Active} {rest : List Active}
    (h : s.active = a :: rest) (hn : a.phase.steps ≤ n) :
    (follow w watch (List.replicate n (.advance 0)) s).remaining < s.remaining := by
  induction n generalizing s a with
  | zero => exact absurd hn (Nat.not_le.2 a.phase.steps_pos)
  | succ n ih =>
    have hstep : (step w s (.advance 0)).getD s = s.advance w 0 a := by simp [step, h]
    have hle := remaining_follow_le w watch (List.replicate n (.advance 0))
      (after w watch s (.advance 0))
    rw [List.replicate_succ, follow_cons]
    rcases advance_first w h with hless | ⟨b, hb, hsteps⟩
    · refine Nat.lt_of_le_of_lt hle ?_
      rwa [apply_after State.remaining fun _ => rfl, hstep]
    · refine Nat.lt_of_lt_of_le (ih (a := b) ?_ (by omega)) (remaining_after_le w watch s _)
      rwa [apply_after State.active fun _ => rfl, hstep]

theorem active_check (w : Work σ) (watch : Event → Bool) (s : State σ) :
    (after w watch s .check).active = s.active := by
  rw [apply_after State.active fun _ => rfl]
  simp only [step]
  split
  · rfl
  · split
    · rfl
    · split <;> rfl

/-- When the loop has looked, it holds a job or it is over. -/
theorem closed_check (w : Work σ) (watch : Event → Bool) (s : State σ) (held : (after w watch s .check).held = none) :
    (after w watch s .check).closed = true := by
  rw [apply_after State.held fun _ => rfl] at held
  rw [apply_after State.closed fun _ => rfl]
  revert held
  simp only [step]
  split
  · next h => intro held; simpa [show s.held = none from held] using h
  · split
    · intro; rfl
    · split
      · intro; rfl
      · intro held; cases held

/-- Where there is a place at all, nothing is at work after a start only if nothing was at work or held. -/
theorem idle_of_start (hw : 0 < w.workers) (watch : Event → Bool) (h : (after w watch s .start).active = []) :
    s.active = [] ∧ s.held = none := by
  rw [apply_after State.active fun _ => rfl] at h
  revert h
  simp only [step]
  cases held : s.held with
  | none => exact fun hnil => ⟨hnil, rfl⟩
  | some job =>
    dsimp only
    split
    · simp
    · next full =>
      intro hnil
      have room : s.active.length < w.workers := by simpa [show s.active = [] from hnil] using hw
      exact absurd room full

/-- One round of `serial`. -/
def round : List Move := .check :: .start :: .check :: List.replicate 6 (.advance 0)

/-- A round leaves less to do, as long as there is anything left. -/
theorem remaining_round (hw : 0 < w.workers) (watch : Event → Bool) (s : State σ) :
    (follow w watch round s).remaining ≤ s.remaining - 1 := by
  obtain ⟨looked, hlooked⟩ : ∃ t, after w watch s .check = t := ⟨_, rfl⟩
  obtain ⟨started, hstarted⟩ : ∃ t, after w watch looked .start = t := ⟨_, rfl⟩
  have hrounds : follow w watch round s =
      follow w watch (List.replicate 6 (.advance 0)) (after w watch started .check) := by
    rw [round, follow_cons, follow_cons, follow_cons, hlooked, hstarted]
  have h₁ := hlooked ▸ remaining_after_le w watch s .check
  have h₂ := hstarted ▸ remaining_after_le w watch looked .start
  have h₃ := remaining_after_le w watch started .check
  rw [hrounds]
  cases hactive : (after w watch started .check).active with
  | cons a rest =>
    have := remaining_advances w watch hactive a.phase.steps_le
    omega
  | nil =>
    -- nothing was at work and nothing was held, so the loop is over and all is done
    rw [active_check, ← hstarted] at hactive
    have hidle := idle_of_start hw watch hactive
    have hclosed : looked.closed = true := by
      rw [← hlooked] at hidle ⊢
      exact closed_check w watch s hidle.2
    have hnone : looked.remaining = 0 := by simp [State.remaining, hclosed, hidle]
    have := remaining_follow_le w watch (List.replicate 6 (.advance 0))
      (after w watch started .check)
    omega

theorem remaining_rounds (hw : 0 < w.workers) (watch : Event → Bool) (n : Nat) (s : State σ) :
    (follow w watch (List.replicate n round).flatten s).remaining ≤ s.remaining - n := by
  induction n generalizing s with
  | zero => exact Nat.le_refl _
  | succ n ih =>
    have h := remaining_round hw watch s
    have hrest := ih (follow w watch round s)
    rw [List.replicate_succ, List.flatten_cons, follow_append]
    omega

/-- Whatever the moves, a run that goes on in series after them comes to its end. -/
theorem finished_follow (hw : 0 < w.workers) (watch : Event → Bool) (moves : List Move) (jobs : List Job)
    (cancelled : Bool) (sink : σ) :
    (follow w watch (moves ++ serial jobs) (begin jobs cancelled sink)).finished = true := by
  apply State.finished_of_remaining
  have hbegin : (begin jobs cancelled sink).remaining = jobs.length + 1 := by simp [State.remaining, begin]
  have hmoves := remaining_follow_le w watch moves (begin jobs cancelled sink)
  have hserial := remaining_rounds hw watch (jobs.length + 1) (follow w watch moves (begin jobs cancelled sink))
  rw [follow_append, show serial jobs = (List.replicate (jobs.length + 1) round).flatten from rfl]
  omega

end ProtoRecovery.Dump
