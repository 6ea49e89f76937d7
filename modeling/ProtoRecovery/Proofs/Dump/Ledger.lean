import ProtoRecovery.Proofs.Dump.Books

/-! # The ledger of a run: the loop, the books, and who cancelled the work -/
namespace ProtoRecovery.Dump
variable {σ : Type} {w : Work σ} {jobs launched : List Job} {tried : List (Attempt σ)} {s t : State σ}
  {job : Option Job} {x : Option (Attempt σ)}

theorem Effect.cancelledOutside (h : Effect w s job x t) (hs : s.cancelledOutside = true) :
    t.cancelledOutside = true := by
  cases h with
  | cancel => rfl
  | _ => exact hs

theorem Effect.cancelled (h : Effect w s job x t) (hs : s.cancelled = true) : t.cancelled = true := by
  cases h with
  | cancel | settleFirst => simp [State.cancelled, State.cancel]
  | _ => exact hs

/-- The loop takes the jobs in their order, and ends only when none is left or the work is cancelled. -/
structure Loop (jobs launched : List Job) (s : State σ) : Prop where
  order : launched ++ (s.held.toList ++ s.waiting) = jobs
  ended : s.closed = true → s.held = none ∧ (s.cancelled = true ∨ s.waiting = [])

theorem Loop.step (hs : Loop jobs launched s) (h : Effect w s job x t) : Loop jobs (launched ++ job.toList) t where
  order := by
    have order := hs.order
    cases h with
    | accept isOpen held going next => simpa [held, next] using order
    | launch held room => simpa [held] using order
    | _ => simpa using! order
  ended := by
    intro closed
    cases h with
    | close held ending => exact ⟨held, ending⟩
    | accept isOpen held going next => simp [isOpen] at closed
    | launch held room =>
      obtain ⟨hnone, -⟩ := hs.ended closed
      cases held.symm.trans hnone
    | cancel | settleFirst => exact ⟨(hs.ended closed).1, .inl (by simp [State.cancelled, State.cancel])⟩
    | _ => exact hs.ended closed

/-- Only the failure that ends a run cancels it from inside, and that failure came before. -/
structure Causes (w : Work σ) (tried : List (Attempt σ)) (s : State σ) : Prop where
  inside : s.cancelledInside = s.failure.isSome
  calm : s.cancelled = false → ∀ x ∈ tried, x.cancelled = false
  cause : ∀ f, s.failure = some f → s.cancelledOutside = false →
    ∃ x ∈ tried, x.cancelled = false ∧ x.failure? w = some f

/-- A failure on its way is that of an attempt. -/
theorem Books.mem_of_mem_tally (hs : Books w launched tried s) {f : Failure} (h : f ∈ tally Active.failures s.active) :
    ∃ x ∈ tried, x.failure? w = some f := by
  obtain ⟨lost, hlost, -⟩ := hs.failed
  have hf : f ∈ (↑(tried.filterMap (Attempt.failure? w)) : Multiset Failure) := hlost ▸ Multiset.mem_add.2 (.inr h)
  exact List.mem_filterMap.1 (Multiset.mem_coe.1 hf)

theorem Causes.step (hs : Causes w tried s) (books : Books w launched tried s) (h : Effect w s job x t) :
    Causes w (tried ++ x.toList) t where
  inside := by
    cases h with
    | settleFirst => rfl
    | _ => exact hs.inside
  calm := by
    intro going y hy
    have before : s.cancelled = false := Bool.eq_false_iff.2 fun hc => by simp [h.cancelled hc] at going
    rcases List.mem_append.1 hy with hy | hy
    · exact hs.calm before y hy
    · cases h with
      | attempt =>
        obtain rfl := List.mem_singleton.1 hy
        exact before
      | _ => cases hy
  cause := by
    intro f hf undisturbed
    have before : s.cancelledOutside = false :=
      Bool.eq_false_iff.2 fun hc => by simp [h.cancelledOutside hc] at undisturbed
    have earlier : s.failure = some f → ∃ y ∈ tried ++ x.toList, y.cancelled = false ∧ y.failure? w = some f := by
      intro hf
      obtain ⟨y, hy, hcause⟩ := hs.cause f hf before
      exact ⟨y, List.mem_append_left _ hy, hcause⟩
    -- Only a first failure is kept, and until it is nothing has cancelled the work from inside.
    cases h with
    | @settleFirst i job g first at' =>
      obtain rfl := Option.some.inj hf
      have pending : g ∈ tally Active.failures s.active := by simp [tally_eq at', Active.failures]
      obtain ⟨y, hy, hfailure⟩ := books.mem_of_mem_tally pending
      have going : s.cancelled = false := by simp [State.cancelled, before, hs.inside, first]
      exact ⟨y, List.mem_append_left _ hy, hs.calm going y hy, hfailure⟩
    | _ => exact earlier hf

/-- All that holds between two moves of a run. -/
structure Ledger (w : Work σ) (jobs launched : List Job) (tried : List (Attempt σ)) (s : State σ) : Prop where
  loop : Loop jobs launched s
  books : Books w launched tried s
  causes : Causes w tried s

theorem Ledger.step (hs : Ledger w jobs launched tried s) (h : Effect w s job x t) :
    Ledger w jobs (launched ++ job.toList) (tried ++ x.toList) t :=
  ⟨hs.loop.step h, hs.books.step h, hs.causes.step hs.books h⟩

theorem ledger_begin (w : Work σ) (jobs : List Job) (cancelled : Bool) (sink : σ) :
    Ledger w jobs [] [] (begin jobs cancelled sink) where
  loop := ⟨rfl, by simp [begin]⟩
  books := {
    started := rfl
    written := rfl
    failed := ⟨[], rfl, by simp [begin]⟩
    going := fun _ => ⟨rfl, rfl⟩
    aborting := fun _ => rfl }
  causes := ⟨rfl, by simp, by simp [begin]⟩

/-- The ledger holds after any moves. -/
theorem ledger_follow (w : Work σ) (watch : Event → Bool) (moves : List Move) (jobs : List Job) (cancelled : Bool)
    (sink : σ) : Ledger w jobs (launches w watch moves (begin jobs cancelled sink))
      (attempts w watch moves (begin jobs cancelled sink)) (follow w watch moves (begin jobs cancelled sink)) := by
  simpa using follow_invariant (fun hs h => Ledger.step hs h) moves (ledger_begin w jobs cancelled sink)

end ProtoRecovery.Dump
