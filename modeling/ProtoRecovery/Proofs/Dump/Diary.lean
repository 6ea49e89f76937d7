import ProtoRecovery.Proofs.Dump.Accounts

/-! # The diary of a run: what it tells of each job, and in which order -/
namespace ProtoRecovery.Dump
variable {σ : Type} {w : Work σ} {launched : List Job} {tried more : List (Attempt σ)} {job : Job}

/-- The events of the job with a number, in order. -/
def eventsOf (told : List (Nat × Event)) (k : Nat) : List Event := (told.filter fun entry => entry.1 = k).map Prod.snd

theorem eventsOf_append (told later : List (Nat × Event)) (k : Nat) :
    eventsOf (told ++ later) k = eventsOf told k ++ eventsOf later k := by
  simp [eventsOf]

theorem eventsOf_toList (event : Option Event) (k n : Nat) :
    eventsOf (event.toList.map (k, ·)) n = if k = n then event.toList else [] := by
  cases event with
  | none => simp [eventsOf]
  | some e => by_cases h : k = n <;> simp [eventsOf, h]

/-- The event in which an attempt ends: the size of the text that the sink took, or the error and no size. -/
def Attempt.Finishes (w : Work σ) (x : Attempt σ) (finish : Event) : Prop :=
  (∃ text, w.render x.job.file = .ok text ∧ (w.sink.write x.cancelled x.job.name text x.sink).1 = none ∧
    finish = .fileFinished x.job.name text.length none) ∨
  ∃ e, x.error? w = some e ∧ finish = .fileFinished x.job.name 0 (some e.message)

theorem Attempt.finishes_ofAttempt (w : Work σ) (x : Attempt σ) :
    x.Finishes w (.ofAttempt x.job.name (w.attempt x.cancelled x.job x.sink).1) := by
  unfold Finishes Attempt.error? Work.attempt
  cases hrender : w.render x.job.file with
  | error e => exact .inr ⟨.render e, rfl, rfl⟩
  | ok text =>
    dsimp only
    rcases hwrite : w.sink.write x.cancelled x.job.name text x.sink with ⟨_ | e, sink⟩
    · exact .inl ⟨text, rfl, by rw [hwrite], rfl⟩
    · exact .inr ⟨.sink e, rfl, rfl⟩

/-- All is told of a job: that it was started, and how an attempt on it ended. -/
def Complete (w : Work σ) (tried : List (Attempt σ)) (job : Job) (events : List Event) : Prop :=
  ∃ x ∈ tried, x.job = job ∧ ∃ finish, x.Finishes w finish ∧ events = [.fileStarted job.name, finish]

theorem Complete.mono {events : List Event} (h : Complete w tried job events) (more : List (Attempt σ)) :
    Complete w (tried ++ more) job events := by
  obtain ⟨x, hx, rest⟩ := h
  exact ⟨x, List.mem_append_left more hx, rest⟩

/-- What is told of a job at work, by how far it has come. -/
def Active.Tells (w : Work σ) (tried : List (Attempt σ)) (a : Active) (events : List Event) : Prop :=
  match a.phase with
  | .launched => events = []
  | .announced => events = [.fileStarted a.job.name]
  | .attempted result => events = [.fileStarted a.job.name] ∧
      ∃ x ∈ tried, x.job = a.job ∧ (w.attempt x.cancelled x.job x.sink).1 = result
  | .reported _ | .recorded _ | .settled => Complete w tried a.job events

theorem Active.Tells.mono {a : Active} {events : List Event} (h : a.Tells w tried events) (more : List (Attempt σ)) :
    a.Tells w (tried ++ more) events := by
  obtain ⟨job, phase⟩ := a
  cases phase with
  | launched | announced => exact h
  | attempted result =>
    obtain ⟨hevents, x, hx, rest⟩ := h
    exact ⟨hevents, x, List.mem_append_left more hx, rest⟩
  | reported | recorded | settled => exact Complete.mono h more

/-- What is told of the jobs that were started, numbered in the order of their starts; `crew` holds those
that are at work. -/
structure Page (w : Work σ) (launched : List Job) (tried : List (Attempt σ)) (crew : List (Nat × Active))
    (told : List (Nat × Event)) : Prop where
  numbers : (crew.map Prod.fst).Nodup
  jobs : ∀ c ∈ crew, launched[c.1]? = some c.2.job
  about : ∀ entry ∈ told, entry.1 < launched.length
  atWork : ∀ c ∈ crew, c.2.Tells w tried (eventsOf told c.1)
  gone : ∀ k job, launched[k]? = some job → k ∉ crew.map Prod.fst → Complete w tried job (eventsOf told k)
  places : crew.length ≤ w.workers

namespace Page
variable {crew : List (Nat × Active)} {told : List (Nat × Event)} {i k : Nat} {a b : Active}

theorem eventsOf_eq_nil (h : Page w launched tried crew told) (hk : launched.length ≤ k) : eventsOf told k = [] := by
  have hnone : ∀ entry ∈ told, ¬ (entry.1 = k) := fun entry he => by have := h.about entry he; omega
  simpa [eventsOf, List.filter_eq_nil_iff] using hnone

/-- Jobs between their two events are at work, and so no more than there are places. -/
theorem between_le (h : Page w launched tried crew told) {ks : List Nat} (distinct : ks.Nodup)
    (between : ∀ k ∈ ks, (eventsOf told k).length = 1) : ks.length ≤ w.workers := by
  have hsub : ks ⊆ crew.map Prod.fst := by
    intro k hk
    by_contra hgone
    have hlength := between k hk
    cases hjob : launched[k]? with
    | none => simp [h.eventsOf_eq_nil (List.getElem?_eq_none_iff.1 hjob)] at hlength
    | some job =>
      obtain ⟨x, -, -, finish, -, hevents⟩ := h.gone k job hjob hgone
      simp [hevents] at hlength
  calc ks.length ≤ (crew.map Prod.fst).length := (distinct.subperm hsub).length_le
    _ = crew.length := List.length_map _
    _ ≤ w.workers := h.places

theorem perm {crew' : List (Nat × Active)} (h : Page w launched tried crew told) (same : crew.Perm crew') :
    Page w launched tried crew' told where
  numbers := (same.map Prod.fst).nodup_iff.1 h.numbers
  jobs := fun c hc => h.jobs c (same.mem_iff.2 hc)
  about := h.about
  atWork := fun c hc => h.atWork c (same.mem_iff.2 hc)
  gone := fun k job hjob hgone => h.gone k job hjob fun hk => hgone ((same.map Prod.fst).mem_iff.1 hk)
  places := same.length_eq ▸ h.places

theorem number_lt (h : Page w launched tried crew told) (hk : k ∈ crew.map Prod.fst) : k < launched.length := by
  obtain ⟨c, hc, rfl⟩ := List.mem_map.1 hk
  exact (List.getElem?_eq_some_iff.1 (h.jobs c hc)).1

/-- A job is started, and nothing is told of it yet. -/
theorem launch (h : Page w launched tried crew told) (room : crew.length < w.workers) (job : Job) :
    Page w (launched ++ [job]) tried ((launched.length, ⟨job, .launched⟩) :: crew) told where
  numbers := List.nodup_cons.2 ⟨fun hk => Nat.lt_irrefl _ (h.number_lt hk), h.numbers⟩
  jobs := by
    intro c hc
    rcases List.mem_cons.1 hc with rfl | hc
    · simp
    · exact (List.getElem?_append_left (h.number_lt (List.mem_map_of_mem hc))).trans (h.jobs c hc)
  about := fun entry he => by
    have := h.about entry he
    simp only [List.length_append, List.length_singleton]
    omega
  atWork := by
    intro c hc
    rcases List.mem_cons.1 hc with rfl | hc
    · exact h.eventsOf_eq_nil (Nat.le_refl _)
    · exact h.atWork c hc
  gone := by
    intro k j hjob hgone
    rw [List.map_cons, List.mem_cons, not_or] at hgone
    have hk : k < launched.length := by
      have hlt := (List.getElem?_eq_some_iff.1 hjob).1
      have hne : k ≠ launched.length := hgone.1
      simp only [List.length_append, List.length_singleton] at hlt
      omega
    exact h.gone k j ((List.getElem?_append_left hk).symm.trans hjob) hgone.2
  places := room

/-- A job takes a step, in which it may be attempted and may tell something. -/
theorem turn (h : Page w launched tried ((k, a) :: crew) told) (same : b.job = a.job) {more : List (Attempt σ)}
    {event : Option Event} (tells : b.Tells w (tried ++ more) (eventsOf told k ++ event.toList)) :
    Page w launched (tried ++ more) ((k, b) :: crew) (told ++ event.toList.map (k, ·)) := by
  have hk : k ∉ crew.map Prod.fst := (List.nodup_cons.1 h.numbers).1
  have own : eventsOf (told ++ event.toList.map (k, ·)) k = eventsOf told k ++ event.toList := by
    rw [eventsOf_append, eventsOf_toList, if_pos rfl]
  have others : ∀ n, n ≠ k → eventsOf (told ++ event.toList.map (k, ·)) n = eventsOf told n := fun n hn => by
    rw [eventsOf_append, eventsOf_toList, if_neg hn.symm, List.append_nil]
  refine ⟨h.numbers, ?_, ?_, ?_, ?_, h.places⟩
  · intro c hc
    rcases List.mem_cons.1 hc with rfl | hc
    · rw [same]
      exact h.jobs (k, a) List.mem_cons_self
    · exact h.jobs c (List.mem_cons_of_mem _ hc)
  · intro entry he
    rcases List.mem_append.1 he with he | he
    · exact h.about entry he
    · obtain ⟨e, -, rfl⟩ := List.mem_map.1 he
      exact h.number_lt List.mem_cons_self
  · intro c hc
    rcases List.mem_cons.1 hc with rfl | hc
    · rw [own]
      exact tells
    · rw [others c.1 fun heq => hk (heq ▸ List.mem_map_of_mem hc)]
      exact (h.atWork c (List.mem_cons_of_mem _ hc)).mono more
  · intro n job hjob hgone
    rw [others n fun heq => hgone (heq ▸ List.mem_cons_self)]
    exact (h.gone n job hjob hgone).mono more

/-- A job of which all is told leaves. -/
theorem leave (h : Page w launched tried ((k, a) :: crew) told) (complete : Complete w tried a.job (eventsOf told k)) :
    Page w launched tried crew told where
  numbers := (List.nodup_cons.1 h.numbers).2
  jobs := fun c hc => h.jobs c (List.mem_cons_of_mem _ hc)
  about := h.about
  atWork := fun c hc => h.atWork c (List.mem_cons_of_mem _ hc)
  gone := by
    intro n job hjob hgone
    by_cases heq : n = k
    · subst heq
      obtain rfl : a.job = job := Option.some.inj ((h.jobs (n, a) List.mem_cons_self).symm.trans hjob)
      exact complete
    · exact h.gone n job hjob fun hn => (List.mem_cons.1 hn).elim heq hgone
  places := Nat.le_of_succ_le h.places

end Page

/-- The diary of a run: whatever was told, at no time were more jobs between their two events than there
are places. -/
structure Diary (w : Work σ) (launched : List Job) (tried : List (Attempt σ)) (s : State σ)
    (crew : List (Nat × Active)) (told : List (Nat × Event)) : Prop where
  page : Page w launched tried crew told
  crew : (crew.map Prod.snd).Perm s.active
  events : s.events = told.map fun entry => ⟨w.run, entry.2⟩
  room : ∀ n (ks : List Nat), ks.Nodup → (∀ k ∈ ks, (eventsOf (told.take n) k).length = 1) → ks.length ≤ w.workers

namespace Diary
variable {s t : State σ} {crew : List (Nat × Active)} {told : List (Nat × Event)} {i : Nat} {a : Active}

/-- The job at a position has a number. -/
theorem pick (h : Diary w launched tried s crew told) (at' : s.active[i]? = some a) :
    ∃ k rest, Page w launched tried ((k, a) :: rest) told ∧ (rest.map Prod.snd).Perm (s.active.eraseIdx i) := by
  obtain ⟨hi, rfl⟩ := List.getElem?_eq_some_iff.1 at'
  have split := (List.getElem_cons_eraseIdx_perm hi).symm
  obtain ⟨⟨k, b⟩, hc, hb⟩ := List.mem_map.1 (h.crew.mem_iff.2 (List.getElem_mem hi))
  obtain rfl : b = s.active[i] := hb
  obtain ⟨before, after, hcrew⟩ := List.append_of_mem hc
  have first : crew.Perm ((k, s.active[i]) :: (before ++ after)) := hcrew ▸ List.perm_middle
  refine ⟨k, before ++ after, h.page.perm first, ?_⟩
  exact ((first.map Prod.snd).symm.trans (h.crew.trans split)).cons_inv

/-- What is told next makes no earlier time worse. -/
theorem room_append (h : Diary w launched tried s crew told) {crew' : List (Nat × Active)} {event : Option Event} {k : Nat}
    {launched' : List Job} {tried' : List (Attempt σ)}
    (page : Page w launched' tried' crew' (told ++ event.toList.map (k, ·))) (n : Nat) {ks : List Nat}
    (distinct : ks.Nodup)
    (between : ∀ m ∈ ks, (eventsOf ((told ++ event.toList.map (k, ·)).take n) m).length = 1) : ks.length ≤ w.workers := by
  by_cases hn : n ≤ told.length
  · rw [List.take_append_of_le_length hn] at between
    exact h.room n ks distinct between
  · have hall : (told ++ event.toList.map (k, ·)).length ≤ n := by
      cases event <;> simp <;> omega
    rw [List.take_of_length_le hall] at between
    exact page.between_le distinct between

theorem turn (h : Diary w launched tried s crew told) (event : Option Event) (at' : s.active[i]? = some a)
    {phase : Phase} {x : Option (Attempt σ)} (active : t.active = s.active.set i ⟨a.job, phase⟩)
    (events : t.events = s.events ++ event.toList.map (Notice.mk w.run))
    (tells : ∀ events, a.Tells w tried events →
      Active.Tells w (tried ++ x.toList) ⟨a.job, phase⟩ (events ++ event.toList)) :
    ∃ crew told, Diary w launched (tried ++ x.toList) t crew told := by
  obtain ⟨hi, -⟩ := List.getElem?_eq_some_iff.1 at'
  obtain ⟨k, rest, page, hrest⟩ := h.pick at'
  have next := page.turn (b := ⟨a.job, phase⟩) rfl (tells _ (page.atWork (k, a) List.mem_cons_self))
  refine ⟨_, _, next, ?_, ?_, fun n ks => h.room_append next n⟩
  · rw [active]
    exact (hrest.cons _).trans (List.set_perm_cons_eraseIdx hi _).symm
  · rw [events, h.events]
    cases event <;> simp

/-- Moves that concern no job at work. -/
theorem keep (h : Diary w launched tried s crew told) (active : t.active = s.active) (events : t.events = s.events) :
    Diary w launched tried t crew told :=
  ⟨h.page, active ▸ h.crew, events ▸ h.events, h.room⟩

theorem launch (h : Diary w launched tried s crew told) (room : s.active.length < w.workers) {job : Job}
    (active : t.active = s.active ++ [⟨job, .launched⟩]) (events : t.events = s.events) :
    ∃ crew told, Diary w (launched ++ [job]) tried t crew told := by
  have hlength : crew.length = s.active.length := by simpa using h.crew.length_eq
  refine ⟨_, told, h.page.launch (hlength ▸ room) job, ?_, events ▸ h.events, h.room⟩
  rw [active]
  exact (h.crew.cons _).trans (List.perm_append_singleton _ _).symm

theorem leave (h : Diary w launched tried s crew told) {job : Job} (at' : s.active[i]? = some ⟨job, .settled⟩)
    (active : t.active = s.active.eraseIdx i) (events : t.events = s.events) :
    ∃ crew told, Diary w launched tried t crew told := by
  obtain ⟨k, rest, page, hrest⟩ := h.pick at'
  have next := page.leave (page.atWork (k, _) List.mem_cons_self)
  exact ⟨rest, told, next, active ▸ hrest, events ▸ h.events, h.room⟩

theorem step {job : Option Job} {x : Option (Attempt σ)} (h : Diary w launched tried s crew told)
    (effect : Effect w s job x t) : ∃ crew told, Diary w (launched ++ job.toList) (tried ++ x.toList) t crew told := by
  have hlaunched : launched ++ (none : Option Job).toList = launched := List.append_nil _
  have htried : tried ++ (none : Option (Attempt σ)).toList = tried := List.append_nil _
  -- A step of a job that tells nothing leaves what is told of it as it was.
  have silent : ∀ {a b : Active}, (∀ events, a.Tells w tried events → b.Tells w tried events) →
      ∀ events, a.Tells w tried events →
        b.Tells w (tried ++ (none : Option (Attempt σ)).toList) (events ++ (none : Option Event).toList) := by
    intro a b hab events ha
    simpa using hab events ha
  cases effect with
  | idle | cancel | close | accept =>
    rw [hlaunched, htried]
    exact ⟨crew, told, h.keep rfl rfl⟩
  | launch held room =>
    rw [htried]
    exact h.launch room rfl rfl
  | @announce i job at' =>
    rw [hlaunched]
    refine h.turn (some (.fileStarted job.name)) at' rfl rfl fun events ha => ?_
    obtain rfl : events = [] := ha
    rfl
  | @attempt i job at' =>
    rw [hlaunched]
    refine h.turn none at' rfl (List.append_nil _).symm fun events ha => ?_
    obtain rfl : events = [.fileStarted job.name] := ha
    exact ⟨rfl, ⟨job, s.cancelled, s.sink⟩, by simp, rfl, rfl⟩
  | @report i job result at' =>
    rw [hlaunched]
    refine h.turn (some (.ofAttempt job.name result)) at' rfl rfl fun events ha => ?_
    obtain ⟨rfl, x, hx, rfl, rfl⟩ := ha
    exact ⟨x, by simpa using hx, rfl, _, x.finishes_ofAttempt w, rfl⟩
  | write at' | skip _ at' | fail _ at' | settle at' | settleLater _ at' | settleFirst _ at' =>
    rw [hlaunched]
    exact h.turn none at' rfl (List.append_nil _).symm (silent fun _ ha => ha)
  | leave at' =>
    rw [hlaunched, htried]
    exact h.leave at' rfl rfl

end Diary

theorem diary_begin (w : Work σ) (jobs : List Job) (cancelled : Bool) (sink : σ) :
    Diary w [] [] (begin jobs cancelled sink) [] [] where
  page := ⟨by simp, by simp, by simp, by simp, by simp, by simp⟩
  crew := by simp [begin]
  events := rfl
  room := by
    intro n ks _ between
    cases ks with
    | nil => simp
    | cons k ks => simpa [eventsOf] using between k List.mem_cons_self

/-- All moves keep the diary. -/
theorem diary_follow (w : Work σ) (watch : Event → Bool) (moves : List Move) (jobs : List Job) (cancelled : Bool)
    (sink : σ) : ∃ crew told, Diary w (launches w watch moves (begin jobs cancelled sink))
      (attempts w watch moves (begin jobs cancelled sink)) (follow w watch moves (begin jobs cancelled sink))
      crew told := by
  have start : ∃ crew told, Diary w [] [] (begin jobs cancelled sink) crew told :=
    ⟨[], [], diary_begin w jobs cancelled sink⟩
  simpa using follow_invariant (P := fun launched tried s => ∃ crew told, Diary w launched tried s crew told)
    (fun ⟨_, _, hs⟩ effect => hs.step effect) moves start

end ProtoRecovery.Dump
