import ProtoRecovery.Proofs.Dump.Protocol
import ProtoRecovery.Proofs.Tracing.Spans

/-! # Runs and their spans: nothing is open when a run is over, but a span may be lost

The jobs of a run are told apart by number, and their spans by the name of the file alone. -/
namespace ProtoRecovery.Tracing
open Dump

/-! ### Starts and finishes in pairs -/

section Pairs
variable {ι : Type} {tagged : List (ι × Notice)} {notices : List Notice} {run : Bytes} {x : Subject} {m : Moment}
variable {n : Notice}

/-- Where the tagged notices are those of one run, a notice of the run has its place among them. -/
theorem split_tagged {before after : List Notice}
    (own : (before ++ n :: after).filter (fun n => n.run = run) = tagged.map Prod.snd) (hn : n.run = run) :
    ∃ first i last, tagged = first ++ (i, n) :: last ∧ before.filter (fun n => n.run = run) = first.map Prod.snd ∧
      after.filter (fun n => n.run = run) = last.map Prod.snd := by
  rw [List.filter_append, List.filter_cons, if_pos (decide_eq_true hn)] at own
  obtain ⟨first, last, rfl, hfirst, hlast⟩ := List.map_eq_append_iff.1 own.symm
  obtain ⟨⟨i, n⟩, rest, rfl, rfl, hrest⟩ := List.map_eq_cons_iff.1 hlast
  exact ⟨first, i, rest, rfl, hfirst.symm, hrest.symm⟩

theorem tag_of_open? (own : notices.filter (fun n => n.run = run) = tagged.map Prod.snd) (hx : x.owner = run)
    (hopen : open? notices x = some m) : ∃ before i after, tagged = before ++ (i, m.notice) :: after ∧
      ∀ entry ∈ after, subjectOf entry.2 ≠ x := by
  obtain ⟨after, hsplit, hafter⟩ := split_of_open? hopen
  have hrun : m.notice.run = run := by
    rw [← owner_subjectOf, ← hx]
    exact congrArg _ (mem_of_open? hopen).2.1
  obtain ⟨first, i, last, rfl, -, hlast⟩ := split_tagged (hsplit ▸ own) hrun
  refine ⟨first, i, last, rfl, fun entry hentry => hafter _ ?_⟩
  have hmem : entry.2 ∈ last.map Prod.snd := List.mem_map_of_mem hentry
  rw [← hlast] at hmem
  exact (List.mem_filter.1 hmem).1

variable [DecidableEq ι] {before after mid : List (ι × Notice)} {i j : ι}

/-- The notices with a tag. -/
def under (tagged : List (ι × Notice)) (i : ι) : List Notice := (tagged.filter fun entry => entry.1 = i).map Prod.snd

/-- There is nothing with a tag, or a start and a finish of one subject. -/
def Paired (tagged : List (ι × Notice)) : Prop := ∀ i, under tagged i = [] ∨
  ∃ start finish, under tagged i = [start, finish] ∧ isStart start = true ∧ isStart finish = false ∧
    subjectOf finish = subjectOf start

@[simp] theorem under_nil (i : ι) : under [] i = [] := rfl

@[simp] theorem under_append (before after : List (ι × Notice)) (i : ι) :
    under (before ++ after) i = under before i ++ under after i := by
  simp [under]

@[simp] theorem under_cons (entry : ι × Notice) (tagged : List (ι × Notice)) (i : ι) :
    under (entry :: tagged) i = if entry.1 = i then entry.2 :: under tagged i else under tagged i := by
  by_cases h : entry.1 = i <;> simp [under, h]

theorem mem_under : n ∈ under tagged i ↔ (i, n) ∈ tagged := by
  simp [under]

namespace Paired

/-- With the tag of a start there is nothing before it, and after it a finish of its subject. -/
theorem of_start (h : Paired (before ++ (i, n) :: after)) (hn : isStart n = true) : under before i = [] ∧
    ∃ finish, under after i = [finish] ∧ isStart finish = false ∧ subjectOf finish = subjectOf n := by
  rcases h i with hnil | ⟨start, finish, hpair, -, hfinish, hsubject⟩
  · simp at hnil
  · rw [under_append, under_cons, if_pos rfl] at hpair
    cases hbefore : under before i with
    | nil =>
      rw [hbefore, List.nil_append] at hpair
      obtain ⟨rfl, hafter⟩ := List.cons.inj hpair
      exact ⟨rfl, finish, hafter, hfinish, hsubject⟩
    | cons a rest =>
      rw [hbefore, List.cons_append] at hpair
      obtain rfl : n = finish := by
        have hmem : n ∈ rest ++ n :: under after i := List.mem_append_right _ List.mem_cons_self
        rw [(List.cons.inj hpair).2] at hmem
        exact List.mem_singleton.1 hmem
      rw [hn] at hfinish
      cases hfinish

/-- A start stands alone with its tag as long as nothing else is told of its subject. -/
theorem alone (after : List (ι × Notice)) (h : Paired (before ++ (i, n) :: (mid ++ after))) (hn : isStart n = true)
    (hmid : ∀ entry ∈ mid, subjectOf entry.2 ≠ subjectOf n) : under (before ++ (i, n) :: mid) i = [n] := by
  obtain ⟨hbefore, finish, hafter, -, hsubject⟩ := h.of_start hn
  have hnone : under mid i = [] := by
    rw [under_append] at hafter
    rcases List.append_eq_singleton_iff.1 hafter with ⟨hnil, -⟩ | ⟨hone, -⟩
    · exact hnil
    · have hmem : finish ∈ under mid i := hone ▸ List.mem_singleton_self finish
      exact absurd hsubject (hmid _ (mem_under.1 hmem))
  simp [hbefore, hnone]

/-- In the end nothing is open. -/
theorem closed (h : Paired tagged) (own : notices.filter (fun n => n.run = run) = tagged.map Prod.snd)
    (hx : x.owner = run) : open? notices x = none := by
  cases hopen : open? notices x with
  | none => rfl
  | some m =>
    obtain ⟨-, hsubject, hstarts⟩ := mem_of_open? hopen
    obtain ⟨before, i, after, rfl, hafter⟩ := tag_of_open? own hx hopen
    have halone : under (before ++ (i, m.notice) :: after) i = [m.notice] := by
      rw [← hsubject] at hafter
      exact alone [] (by rwa [List.append_nil]) hstarts hafter
    rcases h i with hnil | ⟨start, finish, hpair, -⟩
    · simp [hnil] at halone
    · simp [hpair] at halone

/-- A start is lost while it stands alone with its tag, to a start with another. -/
theorem clash (h : Paired tagged) (own : notices.filter (fun n => n.run = run) = tagged.map Prod.snd)
    (hm : m ∈ lost notices) (hx : m.subject.owner = run) :
    ∃ before i j n after, tagged = before ++ (j, n) :: after ∧ subjectOf n = m.subject ∧ i ≠ j ∧
      under (before ++ [(j, n)]) i = [m.notice] ∧ under (before ++ [(j, n)]) j = [n] := by
  obtain ⟨o, ho, hopen⟩ := List.mem_filterMap.1 hm
  rw [Moment.replaces?] at hopen
  split at hopen
  · next hstarts =>
    obtain ⟨after, hsplit⟩ := split_of_mem ho
    obtain ⟨-, hsubject, hstart⟩ := mem_of_open? hopen
    have hrun : o.notice.run = run := by
      rw [← owner_subjectOf, ← hx, hsubject]
      rfl
    obtain ⟨first, j, rest, rfl, hfirst, -⟩ := split_tagged (hsplit ▸ own) hrun
    obtain ⟨before, i, mid, rfl, hmid⟩ := tag_of_open? hfirst (hsubject ▸ hx) hopen
    rw [← hsubject] at hmid
    -- The lost start has not met its finish yet, and the other start is the first with its tag.
    have hi : under (before ++ (i, m.notice) :: mid) i = [m.notice] :=
      alone ((j, o.notice) :: rest) (by simpa using h) hstart hmid
    have hj : under (before ++ (i, m.notice) :: mid) j = [] := (h.of_start hstarts).1
    have hne : i ≠ j := by
      rintro rfl
      rw [hi] at hj
      cases hj
    refine ⟨_, i, j, o.notice, rest, rfl, hsubject.symm, hne, ?_, ?_⟩
    · rw [under_append, hi]
      simp [hne.symm]
    · rw [under_append, hj]
      simp
  · cases hopen

end Paired
end Pairs

/-! ### A run and its jobs -/

section Runs
variable {σ : Type} {r : Setup σ}

/-- The events of a run with the numbers of the jobs that they tell of; those of the run itself have none. -/
structure Story (r : Setup σ) (tagged : List (Option Nat × Notice)) : Prop where
  events : r.outcome.events = tagged.map Prod.snd
  paired : Paired tagged
  begun : (none, ⟨r.work.run, .runStarted⟩) ∈ tagged
  whole : ∀ n, (none, n) ∈ tagged → subjectOf n = .run r.work.run
  jobs : ∀ k n, (some k, n) ∈ tagged → ∃ job, r.started[k]? = some job ∧ subjectOf n = .file r.work.run job.name
  room : ∀ before, before <+: tagged → ∀ ks : List Nat, ks.Nodup → (∀ k ∈ ks, (under before (some k)).length = 1) →
    ks.length ≤ r.work.workers

/-- What is told of jobs, between the first event of a run and the last. -/
def tags (run : Bytes) (told : List (Nat × Event)) (last : Event) : List (Option Nat × Notice) :=
  (none, ⟨run, .runStarted⟩) :: told.map (fun entry => (some entry.1, ⟨run, entry.2⟩)) ++ [(none, ⟨run, last⟩)]

theorem under_tags_none (run : Bytes) (told : List (Nat × Event)) (last : Event) :
    under (tags run told last) none = [⟨run, .runStarted⟩, ⟨run, last⟩] := by
  simp [tags, under, List.filter_map, Function.comp_def]

theorem under_map_some (run : Bytes) (told : List (Nat × Event)) (k : Nat) :
    under (told.map fun entry => (some entry.1, Notice.mk run entry.2)) (some k) =
      (eventsOf told k).map (Notice.mk run) := by
  simp [under, eventsOf, List.filter_map, Function.comp_def]

theorem under_take_tags (run : Bytes) (told : List (Nat × Event)) (last : Event) (n k : Nat) :
    under ((tags run told last).take (n + 1)) (some k) = (eventsOf (told.take n) k).map (Notice.mk run) := by
  have hlast : ∀ c, under ([((none : Option Nat), Notice.mk run last)].take c) (some k) = [] := by
    intro c
    cases c <;> simp
  rw [tags, List.cons_append, List.take_succ_cons, List.take_append, under_cons, if_neg (by simp), under_append, hlast,
    ← List.map_take, under_map_some, List.append_nil]

theorem under_tags_some (run : Bytes) (told : List (Nat × Event)) (last : Event) (k : Nat) :
    under (tags run told last) (some k) = (eventsOf told k).map (Notice.mk run) := by
  rw [tags, under_append, under_cons, if_neg (by simp), under_map_some]
  simp

theorem story_of_told (told : List (Nat × Event))
    (events : r.outcome.events = (tags r.work.run told (.ofReport r.outcome.report r.outcome.error)).map Prod.snd)
    (pairs : ∀ k, eventsOf told k = [] ∨ ∃ job size error, r.started[k]? = some job ∧
      eventsOf told k = [.fileStarted job.name, .fileFinished job.name size error])
    (room : ∀ n (ks : List Nat), ks.Nodup → (∀ k ∈ ks, (eventsOf (told.take n) k).length = 1) →
      ks.length ≤ r.work.workers) : Story r (tags r.work.run told (.ofReport r.outcome.report r.outcome.error)) where
  events := events
  paired := by
    intro i
    cases i with
    | none => exact .inr ⟨_, _, under_tags_none .., rfl, rfl, rfl⟩
    | some k =>
      rw [under_tags_some]
      rcases pairs k with hnil | ⟨job, size, error, -, hpair⟩
      · exact .inl (by rw [hnil]; rfl)
      · refine .inr ⟨⟨r.work.run, .fileStarted job.name⟩, ⟨r.work.run, .fileFinished job.name size error⟩, ?_, rfl, rfl, rfl⟩
        rw [hpair]
        rfl
  begun := List.mem_cons_self
  whole := by
    intro n hn
    rw [← mem_under, under_tags_none, List.mem_pair] at hn
    rcases hn with rfl | rfl <;> rfl
  jobs := by
    intro k n hn
    rw [← mem_under, under_tags_some] at hn
    rcases pairs k with hnil | ⟨job, size, error, hjob, hpair⟩
    · simp [hnil] at hn
    · rw [hpair, List.map_cons, List.map_singleton, List.mem_pair] at hn
      refine ⟨job, hjob, ?_⟩
      rcases hn with rfl | rfl <;> rfl
  room := by
    intro before hbefore ks distinct between
    rw [List.prefix_iff_eq_take.1 hbefore] at between
    generalize before.length = n at between
    cases n with
    | zero =>
      cases ks with
      | nil => exact Nat.zero_le _
      | cons k ks => simpa using between k List.mem_cons_self
    | succ n =>
      apply room n ks distinct
      intro k hk
      simpa [under_take_tags] using between k hk

theorem pair_of_complete {tried : List (Dump.Attempt σ)} {job : Job} {events : List Event}
    (h : Complete r.work tried job events) :
    ∃ size error, events = [.fileStarted job.name, .fileFinished job.name size error] := by
  obtain ⟨x, -, rfl, finish, hfinish, rfl⟩ := h
  rcases hfinish with ⟨text, -, -, rfl⟩ | ⟨e, -, rfl⟩
  · exact ⟨_, _, rfl⟩
  · exact ⟨_, _, rfl⟩

theorem story (r : Setup σ) : ∃ tagged, Story r tagged := by
  cases loaded : r.loaded with
  | error e =>
    refine ⟨_, story_of_told [] ?_ (fun k => .inl rfl) fun n ks _ between => ?_⟩
    · rw [Setup.outcome_of_error loaded]
      rfl
    · cases ks with
      | nil => exact Nat.zero_le _
      | cons k ks => simpa [eventsOf] using between k List.mem_cons_self
  | ok files =>
    obtain ⟨crew, told, diary⟩ := r.diary (plan files)
    have hcrew : crew = [] := by simpa [r.final_active (plan files)] using diary.crew
    refine ⟨_, story_of_told told ?_ (fun k => ?_) diary.room⟩
    · rw [Setup.events_eq loaded, diary.events]
      simp [tags]
    · rw [show r.started = r.launches (plan files) by rw [Setup.started, loaded]]
      cases hjob : (r.launches (plan files))[k]? with
      | none => exact .inl (diary.page.eventsOf_eq_nil (List.getElem?_eq_none_iff.1 hjob))
      | some job =>
        obtain ⟨size, error, hpair⟩ := pair_of_complete (diary.page.gone k job hjob (by simp [hcrew]))
        exact .inr ⟨job, size, error, rfl, hpair⟩

/-- What a run loses is the span of a file, to another with the same name that is worked on at the same time. -/
theorem Story.shared {tagged : List (Option Nat × Notice)} {notices : List Notice} {m : Moment} (h : Story r tagged)
    (own : notices.filter (fun n => n.run = r.work.run) = r.outcome.events) (hm : m ∈ lost notices)
    (hrun : m.subject.owner = r.work.run) :
    m.subject.isRun = false ∧ ¬ (r.started.map Job.name).Nodup ∧ 1 < r.work.workers := by
  obtain ⟨before, i, j, n, after, htagged, hsubject, hne, hi, hj⟩ := h.paired.clash (own.trans h.events) hm hrun
  have hstage : before ++ [(j, n)] <+: tagged := ⟨after, by rw [htagged, List.append_assoc]; rfl⟩
  have hmemi : (i, m.notice) ∈ tagged := hstage.subset (mem_under.1 (hi ▸ List.mem_singleton_self _))
  have hmemj : (j, n) ∈ tagged := hstage.subset (mem_under.1 (hj ▸ List.mem_singleton_self _))
  have hsame : subjectOf n = subjectOf m.notice := hsubject
  -- The two tags tell of one subject, so both are numbers of jobs, and of jobs with one name.
  cases i with
  | none =>
    have hwhole := h.whole _ hmemi
    cases j with
    | none => exact absurd rfl hne
    | some l =>
      obtain ⟨job, -, hfile⟩ := h.jobs l n hmemj
      rw [hsame, hwhole] at hfile
      cases hfile
  | some k =>
    obtain ⟨job, hjob, hfile⟩ := h.jobs k m.notice hmemi
    cases j with
    | none =>
      rw [← hsame, h.whole n hmemj] at hfile
      cases hfile
    | some l =>
      obtain ⟨job', hjob', hfile'⟩ := h.jobs l n hmemj
      have hkl : k ≠ l := fun heq => hne (congrArg some heq)
      have hname : job.name = job'.name := by
        rw [hsame, hfile] at hfile'
        exact (Subject.file.inj hfile').2
      refine ⟨by rw [Moment.subject, hfile]; rfl, fun distinct => hkl ?_, ?_⟩
      · have hk : k < (r.started.map Job.name).length := by
          rw [List.length_map]
          exact (List.getElem?_eq_some_iff.1 hjob).1
        apply (List.getElem?_inj hk distinct).1
        rw [List.getElem?_map, List.getElem?_map, hjob, hjob', Option.map_some, Option.map_some, hname]
      · apply h.room _ hstage [k, l] (by simpa using hkl)
        intro o ho
        rcases List.mem_pair.1 ho with rfl | rfl
        · rw [hi]
          rfl
        · rw [hj]
          rfl

/-- When a run is over, the tables have nothing of it. A span that was started for it has been ended once, unless it
was lost: that of the run never is, and that of a file only if another job of the same name was at work with it. -/
theorem run_leaves_nothing_open (r : Setup σ) {notices : List Notice} (plain : ∀ n ∈ notices, 0 ∉ n.run)
    (own : notices.filter (fun n => n.run = r.work.run) = r.outcome.events) :
    (∃ s, (Hub.after notices).subscribers = [s] ∧ s.runs.lookup r.work.run = none ∧
      ∀ name, s.files.lookup (fileKey r.work.run name) = none) ∧
    (∀ m ∈ moments notices, m.starts = true → m.notice.run = r.work.run →
      ((Hub.after notices).trace.ended.map Span.ordinal).count m.ordinal = if m ∈ lost notices then 0 else 1) ∧
    ∀ m ∈ lost notices, m.notice.run = r.work.run →
      m.subject.isRun = false ∧ ¬ (r.started.map Job.name).Nodup ∧ 1 < r.work.workers := by
  obtain ⟨tagged, h⟩ := story r
  have hclosed : ∀ x : Subject, x.owner = r.work.run → open? notices x = none := fun x =>
    h.paired.closed (own.trans h.events)
  have hplain : 0 ∉ r.work.run := by
    have hbegun := List.mem_map_of_mem (f := Prod.snd) h.begun
    rw [← h.events, ← own] at hbegun
    exact plain _ (List.mem_filter.1 hbegun).1
  rw [Hub.after_eq plain]
  refine ⟨⟨_, rfl, ?_, fun name => ?_⟩, fun m hm hstarts hrun => ?_, fun m hm hrun => ?_⟩
  · exact (lookup_table (x := .run r.work.run) plain hplain).trans (by rw [hclosed _ rfl]; rfl)
  · exact (lookup_table (x := .file r.work.run name) plain hplain).trans (by rw [hclosed _ rfl]; rfl)
  · apply count_ended hm hstarts
    rw [hclosed m.subject (by rw [Moment.subject, owner_subjectOf, hrun])]
    exact (Option.some_ne_none m).symm
  · exact h.shared own hm (owner_subjectOf m.notice ▸ hrun)

/-- Two files of one name, with both jobs started before either goes on if there is room. -/
private def twins (o : RenderOptions) (workers : Nat) : Setup Memory where
  work := { run := utf8 "mine", render := render o, sink := Memory.sink, workers, keepGoing := true }
  schedule _ := [.check, .start, .check, .start, .advance 0, .advance 1, .advance 0, .advance 0, .advance 1, .advance 1]
  source := Source.memory [some { name := some (utf8 "gem") }, some { name := some (utf8 "gem") }]
  sink := {}

/-- A bus with the events of the run among those of another, which goes on. -/
private def shafts (o : RenderOptions) : List Notice :=
  ⟨utf8 "pit", .runStarted⟩ :: (twins o 1).outcome.events ++ [⟨utf8 "pit", .fileStarted (utf8 "gem")⟩]

theorem run_leaves_nothing_open_twins :
    (∃ s, (Hub.after (shafts {})).subscribers = [s] ∧ s.runs.lookup (utf8 "mine") = none ∧
      ∀ name, s.files.lookup (fileKey (utf8 "mine") name) = none) ∧
    ((moments (shafts {})).filter fun m => m.starts && m.notice.run = utf8 "mine").map Moment.ordinal = [1, 2, 3] ∧
    ∀ m ∈ moments (shafts {}), m.starts = true → m.notice.run = utf8 "mine" →
      ((Hub.after (shafts {})).trace.ended.map Span.ordinal).count m.ordinal = 1 := by
  have plain : ∀ n ∈ shafts {}, 0 ∉ n.run := by decide +kernel
  have own : (shafts {}).filter (fun n => n.run = utf8 "mine") = (twins {} 1).outcome.events := by
    have hall : ∀ n ∈ (twins {} 1).outcome.events, decide (n.run = utf8 "mine") = true := by decide +kernel
    rw [shafts, List.filter_append, List.filter_cons_of_neg (by decide), List.filter_eq_self.2 hall]
    exact List.append_nil _
  obtain ⟨htables, hended, hlost⟩ := run_leaves_nothing_open (twins {} 1) plain own
  refine ⟨htables, by decide +kernel, fun m hm hstarts hrun => ?_⟩
  rw [hended m hm hstarts hrun, if_neg]
  intro hm
  exact absurd (hlost m hm hrun).2.2 (by decide)

/-- With two workers the second start takes the key of the first: three spans are started, and the one with ordinal 1 is
not ended, though the tables are empty. -/
theorem shared_name_loses_span : (Hub.after (twins {} 2).outcome.events).trace.started = 3 ∧
    (Hub.after (twins {} 2).outcome.events).trace.ended.map Span.ordinal = [2, 0] ∧
    (Hub.after (twins {} 2).outcome.events).subscribers = [{}] := by
  decide +kernel

end Runs
end ProtoRecovery.Tracing
