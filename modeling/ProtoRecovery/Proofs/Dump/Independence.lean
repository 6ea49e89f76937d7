import Mathlib.Data.List.Nodup
import ProtoRecovery.Proofs.Dump.Success
import ProtoRecovery.Proofs.Tables
import ProtoRecovery.Proofs.Text.Order

/-! # Independence: what a run into a memory leaves behind does not depend on its schedule -/
namespace ProtoRecovery

theorem Memory.content_perm (m : Memory) : m.content.Perm m.texts := List.mergeSort_perm ..

theorem Memory.content_pairwise (m : Memory) : m.content.Pairwise fun a b => Bytes.le a.1 b.1 :=
  List.pairwise_mergeSort (fun a b c => Bytes.le_trans a.1 b.1 c.1) (fun a b => Bytes.le_total a.1 b.1) _

theorem Memory.get?_put (m : Memory) (name text other : Bytes) :
    (m.put name text).get? other = ([(name, text)].lookup other).or (m.get? other) := by
  rw [get?, put, Tables.lookup_replace, List.lookup_cons]
  split
  · next h => rw [h, beq_self_eq_true, Option.some_or]
  · next h => rw [beq_eq_false_iff_ne.2 h, List.lookup_nil, Option.none_or, get?]

namespace Dump
open Schema
variable {σ α : Type} {w : Work σ} {files : List (Option File)}

/-- What jobs with different names give under their names has different names. -/
theorem distinct_of_jobs {jobs : List Job} (distinct : (jobs.map Job.name).Nodup) {f : Job → Option α} {key : α → Bytes}
    (named : ∀ job a, f job = some a → key a = job.name) :
    ∀ a ∈ jobs.filterMap f, ∀ b ∈ jobs.filterMap f, key a = key b → a = b := by
  intro a ha b hb hkey
  obtain ⟨i, hi, hia⟩ := List.mem_filterMap.1 ha
  obtain ⟨j, hj, hjb⟩ := List.mem_filterMap.1 hb
  have hname : i.name = j.name := by rw [← named i a hia, ← named j b hjb, hkey]
  obtain rfl := List.inj_on_of_nodup_map distinct hi hj hname
  exact Option.some.inj (hia.symm.trans hjb)

/-- The text of a job under its name. -/
def Job.product? (render : File → Except RenderError Bytes) (job : Job) : Option (Bytes × Bytes) :=
  (render job.file).toOption.map (job.name, ·)

/-- The failure of a job that is not rendered. -/
def Job.failure? (render : File → Except RenderError Bytes) (job : Job) : Option Failure :=
  match render job.file with
  | .ok _ => none
  | .error e => some ⟨job.name, .render e⟩

theorem Job.product?_eq_some_iff {render : File → Except RenderError Bytes} {job : Job} {name text : Bytes} :
    job.product? render = some (name, text) ↔ job.name = name ∧ render job.file = .ok text := by
  cases h : render job.file <;> simp [product?, h, Except.toOption]

theorem Job.name_failure? {render : File → Except RenderError Bytes} {job : Job} {f : Failure}
    (h : job.failure? render = some f) : f.name = job.name := by
  unfold failure? at h
  split at h
  · cases h
  · exact Option.some.inj h ▸ rfl

/-- The report of a run in which each job is done and a memory takes the texts. -/
def fullReport (render : File → Except RenderError Bytes) (jobs : List Job) : Report where
  files := jobs.length
  written := Bytes.sort (jobs.filterMap fun job => (job.product? render).map Prod.fst)
  failed := sortFailures (jobs.filterMap (Job.failure? render))

theorem outputName_ne_nil (f : Option File) (index : Int) : outputName f index ≠ [] := by
  have position : positionName index ≠ [] := by
    simp [positionName, show utf8 "unnamed_" ≠ [] by decide]
  unfold outputName
  dsimp only
  split
  · next h => simpa using h
  · split
    · exact position
    · simp

theorem name_ne_nil {job : Job} (h : job ∈ plan files) : job.name ≠ [] := by
  obtain ⟨⟨f, i⟩, -, hjob⟩ := List.mem_filterMap.1 h
  obtain ⟨file, -, rfl⟩ := Option.map_eq_some_iff.1 hjob
  exact outputName_ne_nil _ _

/-- What a sink is after attempts, one after another. -/
def Work.afterAll (w : Work σ) (sink : σ) (tried : List (Attempt σ)) : σ :=
  tried.foldl (fun sink x => (w.attempt x.cancelled x.job sink).2) sink

theorem Effect.sink_eq {s t : State σ} {job : Option Job} {x : Option (Attempt σ)} (h : Effect w s job x t) :
    t.sink = w.afterAll s.sink x.toList := by
  cases h <;> rfl

theorem sink_follow (w : Work σ) (watch : Event → Bool) (moves : List Move) (jobs : List Job) (cancelled : Bool) (sink : σ) :
    (follow w watch moves (begin jobs cancelled sink)).sink =
      w.afterAll sink (attempts w watch moves (begin jobs cancelled sink)) := by
  refine @follow_invariant σ w watch (fun _ tried s => s.sink = w.afterAll sink tried) (fun hs h => ?_) moves [] [] _ rfl
  rw [h.sink_eq, hs, Work.afterAll, Work.afterAll, Work.afterAll, List.foldl_append]

namespace Attempt
variable {w : Work Memory} {x : Attempt Memory}

/-- A memory takes every text under a name, so that an attempt fails only if its file is not rendered. -/
theorem error?_memory (memory : w.sink = Memory.sink) (named : x.job.name ≠ []) :
    x.error? w = match w.render x.job.file with
      | .ok _ => none
      | .error e => some (.render e) := by
  unfold error?
  cases w.render x.job.file with
  | error e => rfl
  | ok text => simp [memory, Memory.sink, named]

theorem written?_memory (memory : w.sink = Memory.sink) (named : x.job.name ≠ []) :
    x.written? w = (x.job.product? w.render).map Prod.fst := by
  rw [written?, error?_memory memory named, Job.product?]
  cases w.render x.job.file <;> rfl

theorem failure?_memory (memory : w.sink = Memory.sink) (named : x.job.name ≠ []) :
    x.failure? w = x.job.failure? w.render := by
  rw [failure?, error?_memory memory named, Job.failure?]
  cases w.render x.job.file <;> rfl

end Attempt

/-- A memory has the text of a job, if there is one, after the attempt on it. -/
theorem attempt_memory {w : Work Memory} (memory : w.sink = Memory.sink) {job : Job} (named : job.name ≠ []) (cancelled : Bool)
    (m : Memory) : (w.attempt cancelled job m).2 = (job.product? w.render).elim m fun entry => m.put entry.1 entry.2 := by
  unfold Work.attempt Job.product?
  cases w.render job.file with
  | error e => rfl
  | ok text => simp [memory, Memory.sink, named, Except.toOption]

/-- Attempts under different names leave their texts in a memory, beside what it had under other names. -/
theorem texts_afterAll {w : Work Memory} (memory : w.sink = Memory.sink) {tried : List (Attempt Memory)}
    (named : ∀ x ∈ tried, x.job.name ≠ []) (distinct : ((tried.map Attempt.job).map Job.name).Nodup) {m : Memory}
    (fresh : ∀ entry ∈ m.texts, entry.1 ∉ (tried.map Attempt.job).map Job.name) :
    (w.afterAll m tried).texts.Perm (m.texts ++ (tried.map Attempt.job).filterMap (Job.product? w.render)) := by
  induction tried generalizing m with
  | nil => simp [Work.afterAll]
  | cons x tried ih =>
    obtain ⟨hx, hnamed⟩ := List.forall_mem_cons.1 named
    rw [List.map_cons, List.map_cons, List.nodup_cons] at distinct
    have later : ∀ entry ∈ m.texts, entry.1 ∉ (tried.map Attempt.job).map Job.name :=
      fun entry he hm => fresh entry he (List.mem_cons_of_mem _ hm)
    have step : w.afterAll m (x :: tried) = w.afterAll (w.attempt x.cancelled x.job m).2 tried := rfl
    rw [step, List.map_cons, attempt_memory memory hx]
    cases hproduct : x.job.product? w.render with
    | none =>
      rw [List.filterMap_cons_none hproduct]
      exact ih hnamed distinct.2 later
    | some entry =>
      have hname : entry.1 = x.job.name := (Job.product?_eq_some_iff.1 hproduct).1.symm
      have hput : (m.put entry.1 entry.2).texts = entry :: m.texts := by
        have hkeep : (m.texts.filter fun other => other.1 != entry.1) = m.texts :=
          List.filter_eq_self.2 fun other ho => bne_iff_ne.2 fun heq =>
            fresh other ho (heq.trans hname ▸ List.mem_cons_self)
        rw [Memory.put, hkeep]
      have hfresh : ∀ other ∈ (m.put entry.1 entry.2).texts, other.1 ∉ (tried.map Attempt.job).map Job.name := by
        rw [hput]
        exact List.forall_mem_cons.2 ⟨hname ▸ distinct.1, later⟩
      have htexts := ih hnamed distinct.2 hfresh
      rw [hput] at htexts
      rw [List.filterMap_cons_some hproduct]
      exact htexts.trans List.perm_middle.symm

/-- What attempts leave in a memory under a name is the text that was put there last. -/
theorem get?_afterAll {w : Work Memory} (memory : w.sink = Memory.sink) {tried : List (Attempt Memory)}
    (named : ∀ x ∈ tried, x.job.name ≠ []) (m : Memory) (name : Bytes) : (w.afterAll m tried).get? name =
      (((tried.map Attempt.job).filterMap (Job.product? w.render)).reverse.lookup name).or (m.get? name) := by
  induction tried generalizing m with
  | nil => rfl
  | cons x tried ih =>
    obtain ⟨hx, hnamed⟩ := List.forall_mem_cons.1 named
    have step : w.afterAll m (x :: tried) = w.afterAll (w.attempt x.cancelled x.job m).2 tried := rfl
    rw [step, List.map_cons, attempt_memory memory hx, ih hnamed]
    cases hproduct : x.job.product? w.render with
    | none => rw [List.filterMap_cons_none hproduct, Option.elim_none]
    | some entry =>
      rw [List.filterMap_cons_some hproduct, List.reverse_cons, List.lookup_append, Option.or_assoc, Option.elim_some,
        Memory.get?_put]

namespace Setup

theorem sink_eq {r : Setup σ} (loaded : r.loaded = .ok files) :
    r.outcome.sink = r.work.afterAll r.sink (r.attempts (plan files)) := by
  rw [outcome_of_ok loaded]
  exact sink_follow ..

/-- A run into an empty memory that goes on after failures and that nobody disturbs. -/
structure IntoMemory (r : Setup Memory) (files : List (Option File)) : Prop where
  memory : r.work.sink = Memory.sink
  going : r.work.keepGoing = true
  workers : 0 < r.work.workers
  loaded : r.loaded = .ok files
  undisturbed : r.Undisturbed (plan files)
  empty : r.sink = {}

namespace IntoMemory
variable {r : Setup Memory}

theorem failure (h : r.IntoMemory files) : (r.final (plan files)).failure = none :=
  ((r.ledger (plan files)).books.going h.going).1

/-- Each job is attempted once. -/
theorem jobs (h : r.IntoMemory files) : ((r.attempts (plan files)).map Attempt.job).Perm (plan files) :=
  complete h.workers h.failure h.undisturbed

theorem named : ∀ x ∈ r.attempts (plan files), x.job.name ≠ [] :=
  fun _ hx => name_ne_nil (job_mem hx)

/-- What attempts give by their jobs alone, the jobs give. -/
theorem filterMap_attempts (h : r.IntoMemory files) {f : Attempt Memory → Option α} {g : Job → Option α}
    (same : ∀ x ∈ r.attempts (plan files), f x = g x.job) :
    ((r.attempts (plan files)).filterMap f).Perm ((plan files).filterMap g) := by
  rw [List.filterMap_congr same, ← Function.comp_def g Attempt.job, ← List.filterMap_map]
  exact h.jobs.filterMap g

theorem written (h : r.IntoMemory files) :
    r.outcome.report.written.Perm ((plan files).filterMap fun job => (job.product? r.work.render).map Prod.fst) :=
  (written_perm h.workers h.loaded).trans
    (h.filterMap_attempts fun x hx => Attempt.written?_memory h.memory (named x hx))

theorem failed (h : r.IntoMemory files) :
    r.outcome.report.failed.Perm ((plan files).filterMap (Job.failure? r.work.render)) :=
  (failed_perm h.workers h.loaded h.failure).trans
    (h.filterMap_attempts fun x hx => Attempt.failure?_memory h.memory (named x hx))

variable (h : r.IntoMemory files) (distinct : ((plan files).map Job.name).Nodup)
include h distinct

theorem texts : r.outcome.sink.texts.Perm ((plan files).filterMap (Job.product? r.work.render)) := by
  have hnames : (((r.attempts (plan files)).map Attempt.job).map Job.name).Nodup :=
    (h.jobs.map Job.name).nodup_iff.2 distinct
  have hnone : r.sink.texts = [] := by rw [h.empty]
  have htexts := texts_afterAll h.memory named hnames (m := r.sink) (by simp [hnone])
  rw [← sink_eq h.loaded, hnone, List.nil_append] at htexts
  exact htexts.trans (h.jobs.filterMap _)

/-- The report says of each job whether its file is rendered, and depends on nothing else. -/
theorem report : r.outcome.report = fullReport r.work.render (plan files) := by
  have written : r.outcome.report.written = (fullReport r.work.render (plan files)).written :=
    Bytes.eq_of_sorted id (by rw [report_eq h.loaded]; exact Bytes.sort_pairwise _) (Bytes.sort_pairwise _)
      (h.written.trans (Bytes.sort_perm _).symm) fun _ _ _ _ => id
  have failed : r.outcome.report.failed = (fullReport r.work.render (plan files)).failed := by
    refine Bytes.eq_of_sorted Failure.name (by rw [report_eq h.loaded]; exact sortFailures_pairwise _)
      (sortFailures_pairwise _) (h.failed.trans (sortFailures_perm _).symm) fun f hf g hg => ?_
    exact distinct_of_jobs distinct (fun _ _ => Job.name_failure?) f (h.failed.subset hf) g (h.failed.subset hg)
  rw [report_eq h.loaded] at written failed ⊢
  exact congrArg₂ (Report.mk (plan files).length) written failed

theorem distinct_texts : ∀ a ∈ r.outcome.sink.texts, ∀ b ∈ r.outcome.sink.texts, a.1 = b.1 → a = b :=
  fun a ha b hb => distinct_of_jobs distinct (fun _ _ he => (Job.product?_eq_some_iff.1 he).1.symm)
    a ((h.texts distinct).subset ha) b ((h.texts distinct).subset hb)

theorem get?_eq_some_iff {name text : Bytes} :
    r.outcome.sink.get? name = some text ↔
      ∃ job ∈ plan files, job.name = name ∧ r.work.render job.file = .ok text := by
  rw [Memory.get?, Tables.lookup_eq_some_iff (h.distinct_texts distinct), (h.texts distinct).mem_iff,
    List.mem_filterMap]
  exact exists_congr fun job => and_congr_right fun _ => Job.product?_eq_some_iff

theorem content : r.outcome.sink.content =
    Memory.content ⟨(plan files).filterMap (Job.product? r.work.render)⟩ := by
  refine Bytes.eq_of_sorted Prod.fst (Memory.content_pairwise _) (Memory.content_pairwise _) ?_ fun a ha b hb => ?_
  · exact (Memory.content_perm _).trans ((h.texts distinct).trans (Memory.content_perm _).symm)
  · exact h.distinct_texts distinct a ((Memory.content_perm _).subset ha) b ((Memory.content_perm _).subset hb)

/-- What is kept under the name of a job is the text of its file, whatever becomes of the others. -/
theorem get?_name {job : Job} (hjob : job ∈ plan files) :
    r.outcome.sink.get? job.name = (r.work.render job.file).toOption := by
  ext text
  rw [h.get?_eq_some_iff distinct]
  constructor
  · rintro ⟨other, hother, hname, hrender⟩
    obtain rfl := List.inj_on_of_nodup_map distinct hother hjob hname
    rw [hrender]
    rfl
  · intro htext
    refine ⟨job, hjob, rfl, ?_⟩
    cases hrender : r.work.render job.file with
    | error e => simp [hrender, Except.toOption] at htext
    | ok rendered => simpa [hrender, Except.toOption] using htext

end IntoMemory
end Setup

/-- Two runs over the same files, no two of which are written under the same name, that go on after failures
and that nobody disturbs: however many workers they have and however their jobs are interleaved, they report
the same and leave the same texts in their memories, which are exactly those of the files that are rendered,
under their names. What is kept for a file depends on this file alone. -/
theorem keepGoing_independent {files : List (Option File)} (distinct : ((plan files).map Job.name).Nodup)
    {a b : Setup Memory} (ha : a.IntoMemory files) (hb : b.IntoMemory files)
    (render : a.work.render = b.work.render) :
    a.outcome.report = b.outcome.report ∧
    a.outcome.sink.content = b.outcome.sink.content ∧
    (∀ name, a.outcome.sink.get? name = b.outcome.sink.get? name) ∧
    (∀ name text, a.outcome.sink.get? name = some text ↔
      ∃ job ∈ plan files, job.name = name ∧ a.work.render job.file = .ok text) ∧
    ∀ job ∈ plan files, a.outcome.sink.get? job.name = (a.work.render job.file).toOption := by
  refine ⟨?_, ?_, fun name => ?_, fun _ _ => ha.get?_eq_some_iff distinct, fun _ => ha.get?_name distinct⟩
  · rw [ha.report distinct, hb.report distinct, render]
  · rw [ha.content distinct, hb.content distinct, render]
  · ext text
    rw [ha.get?_eq_some_iff distinct, hb.get?_eq_some_iff distinct, render]

private def bee (name : String) (kind : Int32) : File where
  name := some (utf8 name)
  messages := [some {
    name := some (utf8 "Bee")
    fields := [some { name := some (utf8 "wing"), number := some 1, type := some kind }] }]

private def hiveFiles : List (Option File) := [some (bee "queen" 9), none, some (bee "drone" 11), some (bee "" 9)]

private def hive (o : RenderOptions) (workers : Nat) (moves : List Move) : Setup Memory where
  work := { render := render o, sink := Memory.sink, workers, keepGoing := true }
  schedule _ := moves
  source := Source.memory hiveFiles
  sink := {}

/-- The second job fails and the third is done while the first has only been announced. -/
private def crossed : List Move :=
  [.check, .start, .check, .start, .check] ++ .advance 0 :: List.replicate 6 (.advance 1) ++
    .start :: List.replicate 6 (.advance 1)

theorem keepGoing_independent_hive : ((plan hiveFiles).map Job.name).Nodup ∧
    (hive {} 1 []).IntoMemory hiveFiles ∧ (hive {} 2 crossed).IntoMemory hiveFiles ∧
    (hive {} 1 []).outcome.events ≠ (hive {} 2 crossed).outcome.events ∧
    (hive {} 1 []).outcome.report = (hive {} 2 crossed).outcome.report ∧
    (hive {} 1 []).outcome.sink.content = (hive {} 2 crossed).outcome.sink.content ∧
    (hive {} 1 []).outcome.sink.get? (utf8 "drone") = none ∧
    ((hive {} 1 []).outcome.sink.get? (utf8 "queen")).isSome = true := by
  have distinct : ((plan hiveFiles).map Job.name).Nodup := by decide +kernel
  have one : (hive {} 1 []).IntoMemory hiveFiles := ⟨rfl, rfl, by decide, rfl, by decide +kernel, rfl⟩
  have two : (hive {} 2 crossed).IntoMemory hiveFiles := ⟨rfl, rfl, by decide, rfl, by decide +kernel, rfl⟩
  obtain ⟨report, content, -, -, texts⟩ := keepGoing_independent distinct one two rfl
  have drone : (⟨utf8 "drone", bee "drone" 11⟩ : Job) ∈ plan hiveFiles := .tail _ (.head _)
  have queen : (⟨utf8 "queen", bee "queen" 9⟩ : Job) ∈ plan hiveFiles := .head _
  have failing : (render {} (bee "drone" 11)).toOption = none := by decide +kernel
  have fine : (render {} (bee "queen" 9)).toOption.isSome = true := by decide +kernel
  exact ⟨distinct, one, two, by decide +kernel, report, content, (texts _ drone).trans failing,
    (congrArg Option.isSome (texts _ queen)).trans fine⟩

end Dump
end ProtoRecovery
