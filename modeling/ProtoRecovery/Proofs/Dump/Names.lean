import ProtoRecovery.Proofs.Dump.Independence
import ProtoRecovery.Proofs.Source.Merging
import ProtoRecovery.Proofs.Text.Reading
import ProtoRecovery.Proofs.Text.Splitting

/-! # Output names: which files of a run are written under a name of their own, and are still there after it -/
namespace ProtoRecovery.Dump
open Schema
variable {files : List (Option File)} {f g : File} {i j : Nat} {name : Bytes}

/-! ## Names made of positions -/

theorem outputName_named (named : textOf f.name ≠ []) (index : Int) : outputName (some f) index = textOf f.name := by
  simp [outputName, named]

theorem slash_notMem_positionName (index : Int) : Bytes.slash ∉ positionName index := by
  have hdigits : Bytes.slash ∉ Text.decimalInt index := fun h => by
    rcases Text.mem_decimalInt h with h | h <;> revert h <;> decide
  have hlead : Bytes.slash ∉ utf8 "unnamed_" := by decide
  have hend : Bytes.slash ∉ utf8 ".proto" := by decide
  simp [positionName, hdigits, hlead, hend]

theorem positionName_inj {a b : Int} (h : positionName a = positionName b) : a = b := by
  have hdigits : Text.decimalInt a = Text.decimalInt b := List.append_cancel_left (List.append_cancel_right h)
  have hread := Text.readDecimalInt_decimalInt a
  rw [hdigits, Text.readDecimalInt_decimalInt] at hread
  exact (Option.some.inj hread).symm

/-- Below its directories, a name that was made up says the position. -/
theorem getLast?_split_outputName (unnamed : textOf f.name = []) (index : Int) :
    (Bytes.split Bytes.slash (outputName (some f) index)).getLast? = some (positionName index) := by
  have hlast := Bytes.split_of_notMem (slash_notMem_positionName index)
  by_cases package : textOf f.package = []
  · simp [outputName, unnamed, package, hlast]
  · simp [outputName, unnamed, package, Bytes.split_append, hlast]

theorem outputName_unnamed_inj (hf : textOf f.name = []) (hg : textOf g.name = []) {a b : Int}
    (h : outputName (some f) a = outputName (some g) b) : a = b := by
  have hlast := getLast?_split_outputName hf a
  rw [h, getLast?_split_outputName hg] at hlast
  exact (positionName_inj (Option.some.inj hlast)).symm

/-! ## Jobs that share a name -/

theorem mem_plan_iff {job : Job} :
    job ∈ plan files ↔ ∃ (i : Nat) (f : File), files[i]? = some (some f) ∧ job = ⟨outputName (some f) i, f⟩ := by
  simp only [plan, List.mem_filterMap, Prod.exists, List.mk_mem_zipIdx_iff_getElem?, Option.map_eq_some_iff]
  constructor
  · rintro ⟨entry, i, hi, f, rfl, rfl⟩
    exact ⟨i, f, hi, rfl⟩
  · rintro ⟨i, f, hi, rfl⟩
    exact ⟨some f, i, hi, f, rfl, rfl⟩

/-- No two jobs share a name if no two positions do. -/
theorem nodup_names_iff : ((plan files).map Job.name).Nodup ↔
    ∀ (i j : Nat) (f g : File), i < j → files[i]? = some (some f) → files[j]? = some (some g) →
      outputName (some f) i ≠ outputName (some g) j := by
  rw [plan, List.Nodup, List.pairwise_map, List.pairwise_filterMap, List.pairwise_iff_getElem]
  simp only [List.getElem_zipIdx, Option.map_eq_some_iff, Nat.zero_add, List.length_zipIdx]
  constructor
  · intro h i j f g hij hi hj
    obtain ⟨hilt, hi⟩ := List.getElem?_eq_some_iff.1 hi
    obtain ⟨hjlt, hj⟩ := List.getElem?_eq_some_iff.1 hj
    exact h i j hilt hjlt hij _ ⟨f, hi, rfl⟩ _ ⟨g, hj, rfl⟩
  · rintro h i j hi hj hij _ ⟨f, hf, rfl⟩ _ ⟨g, hg, rfl⟩
    exact h i j f g hij (List.getElem?_eq_some_iff.2 ⟨hi, hf⟩) (List.getElem?_eq_some_iff.2 ⟨hj, hg⟩)

/-- A name is contested if one file has it and it is made up for another one that has none. -/
def Contested (files : List (Option File)) (name : Bytes) : Prop :=
  ∃ (i j : Nat) (f g : File), files[i]? = some (some f) ∧ textOf f.name = [] ∧ outputName (some f) i = name ∧
    files[j]? = some (some g) ∧ textOf g.name = name

/-- Files that have a name each have their own. -/
def OwnNames (files : List (Option File)) : Prop :=
  ∀ (i j : Nat) (f g : File), files[i]? = some (some f) → files[j]? = some (some g) → textOf f.name ≠ [] →
    textOf f.name = textOf g.name → i = j

theorem ownNames_of_concat {sources : List Source} {request : Request} (merged : Source.concat sources request = .ok files) :
    OwnNames files := by
  cases hanswers : Source.answers request sources with
  | error e =>
    rw [Source.concat_eq_error_iff.2 hanswers] at merged
    cases merged
  | ok entries =>
    rw [Source.concat_of_answers hanswers] at merged
    obtain rfl := Except.ok.inj merged
    have hpairs := List.pairwise_iff_getElem.1 (Source.pairwise_firstOfName [] entries.reduceOption)
    intro i j f g hi hj named same
    rw [List.getElem?_map, Option.map_eq_some_iff] at hi hj
    obtain ⟨_, hi, ⟨⟩⟩ := hi
    obtain ⟨_, hj, ⟨⟩⟩ := hj
    obtain ⟨hilt, rfl⟩ := List.getElem?_eq_some_iff.1 hi
    obtain ⟨hjlt, rfl⟩ := List.getElem?_eq_some_iff.1 hj
    rcases Nat.lt_trichotomy i j with hij | hij | hij
    · exact absurd same (hpairs i j hilt hjlt hij named)
    · exact hij
    · exact absurd same.symm (hpairs j i hjlt hilt hij (same ▸ named))

/-- A name that two positions share is contested. -/
theorem contested_of_shared (own : OwnNames files) (hi : files[i]? = some (some f)) (hj : files[j]? = some (some g))
    (hij : i ≠ j) (same : outputName (some f) i = outputName (some g) j) : Contested files (outputName (some f) i) := by
  by_cases hf : textOf f.name = []
  · by_cases hg : textOf g.name = []
    · -- Two names that were made up end with their positions.
      exact absurd (Int.ofNat.inj (outputName_unnamed_inj hf hg same)) hij
    · exact ⟨i, j, f, g, hi, hf, rfl, hj, by rw [same, outputName_named hg]⟩
  · by_cases hg : textOf g.name = []
    · exact ⟨j, i, g, f, hj, hg, same.symm, hi, (outputName_named hf i).symm⟩
    · rw [outputName_named hf, outputName_named hg] at same
      exact absurd (own i j f g hi hj hf same) hij

/-- A contested name is shared by two positions. -/
theorem shared_of_contested (h : Contested files name) : ∃ (i j : Nat) (f g : File), i ≠ j ∧ files[i]? = some (some f) ∧
    files[j]? = some (some g) ∧ outputName (some f) i = name ∧ outputName (some g) j = name := by
  obtain ⟨i, j, f, g, hi, hf, hname, hj, hg⟩ := h
  have named : textOf g.name ≠ [] := by
    rw [hg, ← hname]
    exact outputName_ne_nil _ _
  refine ⟨i, j, f, g, ?_, hi, hj, hname, (outputName_named named j).trans hg⟩
  rintro rfl
  rw [hi] at hj
  obtain rfl := Option.some.inj (Option.some.inj hj)
  exact named hf

theorem nodup_names_iff_uncontested (own : OwnNames files) :
    ((plan files).map Job.name).Nodup ↔ ∀ name, ¬ Contested files name := by
  rw [nodup_names_iff]
  constructor
  · intro h name contested
    obtain ⟨i, j, f, g, hij, hi, hj, hf, hg⟩ := shared_of_contested contested
    rcases Nat.lt_or_gt_of_ne hij with hij | hij
    · exact h i j f g hij hi hj (hf.trans hg.symm)
    · exact h j i g f hij hj hi (hg.trans hf.symm)
  · intro h i j f g hij hi hj same
    exact h _ (contested_of_shared own hi hj (Nat.ne_of_lt hij) same)

/-- Only one job has a name that is not contested. -/
theorem eq_of_uncontested (own : OwnNames files) {job other : Job} (hjob : job ∈ plan files) (hother : other ∈ plan files)
    (uncontested : ¬ Contested files job.name) (same : other.name = job.name) : other = job := by
  obtain ⟨i, f, hi, rfl⟩ := mem_plan_iff.1 hjob
  obtain ⟨j, g, hj, rfl⟩ := mem_plan_iff.1 hother
  by_cases hij : i = j
  · subst hij
    rw [hi] at hj
    obtain rfl := Option.some.inj (Option.some.inj hj)
    rfl
  · exact absurd (contested_of_shared own hi hj hij same.symm) uncontested

/-! ## What a memory has after a run -/

namespace Setup

/-- The texts that a run hands to its sink, under their names and in the order of the attempts. -/
def products {σ : Type} (r : Setup σ) (jobs : List Job) : List (Bytes × Bytes) :=
  ((r.attempts jobs).map Attempt.job).filterMap (Job.product? r.work.render)

variable {r : Setup Memory} {text : Bytes}

theorem job_of_mem_products {jobs : List Job} (h : (name, text) ∈ r.products jobs) :
    ∃ job ∈ jobs, job.name = name ∧ r.work.render job.file = .ok text := by
  obtain ⟨job, hjob, hproduct⟩ := List.mem_filterMap.1 h
  obtain ⟨x, hx, rfl⟩ := List.mem_map.1 hjob
  exact ⟨x.job, job_mem hx, Job.product?_eq_some_iff.1 hproduct⟩

variable (memory : r.work.sink = Memory.sink) (loaded : r.loaded = .ok files)
include memory loaded

theorem get?_outcome (name : Bytes) :
    r.outcome.sink.get? name = ((r.products (plan files)).reverse.lookup name).or (r.sink.get? name) := by
  rw [sink_eq loaded, get?_afterAll memory IntoMemory.named, products]

/-- A name is reported as written only if a text was handed over under it. -/
theorem mem_products_of_written (hw : 0 < r.work.workers) (written : name ∈ r.outcome.report.written) :
    ∃ text, (name, text) ∈ r.products (plan files) := by
  obtain ⟨x, hx, hxname⟩ := List.mem_filterMap.1 ((written_perm hw loaded).mem_iff.1 written)
  rw [Attempt.written?_memory memory (IntoMemory.named x hx)] at hxname
  obtain ⟨⟨_, text⟩, hproduct, rfl⟩ := Option.map_eq_some_iff.1 hxname
  exact ⟨text, List.mem_filterMap.2 ⟨x.job, List.mem_map_of_mem hx, hproduct⟩⟩

/-- Under a name that is reported as written stands the text of a file that is written under it. -/
theorem kept_of_written (hw : 0 < r.work.workers) (written : name ∈ r.outcome.report.written) :
    ∃ job ∈ plan files, job.name = name ∧
      ∃ text, r.work.render job.file = .ok text ∧ r.outcome.sink.get? name = some text := by
  obtain ⟨first, hfirst⟩ := mem_products_of_written memory loaded hw written
  have hfound : ((r.products (plan files)).reverse.lookup name).isSome = true :=
    List.lookup_isSome_iff.2 ⟨_, List.mem_reverse.2 hfirst, beq_self_eq_true name⟩
  obtain ⟨text, hlast⟩ := Option.isSome_iff_exists.1 hfound
  obtain ⟨later, earlier, hsplit, -⟩ := List.lookup_eq_some_iff.1 hlast
  have hmem : (name, text) ∈ r.products (plan files) :=
    List.mem_reverse.1 (hsplit ▸ List.mem_append_right later List.mem_cons_self)
  obtain ⟨job, hjob, hname, hrender⟩ := job_of_mem_products hmem
  exact ⟨job, hjob, hname, text, hrender, by rw [get?_outcome memory loaded, hlast, Option.some_or]⟩

end Setup

/-- Of files that were merged, no two are written under the same name exactly if no name is contested. However
a run over them into a memory goes on, each name that it reports as written then has the text of a file that is
written under it; and this is the only such file, unless the name is contested. -/
theorem names_distinct_iff_uncontested {sources : List Source} {request : Request} {files : List (Option File)}
    (merged : Source.concat sources request = .ok files) :
    (((plan files).map Job.name).Nodup ↔ ∀ name, ¬ Contested files name) ∧
    ∀ r : Setup Memory, r.work.sink = Memory.sink → 0 < r.work.workers → r.loaded = .ok files →
      ∀ job ∈ plan files, job.name ∈ r.outcome.report.written →
        (∃ other ∈ plan files, other.name = job.name ∧
          ∃ text, r.work.render other.file = .ok text ∧ r.outcome.sink.get? job.name = some text) ∧
        (¬ Contested files job.name →
          ∃ text, r.work.render job.file = .ok text ∧ r.outcome.sink.get? job.name = some text) := by
  have own := ownNames_of_concat merged
  refine ⟨nodup_names_iff_uncontested own, fun r memory hw loaded job hjob written => ?_⟩
  have kept := Setup.kept_of_written memory loaded hw written
  refine ⟨kept, fun uncontested => ?_⟩
  obtain ⟨other, hother, same, htext⟩ := kept
  obtain rfl := eq_of_uncontested own hjob hother uncontested same
  exact htext

private def coop (name package : Option String) (message : String) : File where
  name := name.map utf8
  package := package.map utf8
  messages := [some {
    name := some (utf8 message)
    fields := [some { name := some (utf8 "eggs"), number := some 1, type := some 5 }] }]

private def collecting (o : RenderOptions) (sources : List Source) (workers : Nat) : Setup Memory where
  work := { render := render o, sink := Memory.sink, workers, keepGoing := true }
  source := Source.concat sources
  sink := {}

private def barn : List Source :=
  [Source.memory [none, some (coop none "farm.v1" "Hen")],
   Source.memory [some (coop "unnamed_0.proto" "farm" "Duck"), some (coop "unnamed_0.proto" "farm" "Goose"),
    some (coop none none "Swan")]]

private def barnFiles : List (Option File) :=
  [some (coop none "farm.v1" "Hen"), some (coop "unnamed_0.proto" "farm" "Duck"), some (coop none none "Swan")]

theorem names_distinct_iff_uncontested_barn : Source.concat barn {} = .ok barnFiles ∧
    (∀ name, ¬ Contested barnFiles name) ∧ (collecting {} barn 2).loaded = .ok barnFiles ∧
    ⟨utf8 "farm/v1/unnamed_0.proto", coop none "farm.v1" "Hen"⟩ ∈ plan barnFiles ∧
    utf8 "farm/v1/unnamed_0.proto" ∈ (collecting {} barn 2).outcome.report.written ∧
    ∃ text, render {} (coop none "farm.v1" "Hen") = .ok text ∧
      (collecting {} barn 2).outcome.sink.get? (utf8 "farm/v1/unnamed_0.proto") = some text := by
  have merged : Source.concat barn {} = .ok barnFiles := rfl
  have distinct : ((plan barnFiles).map Job.name).Nodup := by decide +kernel
  have hen : (⟨utf8 "farm/v1/unnamed_0.proto", coop none "farm.v1" "Hen"⟩ : Job) ∈ plan barnFiles := .head _
  have loaded : (collecting {} barn 2).loaded = .ok barnFiles := rfl
  have written : utf8 "farm/v1/unnamed_0.proto" ∈ (collecting {} barn 2).outcome.report.written := by
    rw [Setup.report_eq loaded]
    exact (Bytes.sort_perm _).mem_iff.2 (by decide +kernel)
  obtain ⟨names, kept⟩ := names_distinct_iff_uncontested merged
  have uncontested := names.1 distinct
  exact ⟨merged, uncontested, loaded, hen, written,
    (kept (collecting {} barn 2) rfl (by decide) loaded _ hen written).2 (uncontested _)⟩

private def yard : List Source :=
  [Source.memory [some (coop none none "Hen")], Source.memory [some (coop "unnamed_0.proto" none "Duck")]]

private def yardFiles : List (Option File) := [some (coop none none "Hen"), some (coop "unnamed_0.proto" none "Duck")]

/-- The name that is made up for the first file is that of the second one: both are reported as written, and the
first is lost. -/
theorem generated_name_overwrites : Source.concat yard {} = .ok yardFiles ∧
    (plan yardFiles).map Job.name = [utf8 "unnamed_0.proto", utf8 "unnamed_0.proto"] ∧
    (collecting {} yard 1).loaded = .ok yardFiles ∧ (collecting {} yard 1).outcome.error = none ∧
    (collecting {} yard 1).outcome.report.written = [utf8 "unnamed_0.proto", utf8 "unnamed_0.proto"] ∧
    (collecting {} yard 1).outcome.sink.texts =
      [(utf8 "unnamed_0.proto", utf8 "message Duck \x7b\n    int32 eggs = 1;\n\x7d\n")] ∧
    render {} (coop none none "Hen") = .ok (utf8 "message Hen \x7b\n    int32 eggs = 1;\n\x7d\n") := by
  have loaded : (collecting {} yard 1).loaded = .ok yardFiles := rfl
  have written : (collecting {} yard 1).outcome.report.written = List.replicate 2 (utf8 "unnamed_0.proto") := by
    rw [Setup.report_eq loaded]
    refine List.perm_replicate.1 ((Bytes.sort_perm _).trans (.of_eq ?_))
    decide +kernel
  exact ⟨rfl, by decide +kernel, loaded, by decide +kernel, written, by decide +kernel, by decide +kernel⟩

end ProtoRecovery.Dump
