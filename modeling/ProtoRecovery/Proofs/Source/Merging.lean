import Mathlib.Data.List.Forall2
import Mathlib.Data.List.Induction
import Mathlib.Data.List.ReduceOption
import ProtoRecovery.Source.Basic

/-! # Merging: of the files of several sources, the first of each name wins -/
namespace ProtoRecovery.Source
open Schema

/-- The names of files, in order; that of a file without one is empty. -/
def namesOf (files : List File) : List Bytes := files.map fun f => textOf f.name

section
variable {seen other : List Bytes} {f : File} {files : List File} {name : Bytes}

theorem namesOf_append (files more : List File) : namesOf (files ++ more) = namesOf files ++ namesOf more := List.map_append

theorem mem_namesOf_cons : name ∈ namesOf (f :: files) ↔ name = textOf f.name ∨ name ∈ namesOf files := List.mem_cons

theorem firstOfName_unnamed (unnamed : textOf f.name = []) :
    firstOfName seen (f :: files) = f :: firstOfName seen files := by
  simp [firstOfName, unnamed]

theorem firstOfName_known (named : textOf f.name ≠ []) (known : textOf f.name ∈ seen) :
    firstOfName seen (f :: files) = firstOfName seen files := by
  simp [firstOfName, named, known]

theorem firstOfName_fresh (named : textOf f.name ≠ []) (fresh : textOf f.name ∉ seen) :
    firstOfName seen (f :: files) = f :: firstOfName (textOf f.name :: seen) files := by
  simp [firstOfName, named, fresh]

/-! ## Names that were seen -/

/-- Only which names were seen counts, and the empty name does not. -/
theorem firstOfName_congr (same : ∀ name ≠ [], name ∈ seen ↔ name ∈ other) :
    firstOfName seen files = firstOfName other files := by
  induction files generalizing seen other with
  | nil => rfl
  | cons f files ih =>
    by_cases unnamed : textOf f.name = []
    · rw [firstOfName_unnamed unnamed, firstOfName_unnamed unnamed, ih same]
    · by_cases known : textOf f.name ∈ seen
      · rw [firstOfName_known unnamed known, firstOfName_known unnamed ((same _ unnamed).1 known), ih same]
      · rw [firstOfName_fresh unnamed known, firstOfName_fresh unnamed (mt (same _ unnamed).2 known)]
        refine congrArg (f :: ·) (ih fun name named => ?_)
        rw [List.mem_cons, List.mem_cons, same name named]

/-- After some files, their names have been seen. -/
theorem firstOfName_append (seen : List Bytes) (files more : List File) :
    firstOfName seen (files ++ more) = firstOfName seen files ++ firstOfName (namesOf files ++ seen) more := by
  induction files generalizing seen with
  | nil => rfl
  | cons f files ih =>
    rw [List.cons_append]
    by_cases unnamed : textOf f.name = []
    · rw [firstOfName_unnamed unnamed, firstOfName_unnamed unnamed, ih, List.cons_append]
      refine congrArg (fun later => f :: (_ ++ later)) (firstOfName_congr fun name named => ?_)
      simp [mem_namesOf_cons, unnamed, named]
    · by_cases known : textOf f.name ∈ seen
      · rw [firstOfName_known unnamed known, firstOfName_known unnamed known, ih]
        refine congrArg (_ ++ ·) (firstOfName_congr fun name _ => ?_)
        rw [List.mem_append, List.mem_append, mem_namesOf_cons, or_assoc]
        exact (or_iff_right_of_imp fun e => .inr (e ▸ known)).symm
      · rw [firstOfName_fresh unnamed known, firstOfName_fresh unnamed known, ih, List.cons_append]
        refine congrArg (fun later => f :: (_ ++ later)) (firstOfName_congr fun name _ => ?_)
        simp [mem_namesOf_cons, or_left_comm, or_assoc]

/-- Whoever has seen some names takes the same files from a list in which what comes again under these
names was dropped. -/
theorem firstOfName_firstOfName (less : ∀ name ≠ [], name ∈ other → name ∈ seen) :
    firstOfName seen (firstOfName other files) = firstOfName seen files := by
  induction files generalizing seen other with
  | nil => rfl
  | cons f files ih =>
    by_cases unnamed : textOf f.name = []
    · rw [firstOfName_unnamed unnamed, firstOfName_unnamed unnamed, firstOfName_unnamed unnamed, ih less]
    · by_cases known : textOf f.name ∈ other
      · rw [firstOfName_known unnamed known, firstOfName_known unnamed (less _ unnamed known), ih less]
      · rw [firstOfName_fresh unnamed known]
        by_cases passed : textOf f.name ∈ seen
        · rw [firstOfName_known unnamed passed, firstOfName_known unnamed passed]
          refine ih fun name named hmem => ?_
          rcases List.mem_cons.1 hmem with rfl | hmem
          · exact passed
          · exact less name named hmem
        · rw [firstOfName_fresh unnamed passed, firstOfName_fresh unnamed passed]
          refine congrArg (f :: ·) (ih fun name named hmem => ?_)
          exact List.mem_cons.2 ((List.mem_cons.1 hmem).imp_right (less name named))

/-- No name gets lost. -/
theorem mem_namesOf_firstOfName (seen : List Bytes) (files : List File) (name : Bytes) :
    name ∈ namesOf (firstOfName seen files) ∨ name ∈ seen ↔ name ∈ namesOf files ∨ name ∈ seen := by
  fun_induction firstOfName seen files with
  | case1 => rfl
  | case2 seen f files _ unnamed ih => rw [mem_namesOf_cons, mem_namesOf_cons, or_assoc, or_assoc, ih]
  | case3 seen f files _ named known ih =>
    rw [ih, mem_namesOf_cons, or_assoc]
    exact (or_iff_right_of_imp fun e => .inr (e ▸ List.contains_iff_mem.1 known)).symm
  | case4 seen f files _ named fresh ih =>
    rw [List.mem_cons] at ih
    rw [mem_namesOf_cons, mem_namesOf_cons, or_assoc, or_left_comm, ih, or_left_comm, or_assoc]

/-- What was merged before in a part of the files makes no difference. -/
theorem firstOfName_group (before group after : List File) :
    firstOfName [] (before ++ firstOfName [] group ++ after) = firstOfName [] (before ++ group ++ after) := by
  rw [firstOfName_append, firstOfName_append, firstOfName_append _ _ after, firstOfName_append _ before,
    firstOfName_firstOfName (by simp)]
  congr 1
  refine firstOfName_congr fun name _ => ?_
  have hgroup : name ∈ namesOf (firstOfName [] group) ↔ name ∈ namesOf group := by
    simpa using mem_namesOf_firstOfName [] group name
  simp only [namesOf_append, List.append_nil, List.mem_append, hgroup]

/-! ## What is kept -/

theorem firstOfName_sublist (seen : List Bytes) (files : List File) : (firstOfName seen files).Sublist files := by
  fun_induction firstOfName seen files with
  | case1 => exact .slnil
  | case2 seen f files _ unnamed ih => exact ih.cons_cons f
  | case3 seen f files _ named known ih => exact ih.cons f
  | case4 seen f files _ named fresh ih => exact ih.cons_cons f

theorem filter_unnamed_firstOfName (seen : List Bytes) (files : List File) :
    (firstOfName seen files).filter (fun f => textOf f.name = []) = files.filter fun f => textOf f.name = [] := by
  fun_induction firstOfName seen files with
  | case1 => rfl
  | case2 seen f files _ unnamed ih => rw [List.filter_cons, List.filter_cons, ih]
  | case3 seen f files _ named known ih =>
    have hf : textOf f.name ≠ [] := mt List.isEmpty_iff.2 named
    rw [List.filter_cons_of_neg (by simpa using hf), ih]
  | case4 seen f files _ named fresh ih =>
    have hf : textOf f.name ≠ [] := mt List.isEmpty_iff.2 named
    rw [List.filter_cons_of_neg (by simpa using hf), List.filter_cons_of_neg (by simpa using hf), ih]

/-- Of the files under a name, none is kept if the name was seen, and the first one otherwise. -/
theorem filter_named_firstOfName (named : name ≠ []) (seen : List Bytes) (files : List File) :
    (firstOfName seen files).filter (fun f => textOf f.name = name) =
      (files.filter fun f => textOf f.name = name).take (if name ∈ seen then 0 else 1) := by
  fun_induction firstOfName seen files with
  | case1 => simp
  | case2 seen f files _ unnamed ih =>
    have hne : textOf f.name ≠ name := fun e => named (e ▸ List.isEmpty_iff.1 unnamed)
    rw [List.filter_cons_of_neg (by simpa using hne), List.filter_cons_of_neg (by simpa using hne), ih]
  | case3 seen f files _ _ known ih =>
    rw [ih]
    by_cases hname : textOf f.name = name
    · rw [if_pos (hname ▸ List.contains_iff_mem.1 known), List.take_zero, List.take_zero]
    · rw [List.filter_cons_of_neg (by simpa using hname)]
  | case4 seen f files _ _ fresh ih =>
    by_cases hname : textOf f.name = name
    · have hunseen : name ∉ seen := hname ▸ mt List.contains_iff_mem.2 fresh
      rw [List.filter_cons_of_pos (by simpa using hname), List.filter_cons_of_pos (by simpa using hname), ih,
        if_pos (List.mem_cons.2 (.inl hname.symm)), if_neg hunseen, List.take_zero, List.take_succ_cons, List.take_zero]
    · have hseen : name ∈ textOf f.name :: seen ↔ name ∈ seen := by simp [Ne.symm hname]
      rw [List.filter_cons_of_neg (by simpa using hname), List.filter_cons_of_neg (by simpa using hname), ih]
      exact congrArg (List.take · _) (if_congr hseen rfl rfl)

/-- What is kept under a name comes under one that was not seen. -/
theorem notMem_of_mem_firstOfName (named : textOf f.name ≠ []) (h : f ∈ firstOfName seen files) : textOf f.name ∉ seen := by
  intro known
  have hnone := filter_named_firstOfName named seen files
  rw [if_pos known, List.take_zero, List.filter_eq_nil_iff] at hnone
  exact hnone f h (by simp)

theorem pairwise_firstOfName (seen : List Bytes) (files : List File) :
    (firstOfName seen files).Pairwise fun f g => textOf f.name ≠ [] → textOf f.name ≠ textOf g.name := by
  fun_induction firstOfName seen files with
  | case1 => exact .nil
  | case2 seen f files _ unnamed ih =>
    exact .cons (fun g _ named => absurd (List.isEmpty_iff.1 unnamed) named) ih
  | case3 seen f files _ named known ih => exact ih
  | case4 seen f files _ named fresh ih =>
    refine .cons (fun g hg hf heq => ?_) ih
    exact notMem_of_mem_firstOfName (heq ▸ hf) hg (List.mem_cons.2 (.inl heq.symm))

/-- The files that have no name, or a name that none before them has. -/
def leaders (files : List File) : List File :=
  (files.zipIdx.filter fun (f, i) => textOf f.name = [] ∨ textOf f.name ∉ namesOf (files.take i)).map Prod.fst

theorem leaders_concat (files : List File) (f : File) : leaders (files ++ [f]) =
    leaders files ++ if textOf f.name = [] ∨ textOf f.name ∉ namesOf files then [f] else [] := by
  have hearlier : (files.zipIdx.filter fun (g, i) => textOf g.name = [] ∨ textOf g.name ∉ namesOf ((files ++ [f]).take i)) =
      files.zipIdx.filter fun (g, i) => textOf g.name = [] ∨ textOf g.name ∉ namesOf (files.take i) := by
    refine List.filter_congr fun ⟨g, i⟩ hg => ?_
    have hi : i ≤ files.length := Nat.le_of_lt (by simpa using (List.mem_zipIdx hg).2.1)
    dsimp only
    rw [List.take_append_of_le_length hi]
  rw [leaders, List.zipIdx_append, List.filter_append, hearlier, List.map_append, ← leaders]
  split
  · next h => simp [h]
  · next h => simp [h]

theorem firstOfName_eq_leaders (files : List File) : firstOfName [] files = leaders files := by
  induction files using List.reverseRecOn with
  | nil => rfl
  | append_singleton files f ih =>
    rw [firstOfName_append, List.append_nil, leaders_concat, ih]
    refine congrArg (leaders files ++ ·) ?_
    by_cases unnamed : textOf f.name = []
    · rw [firstOfName_unnamed unnamed, if_pos (.inl unnamed)]
      rfl
    · by_cases known : textOf f.name ∈ namesOf files
      · rw [firstOfName_known unnamed known, if_neg (not_or.2 ⟨unnamed, not_not.2 known⟩)]
        rfl
      · rw [firstOfName_fresh unnamed known, if_pos (.inr known)]
        rfl

end

/-! ## Answers of several sources -/

section
variable {request : Request} {sources : List Source} {e : SourceError}

theorem answers_append (request : Request) (sources more : List Source) : answers request (sources ++ more) =
    (do
      let first ← answers request sources
      let others ← answers request more
      pure (first ++ others)) := by
  induction sources with
  | nil =>
    rw [List.nil_append, answers]
    cases answers request more with
    | error e => rfl
    | ok entries => rfl
  | cons source sources ih =>
    rw [List.cons_append, answers, answers, ih]
    cases source request with
    | error e => rfl
    | ok entries =>
      cases answers request sources with
      | error e => rfl
      | ok others =>
        cases answers request more with
        | error e => rfl
        | ok last => exact congrArg Except.ok (List.append_assoc ..).symm

theorem answers_of_forall {parts : List (List (Option File))}
    (answered : List.Forall₂ (fun source part => source request = .ok part) sources parts) :
    answers request sources = .ok parts.flatten := by
  induction answered with
  | nil => rfl
  | cons hpart _ ih =>
    rw [answers, hpart, ih]
    rfl

/-- Whether there is an entry of one kind after entries of another, seen from the first entry. -/
theorem exists_after_cons {α : Type} {passed found : α → Prop} {a : α} {l : List α} :
    (∃ before x after, a :: l = before ++ x :: after ∧ (∀ b ∈ before, passed b) ∧ found x) ↔
      found a ∨ passed a ∧ ∃ before x after, l = before ++ x :: after ∧ (∀ b ∈ before, passed b) ∧ found x := by
  constructor
  · rintro ⟨before, x, after, hsplit, hbefore, hx⟩
    cases before with
    | nil =>
      obtain ⟨rfl, -⟩ := List.cons.inj hsplit
      exact .inl hx
    | cons first before =>
      obtain ⟨rfl, rfl⟩ := List.cons.inj hsplit
      obtain ⟨hfirst, hbefore⟩ := List.forall_mem_cons.1 hbefore
      exact .inr ⟨hfirst, before, x, after, rfl, hbefore, hx⟩
  · rintro (hx | ⟨hfirst, before, x, after, rfl, hbefore, hx⟩)
    · exact ⟨[], a, l, rfl, by simp, hx⟩
    · exact ⟨a :: before, x, after, rfl, List.forall_mem_cons.2 ⟨hfirst, hbefore⟩, hx⟩

/-- Several sources fail as the first of them that fails. -/
theorem answers_eq_error_iff : answers request sources = .error e ↔
    ∃ before source after, sources = before ++ source :: after ∧
      (∀ s ∈ before, ∃ entries, s request = .ok entries) ∧ source request = .error e := by
  induction sources with
  | nil => simp [answers]
  | cons source sources ih =>
    rw [exists_after_cons, ← ih, answers]
    cases source request with
    | error e' => simp [bind, Except.bind]
    | ok entries => cases answers request sources <;> simp [bind, Except.bind, pure, Except.pure]

theorem concat_eq_error_iff : concat sources request = .error e ↔ answers request sources = .error e := by
  rw [concat]
  cases answers request sources with
  | error e' => rfl
  | ok entries => exact ⟨nofun, nofun⟩

theorem concat_of_answers {entries : List (Option File)} (h : answers request sources = .ok entries) :
    concat sources request = .ok ((firstOfName [] entries.reduceOption).map some) := by
  rw [concat, h]
  rfl

/-- Sources may be merged in groups first. -/
theorem concat_group (before group after : List Source) :
    concat (before ++ concat group :: after) = concat (before ++ group ++ after) := by
  funext request
  simp only [concat, answers_append, answers]
  cases answers request before with
  | error e => rfl
  | ok first =>
    cases answers request group with
    | error e => rfl
    | ok inner =>
      cases answers request after with
      | error e => rfl
      | ok last =>
        have hinner : ((firstOfName [] inner.reduceOption).map some).reduceOption = firstOfName [] inner.reduceOption := by
          simp [List.reduceOption]
        refine congrArg (fun files => Except.ok (List.map some files)) ?_
        rw [← List.append_assoc, List.reduceOption_append, List.reduceOption_append, hinner, firstOfName_group,
          ← List.reduceOption_append, ← List.reduceOption_append]

end

theorem map_some_reduceOption_sublist (entries : List (Option File)) : (entries.reduceOption.map some).Sublist entries := by
  induction entries with
  | nil => exact .slnil
  | cons entry entries ih =>
    cases entry with
    | none => exact ih.cons none
    | some f => exact ih.cons_cons (some f)

/-- What merging keeps of files: those without a name, and the first of each name. -/
structure FirstWins (files kept : List File) : Prop where
  /-- A file is kept, in its place, exactly if it has no name or none before it has its name. -/
  places : kept = leaders files
  part : kept.Sublist files
  unnamed : kept.filter (fun f => textOf f.name = []) = files.filter fun f => textOf f.name = []
  named : ∀ name ≠ [], kept.filter (fun f => textOf f.name = name) =
    (files.filter fun f => textOf f.name = name).take 1
  distinct : kept.Pairwise fun f g => textOf f.name ≠ [] → textOf f.name ≠ textOf g.name

theorem firstWins_firstOfName (files : List File) : FirstWins files (firstOfName [] files) where
  places := firstOfName_eq_leaders files
  part := firstOfName_sublist [] files
  unnamed := filter_unnamed_firstOfName [] files
  named name named := by simpa using filter_named_firstOfName named [] files
  distinct := pairwise_firstOfName [] files

/-- Sources that are merged fail as the first of them that fails. If none does, their files are merged in
order: absent entries are left out, and the first file of each name wins. It makes no difference to merge a
run of the sources first, or to merge the result again. -/
theorem concat_first_wins (sources : List Source) :
    (∀ request e, concat sources request = .error e ↔
      ∃ before source after, sources = before ++ source :: after ∧
        (∀ s ∈ before, ∃ entries, s request = .ok entries) ∧ source request = .error e) ∧
    (∀ request parts, List.Forall₂ (fun source part => source request = .ok part) sources parts →
      ∃ kept, concat sources request = .ok (kept.map some) ∧ (kept.map some).Sublist parts.flatten ∧
        FirstWins parts.flatten.reduceOption kept) ∧
    (∀ before group after, sources = before ++ group ++ after →
      concat (before ++ concat group :: after) = concat sources) ∧
    concat [concat sources] = concat sources := by
  refine ⟨fun request e => concat_eq_error_iff.trans answers_eq_error_iff, fun request parts answered => ?_, ?_, ?_⟩
  · refine ⟨_, concat_of_answers (answers_of_forall answered), ?_, firstWins_firstOfName _⟩
    exact ((firstOfName_sublist [] _).map some).trans (map_some_reduceOption_sublist _)
  · rintro before group after rfl
    exact concat_group before group after
  · simpa using concat_group [] sources []

private def cow (name package : String) : File where
  name := some (utf8 name)
  package := some (utf8 package)

private def herd : List Source :=
  [memory [some (cow "bell" "one"), none, some (cow "" "two"), some (cow "bell" "three")],
   memory [some (cow "" "two"), some (cow "horn" "four"), some (cow "bell" "five")]]

private def herdFiles : List File :=
  [cow "bell" "one", cow "" "two", cow "bell" "three", cow "" "two", cow "horn" "four", cow "bell" "five"]

/-- Names come again inside a source and in the next one; of two sources that fail, the first counts. -/
theorem concat_first_wins_herd :
    (∃ kept, concat herd {} = .ok (kept.map some) ∧ FirstWins herdFiles kept ∧
      kept = [cow "bell" "one", cow "" "two", cow "" "two", cow "horn" "four"]) ∧
    concat (herd ++ [broken (utf8 "lame"), broken (utf8 "lost")]) {} = .error (.broken (utf8 "lame")) := by
  obtain ⟨-, fine, -⟩ := concat_first_wins herd
  obtain ⟨failing, -⟩ := concat_first_wins (herd ++ [broken (utf8 "lame"), broken (utf8 "lost")])
  obtain ⟨kept, hkept, -, wins⟩ := fine {} _ (.cons rfl (.cons rfl .nil))
  refine ⟨⟨kept, hkept, wins, ?_⟩, (failing {} _).2 ⟨herd, _, _, rfl, ?_, rfl⟩⟩
  · exact (List.map_inj_right fun _ _ => Option.some.inj).1 (Except.ok.inj (hkept.symm.trans rfl))
  · exact List.forall_mem_cons.2 ⟨⟨_, rfl⟩, List.forall_mem_singleton.2 ⟨_, rfl⟩⟩

end ProtoRecovery.Source
