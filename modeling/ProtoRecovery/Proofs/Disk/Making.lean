import Mathlib.Data.List.Induction
import Mathlib.Data.List.TakeWhile
import ProtoRecovery.Proofs.Disk.Frame

/-! # Making directories: what stands at the end of a path, and which directories are made on the way to it -/
namespace ProtoRecovery.Disk
open ProtoRecovery.Path

/-- The place that a path leads to by its spelling. -/
def target (d : Disk) (p : Path) : List Bytes := p.parts.foldl reach (d.start p)

/-- A directory stands at the end of a path, and at all places on the way. -/
def Stands (d : Disk) (p : Path) : Prop := walk d (d.start p) .directory p.parts = .ok (.taken (d.target p) .directory)

/-- Whether a path ends with an entry of a directory. -/
def entering (p : Path) : Bool := p.parts.getLast?.any (· != up)

/-- What stands at the end of a path, if directories stand on the way. -/
def standing (d : Disk) (p : Path) : Option Node := if entering p then d.node? (d.target p) else some .directory

/-- Why a path is refused by its spelling alone, if all above it are taken. -/
def refusal? (spelling : Bytes) (p : Path) : Option Refusal :=
  if 0 ∈ spelling then some .invalidArgument
  else if maxPath < spelling.length then some .nameTooLong
  else if maxName < (p.parts.getLastD []).length then some .nameTooLong
  else none

section Finding
variable {d e : Disk} {p : Path} {spelling : Bytes} {place last parts : List Bytes} {node found : Node}

/-- What follows is looked up from the node that was found. -/
theorem walk_append (h : walk d place node parts = .ok (.taken last found)) (more : List Bytes) :
    walk d place node (parts ++ more) = walk d last found more := by
  have leads := leads_of_walk h
  generalize hspot : Spot.taken last found = spot at leads
  clear h
  induction leads with
  | done =>
    cases hspot
    rfl
  | stay skipped _ ih => rw [List.cons_append, walk, if_neg (by simp), if_pos (by simpa using skipped), ih hspot]
  | rise _ ih => rw [List.cons_append, walk, if_neg (by simp), if_neg (by decide), if_pos rfl, ih hspot]
  | enter entry short hfound _ ih =>
    rw [List.cons_append, walk_entry entry short, hfound]
    exact ih hspot
  | vacant => cases hspot

theorem walk_long {part : Bytes} (entry : IsEntry part) (long : maxName < part.length) (place parts : List Bytes) :
    walk d place .directory (part :: parts) = .error .nameTooLong := by
  obtain ⟨hnil, hhere, hup⟩ := entry
  simp [walk, hnil, hhere, hup, long]

theorem walk_split (hp : p.Cleaned) (place : List Bytes) :
    walk d place .directory (Bytes.split Bytes.slash p.text) = walk d place .directory p.parts := by
  obtain ⟨rooted, parts⟩ := p
  have joined : walk d place .directory (Bytes.split Bytes.slash (Bytes.join Bytes.slash parts)) =
      walk d place .directory parts := by
    cases parts with
    | nil => rfl
    | cons first rest => rw [Bytes.split_join (by simp) fun part h => (hp.named part h).2.2]
  cases rooted with
  | true =>
    simp only [Path.text, if_true]
    rw [Bytes.split, if_pos rfl, walk, if_neg (by simp), if_pos (by simp), joined]
  | false =>
    cases parts with
    | nil => rfl
    | cons first rest => exact joined

theorem text_ne_nil (hp : p.Cleaned) : p.text ≠ [] := by
  intro h
  have hclean := clean_text hp
  rw [h] at hclean
  rw [← hclean] at h
  exact absurd h (by decide)

theorem locateAs_eq (hp : p.Cleaned) (hs : spelling ≠ []) : d.locateAs spelling p.text =
    if 0 ∈ spelling then .error .invalidArgument
    else if maxPath < spelling.length then .error .nameTooLong
    else walk d (d.start p) .directory p.parts := by
  have hstart : (if p.text.head? = some Bytes.slash then [] else d.workplace) = d.start p :=
    if_congr (head?_text hp) rfl rfl
  rw [locateAs, hstart, walk_split hp, List.isEmpty_eq_false_iff.2 hs]
  simp only [List.contains_iff_mem, Bool.false_eq_true, if_false]

theorem target_concat (d : Disk) (rooted : Bool) (parts : List Bytes) (part : Bytes) :
    d.target ⟨rooted, parts ++ [part]⟩ = reach (d.target ⟨rooted, parts⟩) part := by
  rw [target, List.foldl_concat]
  rfl

theorem stands_nil (d : Disk) (rooted : Bool) : d.Stands ⟨rooted, []⟩ := rfl

/-- A component is an entry of a directory, or it goes up. -/
theorem isEntry_or_up {part : Bytes} (hp : p.Cleaned) (h : part ∈ p.parts) : IsEntry part ∨ part = up := by
  obtain ⟨hnil, hhere, -⟩ := hp.named part h
  by_cases hup : part = up
  · exact .inr hup
  · exact .inl ⟨hnil, hhere, hup⟩

theorem cleaned_parent (hp : p.Cleaned) : p.parent.Cleaned := by
  obtain ⟨rooted, parts⟩ := p
  rcases List.eq_nil_or_concat' parts with rfl | ⟨parts, part, rfl⟩
  · exact hp
  · have htidy : Tidy rooted (part :: parts.reverse) := by simpa [Cleaned] using hp
    simpa [Cleaned, Path.parent] using htidy.tail

/-- Where directories stand on the way, a path is refused by its spelling, or found by what stands at its end. -/
theorem locateAs_of_stands (hp : p.Cleaned) (hs : spelling ≠ []) (h : d.Stands p.parent) : d.locateAs spelling p.text =
    match refusal? spelling p with
    | some e => .error e
    | none => match d.standing p with
      | some node => .ok (.taken (d.target p) node)
      | none => .ok (.free (d.target p)) := by
  obtain ⟨rooted, parts⟩ := p
  rw [locateAs_eq hp hs, refusal?]
  split
  · rfl
  split
  · rfl
  rcases List.eq_nil_or_concat' parts with rfl | ⟨parts, part, rfl⟩
  · rfl
  · have hparent : d.Stands ⟨rooted, parts⟩ := by simpa [Path.parent] using h
    have hwalk : walk d (d.start ⟨rooted, parts ++ [part]⟩) .directory (parts ++ [part]) =
        walk d (d.target ⟨rooted, parts⟩) .directory [part] := walk_append hparent [part]
    rw [hwalk, target_concat, standing, target_concat, entering]
    simp only [List.getLastD_concat, List.getLast?_concat, Option.any_some]
    rcases isEntry_or_up hp (show part ∈ parts ++ [part] by simp) with entry | rfl
    · rw [reach_entry entry, if_pos (bne_iff_ne.2 entry.2.2)]
      by_cases long : maxName < part.length
      · rw [if_pos long, walk_long entry long]
      · rw [if_neg long, walk_entry entry (Nat.not_lt.1 long)]
        rfl
    · rw [if_neg (by decide), if_neg (by decide)]
      rfl

/-- A path on the way of which directories stand, and at the end of which one is found. -/
theorem stands_of_standing (hp : p.Cleaned) (hs : spelling ≠ []) (h : d.Stands p.parent)
    (hspelled : refusal? spelling p = none) (hdirectory : d.standing p = some .directory) : d.Stands p := by
  have hlocate : d.locateAs spelling p.text = .ok (.taken (d.target p) .directory) := by
    rw [locateAs_of_stands hp hs h, hspelled, hdirectory]
  rw [locateAs_eq hp hs] at hlocate
  split at hlocate
  · cases hlocate
  split at hlocate
  · cases hlocate
  exact hlocate

theorem Stands.keep (h : d.Stands p) (extended : Extends d e) : e.Stands p := by
  have hstart : e.start p = d.start p := by rw [start, start, extended.workplace]
  rw [Stands, target, hstart]
  exact walk_of_leads ((leads_of_walk h).keep (fun other => extended.nodes other _) (extended.nodes _ _))

end Finding

section Making
variable {d e : Disk} {p : Path} {stage : Stage} {stages : List Stage}

/-- What stands in the way of a directory. -/
def Node.bars (barred : Refusal) : Node → Option Refusal
  | .file _ => some barred
  | .directory => none

/-- Why there is no directory at the end of a path and none can be made, if directories stand on the way. -/
def hurdle (d : Disk) (stage : Stage) : Option Refusal :=
  (refusal? stage.spelling stage.path).or ((d.standing stage.path).bind (Node.bars stage.barred))

/-- The first of some directories that cannot be made. -/
def barrier (d : Disk) (stages : List Stage) : Option DiskError :=
  stages.findSome? fun s => (d.hurdle s).map fun e => ⟨.makingDirectory, s.spelling, e⟩

/-- The places of the directories that are made, where they are missing, before the first hurdle. -/
def passed (d : Disk) (stages : List Stage) : List (List Bytes) :=
  ((stages.takeWhile fun s => (d.hurdle s).isNone).filter fun s => entering s.path).map fun s => d.target s.path

theorem makeEach_append (stages more : List Stage) (d : Disk) : makeEach (stages ++ more) d =
    match makeEach stages d with
    | (some e, d) => (some e, d)
    | (none, d) => makeEach more d := by
  induction stages generalizing d with
  | nil => rfl
  | cons stage stages ih =>
    rw [List.cons_append, makeEach, makeEach]
    split
    · rfl
    · exact ih d
    · rfl
    · exact ih _

theorem steps_concat (rooted : Bool) (parts : List Bytes) (part : Bytes) :
    steps ⟨rooted, parts ++ [part]⟩ = steps ⟨rooted, parts⟩ ++ [⟨rooted, parts ++ [part]⟩] := by
  simp only [steps, List.length_append, List.length_singleton, List.range_succ, List.map_append, List.map_singleton]
  congr 1
  · refine List.map_congr_left fun n hn => ?_
    rw [List.take_append_of_le_length (Nat.succ_le_of_lt (List.mem_range.1 hn))]
  · rw [List.take_of_length_le (by simp)]

theorem parent_concat (rooted : Bool) (parts : List Bytes) (part : Bytes) :
    Path.parent ⟨rooted, parts ++ [part]⟩ = ⟨rooted, parts⟩ := by
  simp [Path.parent]

@[simp] theorem stage_path (a : Ascent) (p : Path) : (a.stage p).path = p := by
  cases a <;> rfl

theorem stage_spelling_ne_nil (a : Ascent) (hp : p.Cleaned) : (a.stage p).spelling ≠ [] := by
  cases a with
  | bare => exact text_ne_nil hp
  | slashed => exact List.append_ne_nil_of_right_ne_nil _ (List.cons_ne_nil _ _)

theorem barrier_eq_none : d.barrier stages = none ↔ ∀ s ∈ stages, d.hurdle s = none := by
  simp [barrier, List.findSome?_eq_none_iff]

theorem barrier_append (stages more : List Stage) :
    d.barrier (stages ++ more) = (d.barrier stages).or (d.barrier more) :=
  List.findSome?_append

theorem passed_append (h : d.barrier stages = none) (more : List Stage) :
    d.passed (stages ++ more) = d.passed stages ++ d.passed more := by
  have clear : ∀ s ∈ stages, (d.hurdle s).isNone = true := fun s hs =>
    Option.isNone_iff_eq_none.2 (barrier_eq_none.1 h s hs)
  rw [passed, passed, passed, List.takeWhile_append_of_pos clear, List.takeWhile_eq_self_iff.2 clear, List.filter_append,
    List.map_append]

theorem passed_append_of_barrier {e : DiskError} (h : d.barrier stages = some e) (more : List Stage) :
    d.passed (stages ++ more) = d.passed stages := by
  have blocked : ¬ ∀ s ∈ stages, (d.hurdle s).isNone = true := by
    intro clear
    rw [barrier_eq_none.2 fun s hs => Option.isNone_iff_eq_none.1 (clear s hs)] at h
    cases h
  rw [passed, passed, List.takeWhile_append, if_neg]
  intro hlength
  exact blocked (List.takeWhile_eq_self_iff.1 ((List.takeWhile_prefix _).eq_of_length hlength))

/-- A disk on which directories stand at some places where there was nothing. -/
structure Filled (d e : Disk) (places : List (List Bytes)) : Prop where
  workplace : e.workplace = d.workplace
  ascent : e.ascent = d.ascent
  nodes : ∀ place, e.node? place =
    if d.node? place = none ∧ place ∈ places then some .directory else d.node? place

namespace Filled
variable {f : Disk} {places more : List (List Bytes)}

theorem refl (d : Disk) : Filled d d [] := ⟨rfl, rfl, by simp⟩

theorem trans (h : Filled d e places) (h' : Filled e f more) : Filled d f (places ++ more) := by
  refine ⟨h'.workplace.trans h.workplace, h'.ascent.trans h.ascent, fun place => ?_⟩
  rw [h'.nodes, h.nodes]
  by_cases hnone : d.node? place = none
  · by_cases hplace : place ∈ places
    · simp [hnone, hplace]
    · simp [hnone, hplace]
  · simp [hnone]

theorem target_eq (h : Filled d e places) (p : Path) : e.target p = d.target p := by
  rw [target, target, start, start, h.workplace]

theorem extended (h : Filled d e places) : Extends d e where
  workplace := h.workplace
  nodes place node hnode := by rw [h.nodes, if_neg (by simp [hnode]), hnode]

/-- Directories that were missing are no hurdles. -/
theorem hurdle_eq (h : Filled d e places) (stage : Stage) : e.hurdle stage = d.hurdle stage := by
  rw [hurdle, hurdle, standing, standing, h.target_eq, h.nodes]
  split
  · split
    · next hmissing =>
      rw [hmissing.1]
      rfl
    · rfl
  · rfl

theorem passed_eq (h : Filled d e places) (stages : List Stage) : e.passed stages = d.passed stages := by
  simp only [passed, h.hurdle_eq, h.target_eq]

end Filled

theorem barrier_singleton (d : Disk) (stage : Stage) :
    d.barrier [stage] = (d.hurdle stage).map fun e => ⟨.makingDirectory, stage.spelling, e⟩ := by
  rw [barrier, List.findSome?_singleton]

theorem passed_singleton (h : d.hurdle stage = none) :
    d.passed [stage] = if entering stage.path then [d.target stage.path] else [] := by
  rw [passed, List.takeWhile_cons_of_pos (by rw [h]; rfl)]
  cases hp : entering stage.path <;> simp [hp]

theorem passed_singleton_of_hurdle {r : Refusal} (h : d.hurdle stage = some r) : d.passed [stage] = [] := by
  rw [passed, List.takeWhile_cons_of_neg (by rw [h]; exact Bool.false_ne_true)]
  rfl

/-- Where a directory can stand it does so afterwards, and all else is as before. -/
theorem filled_of_hurdle (hhurdle : d.hurdle stage = none) :
    Filled d (if d.standing stage.path = none then d.put (d.target stage.path) .directory else d) (d.passed [stage]) := by
  rw [passed_singleton hhurdle]
  cases hentry : entering stage.path with
  | false =>
    have hstanding : d.standing stage.path = some .directory := by rw [standing, hentry]; rfl
    rw [if_neg (by rw [hstanding]; exact nofun)]
    exact .refl d
  | true =>
    rw [show d.standing stage.path = d.node? (d.target stage.path) by rw [standing, if_pos hentry], if_pos rfl]
    split
    · next hmissing =>
      refine ⟨rfl, rfl, fun place => ?_⟩
      rw [node?_put (ne_nil_of_node? (d := d) (by rw [hmissing]; exact nofun))]
      by_cases heq : place = d.target stage.path
      · rw [if_pos heq, if_pos ⟨heq ▸ hmissing, List.mem_singleton.2 heq⟩]
      · rw [if_neg heq, if_neg fun hboth => heq (List.mem_singleton.1 hboth.2)]
    · next hpresent =>
      refine ⟨rfl, rfl, fun place => ?_⟩
      rw [if_neg]
      rintro ⟨hnone, hplace⟩
      exact hpresent (List.mem_singleton.1 hplace ▸ hnone)

/-- Without a hurdle a directory stands where one was missing, or did so before. -/
theorem standing_of_filled (hhurdle : d.hurdle stage = none) (h : Filled d e (d.passed [stage])) :
    e.standing stage.path = some .directory := by
  rw [standing]
  split
  · next hentry =>
    rw [h.target_eq, h.nodes, passed_singleton hhurdle, if_pos hentry]
    have hbars := (Option.or_eq_none_iff.1 hhurdle).2
    rw [standing, if_pos hentry] at hbars
    cases hnode : d.node? (d.target stage.path) with
    | none => rw [if_pos ⟨rfl, List.mem_singleton_self _⟩]
    | some node =>
      rw [hnode] at hbars
      cases node with
      | file content => cases hbars
      | directory => rw [if_neg fun h => nomatch h.1]
  · rfl

/-- The stages lead to a path: either one of them is a barrier, or directories stand down to the path afterwards. What
was missing before the barrier is made, and all else is as before. -/
def Leading (d : Disk) (stages : List Stage) (p : Path) : Prop :=
  ∃ e, makeEach stages d = (d.barrier stages, e) ∧ Filled d e (d.passed stages) ∧ (d.barrier stages = none → e.Stands p)

section Stages
variable (hp : stage.path.Cleaned) (hs : stage.spelling ≠ [])
include hp hs

theorem makeEach_of_stands (h : d.Stands stage.path.parent) : makeEach [stage] d =
    match d.hurdle stage with
    | some r => (some ⟨.makingDirectory, stage.spelling, r⟩, d)
    | none => (none, if d.standing stage.path = none then d.put (d.target stage.path) .directory else d) := by
  rw [makeEach, locateAs_of_stands hp hs h, hurdle]
  cases refusal? stage.spelling stage.path with
  | some r => rfl
  | none =>
    cases d.standing stage.path with
    | none => rfl
    | some node => cases node <;> rfl

/-- A directory is made, unless it stands there or there is a hurdle. -/
theorem leading_singleton (h : d.Stands stage.path.parent) : d.Leading [stage] stage.path := by
  rw [Leading, makeEach_of_stands hp hs h, barrier_singleton]
  cases hhurdle : d.hurdle stage with
  | some r =>
    refine ⟨d, rfl, ?_, nofun⟩
    rw [passed_singleton_of_hurdle hhurdle]
    exact .refl d
  | none =>
    have hfilled := filled_of_hurdle hhurdle
    refine ⟨_, rfl, hfilled, fun _ => ?_⟩
    have hspelled := (Option.or_eq_none_iff.1 hhurdle).1
    exact stands_of_standing hp hs (h.keep hfilled.extended) hspelled (standing_of_filled hhurdle hfilled)

/-- One more stage, after those that lead to its parent. -/
theorem Leading.concat (h : d.Leading stages stage.path.parent) : d.Leading (stages ++ [stage]) stage.path := by
  obtain ⟨e, hmade, hfilled, hstands⟩ := h
  rw [Leading, makeEach_append, hmade]
  cases hbarrier : d.barrier stages with
  | some error =>
    refine ⟨e, ?_, ?_, ?_⟩
    · rw [barrier_append, hbarrier]
      rfl
    · rw [passed_append_of_barrier hbarrier]
      exact hfilled
    · rw [barrier_append, hbarrier]
      exact nofun
  | none =>
    obtain ⟨f, hlast, hnext, hlastStands⟩ := leading_singleton hp hs (hstands hbarrier)
    have hsame : e.barrier [stage] = d.barrier [stage] := by
      rw [barrier_singleton, barrier_singleton, hfilled.hurdle_eq]
    rw [hfilled.passed_eq] at hnext
    rw [hsame] at hlast hlastStands
    refine ⟨f, ?_, ?_, ?_⟩
    · rw [barrier_append, hbarrier, Option.none_or]
      exact hlast
    · rw [passed_append hbarrier]
      exact hfilled.trans hnext
    · rw [barrier_append, hbarrier, Option.none_or]
      exact hlastStands

end Stages

theorem leading_nil (d : Disk) (rooted : Bool) : d.Leading [] ⟨rooted, []⟩ :=
  ⟨d, rfl, .refl d, fun _ => stands_nil d rooted⟩

/-- However they are asked for, the steps of a path lead to it. -/
theorem leading_steps (hp : p.Cleaned) (a : Ascent) (d : Disk) : d.Leading (p.steps.map a.stage) p := by
  obtain ⟨rooted, parts⟩ := p
  induction parts using List.reverseRecOn with
  | nil => exact leading_nil d rooted
  | append_singleton parts part ih =>
    have hup : d.Leading ((steps ⟨rooted, parts⟩).map a.stage) ⟨rooted, parts⟩ :=
      ih (parent_concat rooted parts part ▸ cleaned_parent hp)
    have h : d.Leading _ (a.stage ⟨rooted, parts ++ [part]⟩).path :=
      .concat (by rwa [stage_path]) (stage_spelling_ne_nil a hp) (by rwa [stage_path, parent_concat])
    rwa [stage_path, ← List.map_singleton, ← List.map_append, ← steps_concat] at h

theorem leading_stages (hp : p.Cleaned) (d : Disk) : d.Leading (d.ascent.stages p) p := by
  obtain ⟨rooted, parts⟩ := p
  rcases List.eq_nil_or_concat' parts with rfl | ⟨parts, part, rfl⟩
  · exact leading_nil d rooted
  · have hlast : d.ascent.stages ⟨rooted, parts ++ [part]⟩ =
        (Path.parent ⟨rooted, parts ++ [part]⟩).steps.map d.ascent.stage ++
          [Ascent.bare.stage ⟨rooted, parts ++ [part]⟩] := by
      rw [Ascent.stages, if_neg (by simp)]
    rw [hlast]
    exact .concat hp (text_ne_nil hp) (leading_steps (cleaned_parent hp) d.ascent d)

end Making

end ProtoRecovery.Disk
