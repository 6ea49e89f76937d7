import ProtoRecovery.Proofs.Disk.Making

/-! # Writing below directories that are made on the way: why it fails, what it changes, and why order does not matter -/
namespace ProtoRecovery.Disk
open ProtoRecovery.Path

section Writing
variable {d e : Disk} {p : Path} {place : List Bytes}

theorem mem_steps {s : Path} (h : s ∈ p.steps) : s.rooted = p.rooted ∧ s.parts <+: p.parts := by
  obtain ⟨n, -, rfl⟩ := List.mem_map.1 h
  exact ⟨rfl, List.take_prefix _ _⟩

theorem mem_stages {a : Ascent} {s : Stage} (h : s ∈ a.stages p) :
    s.path.rooted = p.rooted ∧ s.path.parts <+: p.parts := by
  rcases List.mem_append.1 h with h | h
  · obtain ⟨q, hq, rfl⟩ := List.mem_map.1 h
    rw [stage_path]
    exact ⟨(mem_steps hq).1, (mem_steps hq).2.trans (List.dropLast_prefix _)⟩
  · obtain ⟨-, h⟩ := List.mem_ite_nil_left.1 h
    rw [List.mem_singleton.1 h, stage_path]
    exact ⟨rfl, List.prefix_refl _⟩

/-- Below an entry a cleaned path does not go up any more. -/
theorem target_append {rooted : Bool} {parts rest : List Bytes} (hp : Cleaned ⟨rooted, parts ++ rest⟩)
    (hentry : entering ⟨rooted, parts⟩ = true) (d : Disk) :
    d.target ⟨rooted, parts ++ rest⟩ = d.target ⟨rooted, parts⟩ ++ rest := by
  obtain ⟨part, hpart, hne⟩ := (Option.any_eq_true _ _).1 hentry
  have ups : (parts ++ rest).Pairwise fun earlier later => later = up → earlier = up := by
    simpa using List.pairwise_reverse.1 (Tidy.ups hp)
  -- Going up stands at the front of a cleaned path only, and the entry is before the rest.
  have entries : ∀ x ∈ rest, IsEntry x := by
    intro x hx
    rcases isEntry_or_up hp (List.mem_append_right parts hx) with entry | hup
    · exact entry
    · have := (List.pairwise_append.1 ups).2.2 part (List.mem_of_getLast? hpart) x hx hup
      exact absurd this (bne_iff_ne.1 hne)
  rw [target, List.foldl_append, foldl_reach_own entries]
  rfl

/-- The entries on the way to a target lie above it. -/
theorem stage_above {a : Ascent} {s : Stage} (hp : p.Cleaned) (hs : s ∈ a.stages p.parent)
    (hentry : entering s.path = true) (d : Disk) : d.target s.path <+: d.target p ∧ d.target s.path ≠ d.target p := by
  obtain ⟨rooted, parts⟩ := p
  obtain ⟨⟨rooted', parts'⟩, spelling, barred⟩ := s
  obtain ⟨rfl, rest, hrest⟩ := mem_stages hs
  rcases List.eq_nil_or_concat' parts with rfl | ⟨parts, part, rfl⟩
  · obtain ⟨rfl, -⟩ := List.append_eq_nil_iff.1 (show parts' ++ rest = [] from hrest)
    cases hentry
  · have hparts : parts ++ [part] = parts' ++ (rest ++ [part]) := by
      rw [← List.append_assoc, show parts' ++ rest = parts by simpa [Path.parent] using hrest]
    rw [hparts] at hp ⊢
    rw [target_append hp hentry]
    exact ⟨List.prefix_append _ _, fun h => by simp at h⟩

/-- The directories on the way lie above the target. -/
theorem passed_above {a : Ascent} (hp : p.Cleaned) (h : place ∈ d.passed (a.stages p.parent)) :
    place <+: d.target p ∧ place ≠ d.target p := by
  obtain ⟨s, hs, rfl⟩ := List.mem_map.1 h
  obtain ⟨hs, hentry⟩ := List.mem_filter.1 hs
  exact stage_above hp ((List.takeWhile_prefix _).subset hs) hentry d

/-- What stands in the way of a file. -/
def Node.holds : Node → Option Refusal
  | .directory => some .isDirectory
  | .file _ => none

/-- Why a file cannot be written at a path: a directory on the way cannot be made, or the path cannot be opened. -/
def failure (d : Disk) (p : Path) : Option DiskError :=
  (d.barrier (d.ascent.stages p.parent)).or
    (((refusal? p.text p).or ((d.standing p).bind Node.holds)).map fun e => ⟨.opening, p.text, e⟩)

/-- What stands at a place after a text is written at a path: the text, or a directory that was missing on the way, or
what stood there before. -/
def leaves (d : Disk) (p : Path) (text : Bytes) (place : List Bytes) : Option Node :=
  if d.failure p = none ∧ place = d.target p then some (.file text)
  else if d.node? place = none ∧ place ∈ d.passed (d.ascent.stages p.parent) then some .directory
  else d.node? place

theorem leaves_of_ne (h : place ≠ d.target p) (text : Bytes) : d.leaves p text place =
    if d.node? place = none ∧ place ∈ d.passed (d.ascent.stages p.parent) then some .directory else d.node? place :=
  if_neg fun hplace => h hplace.2

theorem write_of_stands (hp : p.Cleaned) (h : d.Stands p.parent) (text : Bytes) : write p.text text d =
    match (refusal? p.text p).or ((d.standing p).bind Node.holds) with
    | some r => (some ⟨.opening, p.text, r⟩, d)
    | none => (none, d.put (d.target p) (.file text)) := by
  rw [write, locate, locateAs_of_stands hp (text_ne_nil hp) h]
  cases refusal? p.text p with
  | some r => rfl
  | none =>
    cases d.standing p with
    | none => rfl
    | some node => cases node <;> rfl

/-- A file is not written over a directory. -/
theorem node?_ne_directory (h : (d.standing p).bind Node.holds = none) : d.node? (d.target p) ≠ some .directory := by
  intro hnode
  have hstanding : d.standing p = some .directory := by
    rw [standing, hnode, ite_self]
  rw [hstanding] at h
  cases h

/-- A file that is written in a directory is read there. -/
theorem read_put (hp : p.Cleaned) (h : d.Stands p.parent)
    (hfree : (refusal? p.text p).or ((d.standing p).bind Node.holds) = none) (text : Bytes) :
    (d.put (d.target p) (.file text)).read p.text = .ok text := by
  obtain ⟨hspelled, hholds⟩ := Option.or_eq_none_iff.1 hfree
  have hnode := node?_ne_directory hholds
  have hput := node?_put (d := d) (ne_nil_of_node? hnode) (.file text)
  have hentry : entering p = true := by
    by_contra hentry
    rw [standing, if_neg hentry] at hholds
    cases hholds
  -- Directories stay, since what is written replaces none.
  have hstands : (d.put (d.target p) (.file text)).Stands p.parent := by
    refine walk_of_leads ((leads_of_walk h).keep (fun other hother => ?_) fun hlast => ?_)
    · rw [hput, if_neg fun heq : other = d.target p => hnode (heq ▸ hother)]
      exact hother
    · rw [hput, if_neg fun heq : d.target p.parent = d.target p => hnode (heq ▸ hlast)]
      exact hlast
  refine read_eq_ok.2 ⟨d.target p, ?_⟩
  have htarget : (d.put (d.target p) (.file text)).target p = d.target p := rfl
  rw [locate, locateAs_of_stands hp (text_ne_nil hp) hstands, hspelled, standing, if_pos hentry, htarget, hput, if_pos rfl]

/-- A disk after a text was written at a path, or was not for a failure. -/
structure Written (d e : Disk) (p : Path) (text : Bytes) : Prop where
  workplace : e.workplace = d.workplace
  ascent : e.ascent = d.ascent
  nodes : ∀ place, e.node? place = d.leaves p text place

theorem writeBelow_eq (hp : p.Cleaned) (text : Bytes) (d : Disk) :
    ∃ e, writeBelow p text d = (d.failure p, e) ∧ Written d e p text ∧
      (d.failure p = none → e.read p.text = .ok text) := by
  obtain ⟨e, hmade, hfilled, hstands⟩ := leading_stages (cleaned_parent hp) d
  -- After a failure only the directories on the way are new.
  have failed : ∀ error, d.failure p = some error → Written d e p text := by
    intro error hfailure
    refine ⟨hfilled.workplace, hfilled.ascent, fun place => ?_⟩
    rw [leaves, hfailure, if_neg fun h => Option.some_ne_none _ h.1]
    exact hfilled.nodes place
  rw [writeBelow, makeAll, hmade]
  cases hbarrier : d.barrier (d.ascent.stages p.parent) with
  | some error =>
    have hfailure : d.failure p = some error := by rw [failure, hbarrier, Option.some_or]
    refine ⟨e, by rw [hfailure], failed error hfailure, fun h => ?_⟩
    rw [hfailure] at h
    cases h
  | none =>
    have hnode : e.node? (d.target p) = d.node? (d.target p) := by
      rw [hfilled.nodes, if_neg fun h => (passed_above hp h.2).2 rfl]
    have hstanding : e.standing p = d.standing p := by
      rw [standing, standing, hfilled.target_eq, hnode]
    have hfailure : d.failure p =
        ((refusal? p.text p).or ((d.standing p).bind Node.holds)).map fun r => ⟨.opening, p.text, r⟩ := by
      rw [failure, hbarrier, Option.none_or]
    have hread := read_put hp (hstands hbarrier)
    dsimp only
    rw [write_of_stands hp (hstands hbarrier)]
    rw [hstanding, hfilled.target_eq] at hread ⊢
    cases hrefused : (refusal? p.text p).or ((d.standing p).bind Node.holds) with
    | some r =>
      rw [hrefused] at hfailure
      refine ⟨e, by rw [hfailure]; rfl, failed _ hfailure, fun h => ?_⟩
      rw [hfailure] at h
      cases h
    | none =>
      rw [hrefused] at hfailure
      refine ⟨e.put (d.target p) (.file text), by rw [hfailure]; rfl,
        ⟨hfilled.workplace, hfilled.ascent, fun place => ?_⟩, fun _ => hread hrefused text⟩
      have hfree := node?_ne_directory (Option.or_eq_none_iff.1 hrefused).2
      rw [leaves, hfailure, node?_put (ne_nil_of_node? hfree), hfilled.nodes]
      simp only [Option.map_none, true_and]

end Writing

section Order
variable {d e : Disk} {p q : Path} {text : Bytes} {place other : List Bytes} {stages : List Stage}

/-- Neither of two places is the other or lies above it. -/
def Apart (place other : List Bytes) : Prop := ¬ place <+: other ∧ ¬ other <+: place

theorem Apart.symm (h : Apart place other) : Apart other place := ⟨h.2, h.1⟩

theorem Apart.ne (h : Apart place other) : place ≠ other := fun heq => h.1 (heq ▸ List.prefix_refl place)

/-- Two disks of one kind with the same workplace and the same node at every place. -/
structure Alike (d e : Disk) : Prop where
  workplace : d.workplace = e.workplace
  ascent : d.ascent = e.ascent
  nodes : ∀ place, d.node? place = e.node? place

theorem barrier_congr (h : ∀ s ∈ stages, e.hurdle s = d.hurdle s) : e.barrier stages = d.barrier stages := by
  induction stages with
  | nil => rfl
  | cons s stages ih =>
    obtain ⟨hs, hstages⟩ := List.forall_mem_cons.1 h
    rw [barrier, barrier, List.findSome?_cons, List.findSome?_cons, hs, ← barrier, ← barrier, ih hstages]

theorem passed_congr (htarget : e.target = d.target) (h : ∀ s ∈ stages, e.hurdle s = d.hurdle s) :
    e.passed stages = d.passed stages := by
  rw [passed, passed, htarget]
  congr 2
  induction stages with
  | nil => rfl
  | cons s stages ih =>
    obtain ⟨hs, hstages⟩ := List.forall_mem_cons.1 h
    rw [List.takeWhile_cons, List.takeWhile_cons, hs, ih hstages]

namespace Written

theorem target_eq (h : Written d e p text) : e.target = d.target := by
  funext q
  rw [target, target, start, start, h.workplace]

/-- What is written at a place apart is no hurdle, and removes none. -/
theorem hurdle_eq (h : Written d e p text) (hq : q.Cleaned) (apart : Apart (d.target p) (d.target q)) {a : Ascent}
    {s : Stage} (hs : s ∈ a.stages q.parent) : e.hurdle s = d.hurdle s := by
  rw [hurdle, hurdle, standing, standing, h.target_eq]
  split
  · next hentry =>
    obtain ⟨above, -⟩ := stage_above hq hs hentry d
    -- The file may not stand on the way to the other path, and a directory there is no hurdle.
    have hne : d.target s.path ≠ d.target p := fun heq => apart.1 (heq ▸ above)
    rw [h.nodes, leaves_of_ne hne]
    split
    · next hmissing =>
      rw [hmissing.1]
      rfl
    · rfl
  · rfl

theorem passed_eq (h : Written d e p text) (hq : q.Cleaned) (apart : Apart (d.target p) (d.target q)) :
    e.passed (e.ascent.stages q.parent) = d.passed (d.ascent.stages q.parent) := by
  rw [h.ascent]
  exact passed_congr h.target_eq fun _ hs => h.hurdle_eq hq apart hs

/-- A write does not bear on what stands at a place apart. -/
theorem node?_eq (h : Written d e p text) (hp : p.Cleaned) (apart : Apart (d.target p) place) :
    e.node? place = d.node? place := by
  rw [h.nodes, leaves_of_ne apart.ne.symm, if_neg fun h => apart.2 (passed_above hp h.2).1]

theorem failure_eq (h : Written d e p text) (hp : p.Cleaned) (hq : q.Cleaned)
    (apart : Apart (d.target p) (d.target q)) : e.failure q = d.failure q := by
  have hstanding : e.standing q = d.standing q := by
    rw [standing, standing, h.target_eq, h.node?_eq hp apart]
  rw [failure, failure, h.ascent, barrier_congr fun _ hs => h.hurdle_eq hq apart hs, hstanding]

/-- At its own place a text is written as it is without another that is written apart before or after. -/
theorem node?_target {f e' f' : Disk} {text' : Bytes} (hp : p.Cleaned) (hq : q.Cleaned)
    (apart : Apart (d.target p) (d.target q)) (first : Written d e p text) (second : Written e f q text')
    (first' : Written d e' q text') (second' : Written e' f' p text) :
    f.node? (d.target q) = f'.node? (d.target q) := by
  have hlast : f'.node? (d.target q) = e'.node? (d.target q) := by
    apply second'.node?_eq hp
    rw [first'.target_eq]
    exact apart
  rw [hlast, first'.nodes, second.nodes, leaves, leaves, first.failure_eq hp hq apart, first.target_eq,
    first.passed_eq hq apart, first.node?_eq hp apart]

/-- Texts written at places apart, in either order. -/
theorem alike {f e' f' : Disk} {text' : Bytes} (hp : p.Cleaned) (hq : q.Cleaned)
    (apart : Apart (d.target p) (d.target q)) (first : Written d e p text) (second : Written e f q text')
    (first' : Written d e' q text') (second' : Written e' f' p text) : Alike f f' := by
  have workplace : f.workplace = f'.workplace := by
    rw [second.workplace, first.workplace, second'.workplace, first'.workplace]
  have ascent : f.ascent = f'.ascent := by
    rw [second.ascent, first.ascent, second'.ascent, first'.ascent]
  refine ⟨workplace, ascent, fun place => ?_⟩
  by_cases hq' : place = d.target q
  · rw [hq']
    exact node?_target hp hq apart first second first' second'
  by_cases hp' : place = d.target p
  · rw [hp']
    exact (node?_target hq hp apart.symm first' second' first second).symm
  · rw [second.nodes, leaves_of_ne (by rwa [first.target_eq]), first.passed_eq hq apart, first.nodes, leaves_of_ne hp',
      second'.nodes, leaves_of_ne (by rwa [first'.target_eq]), first'.passed_eq hp apart.symm, first'.nodes,
      leaves_of_ne hq']
    -- A directory that is missing for both is made by whichever comes first.
    by_cases hmissing : d.node? place = none
    · by_cases hpassed : place ∈ d.passed (d.ascent.stages p.parent) <;> simp [hmissing, hpassed]
    · simp [hmissing]

end Written
end Order

end ProtoRecovery.Disk
