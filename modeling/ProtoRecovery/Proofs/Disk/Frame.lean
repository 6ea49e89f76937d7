import ProtoRecovery.Disk.Basic
import ProtoRecovery.Proofs.Disk.Cleaning
import ProtoRecovery.Proofs.Tables

/-! # Frames of a disk: where a path leads, and what a write leaves alone -/
namespace ProtoRecovery.Disk
open ProtoRecovery.Path

/-- The place that was found. -/
def Spot.place : Spot → List Bytes
  | taken place _ => place
  | free place => place

/-- Where a component leads from a place, by its spelling alone. -/
def reach (place : List Bytes) (part : Bytes) : List Bytes :=
  if part = [] || part = here then place else if part = up then place.dropLast else place ++ [part]

/-- A component that is looked up. -/
def IsEntry (part : Bytes) : Prop := part ≠ [] ∧ part ≠ here ∧ part ≠ up

/-- All ways in which components lead from a place to a spot. -/
inductive Leads (d : Disk) : List Bytes → Node → List Bytes → Spot → Prop
  | done {place : List Bytes} {node : Node} : Leads d place node [] (.taken place node)
  | stay {place parts : List Bytes} {part : Bytes} {spot : Spot} (skipped : part = [] ∨ part = here)
      (rest : Leads d place .directory parts spot) : Leads d place .directory (part :: parts) spot
  | rise {place parts : List Bytes} {spot : Spot} (rest : Leads d place.dropLast .directory parts spot) :
      Leads d place .directory (up :: parts) spot
  | enter {place parts : List Bytes} {part : Bytes} {node : Node} {spot : Spot} (entry : IsEntry part)
      (short : part.length ≤ maxName) (found : d.node? (place ++ [part]) = some node)
      (rest : Leads d (place ++ [part]) node parts spot) : Leads d place .directory (part :: parts) spot
  | vacant {place : List Bytes} {part : Bytes} (entry : IsEntry part) (short : part.length ≤ maxName)
      (found : d.node? (place ++ [part]) = none) : Leads d place .directory [part] (.free (place ++ [part]))

section Walking
variable {d e : Disk} {place last parts : List Bytes} {node : Node} {spot : Spot} {content : Bytes}

theorem leads_of_walk (h : walk d place node parts = .ok spot) : Leads d place node parts spot := by
  induction parts generalizing place node with
  | nil =>
    cases h
    exact .done
  | cons part parts ih =>
    rw [walk] at h
    split at h
    · cases h
    next hnode =>
      obtain rfl : node = .directory := not_not.1 hnode
      split at h
      next hskip => exact .stay (by simpa using hskip) (ih h)
      next hskip =>
        split at h
        next hup =>
          subst hup
          exact .rise (ih h)
        next hup =>
          have entry : IsEntry part := by simpa [IsEntry, hup] using hskip
          split at h
          · cases h
          next hshort =>
            dsimp only at h
            split at h
            next found => exact .enter entry (Nat.not_lt.1 hshort) found (ih h)
            next found =>
              split at h
              next hparts =>
                cases h
                obtain rfl := List.isEmpty_iff.1 hparts
                exact .vacant entry (Nat.not_lt.1 hshort) found
              · cases h

theorem walk_entry {part : Bytes} (entry : IsEntry part) (short : part.length ≤ maxName) (place parts : List Bytes) :
    walk d place .directory (part :: parts) = match d.node? (place ++ [part]) with
      | some node => walk d (place ++ [part]) node parts
      | none => if parts.isEmpty then .ok (.free (place ++ [part])) else .error .notFound := by
  obtain ⟨hnil, hhere, hup⟩ := entry
  have hshort : ¬ maxName < part.length := Nat.not_lt.2 short
  cases hnode : d.node? (place ++ [part]) <;> simp [walk, hnil, hhere, hup, hshort, hnode]

theorem walk_of_leads (h : Leads d place node parts spot) : walk d place node parts = .ok spot := by
  induction h with
  | done => rfl
  | stay skipped rest ih => rw [walk, if_neg (by simp), if_pos (by simpa using skipped), ih]
  | rise rest ih => rw [walk, if_neg (by simp), if_neg (by decide), if_pos rfl, ih]
  | enter entry short found rest ih => rw [walk_entry entry short, found]; exact ih
  | vacant entry short found => rw [walk_entry entry short, found]; rfl

theorem walk_eq_ok : walk d place node parts = .ok spot ↔ Leads d place node parts spot :=
  ⟨leads_of_walk, walk_of_leads⟩

theorem reach_entry {part : Bytes} (entry : IsEntry part) (place : List Bytes) : reach place part = place ++ [part] := by
  obtain ⟨hnil, hhere, hup⟩ := entry
  simp [reach, hnil, hhere, hup]

theorem foldl_reach_own {own : List Bytes} (named : ∀ part ∈ own, IsEntry part) (place : List Bytes) :
    own.foldl reach place = place ++ own := by
  induction own generalizing place with
  | nil => simp
  | cons part own ih =>
    obtain ⟨hpart, hown⟩ := List.forall_mem_cons.1 named
    rw [List.foldl_cons, reach_entry hpart, ih hown, List.append_assoc, List.singleton_append]

/-- Components lead where their spelling says. -/
theorem Leads.place_eq (h : Leads d place node parts spot) : spot.place = parts.foldl reach place := by
  induction h with
  | done => rfl
  | stay skipped rest ih => rw [List.foldl_cons, reach, if_pos (by simpa using skipped), ih]
  | rise rest ih => rw [List.foldl_cons, reach, if_neg (by decide), if_pos rfl, ih]
  | enter entry short found rest ih => rw [List.foldl_cons, reach_entry entry, ih]
  | vacant entry short found => rw [List.foldl_cons, reach_entry entry, List.foldl_nil, Spot.place]

theorem Leads.free (h : Leads d place node parts (.free last)) : d.node? last = none := by
  generalize hspot : Spot.free last = spot at h
  induction h with
  | done => cases hspot
  | stay _ _ ih | rise _ ih | enter _ _ _ _ ih => exact ih hspot
  | vacant _ _ found =>
    cases hspot
    exact found

/-- A file is found by its name, never by staying or going up. -/
theorem Leads.file (h : Leads d place .directory parts (.taken last (.file content))) :
    d.node? last = some (.file content) := by
  generalize hstart : Node.directory = start at h
  generalize hspot : Spot.taken last (.file content) = spot at h
  induction h with
  | done =>
    cases hstart
    cases hspot
  | stay _ _ ih | rise _ ih => exact ih rfl hspot
  | vacant => cases hspot
  | @enter place parts part next spot entry short found rest ih =>
    cases next with
    | directory => exact ih rfl hspot
    | file text =>
      cases rest
      cases hspot
      exact found

/-- A way to a node stays open where directories and that node stay. -/
theorem Leads.keep (directories : ∀ other, d.node? other = some .directory → e.node? other = some .directory)
    (target : d.node? last = some node → e.node? last = some node) {start : Node}
    (h : Leads d place start parts (.taken last node)) : Leads e place start parts (.taken last node) := by
  generalize hspot : Spot.taken last node = spot at h
  induction h with
  | done => exact .done
  | stay skipped _ ih => exact .stay skipped (ih hspot)
  | rise _ ih => exact .rise (ih hspot)
  | vacant => cases hspot
  | @enter place parts part next spot entry short found rest ih =>
    refine .enter entry short ?_ (ih hspot)
    cases next with
    | directory => exact directories _ found
    | file text =>
      -- nothing leads on from a file, so it is the last node
      cases rest
      cases hspot
      exact target found

end Walking

section Writing
variable {d : Disk} {p q : Path} {place : List Bytes} {spot : Spot} {content text : Bytes}

theorem node?_put (hplace : place ≠ []) (node : Node) (other : List Bytes) :
    (d.put place node).node? other = if other = place then some node else d.node? other := by
  simp only [node?, put, Tables.lookup_replace]
  split
  · next hroot => rw [if_neg fun h : other = place => hplace (h ▸ hroot)]
  · rfl

/-- The place at which a path starts. -/
def start (d : Disk) (p : Path) : List Bytes := if p.rooted then [] else d.workplace

/-- Where the components of a cleaned path lead, its spelling leads. -/
theorem foldl_reach_split (hp : p.Cleaned) (place : List Bytes) :
    (Bytes.split Bytes.slash p.text).foldl reach place = p.parts.foldl reach place := by
  obtain ⟨rooted, parts⟩ := p
  have joined : (Bytes.split Bytes.slash (Bytes.join Bytes.slash parts)).foldl reach place =
      parts.foldl reach place := by
    cases parts with
    | nil => rfl
    | cons first rest => rw [Bytes.split_join (by simp) fun part h => (hp.named part h).2.2]
  cases rooted with
  | true =>
    simp only [Path.text, if_true]
    rw [Bytes.split, if_pos rfl, List.foldl_cons, show reach place [] = place from rfl, joined]
  | false =>
    cases parts with
    | nil => rfl
    | cons first rest => exact joined

theorem head?_text (hp : p.Cleaned) : p.text.head? = some Bytes.slash ↔ p.rooted = true := by
  have h := congrArg Path.rooted (clean_text hp)
  rw [← h]
  exact beq_iff_eq.symm

/-- A path is found if the system takes its spelling and its components lead somewhere. -/
theorem locateAs_eq_ok {spelling path : Bytes} : d.locateAs spelling path = .ok spot ↔
    (0 ∉ spelling ∧ spelling ≠ [] ∧ spelling.length ≤ maxPath) ∧
      Leads d (if path.head? = some Bytes.slash then [] else d.workplace) .directory (Bytes.split Bytes.slash path)
        spot := by
  rw [← walk_eq_ok]
  unfold locateAs
  split
  next hzero => simp [List.contains_iff_mem.1 hzero]
  next hzero =>
    split
    next hempty => simp [List.isEmpty_iff.1 hempty]
    next hempty =>
      split
      next hlong => simp [Nat.not_le.2 hlong]
      next hlong => simp_all

theorem locate_eq_ok {path : Bytes} : d.locate path = .ok spot ↔
    (0 ∉ path ∧ path ≠ [] ∧ path.length ≤ maxPath) ∧
      Leads d (if path.head? = some Bytes.slash then [] else d.workplace) .directory (Bytes.split Bytes.slash path)
        spot := locateAs_eq_ok

/-- Where a cleaned path leads, if it leads anywhere. -/
theorem leads_of_locate (hp : p.Cleaned) (h : d.locate p.text = .ok spot) :
    Leads d (d.start p) .directory (Bytes.split Bytes.slash p.text) spot ∧
      spot.place = p.parts.foldl reach (d.start p) := by
  have hstart : (if p.text.head? = some Bytes.slash then [] else d.workplace) = d.start p :=
    if_congr (head?_text hp) rfl rfl
  have leads := (locate_eq_ok.1 h).2
  rw [hstart] at leads
  exact ⟨leads, leads.place_eq.trans (foldl_reach_split hp _)⟩

theorem read_eq_ok {path : Bytes} :
    d.read path = .ok content ↔ ∃ place, d.locate path = .ok (.taken place (.file content)) := by
  unfold read
  split <;> simp_all

theorem locate_keep {e : Disk} {path : Bytes} {node : Node} (workplace : e.workplace = d.workplace)
    (directories : ∀ other, d.node? other = some .directory → e.node? other = some .directory)
    (target : d.node? place = some node → e.node? place = some node) (h : d.locate path = .ok (.taken place node)) :
    e.locate path = .ok (.taken place node) := by
  obtain ⟨taken, leads⟩ := locate_eq_ok.1 h
  rw [← workplace] at leads
  exact locate_eq_ok.2 ⟨taken, leads.keep directories target⟩

/-- Another disk has all that a disk has. -/
structure Extends (d e : Disk) : Prop where
  workplace : e.workplace = d.workplace
  nodes : ∀ place node, d.node? place = some node → e.node? place = some node

theorem Extends.refl (d : Disk) : Extends d d := ⟨rfl, fun _ _ h => h⟩

theorem Extends.trans {d e f : Disk} (h : Extends d e) (h' : Extends e f) : Extends d f :=
  ⟨h'.workplace.trans h.workplace, fun place node hn => h'.nodes place node (h.nodes place node hn)⟩

theorem Extends.read {e : Disk} {path : Bytes} (h : Extends d e) (hread : d.read path = .ok content) :
    e.read path = .ok content := by
  obtain ⟨place, found⟩ := read_eq_ok.1 hread
  exact read_eq_ok.2 ⟨place, locate_keep h.workplace (fun other => h.nodes other _) (h.nodes place _) found⟩

theorem ne_nil_of_node? (h : d.node? place ≠ some .directory) : place ≠ [] := by
  rintro rfl
  exact h rfl

theorem extends_put (hfree : d.node? place = none) (node : Node) : Extends d (d.put place node) where
  workplace := rfl
  nodes := by
    intro other n hn
    have hplace : place ≠ [] := ne_nil_of_node? (d := d) (by simp [hfree])
    rw [node?_put hplace, if_neg fun h => by simp [h, hfree] at hn]
    exact hn

/-- Directories are made where nothing was. -/
theorem makeEach_extends (stages : List Stage) (d : Disk) : Extends d (makeEach stages d).2 := by
  induction stages generalizing d with
  | nil => exact .refl d
  | cons stage stages ih =>
    unfold makeEach
    split
    · exact .refl d
    · exact ih d
    · exact .refl d
    next place found => exact (extends_put (locateAs_eq_ok.1 found).2.free _).trans (ih _)

/-- A file stays as it is when a file at another place is written. -/
theorem read_write (hp : p.Cleaned) (hq : q.Cleaned)
    (apart : p.parts.foldl reach (d.start p) ≠ q.parts.foldl reach (d.start q)) (h : d.read p.text = .ok content) :
    (write q.text text d).2.read p.text = .ok content := by
  obtain ⟨last, found⟩ := read_eq_ok.1 h
  have hlast := (leads_of_locate hp found).2
  -- What is written stands where no directory was, and not at the place of the file.
  have keep : ∀ {place}, d.node? place ≠ some .directory → place ≠ last →
      (d.put place (.file text)).read p.text = .ok content := by
    intro place hnode hne
    have hput := node?_put (d := d) (ne_nil_of_node? hnode) (.file text)
    refine read_eq_ok.2 ⟨last, locate_keep (d := d) rfl (fun other hother => ?_) (fun hlast => ?_) found⟩
    · rw [hput, if_neg fun heq : other = place => hnode (heq ▸ hother)]
      exact hother
    · rw [hput, if_neg hne.symm]
      exact hlast
  unfold write
  split
  · exact h
  · exact h
  next place old located =>
    obtain ⟨leads, hplace⟩ := leads_of_locate hq located
    refine keep (by simp [leads.file]) fun heq => apart ?_
    rw [← hlast, ← hplace]
    exact heq.symm
  next place located =>
    obtain ⟨leads, hplace⟩ := leads_of_locate hq located
    refine keep (by simp [leads.free]) fun heq => apart ?_
    rw [← hlast, ← hplace]
    exact heq.symm

/-- The directories that are made on the way do not change a file either. -/
theorem read_writeBelow (hp : p.Cleaned) (hq : q.Cleaned)
    (apart : p.parts.foldl reach (d.start p) ≠ q.parts.foldl reach (d.start q)) (h : d.read p.text = .ok content) :
    (writeBelow q text d).2.read p.text = .ok content := by
  have made : Extends d (makeAll q.parent d).2 := makeEach_extends _ d
  unfold writeBelow
  split
  next e disk hmade =>
    rw [hmade] at made
    exact made.read h
  next disk hmade =>
    rw [hmade] at made
    have hstart : ∀ path, disk.start path = d.start path := fun path => by rw [start, start, made.workplace]
    exact read_write hp hq (by rwa [hstart, hstart]) (made.read h)

end Writing
end ProtoRecovery.Disk
