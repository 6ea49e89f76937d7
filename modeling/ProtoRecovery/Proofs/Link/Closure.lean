import Mathlib.Data.List.Nodup
import Mathlib.Data.List.Pairwise
import Mathlib.Logic.Relation
import ProtoRecovery.Proofs.Text.Order
import ProtoRecovery.Source.Basic

/-! # The import closure: what is collected is what can be reached -/
namespace ProtoRecovery.Link
open Schema

/-- A file imports another of the files. -/
def Imports (files : List File) (f g : File) : Prop := g ∈ files ∧ textOf g.name ∈ f.dependencies

/-- Files that can stand side by side: each has its own path, and no full name is declared in two of them. -/
structure Coherent (files : List File) : Prop where
  paths : (files.map fun f => textOf f.name).Nodup
  owners : files.Pairwise fun f g => ∀ name ∈ symbols f, name ∉ symbols g

section
variable {files unseen : List File} {pending : List Bytes} {path : Bytes} {f g : File}

theorem mem_without : f ∈ without files path ↔ f ∈ files ∧ textOf f.name ≠ path := by
  simp [without]

theorem fileAt?_eq_some (h : fileAt? files path = some f) : f ∈ files ∧ textOf f.name = path :=
  ⟨List.mem_of_find?_eq_some h, by simpa using List.find?_some h⟩

theorem fileAt?_without {other : Bytes} (h : other ≠ path) : fileAt? (without files path) other = fileAt? files other := by
  rw [fileAt?, without, List.find?_filter]
  refine congrArg (files.find? ·) (funext fun f => ?_)
  by_cases hf : textOf f.name = other
  · simp [hf, h]
  · simp [hf]

/-! ## What is collected -/

/-- What is collected is there, and is reached from what was pending. -/
theorem reached_of_mem_collect (h : f ∈ collect unseen pending) :
    f ∈ unseen ∧ ∃ root ∈ unseen, textOf root.name ∈ pending ∧ Relation.ReflTransGen (Imports unseen) root f := by
  fun_induction collect unseen pending with
  | case1 => simp at h
  | case2 unseen path pending none ih =>
    obtain ⟨hf, root, hroot, hpending, hreach⟩ := ih h
    exact ⟨hf, root, hroot, List.mem_cons_of_mem _ hpending, hreach⟩
  | case3 unseen path pending first found ih =>
    obtain ⟨hfirst, hpath⟩ := fileAt?_eq_some found
    rcases List.mem_cons.1 h with rfl | h
    · exact ⟨hfirst, f, hfirst, hpath ▸ List.mem_cons_self, .refl⟩
    · obtain ⟨hf, root, hroot, hpending, hreach⟩ := ih h
      have hrest : ∀ g, g ∈ without unseen path → g ∈ unseen := fun g hg => (mem_without.1 hg).1
      have hreach : Relation.ReflTransGen (Imports unseen) root f :=
        Relation.ReflTransGen.mono (fun _ g hg => ⟨hrest g hg.1, hg.2⟩) _ _ hreach
      refine ⟨hrest f hf, ?_⟩
      rcases List.mem_append.1 hpending with himport | hpending
      · exact ⟨first, hfirst, hpath ▸ List.mem_cons_self, hreach.head ⟨hrest root hroot, himport⟩⟩
      · exact ⟨root, hrest root hroot, List.mem_cons_of_mem _ hpending, hreach⟩

/-- What is pending is collected. -/
theorem mem_collect_of_pending (h : path ∈ pending) (found : fileAt? unseen path = some f) : f ∈ collect unseen pending := by
  fun_induction collect unseen pending with
  | case1 => simp at h
  | case2 unseen first pending none ih =>
    rcases List.mem_cons.1 h with rfl | h
    · rw [none] at found
      cases found
    · exact ih h found
  | case3 unseen first pending at' found' ih =>
    by_cases hpath : path = first
    · subst hpath
      rw [found'] at found
      exact Option.some.inj found ▸ List.mem_cons_self
    · refine List.mem_cons_of_mem _ (ih (List.mem_append_right _ ?_) ?_)
      · exact (List.mem_cons.1 h).resolve_left hpath
      · rwa [fileAt?_without hpath]

/-- Nothing that is collected imports a file that is not. -/
theorem collect_closed (h : f ∈ collect unseen pending) (himport : path ∈ f.dependencies)
    (found : fileAt? unseen path = some g) : g ∈ collect unseen pending := by
  fun_induction collect unseen pending with
  | case1 => simp at h
  | case2 unseen first pending none ih => exact ih h found
  | case3 unseen first pending at' found' ih =>
    by_cases hpath : path = first
    · subst hpath
      rw [found'] at found
      exact Option.some.inj found ▸ List.mem_cons_self
    · have hrest : fileAt? (without unseen first) path = some g := by rwa [fileAt?_without hpath]
      refine List.mem_cons_of_mem _ ?_
      rcases List.mem_cons.1 h with rfl | h
      · exact mem_collect_of_pending (List.mem_append_left _ himport) hrest
      · exact ih h hrest

/-- No path is collected twice. -/
theorem nodup_collect (unseen : List File) (pending : List Bytes) :
    ((collect unseen pending).map fun f => textOf f.name).Nodup := by
  fun_induction collect unseen pending with
  | case1 => exact .nil
  | case2 unseen first pending none ih => exact ih
  | case3 unseen first pending at' found ih =>
    rw [List.map_cons, List.nodup_cons]
    refine ⟨fun h => ?_, ih⟩
    obtain ⟨g, hg, hname⟩ := List.mem_map.1 h
    have hne := (mem_without.1 (reached_of_mem_collect hg).1).2
    exact hne (hname.trans (fileAt?_eq_some found).2)

end

/-! ## The closure -/

theorem sortByPath_perm (files : List File) : (sortByPath files).Perm files := List.mergeSort_perm ..

theorem sortByPath_pairwise (files : List File) :
    (sortByPath files).Pairwise fun f g => Bytes.le (textOf f.name) (textOf g.name) :=
  List.pairwise_mergeSort (fun f g h => Bytes.le_trans (textOf f.name) (textOf g.name) (textOf h.name))
    (fun f g => Bytes.le_total (textOf f.name) (textOf g.name)) _

/-- Where at most one entry passes, a search finds exactly that. -/
theorem find?_eq_some_iff_of_unique {α : Type} {l : List α} {p : α → Bool}
    (unique : ∀ a ∈ l, ∀ b ∈ l, p a = true → p b = true → a = b) {a : α} : l.find? p = some a ↔ a ∈ l ∧ p a = true := by
  constructor
  · intro h
    exact ⟨List.mem_of_find?_eq_some h, List.find?_some h⟩
  · rintro ⟨ha, hp⟩
    cases hfind : l.find? p with
    | none => exact absurd hp (List.find?_eq_none.1 hfind a ha)
    | some b => rw [unique b (List.mem_of_find?_eq_some hfind) a ha (List.find?_some hfind) hp]

namespace Coherent
variable {files : List File} (h : Coherent files)
include h

theorem eq_of_path {f g : File} (hf : f ∈ files) (hg : g ∈ files) (hpath : textOf f.name = textOf g.name) : f = g :=
  List.inj_on_of_nodup_map h.paths hf hg hpath

theorem eq_of_symbol {f g : File} (hf : f ∈ files) (hg : g ∈ files) {name : Bytes} (hname : name ∈ symbols f)
    (hname' : name ∈ symbols g) : f = g := by
  have symmetric : Std.Symm fun f g : File => ∀ name ∈ symbols f, name ∉ symbols g :=
    ⟨fun _ _ apart name hg hf => apart name hf hg⟩
  by_contra hne
  exact h.owners.forall hf hg hne name hname hname'

theorem fileAt?_iff {path : Bytes} {f : File} : fileAt? files path = some f ↔ f ∈ files ∧ textOf f.name = path := by
  rw [fileAt?, find?_eq_some_iff_of_unique, beq_iff_eq]
  intro f hf g hg hpath hpath'
  exact h.eq_of_path hf hg ((beq_iff_eq.1 hpath).trans (beq_iff_eq.1 hpath').symm)

theorem declaring?_iff {name : Bytes} {f : File} : declaring? files name = some f ↔ f ∈ files ∧ name ∈ symbols f := by
  rw [declaring?, find?_eq_some_iff_of_unique, List.contains_iff_mem]
  intro f hf g hg hname hname'
  exact h.eq_of_symbol hf hg (List.contains_iff_mem.1 hname) (List.contains_iff_mem.1 hname')

/-- What is collected is exactly what can be reached from what was pending. -/
theorem mem_collect_iff {pending : List Bytes} {f : File} : f ∈ collect files pending ↔
    ∃ root ∈ files, textOf root.name ∈ pending ∧ Relation.ReflTransGen (Imports files) root f := by
  constructor
  · exact fun hf => (reached_of_mem_collect hf).2
  · rintro ⟨root, hroot, hpending, hreach⟩
    induction hreach with
    | refl => exact mem_collect_of_pending hpending (h.fileAt?_iff.2 ⟨hroot, rfl⟩)
    | tail _ himport ih => exact collect_closed ih himport.2 (h.fileAt?_iff.2 ⟨himport.1, rfl⟩)

theorem mem_closure_iff {roots : List File} (hroots : roots ⊆ files) {f : File} : f ∈ closure files roots ↔
    ∃ root ∈ roots, Relation.ReflTransGen (Imports files) root f := by
  rw [closure, (sortByPath_perm _).mem_iff, h.mem_collect_iff]
  constructor
  · rintro ⟨root, hroot, hpending, hreach⟩
    obtain ⟨asked, hasked, hpath⟩ := List.mem_map.1 hpending
    exact ⟨root, h.eq_of_path (hroots hasked) hroot hpath ▸ hasked, hreach⟩
  · rintro ⟨root, hroot, hreach⟩
    exact ⟨root, hroots hroot, List.mem_map_of_mem hroot, hreach⟩

end Coherent

theorem nodup_closure (files roots : List File) : ((closure files roots).map fun f => textOf f.name).Nodup :=
  ((sortByPath_perm _).map _).nodup_iff.2 (nodup_collect ..)

/-- Files with paths of their own are brought into one order, whatever order they came in. -/
theorem sortByPath_eq {files order : List File} (distinct : (files.map fun f => textOf f.name).Nodup)
    (sorted : files.Pairwise fun f g => Bytes.le (textOf f.name) (textOf g.name)) (same : order.Perm files) :
    sortByPath order = files :=
  (Bytes.eq_of_sorted (fun f => textOf f.name) sorted (sortByPath_pairwise order)
    (same.symm.trans (sortByPath_perm order).symm) fun _ hf _ hg => List.inj_on_of_nodup_map distinct hf hg).symm

/-! ## Imports in another order -/

/-- A file with its imports in an order of their own. -/
def reordered (shuffle : File → List Bytes) (f : File) : File := { f with dependencies := shuffle f }

section
variable {files order : List File} {shuffle : File → List Bytes}
  (shuffled : ∀ f ∈ files, (shuffle f).Perm f.dependencies) (same : order.Perm files)

include same in
theorem Coherent.reordered (h : Coherent files) : Coherent (order.map (reordered shuffle)) := by
  constructor
  · rw [List.map_map]
    exact (same.map _).nodup_iff.2 h.paths
  · rw [List.pairwise_map]
    exact same.symm.pairwise h.owners fun apart name hg hf => apart name hf hg

theorem mem_of_reached {root f : File} (hroot : root ∈ files) (h : Relation.ReflTransGen (Imports files) root f) :
    f ∈ files := by
  cases h with
  | refl => exact hroot
  | tail _ himport => exact himport.1

include shuffled same

theorem imports_reordered_iff {f g : File} (hf : f ∈ files) :
    Imports (order.map (reordered shuffle)) (reordered shuffle f) g ↔
      ∃ g', g = reordered shuffle g' ∧ Imports files f g' := by
  have hdeps : ∀ path, path ∈ shuffle f ↔ path ∈ f.dependencies := fun path => (shuffled f hf).mem_iff
  constructor
  · rintro ⟨hg, himport⟩
    obtain ⟨g', hg', rfl⟩ := List.mem_map.1 hg
    exact ⟨g', rfl, same.mem_iff.1 hg', (hdeps _).1 himport⟩
  · rintro ⟨g', rfl, hg', himport⟩
    exact ⟨List.mem_map_of_mem (same.mem_iff.2 hg'), (hdeps _).2 himport⟩

theorem reached_reordered_iff {root g : File} (hroot : root ∈ files) :
    Relation.ReflTransGen (Imports (order.map (reordered shuffle))) (reordered shuffle root) g ↔
      ∃ g', g = reordered shuffle g' ∧ Relation.ReflTransGen (Imports files) root g' := by
  constructor
  · intro h
    induction h with
    | refl => exact ⟨root, rfl, .refl⟩
    | tail _ himport ih =>
      obtain ⟨f, rfl, hreach⟩ := ih
      obtain ⟨g', hg', himport⟩ := (imports_reordered_iff shuffled same (mem_of_reached hroot hreach)).1 himport
      exact ⟨g', hg', hreach.tail himport⟩
  · rintro ⟨g', rfl, h⟩
    induction h with
    | refl => exact .refl
    | tail hreach himport ih =>
      exact ih.tail ((imports_reordered_iff shuffled same (mem_of_reached hroot hreach)).2 ⟨_, rfl, himport⟩)

/-- Neither the order of the files, nor that of what they import, nor that of the roots makes a difference. -/
theorem closure_reordered (h : Coherent files) {roots others : List File} (hroots : roots ⊆ files)
    (hothers : ∀ g, g ∈ others ↔ g ∈ roots.map (reordered shuffle)) :
    closure (order.map (reordered shuffle)) others = (closure files roots).map (reordered shuffle) := by
  have hsubset : others ⊆ order.map (reordered shuffle) := by
    intro g hg
    obtain ⟨root, hroot, rfl⟩ := List.mem_map.1 ((hothers g).1 hg)
    exact List.mem_map_of_mem (same.mem_iff.2 (hroots hroot))
  have hmem : ∀ g, g ∈ closure (order.map (reordered shuffle)) others ↔
      g ∈ (closure files roots).map (reordered shuffle) := by
    intro g
    rw [(h.reordered same).mem_closure_iff hsubset, List.mem_map]
    constructor
    · rintro ⟨other, hother, hreach⟩
      obtain ⟨root, hroot, rfl⟩ := List.mem_map.1 ((hothers other).1 hother)
      obtain ⟨g', rfl, hreached⟩ := (reached_reordered_iff shuffled same (hroots hroot)).1 hreach
      exact ⟨g', (h.mem_closure_iff hroots).2 ⟨root, hroot, hreached⟩, rfl⟩
    · rintro ⟨g', hg', rfl⟩
      obtain ⟨root, hroot, hreach⟩ := (h.mem_closure_iff hroots).1 hg'
      exact ⟨reordered shuffle root, (hothers _).2 (List.mem_map_of_mem hroot),
        (reached_reordered_iff shuffled same (hroots hroot)).2 ⟨g', rfl, hreach⟩⟩
  have hpaths : ((closure files roots).map (reordered shuffle)).map (fun f => textOf f.name) =
      (closure files roots).map fun f => textOf f.name := List.map_map
  refine Bytes.eq_of_sorted (fun f => textOf f.name) (sortByPath_pairwise _) ?_ ?_ ?_
  · rw [List.pairwise_map]
    exact sortByPath_pairwise _
  · refine (List.perm_ext_iff_of_nodup ?_ ?_).2 hmem
    · exact (nodup_closure _ _).of_map
    · exact List.Nodup.of_map (fun f => textOf f.name) (hpaths ▸ nodup_closure files roots)
  · exact fun f hf g hg => List.inj_on_of_nodup_map (nodup_closure _ _) hf hg

end
end ProtoRecovery.Link

namespace ProtoRecovery
open Schema Link

/-- What a server owes to a request that goes through: it lists its services, finds the file that declares a name,
and says of any other name that it is unknown. -/
structure Server.Answers (server : Server) (request : Request) (services : List Bytes) : Prop where
  listed : server.services request = .ok services
  found : ∀ f ∈ server.files, ∀ name ∈ symbols f, server.lookup request name = .ok f
  unknown : ∀ name, (∀ f ∈ server.files, name ∉ symbols f) → server.lookup request name = .error .unknown

namespace Server
variable {server : Server} {request : Request} {services : List Bytes}

theorem Answers.roots_eq (h : server.Answers request services) (names : List Bytes) :
    ∃ roots, server.roots request names = .ok roots ∧
      ∀ f, f ∈ roots ↔ f ∈ server.files ∧ ∃ name ∈ names, name ∈ symbols f := by
  induction names with
  | nil => exact ⟨[], rfl, by simp⟩
  | cons name names ih =>
    obtain ⟨roots, heq, members⟩ := ih
    by_cases hknown : ∃ f ∈ server.files, name ∈ symbols f
    · obtain ⟨f, hf, hname⟩ := hknown
      have hfound : server.lookup request name = .ok f := h.found f hf name hname
      -- a second file that declares the name would be the one that was found
      have only : ∀ g, g = f ↔ g ∈ server.files ∧ name ∈ symbols g := by
        refine fun g => ⟨fun hg => hg ▸ ⟨hf, hname⟩, fun ⟨hg, hdeclares⟩ => ?_⟩
        exact Except.ok.inj ((h.found g hg name hdeclares).symm.trans hfound)
      refine ⟨f :: roots, by simp [Server.roots, hfound, heq, Except.map], fun g => ?_⟩
      rw [List.mem_cons, members, only, List.exists_mem_cons_iff, and_or_left]
    · have hunknown : ∀ f ∈ server.files, name ∉ symbols f := fun f hf hname => hknown ⟨f, hf, hname⟩
      refine ⟨roots, by simp [Server.roots, h.unknown name hunknown, heq], fun g => ?_⟩
      rw [members, List.exists_mem_cons_iff]
      exact and_congr_right fun hg => (or_iff_right (hunknown g hg)).symm

theorem Answers.reflection_eq (h : server.Answers request services) {roots : List File}
    (hroots : server.roots request services = .ok roots) (target : Bytes) :
    Source.reflection target (.ok server) request = .ok ((closure server.files roots).map some) := by
  simp only [Source.reflection, Except.mapError, h.listed, hroots, bind, Except.bind, pure, Except.pure]

theorem ofFiles_answers {files : List File} (coherent : Coherent files) (services : List Bytes)
    (live : request.cancelled = false) : (ofFiles files services).Answers request services := by
  constructor
  · simp [ofFiles, live]
  · intro f hf name hname
    simp [ofFiles, live, coherent.declaring?_iff.2 ⟨hf, hname⟩]
  · intro name hunknown
    have hnone : declaring? files name = none := List.find?_eq_none.2 fun f hf => by simpa using hunknown f hf
    simp [ofFiles, live, hnone]

end Server

/-- A server of files that can stand side by side is asked for its services: what is found are exactly the files that
declare one of them and all that can be reached from these through imports, each once and in the order of their
paths. In which order they were collected makes no difference, and neither does the order of the services, of the
files, or of the imports in a file. -/
theorem reflection_finds_closure {server : Server} (coherent : Coherent server.files) {request : Request}
    {services : List Bytes} (answers : server.Answers request services) (target : Bytes) :
    ∃ found, Source.reflection target (.ok server) request = .ok (found.map some) ∧
      (∀ f, f ∈ found ↔ ∃ root ∈ server.files, (∃ service ∈ services, service ∈ symbols root) ∧
        Relation.ReflTransGen (Imports server.files) root f) ∧
      found.Pairwise (fun f g => Bytes.le (textOf f.name) (textOf g.name) ∧ textOf f.name ≠ textOf g.name) ∧
      (∀ order, order.Perm found → sortByPath order = found) ∧
      ∀ shuffle : File → List Bytes, (∀ f ∈ server.files, (shuffle f).Perm f.dependencies) →
        ∀ order : List File, order.Perm server.files → ∀ others, (∀ service, service ∈ others ↔ service ∈ services) →
        ∀ other : Server, other.files = order.map (reordered shuffle) → ∀ again, other.Answers again others →
        Source.reflection target (.ok other) again = .ok ((found.map (reordered shuffle)).map some) := by
  obtain ⟨roots, hroots, members⟩ := answers.roots_eq services
  have hsubset : roots ⊆ server.files := fun f hf => ((members f).1 hf).1
  have distinct := nodup_closure server.files roots
  have sorted : (closure server.files roots).Pairwise fun f g => Bytes.le (textOf f.name) (textOf g.name) :=
    sortByPath_pairwise _
  refine ⟨closure server.files roots, answers.reflection_eq hroots target, fun f => ?_, ?_,
    fun order => sortByPath_eq distinct sorted, ?_⟩
  · simp only [coherent.mem_closure_iff hsubset, members, and_assoc]
  · exact sorted.and (List.pairwise_map.1 distinct)
  · intro shuffle shuffled order same others hothers other hfiles again answers'
    obtain ⟨roots', hroots', members'⟩ := answers'.roots_eq others
    have hsame : ∀ g, g ∈ roots' ↔ g ∈ roots.map (reordered shuffle) := by
      intro g
      rw [members', hfiles, List.mem_map, List.mem_map]
      constructor
      · rintro ⟨⟨f, hf, rfl⟩, service, hservice, hsymbol⟩
        exact ⟨f, (members f).2 ⟨same.mem_iff.1 hf, service, (hothers service).1 hservice, hsymbol⟩, rfl⟩
      · rintro ⟨f, hf, rfl⟩
        obtain ⟨hf, service, hservice, hsymbol⟩ := (members f).1 hf
        exact ⟨⟨f, same.mem_iff.2 hf, rfl⟩, service, (hothers service).2 hservice, hsymbol⟩
    rw [answers'.reflection_eq hroots', hfiles, closure_reordered shuffled same coherent hsubset hsame]

private def cage (name : String) (imports : List String) (service : String) : File where
  name := some (utf8 name)
  package := some (utf8 "zoo")
  dependencies := imports.map utf8
  services := [some { name := some (utf8 service) }]

private def zoo : List File :=
  [cage "owl" ["bat", "elk"] "Owl", cage "elk" ["ant"] "Elk", cage "bat" ["ant"] "Bat", cage "ant" [] "Ant",
    cage "yak" ["ant"] "Yak"]

private def keeper : Server := .ofFiles zoo [utf8 "zoo.Ape", utf8 "zoo.Owl"]

/-- All in reverse, and one service listed twice. -/
private def relief : Server :=
  .ofFiles (zoo.reverse.map (reordered fun f => f.dependencies.reverse)) [utf8 "zoo.Owl", utf8 "zoo.Ape", utf8 "zoo.Owl"]

theorem reflection_finds_closure_zoo : Coherent keeper.files ∧ keeper.Answers {} [utf8 "zoo.Ape", utf8 "zoo.Owl"] ∧
    ∃ found, Source.reflection (utf8 "zoo:443") (.ok keeper) {} = .ok (found.map some) ∧
      cage "ant" [] "Ant" ∈ found ∧ cage "yak" ["ant"] "Yak" ∉ found ∧ sortByPath found.reverse = found ∧
      Source.reflection (utf8 "zoo:443") (.ok relief) {} =
        .ok ((found.map (reordered fun f => f.dependencies.reverse)).map some) := by
  have coherent : Coherent keeper.files := ⟨by decide, by decide +kernel⟩
  have answers : keeper.Answers {} [utf8 "zoo.Ape", utf8 "zoo.Owl"] := Server.ofFiles_answers coherent _ rfl
  have owl : cage "owl" ["bat", "elk"] "Owl" ∈ keeper.files := .head _
  have elk : cage "elk" ["ant"] "Elk" ∈ keeper.files := .tail _ (.head _)
  have ant : cage "ant" [] "Ant" ∈ keeper.files := .tail _ (.tail _ (.tail _ (.head _)))
  obtain ⟨found, hfound, members, -, collected, reversed⟩ := reflection_finds_closure coherent answers (utf8 "zoo:443")
  refine ⟨coherent, answers, found, hfound, (members _).2 ?_, fun yak => ?_, collected _ (List.reverse_perm found), ?_⟩
  · refine ⟨_, owl, ⟨utf8 "zoo.Owl", .tail _ (.head _), by decide +kernel⟩, ?_⟩
    exact .tail (.tail .refl ⟨elk, by decide⟩) ⟨ant, by decide⟩
  · have unasked : ∀ service ∈ [utf8 "zoo.Ape", utf8 "zoo.Owl"], service ∉ symbols (cage "yak" ["ant"] "Yak") := by
      decide +kernel
    have unwanted : ∀ f ∈ keeper.files, utf8 "yak" ∉ f.dependencies := by decide
    obtain ⟨root, hroot, ⟨service, hservice, hsymbol⟩, hreach⟩ := (members _).1 yak
    cases hreach with
    | refl => exact unasked service hservice hsymbol
    | tail hreach himport => exact unwanted _ (mem_of_reached hroot hreach) himport.2
  · have same : zoo.reverse.Perm keeper.files := List.reverse_perm zoo
    have relieved : relief.Answers {} [utf8 "zoo.Owl", utf8 "zoo.Ape", utf8 "zoo.Owl"] :=
      Server.ofFiles_answers (coherent.reordered same) _ rfl
    exact reversed _ (fun f _ => List.reverse_perm _) _ same _ (by simp [or_comm]) relief rfl {} relieved

end ProtoRecovery
