import ProtoRecovery.Proofs.Outline.Spelling
import ProtoRecovery.Proofs.Render.Outcome

/-! # Tokens that a rendered text shows empty: types after their last dot, and import paths after a leading part -/
namespace ProtoRecovery
open Outline Schema

/-- Nothing follows the last dot of a name that ends with it. -/
theorem Bytes.lastSegment_eq_nil {t : Bytes} (h : t ≠ []) : lastSegment t = [] ↔ t.getLast? = some dot := by
  rcases List.eq_nil_or_concat' (split dot t) with hnil | ⟨pieces, last, hsplit⟩
  · exact absurd hnil (split_ne_nil t)
  have hlast : lastSegment t = last := by rw [lastSegment, hsplit, List.getLastD_concat]
  have hjoin : join dot (pieces ++ [last]) = t := hsplit ▸ join_split t
  rw [hlast]
  constructor
  · rintro rfl
    have hpieces : pieces ≠ [] := by
      rintro rfl
      exact h hjoin.symm
    rw [← hjoin, join_append hpieces (List.cons_ne_nil _ _), join, List.getLast?_concat]
  · intro hdot
    obtain ⟨s, rfl⟩ := List.getLast?_eq_some_iff.1 hdot
    rw [split_append] at hsplit
    exact (List.singleton_inj.1 (List.append_inj_right' hsplit rfl)).symm

namespace Outline

/-- What the first leading part that fits leaves of a path is blank. -/
def LeavesBlank (leads : List Bytes) (path : Bytes) : Prop :=
  ∃ before lead after rest, leads = before ++ lead :: after ∧ (∀ x ∈ before, x = [] ∨ ¬ x <+: path) ∧
    lead ≠ [] ∧ path = lead ++ rest ∧ Text.isBlankText rest = true

/-- What is left of a path after a leading part that fits. -/
def rest? (path lead : Bytes) : Option Bytes := if lead.isEmpty then none else Bytes.after? lead path

theorem stripLead_eq (leads : List Bytes) (path : Bytes) :
    stripLead leads path = (leads.findSome? (rest? path)).getD path := by
  induction leads with
  | nil => rfl
  | cons lead leads ih =>
    rw [stripLead, List.findSome?_cons, ← rest?, ih]
    cases rest? path lead <;> rfl

theorem rest?_eq_some {path lead rest : Bytes} : rest? path lead = some rest ↔ lead ≠ [] ∧ path = lead ++ rest := by
  rw [rest?]
  split
  · next hempty => simp [List.isEmpty_iff.1 hempty]
  · next hempty => rw [Bytes.after?_eq_some, and_iff_right (by simpa using hempty)]

theorem rest?_eq_none {path lead : Bytes} : rest? path lead = none ↔ lead = [] ∨ ¬ lead <+: path := by
  rw [Option.eq_none_iff_forall_ne_some]
  simp only [ne_eq, rest?_eq_some, not_and]
  constructor
  · intro h
    by_cases hnil : lead = []
    · exact .inl hnil
    · exact .inr fun ⟨rest, hrest⟩ => h rest hnil hrest.symm
  · rintro (hnil | hfits) rest hne heq
    · exact hne hnil
    · exact hfits ⟨rest, heq.symm⟩

theorem isBlankText_stripLead {leads : List Bytes} {path : Bytes} (h : Text.isBlankText path = false) :
    Text.isBlankText (stripLead leads path) = true ↔ LeavesBlank leads path := by
  rw [stripLead_eq]
  constructor
  · intro hblank
    cases hfound : leads.findSome? (rest? path) with
    | none =>
      -- nothing was cut off, and the path itself is not blank
      rw [hfound, Option.getD_none, h] at hblank
      cases hblank
    | some rest =>
      obtain ⟨before, lead, after, hleads, hrest, hbefore⟩ := List.findSome?_eq_some_iff.1 hfound
      obtain ⟨hne, hpath⟩ := rest?_eq_some.1 hrest
      rw [hfound] at hblank
      exact ⟨before, lead, after, rest, hleads, fun x hx => rest?_eq_none.1 (hbefore x hx), hne, hpath, hblank⟩
  · rintro ⟨before, lead, after, rest, hleads, hbefore, hne, hpath, hblank⟩
    have hfound : leads.findSome? (rest? path) = some rest := List.findSome?_eq_some_iff.2
      ⟨before, lead, after, hleads, rest?_eq_some.2 ⟨hne, hpath⟩, fun x hx => rest?_eq_none.2 (hbefore x hx)⟩
    rw [hfound]
    exact hblank

theorem paths_imports (style : Style) (f : Schema.File) : (imports style f).map (·.path) =
    (f.dependencies.filter fun path => !Text.isBlankText path).map (stripLead style.importLeads) := by
  have hfilter : (f.dependencies.zipIdx.filter fun x => !Text.isBlankText x.1).map Prod.fst =
      f.dependencies.filter fun path => !Text.isBlankText path := by
    conv_rhs => rw [← List.zipIdx_map_fst 0 f.dependencies, List.filter_map]
    rfl
  rw [← hfilter, imports, List.map_map, List.map_map]
  rfl

/-- The lines of the fields in an item. -/
def Item.lines : Item → List FieldLine
  | field l => [l]
  | oneof _ members => members

/-- The lines of all fields in a file, at any depth. -/
def File.fieldLines (f : File) : List FieldLine := (allIn f.messages).flatMap fun m => m.items.flatMap Item.lines

theorem types_shownMessage (style : Style) (dialect : Bytes) (m : Schema.Message) :
    ((shownMessage style dialect m).items.flatMap Item.lines).map (·.type) =
      (shownOrder m.fields.reduceOption).map (shownType style) := by
  have hitem : ∀ s : Shape, (shownItem style dialect s).lines.map (·.type) = s.fields.map (shownType style) := by
    intro s
    cases s with
    | plain f => rfl
    | lone f => rfl
    | group name members => simp [shownItem, Item.lines, Shape.fields, shownLine, Function.comp_def]
  obtain ⟨name, fields, nested, enums, oneofs, extensions, mapEntry, features⟩ := m
  rw [shownMessage, List.flatMap_map, List.map_flatMap, ← fields_shapesOf oneofs, List.map_flatMap]
  exact List.flatMap_congr fun s _ => hitem s

theorem types_fieldLines (style : Style) (f : Schema.File) : (shownFile style f).fieldLines.map (·.type) =
    f.located.flatMap fun x => (shownOrder x.2.fields.reduceOption).map (shownType style) := by
  rw [File.fieldLines, shownFile, allIn_shownMessages style _ [textOf f.package], List.flatMap_map, List.map_flatMap]
  exact List.flatMap_congr fun x _ => types_shownMessage style _ x.2

/-- A type that can be shown is empty only as the last segment of a name that ends with a dot. -/
theorem shownType_eq_nil {style : Style} {g : Field} (h : g.HasType) : shownType style g = [] ↔
    style.typeNames = .short ∧ g.IsReference ∧ (textOf g.typeName).getLast? = some Bytes.dot := by
  rcases h with ⟨s, hs⟩ | ⟨href, hname⟩
  · have hno : ¬ g.IsReference := by
      rw [Field.IsReference, hs]
      cases s <;> decide
    have hshown : shownType style g = s.keyword := by
      rw [shownType, hs]
      cases s <;> rfl
    rw [hshown]
    exact ⟨fun hnil => absurd hnil (isWord_scalar s).1, fun hboth => absurd hboth.2.1 hno⟩
  · have hshown : shownType style g = style.typeNames.reference (textOf g.typeName) := by
      rcases href with hg | hg | hg <;> rw [shownType, hg] <;> rfl
    rw [hshown]
    cases style.typeNames with
    | short => simpa [TypeNames.reference, href] using Bytes.lastSegment_eq_nil hname
    | qualified => simpa [TypeNames.reference] using hname

end Outline

section
variable {o : RenderOptions} {f : Schema.File}

theorem types_shown_iff (h : f.InOrder) : (∀ l ∈ (shownFile o.toStyle f).fieldLines, l.type ≠ []) ↔
    o.typeNames = .qualified ∨ ∀ x ∈ f.located, ∀ g ∈ x.2.fields.reduceOption, g.IsReference →
      (textOf g.typeName).getLast? ≠ some Bytes.dot := by
  have htypes : (∀ l ∈ (shownFile o.toStyle f).fieldLines, l.type ≠ []) ↔
      ∀ x ∈ f.located, ∀ g ∈ x.2.fields.reduceOption, shownType o.toStyle g ≠ [] := by
    have hmap := @List.forall_mem_map _ _ (·.type) (shownFile o.toStyle f).fieldLines (· ≠ [])
    rw [← hmap, types_fieldLines]
    simp only [List.mem_flatMap, List.mem_map, mem_shownOrder]
    exact ⟨fun hall x hx g hg => hall _ ⟨x, hx, g, hg, rfl⟩, fun hall _ ⟨x, hx, g, hg, heq⟩ => heq ▸ hall x hx g hg⟩
  rw [htypes]
  constructor
  · intro hall
    cases hstyle : o.typeNames with
    | qualified => exact .inl rfl
    | short =>
      refine .inr fun x hx g hg href hdot => hall x hx g hg ?_
      exact (shownType_eq_nil (h x hx g hg).2).2 ⟨hstyle, href, hdot⟩
  · intro hok x hx g hg hnil
    obtain ⟨hshort, href, hdot⟩ := (shownType_eq_nil (h x hx g hg).2).1 hnil
    rcases hok with hqualified | hdots
    · rw [hshort] at hqualified
      cases hqualified
    · exact hdots x hx g hg href hdot

theorem paths_shown_iff : (∀ i ∈ (shownFile o.toStyle f).imports, Text.isBlankText i.path = false) ↔
    ∀ path ∈ f.dependencies, Text.isBlankText path = false → ¬ LeavesBlank o.importLeads path := by
  have hmap := @List.forall_mem_map _ _ (·.path) (imports o.toStyle f) (Text.isBlankText · = false)
  rw [show (shownFile o.toStyle f).imports = imports o.toStyle f from rfl, ← hmap, paths_imports, List.forall_mem_map]
  simp only [List.mem_filter, Bool.not_eq_true', and_imp]
  refine forall₃_congr fun path _ hpath => ?_
  rw [← isBlankText_stripLead hpath, Bool.not_eq_true]

end

/-- A rendered text shows the type of every field exactly if types are shown in full or no reference ends with a dot,
and it shows no blank import path exactly if what a leading part leaves of a path is never blank. -/
theorem tokens_shown_iff {o : RenderOptions} {f : Schema.File} {t : Bytes} (h : render o f = .ok t) :
    ∃ outline, ofFile o.toStyle f = .ok outline ∧ t = (outline.rows o.order).flatMap (Row.text o.indent) ∧
      ((∀ l ∈ outline.fieldLines, l.type ≠ []) ↔ o.typeNames = .qualified ∨
        ∀ x ∈ f.located, ∀ g ∈ x.2.fields.reduceOption, g.IsReference →
          (textOf g.typeName).getLast? ≠ some Bytes.dot) ∧
      ((∀ i ∈ outline.imports, Text.isBlankText i.path = false) ↔
        ∀ path ∈ f.dependencies, Text.isBlankText path = false → ¬ LeavesBlank o.importLeads path) := by
  obtain ⟨hfault, htext⟩ := text_of_render h
  have hfile : ofFile o.toStyle f = .ok (shownFile o.toStyle f) := by
    rw [ofFile_eq, hfault]
    rfl
  exact ⟨_, hfile, htext, types_shown_iff (firstFault_eq_none_iff.1 hfault), paths_shown_iff⟩

private def coop : Schema.File where
  package := some (utf8 "farm")
  dependencies := [utf8 "./", utf8 " ", utf8 "./feed.proto"]
  messages := [some {
    name := some (utf8 "Hen")
    fields := [some { name := some (utf8 "egg"), number := some 1, typeName := some (utf8 "farm.") }] }]

/-- In full, the reference is shown as it is; with no leading parts to leave out, so is every path. -/
theorem tokens_shown_iff_coop :
    let o : RenderOptions := { typeNames := .qualified, importLeads := [] }
    ∃ t outline, render o coop = .ok t ∧ ofFile o.toStyle coop = .ok outline ∧
      (∀ l ∈ outline.fieldLines, l.type ≠ []) ∧ ∀ i ∈ outline.imports, Text.isBlankText i.path = false := by
  intro o
  have ht : render o coop = .ok (
      ["import \"./\";", "import \"./feed.proto\";", "", "package farm;", "", "message Hen \x7b", "    farm. egg = 1;",
        "\x7d"].flatMap fun line => utf8 line ++ [Bytes.newline]) := by decide +kernel
  obtain ⟨outline, hfile, -, htypes, hpaths⟩ := tokens_shown_iff ht
  refine ⟨_, outline, ht, hfile, htypes.2 (.inl rfl), hpaths.2 ?_⟩
  rintro path - - ⟨before, lead, after, rest, hleads, -⟩
  exact absurd hleads (by simp [o])

/-- The checks are made before names and paths are cut short: a field without a type and an empty import are shown. -/
theorem empty_tokens_shown : render {} coop = .ok (
      ["import \"\";", "import \"feed.proto\";", "", "package farm;", "", "message Hen \x7b", "     egg = 1;",
        "\x7d"].flatMap fun line => utf8 line ++ [Bytes.newline]) ∧
    ∃ outline, ofFile {} coop = .ok outline ∧
      (∃ l ∈ outline.fieldLines, l.type = []) ∧ ∃ i ∈ outline.imports, i.path = [] := by
  refine ⟨by decide +kernel, shownFile {} coop, ?_, ?_, ?_⟩
  · rw [ofFile_eq, show firstFault coop = none by decide +kernel]
    rfl
  · exact ⟨⟨none, [], utf8 "egg", 1⟩, by decide +kernel, rfl⟩
  · exact ⟨⟨.ordinary, []⟩, by decide +kernel, rfl⟩

end ProtoRecovery
