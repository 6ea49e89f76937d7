import ProtoRecovery.Proofs.Layout.Pieces
import ProtoRecovery.Proofs.Outline.Balanced
import ProtoRecovery.Proofs.Render.Outcome

/-! # Composition: a rendered file is its front and the texts of its declarations, each on its own -/
namespace ProtoRecovery
open Outline

namespace Schema

/-- A declaration at the top of a file. -/
inductive Declared | service (s : Service) | enum (e : EnumType) | message (m : Message)

/-- The declarations that are present, group by group. -/
def File.declared (order : Order) (f : File) : List Declared :=
  let services := f.services.reduceOption.map .service
  let enums := f.enums.reduceOption.map .enum
  let messages := f.messages.reduceOption.map .message
  match order with
  | .servicesFirst => services ++ enums ++ messages
  | .messagesFirst => messages ++ enums ++ services

/-- All of a file that stands before its declarations. -/
def File.front (f : File) : File where
  dialect := f.dialect
  edition := f.edition
  dependencies := f.dependencies
  publicIndices := f.publicIndices
  weakIndices := f.weakIndices
  package := f.package

/-- A file with nothing in it but one declaration. -/
def Declared.alone (dialect : Option Bytes) (edition : Option Int32) : Declared → File
  | service s => { dialect, edition, services := [some s] }
  | enum e => { dialect, edition, enums := [some e] }
  | message m => { dialect, edition, messages := [some m] }

section
variable (dialect : Option Bytes) (edition : Option Int32) (x : Declared)

@[simp] theorem Declared.dialect_alone : (x.alone dialect edition).dialect = dialect := by
  cases x <;> rfl

@[simp] theorem Declared.declared_alone (order : Order) : (x.alone dialect edition).declared order = [x] := by
  cases x <;> cases order <;> rfl

end

/-- The order only moves the groups. -/
theorem File.declared_perm (order order' : Order) (f : File) : (f.declared order).Perm (f.declared order') := by
  have hswap (a b c : List Declared) : (a ++ b ++ c).Perm (c ++ b ++ a) := by
    rw [List.append_assoc, List.append_assoc]
    exact List.perm_append_comm.trans ((List.perm_append_comm.append_right a).trans (by simp))
  cases order <;> cases order'
  · exact .refl _
  · exact hswap _ _ _
  · exact hswap _ _ _
  · exact .refl _

theorem File.message_mem_declared (order : Order) {f : File} {m : Message} :
    .message m ∈ f.declared order ↔ m ∈ f.messages.reduceOption := by
  cases order <;> simp [File.declared]

end Schema

namespace Outline
open Schema Writer

def shownDeclared (style : Style) (dialect : Bytes) : Declared → Declaration
  | .service s => .service (textOf s.name)
  | .enum e => .enum (ofEnum e)
  | .message m => .message (shownMessage style dialect m)

theorem declarations_shownFile (style : Style) (order : Order) (f : Schema.File) :
    (shownFile style f).declarations order = (f.declared order).map (shownDeclared style (textOf f.dialect)) := by
  cases order <;>
    simp [File.declarations, Schema.File.declared, shownFile, shownMessages_eq, shownDeclared, Function.comp_def]

section
variable {i : Indent}

theorem sound_intercalate (xs : List Declaration) :
    Sound i (List.intercalate [.blank] (xs.map Declaration.script)) ↔ ∀ x ∈ xs, Sound i x.script := by
  cases xs with
  | nil => simp [Sound, run, List.intercalate]
  | cons x xs =>
    have hrest : Sound i (xs.flatMap fun y => .blank :: y.script) ↔ ∀ y ∈ xs, Sound i (.blank :: y.script) :=
      sound_flatMap fun y _ => (Lays.blank 0).append y.lays
    have hblank (y : Declaration) : Sound i (.blank :: y.script) ↔ Sound i y.script := by
      rw [← List.singleton_append, (Lays.blank 0).sound_append, and_iff_right sound_blank]
    rw [List.map_cons, intercalate_cons, List.flatMap_map, x.lays.sound_append, hrest, List.forall_mem_cons]
    simp only [hblank]

theorem File.sound_script (order : Order) (f : File) :
    Sound i (f.script order) ↔ ∀ x ∈ f.declarations order, Sound i x.script := by
  have hsound : Sound i f.header := f.lays_header.sound fun r hr => by
    rw [File.depth_headerRows f r hr]
    decide
  rw [File.script, File.blocks_eq, f.lays_header.sound_append, and_iff_right hsound, sound_intercalate]

end

/-- The text of the rows of several declarations. -/
theorem flatMap_text_intercalate (i : Indent) (xs : List Declaration) :
    (List.intercalate [Row.empty] (xs.map Declaration.rows)).flatMap (Row.text i) =
      List.intercalate [Bytes.newline] (xs.map fun x => x.rows.flatMap (Row.text i)) := by
  cases xs with
  | nil => rfl
  | cons x xs =>
    simp only [List.map_cons, intercalate_cons, List.flatMap_append, List.flatMap_assoc, List.flatMap_map,
      List.flatMap_cons, Row.text, List.singleton_append]

end Outline

open Schema

/-- The text of a declaration. -/
def Schema.Declared.text (o : RenderOptions) (dialect : Option Bytes) (x : Declared) : Bytes :=
  (shownDeclared o.toStyle (textOf dialect) x).rows.flatMap (Row.text o.indent)

/-- The text before the declarations. -/
def frontText (o : RenderOptions) (f : Schema.File) : Bytes :=
  (shownFile o.toStyle f).headerRows.flatMap (Row.text o.indent)

theorem frontText_front (o : RenderOptions) (f : Schema.File) : frontText o f.front = frontText o f := rfl

/-- At the outermost level nothing is indented. -/
theorem Row.text_of_depth_zero {r : Row} (h : r.depth = 0) (i j : Indent) : r.text i = r.text j := by
  cases r with
  | empty => rfl
  | line d t =>
    cases (h : d = 0)
    rfl

/-- Of the options, only the leading parts of import paths count before the declarations. -/
theorem frontText_congr {o p : RenderOptions} (h : o.importLeads = p.importLeads) (f : Schema.File) :
    frontText o f = frontText p f := by
  have hrows : (shownFile o.toStyle f).headerRows = (shownFile p.toStyle f).headerRows := by
    simp only [File.headerRows, shownFile, imports, h]
  rw [frontText, frontText, hrows]
  exact List.flatMap_congr fun r hr => Row.text_of_depth_zero (File.depth_headerRows _ r hr) _ _

/-- What a message with all messages inside it has to be like. -/
def Schema.Message.InOrder (m : Schema.Message) : Prop :=
  ∀ y ∈ (m.located []).map Prod.snd, ∀ g ∈ y.fields.reduceOption, g.PlacedIn y.oneofs ∧ g.HasType

theorem Schema.File.inOrder_iff {f : Schema.File} : f.InOrder ↔ ∀ m ∈ f.messages.reduceOption, m.InOrder := by
  unfold InOrder Message.InOrder
  simp only [Message.map_snd_located [] [textOf f.package], File.located, locatedIn_eq, List.mem_flatMap, List.mem_map]
  constructor
  · rintro h m hm y ⟨x, hx, rfl⟩
    exact h x ⟨m, hm, hx⟩
  · rintro h x ⟨m, hm, hx⟩
    exact h m hm x.2 ⟨x, hx, rfl⟩

/-- When a declaration can be rendered, in whatever file. -/
def Schema.Declared.Renders (o : RenderOptions) (dialect : Option Bytes) (x : Declared) : Prop :=
  (∀ m, x = .message m → m.InOrder) ∧ Writer.Sound o.indent (shownDeclared o.toStyle (textOf dialect) x).script

/-- A file is rendered when it has no fault and its script is written without an error. -/
theorem render_eq_ok {o : RenderOptions} {f : Schema.File} {t : Bytes} :
    render o f = .ok t ↔ firstFault f = none ∧ Writer.Sound o.indent ((shownFile o.toStyle f).script o.order) ∧
      t = (renderedRows o f).flatMap (Row.text o.indent) := by
  constructor
  · intro h
    obtain ⟨hfault, htext⟩ := text_of_render h
    refine ⟨hfault, ?_, htext⟩
    rw [render_eq, hfault] at h
    cases he : (written o (shownFile o.toStyle f)).error with
    | none => exact he
    | some e => simp [Writer.result, he, Except.mapError] at h
  · rintro ⟨hfault, hsound, rfl⟩
    rw [render_eq, hfault, written, (File.lays _ _).run_eq hsound]
    simp [Writer.result, Writer.append, Writer.text, Except.mapError, List.reverseAux_eq, renderedRows]

/-- A file is rendered when each of its declarations can be, and then its text is made up of theirs. -/
theorem render_eq_ok_iff {o : RenderOptions} {f : Schema.File} {t : Bytes} :
    render o f = .ok t ↔ (∀ x ∈ f.declared o.order, x.Renders o f.dialect) ∧ t = frontText o f ++
      List.intercalate [Bytes.newline] ((f.declared o.order).map (·.text o f.dialect)) := by
  have hmessages : (∀ x ∈ f.declared o.order, ∀ m, x = .message m → m.InOrder) ↔
      ∀ m ∈ f.messages.reduceOption, m.InOrder := by
    simp only [← File.message_mem_declared o.order]
    exact ⟨fun h m hm => h _ hm m rfl, fun h x hx m e => h m (e ▸ hx)⟩
  have htext : (renderedRows o f).flatMap (Row.text o.indent) = frontText o f ++
      List.intercalate [Bytes.newline] ((f.declared o.order).map (·.text o f.dialect)) := by
    rw [renderedRows, File.rows, List.flatMap_append, flatMap_text_intercalate,
      declarations_shownFile, List.map_map]
    rfl
  rw [render_eq_ok, firstFault_eq_none_iff, File.inOrder_iff, File.sound_script, declarations_shownFile,
    List.forall_mem_map, htext, ← hmessages, ← and_assoc, ← forall₂_and]
  rfl

section
variable {o : RenderOptions} {f : Schema.File} {t : Bytes}

/-- The text of a declaration ends with a line that closes it. -/
theorem Schema.Declared.text_ends (o : RenderOptions) (dialect : Option Bytes) (x : Declared) :
    ∃ body, x.text o dialect = body ++ utf8 "\x7d\n" := by
  obtain ⟨keyword, name, rows, hrows⟩ := (shownDeclared o.toStyle (textOf dialect) x).exists_block
  rw [Declared.text, hrows, blockRows, List.flatMap_append]
  exact ⟨_, rfl⟩

/-- A file without declarations is always rendered. -/
theorem render_of_declared_eq_nil (h : f.declared o.order = []) : render o f = .ok (frontText o f) := by
  rw [render_eq_ok_iff, h]
  simp [List.intercalate]

/-- What rendering a declaration alone gives. -/
theorem render_alone {dialect : Option Bytes} {x : Declared} (h : x.Renders o dialect) (edition : Option Int32) :
    render o (x.alone dialect edition) =
      .ok (frontText o { dialect, edition } ++ x.text o dialect) := by
  have hfront : frontText o (x.alone dialect edition) = frontText o { dialect, edition } := by
    cases x <;> rfl
  rw [render_eq_ok_iff, hfront]
  simpa [List.intercalate] using h

/-- A rendered file is the text of its front, which the declarations have no part in,
followed by the texts of its declarations with an empty line between them. The text of a declaration is
what rendering it alone adds to the heading, and the order of the groups is all that the order changes. -/
theorem rendered_in_pieces (h : render o f = .ok t) :
    ∃ head, render { importLeads := o.importLeads } f.front = .ok head ∧
      t = head ++ List.intercalate [Bytes.newline] ((f.declared o.order).map (·.text o f.dialect)) ∧
      (∀ x ∈ f.declared o.order, (∃ body, x.text o f.dialect = body ++ utf8 "\x7d\n") ∧
        ∀ edition, ∃ bare, render o { dialect := f.dialect, edition } = .ok bare ∧
          render o (x.alone f.dialect edition) = .ok (bare ++ x.text o f.dialect)) ∧
      ∀ order, (f.declared order).Perm (f.declared o.order) ∧ render { o with order } f =
        .ok (head ++ List.intercalate [Bytes.newline] ((f.declared order).map (·.text o f.dialect))) := by
  obtain ⟨hrenders, htext⟩ := render_eq_ok_iff.1 h
  refine ⟨frontText o f, ?_, htext, fun x hx => ⟨?_, fun edition => ?_⟩, fun order => ⟨?_, ?_⟩⟩
  · refine (render_of_declared_eq_nil rfl).trans (congrArg Except.ok ?_)
    rw [frontText_front]
    apply frontText_congr
    rfl
  · exact x.text_ends o f.dialect
  · refine ⟨frontText o { dialect := f.dialect, edition }, ?_, render_alone (hrenders x hx) edition⟩
    apply render_of_declared_eq_nil
    cases o.order <;> rfl
  · exact f.declared_perm order o.order
  · refine render_eq_ok_iff.2 ⟨fun x hx => ?_, rfl⟩
    exact hrenders x ((f.declared_perm order o.order).mem_iff.1 hx)

private def depot : Schema.File where
  dialect := some proto3
  package := some (utf8 "depot")
  dependencies := [utf8 "./a.proto", utf8 " ", utf8 "b.proto"]
  publicIndices := [2]
  services := [none, some { name := some (utf8 "Loading") }]
  enums := [some { name := some (utf8 "Gate"), values := [none, some { name := some (utf8 "OPEN") }] }]
  messages := [none, some {
    name := some (utf8 "Crate")
    fields := [some { name := some (utf8 "gate"), number := some 1, typeName := some (utf8 ".depot.Gate") }]
    nested := [some { name := some (utf8 "Seal") }] }, none, some { name := some (utf8 "Pallet") }]

private def depotFront : Bytes := [
  "syntax = \"proto3\";", "",
  "import \"a.proto\";",
  "import public \"b.proto\";", "",
  "package depot;", ""].flatMap fun line => utf8 line ++ [Bytes.newline]

private def depotBlocks : List Bytes := [
  ["message Crate \x7b", "    .depot.Gate gate = 1;", "", "    message Seal \x7b", "    \x7d", "\x7d"],
  ["message Pallet \x7b", "\x7d"],
  ["enum Gate \x7b", "    OPEN = 0;", "\x7d"],
  ["service Loading \x7b", "\x7d"]].map fun lines => lines.flatMap fun line => utf8 line ++ [Bytes.newline]

theorem rendered_in_pieces_depot :
    let o : RenderOptions := { order := .messagesFirst, typeNames := .qualified }
    render o depot = .ok (depotFront ++ List.intercalate [Bytes.newline] depotBlocks) ∧
      render { o with order := .servicesFirst } depot = .ok (depotFront ++ List.intercalate [Bytes.newline]
        ((depot.declared .servicesFirst).map (·.text o depot.dialect))) ∧
      (depot.declared .messagesFirst).map (·.text o depot.dialect) = depotBlocks := by
  intro o
  have h : render o depot = .ok (depotFront ++ List.intercalate [Bytes.newline] depotBlocks) := by decide +kernel
  have hfront : render { importLeads := o.importLeads } depot.front = .ok depotFront := by decide +kernel
  obtain ⟨head, hhead, -, -, horder⟩ := rendered_in_pieces h
  cases hhead.symm.trans hfront
  exact ⟨h, (horder .servicesFirst).2, by decide +kernel⟩

end
end ProtoRecovery
