import ProtoRecovery.Proofs.Render.Lossless
import ProtoRecovery.Proofs.Source.Settled
import ProtoRecovery.Source.Basic

/-! # A rendered file that is compiled again is rendered as before -/
namespace ProtoRecovery
open Outline Schema Compile

/-- A file of the two older dialects as linking leaves it: the oldest is not named, an empty package
and weak imports are gone, every field has a label, and types are given in full after a dot. -/
structure Linked (f : Schema.File) : Prop where
  dialect : f.dialect = none ∨ f.dialect = some proto3
  package : f.package ≠ some []
  named : f.named .identifiers = true
  weak : f.weakIndices = []
  positions : f.dependencies.length ≤ 4294967296
  labels : ∀ x ∈ f.located, ∀ g ∈ x.2.fields.reduceOption, (g.label.bind Label.ofCode?).isSome = true
  types : ∀ x ∈ f.located, ∀ g ∈ x.2.fields.reduceOption, g.typeName.all (·.head? == some Bytes.dot) = true

private theorem settled_shownType {style : Style} (hs : style.typeNames = .qualified) {name : Bytes} {f : Field}
    (hf : typeFault name f = none) (ht : f.typeName.all (·.head? == some Bytes.dot) = true) :
    IsSettledType (shownType style f) := by
  unfold shownType
  rcases typeFault_eq_none.1 hf with ⟨s, hscalar⟩ | ⟨htype, hne⟩
  · simp only [hscalar, Option.bind_some, Scalar.ofCode?_code]
    exact .inl ⟨s, rfl⟩
  · have hnone : f.type.bind Scalar.ofCode? = none := by
      rcases htype with h | h | h <;> rw [h] <;> rfl
    rw [hnone, hs]
    cases htn : f.typeName with
    | none => simp [htn] at hne
    | some t =>
      have hdot : t.head? = some Bytes.dot := by simpa [htn] using ht
      obtain ⟨full, rfl⟩ := List.head?_eq_some_iff.1 hdot
      exact .inr ⟨full, rfl⟩

theorem Linked.dialect_ne_editions {f : Schema.File} (h : Linked f) : textOf f.dialect ≠ editions := by
  rcases h.dialect with hd | hd <;> rw [hd] <;> decide

private theorem dialect_of_shownLabel_eq_none {dialect : Bytes} {f : Field}
    (hl : (f.label.bind Label.ofCode?).isSome = true) (hd : dialect ≠ editions) (h : shownLabel dialect f = none) :
    dialect = proto3 := by
  obtain ⟨l, hl⟩ := Option.isSome_iff_exists.1 hl
  rw [shownLabel, hl] at h
  cases l with
  | optional => simpa [hd] using h
  | required => cases h
  | repeated => cases h

private theorem isLone_shownLabel (style : Style) (dialect : Bytes) (f : Field) :
    ¬isLone dialect (shownLine style (shownLabel dialect f) f) = true := by
  intro h
  simp only [isLone, Bool.and_eq_true, decide_eq_true_eq, beq_iff_eq, shownLine] at h
  obtain ⟨rfl, hl⟩ := h
  unfold shownLabel at hl
  split at hl
  next => simp at hl
  next hno => exact hno hl

/-- Each oneof that compiling adds stands for one that was there. -/
private theorem length_oneofNames_le (lone : FieldLine → Bytes) (style : Style) (dialect : Bytes) (S : List Shape) :
    (oneofNames lone dialect (S.map (shownItem style dialect))).length ≤ S.countP Shape.isOneof := by
  rw [oneofNames_eq, List.length_append]
  induction S with
  | nil => exact Nat.le_refl 0
  | cons s S ih =>
    cases s with
    | plain f =>
      rw [List.map_cons, shownItem, writtenNames_field, unwrittenNames_plain (isLone_shownLabel style dialect f)]
      simpa [Shape.isOneof] using ih
    | lone f =>
      rw [List.map_cons, shownItem, writtenNames_field, List.countP_cons_of_pos rfl]
      by_cases hl : isLone dialect (shownLine style (some .optional) f) = true
      · rw [unwrittenNames_lone hl, List.length_cons]
        omega
      · rw [unwrittenNames_plain hl]
        omega
    | group name members =>
      rw [List.map_cons, shownItem, writtenNames_oneof, unwrittenNames_oneof, List.countP_cons_of_pos rfl,
        List.length_cons]
      omega

section
variable {f : Schema.File} (h : Linked f) {style : Style} (hs : style.typeNames = .qualified)
include h hs

private theorem settled_shownMessage (hf : firstFault f = none) {x : List Bytes × Schema.Message} (hx : x ∈ f.located) :
    SettledMessage (textOf f.dialect) (shownMessage style (textOf f.dialect) x.2) := by
  have hfault := messageFault_eq_none.1 (firstFault_eq_none.1 hf x hx)
  have htype : ∀ g ∈ x.2.fields.reduceOption, IsSettledType (shownType style g) := fun g hg =>
    settled_shownType hs (hfault g hg).2 (h.types x hx g hg)
  constructor
  · intro i hi
    rw [shownMessage_items] at hi
    obtain ⟨s, hshape, rfl⟩ := List.mem_map.1 hi
    have hof := isOf_of_mem_shapesOf hshape
    cases s with
    | plain g => exact ⟨htype g hof, dialect_of_shownLabel_eq_none (h.labels x hx g hof) h.dialect_ne_editions⟩
    | lone g => exact ⟨htype g hof, fun hnone => by cases hnone⟩
    | group name members =>
      obtain ⟨g, hg, i, hi, rfl, hlen, -⟩ := hof
      refine ⟨by simpa using hlen, fun l hl => ?_⟩
      obtain ⟨m, hm, rfl⟩ := List.mem_map.1 hl
      exact ⟨htype m (List.mem_of_mem_filter hm), rfl⟩
  · intro lone
    rw [shownMessage_items]
    refine (length_oneofNames_le lone style _ _).trans (countP_isOneof_le fun g hg i hi => ?_)
    obtain ⟨o, ho⟩ := oneofFault_eq_none.1 (hfault g hg).1 i hi
    rw [ho]
    rfl

private theorem settled_shownFile (hleads : style.importLeads = []) (hf : firstFault f = none) :
    SettledFile f.dialect (shownFile style f) where
  dialect := h.dialect
  heading := by
    rw [shownFile, heading]
    rcases h.dialect with hd | hd <;> rw [hd] <;> rfl
  package := h.package
  imports := by
    intro i hi
    obtain ⟨⟨path, n⟩, hp, rfl⟩ := List.mem_map.1 hi
    obtain ⟨-, hblank⟩ := List.mem_filter.1 hp
    constructor
    · simp only [h.weak, List.contains_nil]
      split <;> simp
    · simpa [hleads, stripLead] using hblank
  positions := by
    have hlen : (imports style f).length ≤ f.dependencies.length := by
      simpa [imports] using List.length_filter_le _ f.dependencies.zipIdx
    exact hlen.trans h.positions
  messages := by
    intro m hm
    rw [all_shownFile] at hm
    obtain ⟨x, hx, rfl⟩ := List.mem_map.1 hm
    exact settled_shownMessage h hs hf hx

end

/-- A rendered text denotes the outline that it shows. -/
theorem denoted?_of_render {o : RenderOptions} (ho : o.typeNames = .qualified) {f : Schema.File} {t : Bytes}
    (hn : f.named .identifiers = true) (hr : render o f = .ok t) : denoted? t = some (shownFile o.toStyle f) := by
  obtain ⟨hf, rfl⟩ := text_of_render hr
  have hscan := (spelling_renderedRows ho hn hf).scan_unindented o.indent
  rw [denoted?, parse?, clauses?_of_scan hscan, Option.bind_some, ofClauses?_clauses]

theorem render_eq_of_ofFile_eq {o : RenderOptions} {f g : Schema.File} {outline : Outline.File} {t : Bytes}
    (hf : ofFile o.toStyle f = .ok outline) (hg : ofFile o.toStyle g = .ok outline) (h : render o f = .ok t) :
    render o g = .ok t := by
  unfold render at h ⊢
  rw [hf] at h
  rw [hg]
  dsimp only at h ⊢
  split at h
  · cases h
  · exact h

/-! ## What is relied on of a compiler -/

/-- A text that is accepted is read as the file that it denotes. How the oneofs of optional fields are named is left to
the compiler. -/
def Compiler.ReadsTexts (c : Compiler) : Prop :=
  ∀ request importPaths name t o compiled, find request.disk importPaths name = .ok (.text t) → denoted? t = some o →
    c.compile request importPaths [name] = .ok compiled → ∃ naming, compiled.map (·.parsed) = [fileOf naming name o]

/-- What has been compiled is described in its linked form: its references are resolved among the names that are visible
to it, and all that may be left out is written. -/
def Compiler.Normalises (c : Compiler) : Prop :=
  ∀ compiled, ∃ visible, c.describe compiled = Link.normalFile visible compiled.parsed

theorem parsed_of_link {earlier : List Schema.File} {path t : Bytes} {o : Outline.File} {compiled : Compiled}
    (hdenoted : denoted? t = some o) (h : link earlier path t = .ok compiled) :
    compiled.parsed = fileOf loneName path o := by
  unfold link outline? at h
  split at h
  · cases h
  next o' ho' =>
    obtain ⟨-, hdenoted'⟩ := Option.ite_none_right_eq_some.1 ho'
    rw [hdenoted] at hdenoted'
    cases hdenoted'
    dsimp only at h
    split at h
    · cases h
      rfl
    · cases h

theorem Compiler.plain_readsTexts : Compiler.plain.ReadsTexts := by
  intro request importPaths name t o compiled hfind hdenoted h
  refine ⟨loneName, ?_⟩
  simp only [Compiler.plain, List.mapM_cons, List.mapM_nil] at h
  split at h
  · cases h
  cases hone : compileAt request.disk importPaths name with
  | error e =>
    rw [hone] at h
    cases h
  | ok one =>
    rw [hone] at h
    cases h
    rw [compileAt, hfind] at hone
    simp only [bind, Except.bind] at hone
    split at hone
    · cases hone
    · rw [List.map_singleton, parsed_of_link hdenoted hone]

theorem Compiler.plain_normalises : Compiler.plain.Normalises := fun compiled => ⟨compiled.visible, rfl⟩

/-- What comes back when a path leads to a text that denotes an outline. -/
theorem compiled_eq_ok {c : Compiler} (reads : c.ReadsTexts) (normalises : c.Normalises) {request : Request}
    {importPaths : List Bytes} {name t : Bytes} {o : Outline.File} {source : Source} {gs : List (Option Schema.File)}
    (hfind : find request.disk importPaths name = .ok (.text t)) (hdenoted : denoted? t = some o)
    (hsource : Source.compiled c importPaths [name] = .ok source) (h : source request = .ok gs) :
    ∃ visible naming, gs = [some (Link.normalFile visible (fileOf naming name o))] := by
  cases hsource
  dsimp only at h
  split at h
  · cases h
  next compiled hcompiled =>
    cases h
    obtain ⟨naming, hparsed⟩ := reads _ _ _ _ _ _ hfind hdenoted hcompiled
    obtain ⟨one, rfl, hone⟩ := List.map_eq_singleton_iff.1 hparsed
    obtain ⟨visible, hdescribed⟩ := normalises one
    exact ⟨visible, naming, by rw [List.map_singleton, hdescribed, hone]⟩

private def parcel : Schema.File where
  name := some (utf8 "parcel.proto")
  package := some (utf8 "post")
  dialect := some proto3
  dependencies := [utf8 "google/protobuf/timestamp.proto"]
  messages := [some {
    name := some (utf8 "Parcel")
    oneofs := [some { name := some (utf8 "_weight") }, some { name := some (utf8 "to") }]
    fields := [
      some { name := some (utf8 "box"), number := some 1, label := some 1, type := some 9, oneofIndex := some 1 },
      some { name := some (utf8 "weight"), number := some 2, label := some 1, type := some 5, oneofIndex := some 0 },
      some { name := some (utf8 "door"), number := some 3, label := some 1, type := some 11
             typeName := some (utf8 ".post.Parcel.Door"), oneofIndex := some 1 },
      some { name := some (utf8 "sent"), number := some 4, label := some 3, type := some 11
             typeName := some (utf8 ".google.protobuf.Timestamp") }]
    nested := [some { name := some (utf8 "Door") }] }]

private def parcelText : Bytes := [
  "syntax = \"proto3\";", "",
  "import \"google/protobuf/timestamp.proto\";", "",
  "package post;", "",
  "message Parcel \x7b",
  "    oneof to \x7b",
  "        string box = 1;",
  "        .post.Parcel.Door door = 3;",
  "    \x7d",
  "    optional int32 weight = 2;",
  "    repeated .google.protobuf.Timestamp sent = 4;", "",
  "    message Door \x7b",
  "    \x7d",
  "\x7d"].flatMap fun line => utf8 line ++ [Bytes.newline]

private def parcelOptions : RenderOptions := { typeNames := .qualified, importLeads := [] }

private def parcelRequest : Request := { disk := { nodes := [([utf8 "parcel.proto"], .file parcelText)] } }

/-- All fields of the top-level messages of some files. -/
private def fieldsIn (gs : List (Option Schema.File)) : List Field :=
  gs.reduceOption.flatMap fun g => g.messages.reduceOption.flatMap fun m => m.fields.reduceOption

/-- The compiled fields of the parcel: the members of its oneof stand together, its oneofs have changed places, and both
references are those of messages, one of them imported. -/
private def parcelFields : List Field := [
  { name := some (utf8 "box"), number := some 1, label := some 1, type := some 9, oneofIndex := some 0 },
  { name := some (utf8 "door"), number := some 3, label := some 1, type := some 11
    typeName := some (utf8 ".post.Parcel.Door"), oneofIndex := some 0 },
  { name := some (utf8 "weight"), number := some 2, label := some 1, type := some 5, oneofIndex := some 1 },
  { name := some (utf8 "sent"), number := some 4, label := some 3, type := some 11
    typeName := some (utf8 ".google.protobuf.Timestamp") }]

end ProtoRecovery
