import ProtoRecovery.Proofs.Render.Depth

/-! # When a file is rendered, and the fault that is reported otherwise -/
namespace ProtoRecovery
open Outline Schema

/-- Where no row is too deep, a file is written to its end without an error. -/
theorem written_eq (o : RenderOptions) {f : Schema.File} (h : f.nesting + 2 < Row.depthLimit) :
    written o (shownFile o.toStyle f) =
      { indent := o.indent, written := ((renderedRows o f).flatMap (Row.text o.indent)).reverse } := by
  rcases written_cases o f with hw | ⟨-, r, hr, hd⟩
  · exact hw
  · have := depth_rows_shownFile o.toStyle o.order f r hr
    omega

/-- Where no row is too deep, only faults of the schema stop a rendering. -/
theorem render_eq_verdict (o : RenderOptions) {f : Schema.File} (h : f.nesting + 2 < Row.depthLimit) :
    render o f = verdict ((firstFault f).map fun fault => ⟨textOf f.name, .schema fault⟩)
      ((renderedRows o f).flatMap (Row.text o.indent)) := by
  rw [render_eq, written_eq o h]
  cases firstFault f with
  | some fault => rfl
  | none => simp [Writer.result, Writer.text, Except.mapError, verdict]

namespace Schema.Field

/-- An index of a oneof, where there is one, leads to a oneof that is present. -/
def PlacedIn (oneofs : Entries Oneof) (f : Field) : Prop :=
  ∀ i, f.oneofIndex = some i → 0 ≤ i ∧ ∃ o, oneofs[i.toNatClampNeg]? = some (some o)

/-- A message, an enum or a type that is left out is given by its name. -/
def IsReference (f : Field) : Prop :=
  f.type = none ∨ f.type = some Kind.messageCode ∨ f.type = some Kind.enumCode

/-- A type that can be shown: a scalar, or a reference with a name. -/
def HasType (f : Field) : Prop :=
  (∃ s : Scalar, f.type = some s.code) ∨ f.IsReference ∧ textOf f.typeName ≠ []

end Schema.Field

/-- The oneof indices and the types of all fields of a file are in order. -/
def Schema.File.InOrder (f : Schema.File) : Prop :=
  ∀ x ∈ f.located, ∀ g ∈ x.2.fields.reduceOption, g.PlacedIn x.2.oneofs ∧ g.HasType

namespace Outline

/-- The full name of the field that a fault is about. -/
def Fault.field : Fault → Bytes
  | .oneofIndex field _ _ | .untyped field | .unnamedType _ field | .unsupported field _ => field

theorem Fault.field_infix_message (fault : Fault) : fault.field <:+: fault.message := by
  cases fault with
  | oneofIndex field index declared =>
    refine ⟨malformed ++ utf8 "field ", utf8 " references oneof index " ++ (Text.decimalInt index.toInt ++
      (utf8 ", message declares " ++ Text.decimal declared)), ?_⟩
    simp [Fault.message, Fault.field]
  | untyped field => exact ⟨_, _, rfl⟩
  | unnamedType kind field => exact ⟨_, _, rfl⟩
  | unsupported field type =>
    refine ⟨utf8 "protosrc: unsupported field type: field ", utf8 " has type " ++ Fault.typeText type, ?_⟩
    simp [Fault.message, Fault.field]

theorem oneofFault_eq_none_iff {oneofs : Entries Oneof} {name : Bytes} {f : Field} :
    oneofFault oneofs name f = none ↔ f.PlacedIn oneofs := by
  simp only [oneofFault_eq_none, Field.PlacedIn, oneofAt?_eq_some, exists_and_left]

theorem firstFault_eq_none_iff {f : Schema.File} : firstFault f = none ↔ f.InOrder := by
  simp only [firstFault_eq_none, messageFault_eq_none, oneofFault_eq_none_iff, typeFault_eq_none, File.InOrder,
    Field.HasType, Field.IsReference]

theorem of_oneofFault {oneofs : Entries Oneof} {name : Bytes} {f : Field} {fault : Fault}
    (h : oneofFault oneofs name f = some fault) :
    fault.field = name ∧ ¬f.PlacedIn oneofs ∧ fault.errorClass = .malformedSchema := by
  have hplaced : ¬f.PlacedIn oneofs := by
    intro hp
    rw [oneofFault_eq_none_iff.2 hp] at h
    cases h
  unfold oneofFault at h
  split at h
  · cases h
  · split at h
    · cases h
    · cases h
      exact ⟨rfl, hplaced, rfl⟩

theorem of_typeFault {name : Bytes} {f : Field} {fault : Fault} (h : typeFault name f = some fault) :
    fault.field = name ∧ ¬f.HasType ∧ (f.IsReference ∧ fault.errorClass = .malformedSchema ∨
      ¬f.IsReference ∧ fault.errorClass = .unsupportedType) := by
  have htype : ¬f.HasType := by
    intro ht
    rw [typeFault_eq_none.2 ht] at h
    cases h
  have hunnamed : ∀ {c : Bool} {x : Fault}, (if c = true then some x else none) = some fault → x = fault := by
    intro c x hx
    split at hx
    · exact Option.some.inj hx
    · cases hx
  unfold typeFault at h
  cases hf : f.type with
  | none =>
    rw [hf] at h
    cases hunnamed h
    exact ⟨rfl, htype, .inl ⟨.inl hf, rfl⟩⟩
  | some code =>
    simp only [hf] at h
    by_cases hm : code = Kind.messageCode
    · rw [if_pos hm] at h
      cases hunnamed h
      exact ⟨rfl, htype, .inl ⟨.inr (.inl (hm ▸ hf)), rfl⟩⟩
    by_cases he : code = Kind.enumCode
    · rw [if_neg hm, if_pos he] at h
      cases hunnamed h
      exact ⟨rfl, htype, .inl ⟨.inr (.inr (he ▸ hf)), rfl⟩⟩
    rw [if_neg hm, if_neg he] at h
    split at h
    · cases h
    · cases h
      refine ⟨rfl, htype, .inr ⟨?_, rfl⟩⟩
      simp [Field.IsReference, hf, hm, he]

/-- How a fault speaks of the field that it was found in. -/
def Fault.Blames (fault : Fault) (path : List Bytes) (m : Schema.Message) (g : Field) : Prop :=
  fault.field = dotted (path ++ [textOf g.name]) ∧ fault.field <:+: fault.message ∧
    (¬g.PlacedIn m.oneofs ∧ fault.errorClass = .malformedSchema ∨
      (∀ x ∈ m.fields.reduceOption, x.PlacedIn m.oneofs) ∧ ¬g.HasType ∧
        (g.IsReference ∧ fault.errorClass = .malformedSchema ∨ ¬g.IsReference ∧ fault.errorClass = .unsupportedType))

theorem blames_of_messageFault {path : List Bytes} {m : Schema.Message} {fault : Fault}
    (h : messageFault path m = some fault) : ∃ g ∈ m.fields.reduceOption, fault.Blames path m g := by
  rcases Option.or_eq_some_iff.1 h with h | ⟨hnone, h⟩
  · obtain ⟨g, hg, hfault⟩ := List.exists_of_findSome?_eq_some h
    obtain ⟨hname, hplaced, hclass⟩ := of_oneofFault hfault
    exact ⟨g, hg, hname, fault.field_infix_message, .inl ⟨hplaced, hclass⟩⟩
  · obtain ⟨g, hg, hfault⟩ := List.exists_of_findSome?_eq_some h
    obtain ⟨hname, htype, hclass⟩ := of_typeFault hfault
    refine ⟨g, mem_shownOrder.1 hg, hname, fault.field_infix_message, .inr ⟨fun x hx => ?_, htype, hclass⟩⟩
    exact oneofFault_eq_none_iff.1 (List.findSome?_eq_none_iff.1 hnone x hx)

end Outline

/-- A file is rendered exactly when the oneof indices and types of all its fields are in order, so far
as its levels can be counted. Otherwise the first fault is reported, whatever the depth, and it names
the field in which it was found. -/
theorem render_ok_or_first_fault (o : RenderOptions) (f : Schema.File) :
    (f.nesting + 2 < Row.depthLimit → ((∃ t, render o f = .ok t) ↔ f.InOrder)) ∧
    (¬f.InOrder → ∃ fault, firstFault f = some fault ∧ render o f = .error ⟨textOf f.name, .schema fault⟩ ∧
      ∃ x ∈ f.located, ∃ g ∈ x.2.fields.reduceOption, fault.Blames x.1 x.2 g) := by
  rw [← firstFault_eq_none_iff]
  constructor
  · intro hdepth
    rw [render_eq_verdict o hdepth]
    simp only [verdict_eq_ok, Option.map_eq_none_iff]
    exact ⟨fun ⟨_, hnone, _⟩ => hnone, fun hnone => ⟨_, hnone, rfl⟩⟩
  · intro hsome
    obtain ⟨fault, hf⟩ := Option.ne_none_iff_exists'.1 hsome
    obtain ⟨x, hx, hfault⟩ := List.exists_of_findSome?_eq_some hf
    obtain ⟨g, hg, hblames⟩ := blames_of_messageFault hfault
    have hrender : render o f = .error ⟨textOf f.name, .schema fault⟩ := by rw [render_eq, hf]
    exact ⟨fault, hf, hrender, x, hx, g, hg, hblames⟩

private def tangled : Schema.File where
  name := some (utf8 "tangled.proto")
  package := some (utf8 "net")
  messages := [none, some {
    name := some (utf8 "Frame")
    nested := [none, some {
      name := some (utf8 "Head")
      oneofs := [some { name := some (utf8 "kind") }, none]
      fields := [
        some { name := some (utf8 "plain"), type := some 9 }, none,
        some { name := some (utf8 "nameless"), type := some 11, oneofIndex := some 0 },
        some { name := some (utf8 "stray"), type := some 9, oneofIndex := some 1 }] }] },
    some { name := some (utf8 "Late"), fields := [some { name := some (utf8 "old"), type := some 10 }] }]

theorem render_ok_or_first_fault_tangled : tangled.nesting + 2 < Row.depthLimit ∧ ¬tangled.InOrder ∧
    (¬∃ t, render {} tangled = .ok t) ∧ render {} tangled =
      .error ⟨utf8 "tangled.proto", .schema (.oneofIndex (utf8 "net.Frame.Head.stray") 1 2)⟩ := by
  have hdepth : tangled.nesting + 2 < Row.depthLimit := by decide
  have hfirst : firstFault tangled = some (.oneofIndex (utf8 "net.Frame.Head.stray") 1 2) := by decide +kernel
  have hno : ¬tangled.InOrder := by
    intro h
    rw [firstFault_eq_none_iff.2 h] at hfirst
    cases hfirst
  obtain ⟨hok, herror⟩ := render_ok_or_first_fault {} tangled
  obtain ⟨fault, hf, hrender, -⟩ := herror hno
  cases hf.symm.trans hfirst
  exact ⟨hdepth, hno, mt (hok hdepth).1 hno, hrender⟩

end ProtoRecovery
