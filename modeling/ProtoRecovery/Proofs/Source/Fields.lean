import ProtoRecovery.Proofs.Outline.Shapes
import ProtoRecovery.Proofs.Outline.View
import ProtoRecovery.Source.Compile

/-! # Compiled fields: what they show, and the oneofs they are numbered by -/
namespace ProtoRecovery.Compile
open Schema Outline Link

/-- A type that compiling does not change: a scalar, or a reference in full. -/
def IsSettledType (t : Bytes) : Prop := (∃ s : Scalar, t = s.keyword) ∨ ∃ full, t = Bytes.dot :: full

/-- The field a line stands for, once it is linked. -/
def linkedField (visible : List TypeName) (place : Place) (oneofIndex : Option Nat) (l : FieldLine) : Field :=
  normalField visible place (fieldOf l oneofIndex)

private theorem ofKeyword?_dot (full : Bytes) : Scalar.ofKeyword? (Bytes.dot :: full) = none := by
  have hno : ∀ s : Scalar, s.keyword.head? ≠ some Bytes.dot := by
    intro s
    cases s <;> decide
  cases h : Scalar.ofKeyword? (Bytes.dot :: full) with
  | none => rfl
  | some s => exact absurd (congrArg List.head? (Scalar.keyword_of_ofKeyword? h)) (hno s)

private theorem resolve_dot (visible : List TypeName) (scope full : Bytes) :
    resolve visible scope (Bytes.dot :: full) = visible.find? fun t => t.name == full := rfl

section
variable {visible : List TypeName} {place : Place} {k : Option Nat} {l : FieldLine}

theorem linkedField_label (hp : place.features = {}) (hd : place.dialect ≠ editions) :
    (linkedField visible place k l).label.bind Label.ofCode? = some (l.label.getD .optional) := by
  have hf : ({} : Features).within place.features = {} := by rw [hp]; rfl
  have hl : (linkedField visible place k l).label = some (l.label.getD .optional).code := by
    simp [linkedField, normalField, fieldOf, labelCode, hf, hd]
  rw [hl]
  exact Label.ofCode?_code _

/-- A compiled field shows the type it was compiled from. -/
theorem typeToken_linkedField {style : Style} (hs : style.typeNames = .qualified) (scope : Bytes)
    (ht : IsSettledType l.type) : typeToken style scope (linkedField visible place k l) = .ok l.type := by
  have hk : ∀ s : Scalar, Kind.ofCode s.code = .scalar s := by
    intro s
    cases s <;> rfl
  rcases ht with ⟨s, ht⟩ | ⟨full, ht⟩
  · have htype : (linkedField visible place k l).type = some s.code := by
      simp [linkedField, normalField, fieldType, fieldOf, typeOf, ht, hk]
    simp [typeToken, htype, hk, ht]
  · have href : ∀ fault, (linkedField visible place k l).typeName = some (Bytes.dot :: full) →
        reference style fault (linkedField visible place k l) = .ok l.type := by
      intro fault hn
      simp [reference, hn, hs, TypeNames.reference, ht]
    have htype : (linkedField visible place k l).type =
        (visible.find? fun t => t.name == full).map fun t => NamedKind.code t.kind := by
      simp [linkedField, normalField, fieldType, fieldOf, typeOf, ht, ofKeyword?_dot, resolve_dot]
    have hname : (linkedField visible place k l).typeName = some (Bytes.dot :: full) := by
      have hor : (linkedField visible place k l).typeName =
          ((visible.find? fun t => t.name == full).map fun t => Bytes.dot :: t.name).or (some (Bytes.dot :: full)) := by
        simp [linkedField, normalField, fieldType, fieldOf, typeOf, ht, ofKeyword?_dot, resolve_dot]
      rw [hor]
      cases hfind : visible.find? fun t => t.name == full with
      | none => rfl
      | some t => simpa using List.find?_some hfind
    unfold typeToken
    rw [htype]
    cases visible.find? fun t => t.name == full with
    | none => exact href _ hname
    | some t =>
      obtain ⟨_, kind, _⟩ := t
      cases kind <;> exact href _ hname

end

/-- The names of the oneofs that are written. -/
def writtenNames (items : List Item) : List Bytes := items.filterMap fun
  | .oneof name _ => some name
  | _ => none

/-- The names of the oneofs that optional fields stand for. -/
def unwrittenNames (lone : FieldLine → Bytes) (dialect : Bytes) (items : List Item) : List Bytes := items.filterMap fun
  | .field line => if isLone dialect line then some (lone line) else none
  | _ => none

theorem oneofNames_eq (lone : FieldLine → Bytes) (dialect : Bytes) (items : List Item) :
    oneofNames lone dialect items = writtenNames items ++ unwrittenNames lone dialect items := rfl

theorem countOneofs_eq (items : List Item) : countOneofs items = (writtenNames items).length := by
  induction items with
  | nil => rfl
  | cons i items ih =>
    cases i with
    | field l => simpa [countOneofs, writtenNames] using ih
    | oneof name members => simpa [countOneofs, writtenNames] using ih

section
variable {lone : FieldLine → Bytes} {dialect : Bytes} {items : List Item} {l : FieldLine}

theorem writtenNames_oneof (name : Bytes) (members : List FieldLine) :
    writtenNames (.oneof name members :: items) = name :: writtenNames items := rfl

theorem writtenNames_field : writtenNames (.field l :: items) = writtenNames items := rfl

theorem unwrittenNames_oneof (name : Bytes) (members : List FieldLine) :
    unwrittenNames lone dialect (.oneof name members :: items) = unwrittenNames lone dialect items := rfl

theorem unwrittenNames_lone (h : isLone dialect l = true) :
    unwrittenNames lone dialect (.field l :: items) = lone l :: unwrittenNames lone dialect items := by
  simp [unwrittenNames, h]

theorem unwrittenNames_plain (h : ¬isLone dialect l = true) :
    unwrittenNames lone dialect (.field l :: items) = unwrittenNames lone dialect items := by
  simp [unwrittenNames, h]

end

/-- The shapes that items are compiled to, with the next indices as for their fields. -/
def shapesFrom (field : Option Nat → FieldLine → Field) (dialect : Bytes) : Nat → Nat → List Item → List Shape
  | _, _, [] => []
  | written, unwritten, .oneof name members :: items =>
    .group name (members.map (field (some written))) :: shapesFrom field dialect (written + 1) unwritten items
  | written, unwritten, .field line :: items =>
    if isLone dialect line then
      .lone (field (some unwritten) line) :: shapesFrom field dialect written (unwritten + 1) items
    else .plain (field none line) :: shapesFrom field dialect written unwritten items

section
variable {visible : List TypeName} {place : Place} {dialect : Bytes}

theorem map_fieldsOf (w u : Nat) (items : List Item) :
    (fieldsOf dialect w u items).map (normalField visible place) =
      (shapesFrom (linkedField visible place) dialect w u items).flatMap Shape.fields := by
  induction items generalizing w u with
  | nil => rfl
  | cons i items ih =>
    cases i with
    | oneof name members =>
      simp only [fieldsOf, shapesFrom, List.map_append, List.map_map, List.flatMap_cons, Shape.fields, ih]
      rfl
    | field l =>
      unfold fieldsOf shapesFrom
      split
      · simp only [List.map_cons, List.flatMap_cons, Shape.fields, ih]
        rfl
      · simp only [List.map_cons, List.flatMap_cons, Shape.fields, ih]
        rfl

end

/-- The numbers of the oneofs in the order in which they are placed. -/
def numbers (dialect : Bytes) : Nat → Nat → List Item → List Nat
  | _, _, [] => []
  | written, unwritten, .oneof _ _ :: items => written :: numbers dialect (written + 1) unwritten items
  | written, unwritten, .field line :: items =>
    if isLone dialect line then unwritten :: numbers dialect written (unwritten + 1) items
    else numbers dialect written unwritten items

section
variable {dialect : Bytes}

theorem mem_numbers (lone : FieldLine → Bytes) {w u k : Nat} {items : List Item} (h : k ∈ numbers dialect w u items) :
    w ≤ k ∧ k < w + (writtenNames items).length ∨ u ≤ k ∧ k < u + (unwrittenNames lone dialect items).length := by
  induction items generalizing w u with
  | nil => cases h
  | cons i items ih =>
    cases i with
    | oneof name members =>
      rw [writtenNames_oneof, unwrittenNames_oneof, List.length_cons]
      rcases List.mem_cons.1 h with rfl | h
      · omega
      · have := ih h
        omega
    | field l =>
      rw [writtenNames_field]
      unfold numbers at h
      split at h
      next hl =>
        rw [unwrittenNames_lone hl, List.length_cons]
        rcases List.mem_cons.1 h with rfl | h
        · omega
        · have := ih h
          omega
      next hl =>
        rw [unwrittenNames_plain hl]
        exact ih h

/-- The written oneofs are numbered before the others, so no number is given twice. -/
theorem nodup_numbers {w u : Nat} {items : List Item} (h : w + (writtenNames items).length ≤ u) :
    (numbers dialect w u items).Nodup := by
  induction items generalizing w u with
  | nil => exact List.nodup_nil
  | cons i items ih =>
    cases i with
    | oneof name members =>
      rw [writtenNames_oneof, List.length_cons] at h
      refine List.nodup_cons.2 ⟨fun hm => ?_, ih (by omega)⟩
      have := mem_numbers (fun line => line.name) hm
      omega
    | field l =>
      rw [writtenNames_field] at h
      unfold numbers
      split
      · refine List.nodup_cons.2 ⟨fun hm => ?_, ih (by omega)⟩
        have := mem_numbers (fun line => line.name) hm
        omega
      · exact ih h

end

end ProtoRecovery.Compile
