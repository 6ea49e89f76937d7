import ProtoRecovery.Outline.OfSchema
import ProtoRecovery.Proofs.Outline.Shapes
import ProtoRecovery.Proofs.Schema.Kind
import ProtoRecovery.Proofs.Schema.Tree

/-! # What a schema file shows, and the first fault that keeps it from being shown -/
namespace ProtoRecovery.Outline
open Schema

/-- A value, unless a fault was found. -/
def verdict {ε α : Type} (fault : Option ε) (value : α) : Except ε α :=
  match fault with
  | some e => .error e
  | none => .ok value

section
variable {ε α β : Type}

theorem verdict_bind {e e' : Option ε} {a : α} {b : β} {k : α → Except ε β} (h : k a = verdict e' b) :
    (verdict e a >>= k) = verdict (e.or e') b := by
  cases e with
  | none => exact h
  | some _ => rfl

theorem verdict_map (e : Option ε) (a : α) (g : α → β) : g <$> verdict e a = verdict e (g a) := by
  cases e <;> rfl

theorem mapM_verdict {f : α → Except ε β} {e : α → Option ε} {g : α → β} (xs : List α)
    (h : ∀ x ∈ xs, f x = verdict (e x) (g x)) : xs.mapM f = verdict (xs.findSome? e) (xs.map g) := by
  induction xs with
  | nil => rfl
  | cons x xs ih =>
    have hx := h x List.mem_cons_self
    have hxs := ih fun y hy => h y (List.mem_cons_of_mem x hy)
    rw [List.mapM_cons, hx, hxs]
    cases hex : e x with
    | some _ => simp [hex]; rfl
    | none => cases hs : xs.findSome? e <;> simp [hex, hs] <;> rfl

theorem findSome?_flatMap (g : α → List β) (e : β → Option ε) (xs : List α) :
    (xs.flatMap g).findSome? e = xs.findSome? fun x => (g x).findSome? e := by
  induction xs with
  | nil => rfl
  | cons x xs ih =>
    rw [List.flatMap_cons, List.findSome?_append, ih, List.findSome?_cons]
    cases (g x).findSome? e <;> rfl

private theorem findSome?_cons (e : α → Option ε) (x : α) (xs : List α) :
    (x :: xs).findSome? e = (e x).or (xs.findSome? e) := by
  rw [List.findSome?_cons]
  cases e x <;> rfl

theorem verdict_eq_ok {e : Option ε} {a b : α} : verdict e a = .ok b ↔ e = none ∧ a = b := by
  cases e <;> simp [verdict]

end

/-- The type a field shows. -/
def shownType (style : Style) (f : Field) : Bytes :=
  match f.type.bind Scalar.ofCode? with
  | some s => s.keyword
  | none => style.typeNames.reference (textOf f.typeName)

def shownLine (style : Style) (label : Option Label) (f : Field) : FieldLine :=
  { label, type := shownType style f, name := textOf f.name, number := numberOf f.number }

def shownItem (style : Style) (dialect : Bytes) : Shape → Item
  | .plain f => .field (shownLine style (shownLabel dialect f) f)
  | .lone f => .field (shownLine style (some .optional) f)
  | .group name members => .oneof name (members.map (shownLine style none))

mutual
/-- All that a message shows. -/
def shownMessage (style : Style) (dialect : Bytes) : Schema.Message → Message
  | ⟨name, fields, nested, enums, oneofs, _, _, _⟩ =>
    { name := textOf name
      items := (shapesOf oneofs fields).map (shownItem style dialect)
      nested := shownMessages style dialect nested
      enums := enums.reduceOption.map ofEnum }
def shownMessages (style : Style) (dialect : Bytes) : List (Option Schema.Message) → List Message
  | [] => []
  | none :: r => shownMessages style dialect r
  | some m :: r => shownMessage style dialect m :: shownMessages style dialect r
end

theorem shownMessages_eq (style : Style) (dialect : Bytes) (ms : List (Option Schema.Message)) :
    shownMessages style dialect ms = ms.reduceOption.map (shownMessage style dialect) := by
  induction ms with
  | nil => rfl
  | cons m ms ih =>
    cases m with
    | none => exact ih
    | some m => rw [shownMessages, ih, List.reduceOption_cons_of_some, List.map_cons]

/-- All that a file shows. -/
def shownFile (style : Style) (f : Schema.File) : File where
  heading := heading f
  imports := imports style f
  package := f.package
  services := f.services.reduceOption.map fun s => textOf s.name
  enums := f.enums.reduceOption.map ofEnum
  messages := shownMessages style (textOf f.dialect) f.messages

/-- What is wrong with a oneof index, for a field with a given full name. -/
def oneofFault (oneofs : Entries Oneof) (name : Bytes) (f : Field) : Option Fault :=
  match f.oneofIndex with
  | none => none
  | some i => if (oneofAt? oneofs i).isSome then none else some (.oneofIndex name i oneofs.length)

/-- What is wrong with a type: a reference needs a name, any other type must be a scalar. -/
def typeFault (name : Bytes) (f : Field) : Option Fault :=
  let unnamed := (textOf f.typeName).isEmpty
  match f.type with
  | none => if unnamed then some (.untyped name) else none
  | some code =>
    if code = Kind.messageCode then if unnamed then some (.unnamedType .message name) else none
    else if code = Kind.enumCode then if unnamed then some (.unnamedType .enum name) else none
    else if (Scalar.ofCode? code).isSome then none else some (.unsupported name code)

/-- The first fault among the fields of a message itself: oneof indices count before types. -/
def messageFault (path : List Bytes) (m : Schema.Message) : Option Fault :=
  let fields := m.fields.reduceOption
  let name (f : Field) := dotted (path ++ [textOf f.name])
  (fields.findSome? fun f => oneofFault m.oneofs (name f) f).or
    ((shownOrder fields).findSome? fun f => typeFault (name f) f)

/-- The first fault of a file. -/
def firstFault (f : Schema.File) : Option Fault :=
  f.located.findSome? fun (path, m) => messageFault path m

private theorem reference_eq (style : Style) (fault : Fault) (f : Field) :
    reference style fault f = verdict (if (textOf f.typeName).isEmpty then some fault else none)
      (style.typeNames.reference (textOf f.typeName)) := by
  unfold reference
  split <;> rfl

theorem typeToken_eq (style : Style) (scope : Bytes) (f : Field) :
    typeToken style scope f = verdict (typeFault (qualify scope (textOf f.name)) f) (shownType style f) := by
  unfold typeToken typeFault shownType
  cases f.type with
  | none => exact reference_eq style _ f
  | some code =>
    simp only [Kind.ofCode, Option.bind_some]
    by_cases hg : code = Kind.groupCode
    · subst hg
      rfl
    by_cases hm : code = Kind.messageCode
    · subst hm
      exact reference_eq style _ f
    by_cases he : code = Kind.enumCode
    · subst he
      exact reference_eq style _ f
    simp only [hg, hm, he, if_false]
    cases Scalar.ofCode? code <;> rfl

theorem fieldLine_eq (style : Style) (scope : Bytes) (label : Option Label) (f : Field) :
    fieldLine style scope label f =
      verdict (typeFault (qualify scope (textOf f.name)) f) (shownLine style label f) := by
  unfold fieldLine
  rw [typeToken_eq]
  cases typeFault (qualify scope (textOf f.name)) f <;> rfl

theorem item_eq (style : Style) (dialect scope : Bytes) (s : Shape) :
    item style dialect scope s =
      verdict (s.fields.findSome? fun f => typeFault (qualify scope (textOf f.name)) f)
        (shownItem style dialect s) := by
  cases s with
  | plain f => simp [item, fieldLine_eq, verdict_map, Shape.fields, shownItem]
  | lone f => simp [item, fieldLine_eq, verdict_map, Shape.fields, shownItem]
  | group name members =>
    have := mapM_verdict members fun f _ => fieldLine_eq style scope none f
    simp [item, this, verdict_map, Shape.fields, shownItem]

theorem checkOneofs_eq (scope : Bytes) (oneofs : Entries Oneof) (fields : List Field) :
    checkOneofs scope oneofs fields =
      verdict (fields.findSome? fun f => oneofFault oneofs (qualify scope (textOf f.name)) f) () := by
  induction fields with
  | nil => rfl
  | cons f r ih =>
    unfold checkOneofs
    rw [List.findSome?_cons, oneofFault]
    cases f.oneofIndex with
    | none => exact ih
    | some i =>
      dsimp only
      split
      · exact ih
      · rfl

theorem shapes_eq_verdict (scope : Bytes) (oneofs : Entries Oneof) (fields : Entries Field) :
    shapes scope oneofs fields =
      verdict (fields.reduceOption.findSome? fun f => oneofFault oneofs (qualify scope (textOf f.name)) f)
        (shapesOf oneofs fields) := by
  unfold shapes
  simp only [checkOneofs_eq]
  cases fields.reduceOption.findSome? fun f => oneofFault oneofs (qualify scope (textOf f.name)) f <;> rfl

theorem shapes_eq (path : List Bytes) (oneofs : Entries Oneof) (fields : Entries Field) :
    shapes (dotted path) oneofs fields =
      verdict (fields.reduceOption.findSome? fun f => oneofFault oneofs (dotted (path ++ [textOf f.name])) f)
        (shapesOf oneofs fields) := by
  simp only [shapes_eq_verdict, dotted_concat]

theorem items_eq (style : Style) (dialect : Bytes) (path : List Bytes) (oneofs : Entries Oneof)
    (fields : Entries Field) :
    (shapesOf oneofs fields).mapM (item style dialect (dotted path)) =
      verdict ((shownOrder fields.reduceOption).findSome? fun f => typeFault (dotted (path ++ [textOf f.name])) f)
        ((shapesOf oneofs fields).map (shownItem style dialect)) := by
  rw [mapM_verdict _ fun s _ => item_eq style dialect (dotted path) s, ← fields_shapesOf oneofs,
    findSome?_flatMap]
  simp only [dotted_concat]

mutual
theorem ofMessage_eq (style : Style) (dialect : Bytes) (path : List Bytes) : (m : Schema.Message) →
    ofMessage style dialect (dotted path) m =
      verdict ((m.located path).findSome? fun (path, m) => messageFault path m) (shownMessage style dialect m)
  | ⟨name, fields, nested, enums, oneofs, extensions, mapEntry, features⟩ => by
    have hnested := ofMessages_eq style dialect (path ++ [textOf name]) nested
    have hitems := items_eq style dialect (path ++ [textOf name]) oneofs fields
    unfold ofMessage Message.located shownMessage
    dsimp only
    rw [← dotted_concat, shapes_eq, findSome?_cons, messageFault, Option.or_assoc]
    refine verdict_bind ?_
    rw [hitems]
    refine verdict_bind ?_
    rw [hnested]
    exact verdict_map _ _ _
theorem ofMessages_eq (style : Style) (dialect : Bytes) (path : List Bytes) : (ms : List (Option Schema.Message)) →
    ofMessages style dialect (dotted path) ms =
      verdict ((locatedIn path ms).findSome? fun (path, m) => messageFault path m) (shownMessages style dialect ms)
  | [] => rfl
  | none :: r => ofMessages_eq style dialect path r
  | some m :: r => by
    unfold ofMessages locatedIn shownMessages
    rw [List.findSome?_append, ofMessage_eq style dialect path m, ofMessages_eq style dialect path r]
    refine verdict_bind ?_
    exact verdict_map _ _ _
end

/-- A file is shown as a whole unless it has a fault, and then the first one is reported. -/
theorem ofFile_eq (style : Style) (f : Schema.File) :
    ofFile style f = verdict (firstFault f) (shownFile style f) := by
  have hpackage : textOf f.package = dotted [textOf f.package] := by
    cases h : textOf f.package <;> simp [dotted, Bytes.join]
  unfold ofFile firstFault File.located
  rw [hpackage, ofMessages_eq, ← hpackage]
  exact verdict_map _ _ _

/-- Where no fault is found, all oneof indices and types of a message are in order. -/
theorem messageFault_eq_none {path : List Bytes} {m : Schema.Message} :
    messageFault path m = none ↔
      ∀ f ∈ m.fields.reduceOption, oneofFault m.oneofs (dotted (path ++ [textOf f.name])) f = none ∧
        typeFault (dotted (path ++ [textOf f.name])) f = none := by
  simp only [messageFault, Option.or_eq_none_iff, List.findSome?_eq_none_iff, mem_shownOrder]
  exact forall₂_and.symm

theorem firstFault_eq_none {f : Schema.File} :
    firstFault f = none ↔ ∀ x ∈ f.located, messageFault x.1 x.2 = none := by
  simp only [firstFault, List.findSome?_eq_none_iff]

theorem oneofFault_eq_none {oneofs : Entries Oneof} {name : Bytes} {f : Field} :
    oneofFault oneofs name f = none ↔ ∀ i, f.oneofIndex = some i → ∃ o, oneofAt? oneofs i = some o := by
  unfold oneofFault
  cases f.oneofIndex with
  | none => simp
  | some i => simp [← Option.isSome_iff_exists, Option.isSome_iff_ne_none]

theorem typeFault_eq_none {name : Bytes} {f : Field} :
    typeFault name f = none ↔ (∃ s : Scalar, f.type = some s.code) ∨
      (f.type = none ∨ f.type = some Kind.messageCode ∨ f.type = some Kind.enumCode) ∧ textOf f.typeName ≠ [] := by
  unfold typeFault
  cases f.type with
  | none => simp
  | some code =>
    have hscalar : (Scalar.ofCode? code).isSome ↔ ∃ s : Scalar, code = s.code := by
      constructor
      · intro h
        obtain ⟨s, hs⟩ := Option.isSome_iff_exists.1 h
        exact ⟨s, (Scalar.code_of_ofCode? hs).symm⟩
      · rintro ⟨s, rfl⟩
        simp
    by_cases hm : code = Kind.messageCode
    · subst hm
      have hno : ¬∃ s : Scalar, Kind.messageCode = s.code := hscalar.not.1 (by decide)
      simp [hno]
    by_cases he : code = Kind.enumCode
    · subst he
      have hno : ¬∃ s : Scalar, Kind.enumCode = s.code := hscalar.not.1 (by decide)
      simp [hno, hm]
    simp [hm, he, ← hscalar, Option.isSome_iff_ne_none]

end ProtoRecovery.Outline
