import ProtoRecovery.Proofs.Outline.Rows
import ProtoRecovery.Proofs.Outline.View
import ProtoRecovery.Proofs.Schema.Names

/-! # The names an outline shows are those of its file -/
namespace ProtoRecovery.Outline
open Schema

mutual
/-- A message and all messages inside it. -/
def Message.all : Message → List Message
  | ⟨name, items, nested, enums⟩ => ⟨name, items, nested, enums⟩ :: allIn nested
def allIn : List Message → List Message
  | [] => []
  | m :: ms => m.all ++ allIn ms
end

/-- What holds of the names and of the types that an outline shows. -/
structure Shown where
  name : Bytes → Prop
  type : Bytes → Prop
  package : Bytes → Prop

def FieldLine.Named (p : Shown) (l : FieldLine) : Prop := p.type l.type ∧ p.name l.name

def Item.Named (p : Shown) : Item → Prop
  | field l => l.Named p
  | oneof name members => p.name name ∧ ∀ l ∈ members, l.Named p

def Enum.Named (p : Shown) (e : Enum) : Prop := p.name e.name ∧ ∀ v ∈ e.values, p.name v.1

structure Message.Named (p : Shown) (m : Message) : Prop where
  name : p.name m.name
  items : ∀ i ∈ m.items, i.Named p
  enums : ∀ e ∈ m.enums, e.Named p

structure File.Named (p : Shown) (f : File) : Prop where
  package : ∀ x ∈ f.package, p.package x
  services : ∀ s ∈ f.services, p.name s
  enums : ∀ e ∈ f.enums, e.Named p
  messages : ∀ m ∈ allIn f.messages, m.Named p

def Declaration.Named (p : Shown) : Declaration → Prop
  | service name => p.name name
  | enum e => e.Named p
  | message m => ∀ x ∈ m.all, x.Named p

theorem forall_mem_allIn {P : Message → Prop} {ms : List Message} :
    (∀ x ∈ allIn ms, P x) ↔ ∀ m ∈ ms, ∀ x ∈ m.all, P x := by
  induction ms with
  | nil => simp [allIn]
  | cons m ms ih => rw [allIn, List.forall_mem_append, ih, List.forall_mem_cons]

theorem File.mem_declarations {order : Order} {f : File} {x : Declaration} :
    x ∈ f.declarations order ↔
      (∃ s ∈ f.services, .service s = x) ∨ (∃ e ∈ f.enums, .enum e = x) ∨ ∃ m ∈ f.messages, .message m = x := by
  cases order <;> simp only [File.declarations, List.mem_append, List.mem_map]
  · rw [or_assoc]
  · rw [or_assoc, or_comm, or_assoc, or_left_comm]

theorem File.Named.declarations {p : Shown} {f : File} (h : f.Named p) (order : Order) :
    ∀ x ∈ f.declarations order, x.Named p := by
  intro x hx
  rcases File.mem_declarations.1 hx with ⟨s, hs, rfl⟩ | ⟨e, he, rfl⟩ | ⟨m, hm, rfl⟩
  · exact h.services s hs
  · exact h.enums e he
  · exact forall_mem_allIn.1 h.messages m hm

mutual
theorem all_shownMessage (style : Style) (dialect : Bytes) (path : List Bytes) : (m : Schema.Message) →
    (shownMessage style dialect m).all = (m.located path).map fun x => shownMessage style dialect x.2
  | ⟨name, fields, nested, enums, oneofs, extensions, mapEntry, features⟩ => by
    have ih := allIn_shownMessages style dialect (path ++ [textOf name]) nested
    rw [shownMessage, Message.all, Message.located, List.map_cons, ih, shownMessage]
theorem allIn_shownMessages (style : Style) (dialect : Bytes) (path : List Bytes) : (ms : List (Option Schema.Message)) →
    allIn (shownMessages style dialect ms) = (locatedIn path ms).map fun x => shownMessage style dialect x.2
  | [] => rfl
  | none :: r => by
    rw [shownMessages, locatedIn]
    exact allIn_shownMessages style dialect path r
  | some m :: r => by
    rw [shownMessages, allIn, locatedIn, List.map_append, all_shownMessage style dialect path m,
      allIn_shownMessages style dialect path r]
end

/-- The messages of a file in order are what its outline shows, in the same order. -/
theorem all_shownFile (style : Style) (f : Schema.File) :
    allIn (shownFile style f).messages =
      f.located.map fun x => shownMessage style (textOf f.dialect) x.2 :=
  allIn_shownMessages style _ _ f.messages

@[simp] theorem shownMessage_name (style : Style) (dialect : Bytes) (m : Schema.Message) :
    (shownMessage style dialect m).name = textOf m.name := by
  cases m
  rfl

@[simp] theorem shownMessage_items (style : Style) (dialect : Bytes) (m : Schema.Message) :
    (shownMessage style dialect m).items = (shapesOf m.oneofs m.fields).map (shownItem style dialect) := by
  cases m
  rfl

@[simp] theorem shownMessage_enums (style : Style) (dialect : Bytes) (m : Schema.Message) :
    (shownMessage style dialect m).enums = m.enums.reduceOption.map ofEnum := by
  cases m
  rfl

section
variable {n : Naming} {p : Shown} {style : Style}

/-- What a naming has to give for what is shown: keywords stand for types as names do. -/
structure Naming.Gives (n : Naming) (style : Style) (p : Shown) : Prop where
  name : ∀ t, n.name t = true → p.name t
  keyword : ∀ s : Scalar, p.type s.keyword
  reference : ∀ t, t ≠ [] → n.dotted t = true → p.type (style.typeNames.reference t)
  package : ∀ t, n.dotted t = true → p.package t

variable (hp : Naming.Gives n style p)
include hp

theorem ofEnum_named {e : EnumType} (h : e.named n = true) : (ofEnum e).Named p := by
  simp only [EnumType.named, Bool.and_eq_true, List.all_eq_true] at h
  refine ⟨hp.name _ h.1, ?_⟩
  intro v hv
  obtain ⟨x, hx, rfl⟩ := List.mem_map.1 hv
  exact hp.name _ (h.2 x hx)

private theorem shownLine_named (label : Option Label) {f : Field} {name : Bytes} (h : f.named n = true)
    (hf : typeFault name f = none) : (shownLine style label f).Named p := by
  simp only [Field.named, Bool.and_eq_true] at h
  refine ⟨?_, hp.name _ h.1⟩
  simp only [shownLine, shownType]
  rcases typeFault_eq_none.1 hf with ⟨s, hs⟩ | ⟨ht, hne⟩
  · simp only [hs, Option.bind_some, Scalar.ofCode?_code]
    exact hp.keyword s
  · have hnone : f.type.bind Scalar.ofCode? = none := by
      rcases ht with ht | ht | ht <;> rw [ht] <;> rfl
    cases htn : f.typeName with
    | none => simp [htn] at hne
    | some t =>
      have hd : n.dotted t = true := by simpa [htn] using h.2
      simpa [hnone] using hp.reference t (by simpa [htn] using hne) hd

private theorem shownItem_named {dialect : Bytes} {m : Schema.Message} {path : List Bytes} {s : Shape}
    (h : m.named n = true) (hf : messageFault path m = none) (hs : s ∈ shapesOf m.oneofs m.fields) :
    (shownItem style dialect s).Named p := by
  simp only [Message.named, Bool.and_eq_true, List.all_eq_true] at h
  obtain ⟨⟨⟨-, hfields⟩, honeofs⟩, -⟩ := h
  have hline : ∀ label, ∀ f ∈ m.fields.reduceOption, (shownLine style label f).Named p := fun label f hfm =>
    shownLine_named hp label (hfields f hfm) (messageFault_eq_none.1 hf f hfm).2
  have hof := isOf_of_mem_shapesOf hs
  cases s with
  | plain f => exact hline _ f hof
  | lone f => exact hline _ f hof
  | group name members =>
    obtain ⟨f, hfm, i, hi, rfl, -, rfl⟩ := hof
    constructor
    · obtain ⟨o, ho⟩ := oneofFault_eq_none.1 (messageFault_eq_none.1 hf f hfm).1 i hi
      simp only [ho, Option.bind_some]
      exact hp.name _ (honeofs o (mem_of_oneofAt? ho))
    · intro l hl
      obtain ⟨g, hg, rfl⟩ := List.mem_map.1 hl
      exact hline none g (List.mem_of_mem_filter hg)

theorem shownFile_named {f : Schema.File} (h : f.named n = true) (hf : firstFault f = none) :
    (shownFile style f).Named p := by
  simp only [Schema.File.named, Bool.and_eq_true, List.all_eq_true] at h
  obtain ⟨⟨⟨hpackage, hservices⟩, henums⟩, hmessages⟩ := h
  have hof : ∀ es : Entries EnumType, (∀ e ∈ es.reduceOption, e.named n = true) →
      ∀ e ∈ es.reduceOption.map ofEnum, e.Named p := by
    intro es hes e he
    obtain ⟨x, hx, rfl⟩ := List.mem_map.1 he
    exact ofEnum_named hp (hes x hx)
  constructor
  · intro x hx
    have hx : f.package = some x := hx
    exact hp.package x (by simpa [hx] using hpackage)
  · intro s hs
    obtain ⟨x, hx, rfl⟩ := List.mem_map.1 hs
    exact hp.name _ (hservices x hx)
  · exact hof f.enums henums
  · intro m hm
    rw [all_shownFile] at hm
    obtain ⟨⟨path, x⟩, hx, rfl⟩ := List.mem_map.1 hm
    have hnamed := hmessages (path, x) hx
    have hx := firstFault_eq_none.1 hf (path, x) hx
    have hparts := hnamed
    simp only [Message.named, Bool.and_eq_true, List.all_eq_true] at hparts
    constructor
    · simpa using hp.name _ hparts.1.1.1
    · intro i hi
      rw [shownMessage_items] at hi
      obtain ⟨s, hs, rfl⟩ := List.mem_map.1 hi
      exact shownItem_named hp hnamed hx hs
    · rw [shownMessage_enums]
      exact hof x.enums hparts.2

end

end ProtoRecovery.Outline
