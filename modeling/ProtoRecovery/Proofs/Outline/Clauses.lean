import ProtoRecovery.Outline.Reader
import ProtoRecovery.Proofs.Outline.Rows
import ProtoRecovery.Proofs.Schema.Kind
import ProtoRecovery.Proofs.Text.Reading

/-! # The clauses of an outline, and that they are read back -/
namespace ProtoRecovery.Outline
open Schema

def Operand.tokens : Operand → List Token
  | none => []
  | text t => [.text t]
  | equalsWord w => [.equals, .word w]
  | equalsText t => [.equals, .text t]

mutual
/-- The tokens of a clause in source text. -/
def Clause.tokens : Clause → List Token
  | .statement words operand => words.map .word ++ (operand.tokens ++ [.semicolon])
  | .block words body => words.map .word ++ .opening :: (clauseTokens body ++ [.closing])
def clauseTokens : List Clause → List Token
  | [] => []
  | c :: cs => c.tokens ++ clauseTokens cs
end

theorem clauseTokens_append (a b : List Clause) : clauseTokens (a ++ b) = clauseTokens a ++ clauseTokens b := by
  induction a with
  | nil => rfl
  | cons c a ih => simp [clauseTokens, ih]

namespace ClauseReader

/-- Between two clauses nothing is half read. -/
def Idle (r : ClauseReader) : Prop := r.words = [] ∧ r.progress = .words

theorem read_words {r : ClauseReader} (h : r.progress = .words) (words : List Bytes) :
    (words.map Token.word).foldlM step r = some { r with words := words.reverse ++ r.words } := by
  induction words generalizing r with
  | nil => rfl
  | cons w words ih =>
    have hs : r.step (.word w) = some { r with words := w :: r.words } := by simp [step, h]
    rw [List.map_cons, List.foldlM_cons, hs]
    simpa using ih (r := { r with words := w :: r.words }) h

theorem read_statement {r : ClauseReader} (h : r.Idle) (words : List Bytes) (operand : Operand) :
    (Clause.statement words operand).tokens.foldlM step r =
      some { r with clauses := .statement words operand :: r.clauses } := by
  obtain ⟨hw, hp⟩ := h
  rw [Clause.tokens, List.foldlM_append, read_words hp, hw]
  cases operand <;> simp [Operand.tokens, step, finish, hp]

mutual
theorem read_clause {r : ClauseReader} (h : r.Idle) :
    (c : Clause) → c.tokens.foldlM step r = some { r with clauses := c :: r.clauses }
  | .statement words operand => read_statement h words operand
  | .block words body => by
    obtain ⟨hw, hp⟩ := h
    have hb := read_clauses (r := { frames := ⟨words.reverse, r.clauses⟩ :: r.frames }) ⟨rfl, rfl⟩ body
    have ho : ({ r with words := words.reverse ++ r.words } : ClauseReader).step .opening =
        some { frames := ⟨words.reverse, r.clauses⟩ :: r.frames } := by
      simp [step, hp, hw]
    rw [Clause.tokens, List.foldlM_append, read_words hp, Option.bind_eq_bind, Option.bind_some,
      List.foldlM_cons, ho, Option.bind_eq_bind, Option.bind_some, List.foldlM_append, hb]
    simp [step, hw, hp]
theorem read_clauses {r : ClauseReader} (h : r.Idle) :
    (cs : List Clause) → (clauseTokens cs).foldlM step r = some { r with clauses := cs.reverse ++ r.clauses }
  | [] => rfl
  | c :: cs => by
    have hcs := read_clauses (r := { r with clauses := c :: r.clauses }) h cs
    rw [clauseTokens, List.foldlM_append, read_clause h c, Option.bind_eq_bind, Option.bind_some, hcs]
    simp
end

end ClauseReader

theorem clauseTokens_injective : Function.Injective clauseTokens := by
  intro cs ds h
  have hc := ClauseReader.read_clauses (r := {}) ⟨rfl, rfl⟩ cs
  have hd := ClauseReader.read_clauses (r := {}) ⟨rfl, rfl⟩ ds
  rw [h, hd] at hc
  simpa using hc.symm

/-- The clauses come back from any text that scans as their tokens. -/
theorem clauses?_of_scan {t : Bytes} {cs : List Clause} (h : Token.scan t = some (clauseTokens cs)) :
    clauses? t = some cs := by
  have hr := ClauseReader.read_clauses (r := {}) ⟨rfl, rfl⟩ cs
  simp [clauses?, h, hr, ClauseReader.result?]

/-- A number as an operand. -/
def numberOperand (n : Int32) : Operand := .equalsWord (Text.decimalInt n.toInt)

def FieldLine.clause (l : FieldLine) : Clause :=
  .statement (l.label.toList.map Label.keyword ++ [l.type, l.name]) (numberOperand l.number)

def Item.clause : Item → Clause
  | field l => l.clause
  | oneof name members => .block [utf8 "oneof", name] (members.map FieldLine.clause)

def valueClause (v : Bytes × Int32) : Clause := .statement [v.1] (numberOperand v.2)

def Enum.clause (e : Enum) : Clause := .block [utf8 "enum", e.name] (e.values.map valueClause)

mutual
/-- The clauses inside the block of a message. -/
def Message.body : Message → List Clause
  | ⟨_, items, nested, enums⟩ => items.map Item.clause ++ (messageClauses nested ++ enums.map Enum.clause)
def messageClauses : List Message → List Clause
  | [] => []
  | m :: ms => .block [utf8 "message", m.name] m.body :: messageClauses ms
end

def Message.clause (m : Message) : Clause := .block [utf8 "message", m.name] m.body

def Declaration.clause : Declaration → Clause
  | service name => .block [utf8 "service", name] []
  | enum e => e.clause
  | message m => m.clause

def Heading.clause : Heading → Clause
  | dialect name => .statement [utf8 "syntax"] (.equalsText name)
  | edition name => .statement [utf8 "edition"] (.equalsText name)

def Access.words : Access → List Bytes
  | ordinary => []
  | reexported => [utf8 "public"]
  | weak => [utf8 "weak"]

def Import.clause (i : Import) : Clause := .statement (utf8 "import" :: i.access.words) (.text i.path)

def packageClause (p : Bytes) : Clause :=
  .statement (utf8 "package" :: if p.isEmpty then [] else [p]) .none

def File.clauses (order : Order) (f : File) : List Clause :=
  f.heading.toList.map Heading.clause ++ (f.imports.map Import.clause ++
    (f.package.toList.map packageClause ++ (f.declarations order).map Declaration.clause))

theorem number?_decimalInt (n : Int32) : number? (Text.decimalInt n.toInt) = some n := by
  have hl : Int32.minValue.toInt ≤ n.toInt := n.minValue_le_toInt
  have hu : n.toInt ≤ Int32.maxValue.toInt := n.toInt_le
  rw [number?, Text.readDecimalInt_decimalInt, Option.bind_some, decide_eq_true hl, decide_eq_true hu]
  simp

theorem fieldLine?_clause (l : FieldLine) : fieldLine? l.clause = some l := by
  obtain ⟨label, type, name, number⟩ := l
  cases label <;>
    simp [FieldLine.clause, numberOperand, fieldLine?, number?_decimalInt]

theorem enumValue?_clause (v : Bytes × Int32) : enumValue? (valueClause v) = some v := by
  simp [valueClause, numberOperand, enumValue?, number?_decimalInt]

theorem mapM_map_of_inverse {α β : Type} {f : α → Option β} {g : β → α} (h : ∀ b, f (g b) = some b)
    (xs : List β) : (xs.map g).mapM f = some xs := by
  induction xs with
  | nil => rfl
  | cons x xs ih => simp [List.mapM_cons, h, ih]

theorem enum?_clause (e : Enum) : enum? e.name (e.values.map valueClause) = some e := by
  simp [enum?, mapM_map_of_inverse enumValue?_clause]

private theorem message?_enums (name : Bytes) (enums : List Enum) :
    message? name (enums.map Enum.clause) = some { name, enums } := by
  induction enums with
  | nil => rfl
  | cons e enums ih =>
    have hm : utf8 "enum" ≠ utf8 "message" := by decide
    simp [message?, ih, Enum.clause, addMember, hm, enum?_clause]

private theorem message?_items {name : Bytes} {nested : List Message} {enums : List Enum} {cs : List Clause}
    (h : message? name cs = some { name, nested, enums }) (items : List Item) :
    message? name (items.map Item.clause ++ cs) = some { name, items, nested, enums } := by
  have hm : utf8 "oneof" ≠ utf8 "message" := by decide
  have he : utf8 "oneof" ≠ utf8 "enum" := by decide
  induction items with
  | nil => exact h
  | cons i items ih =>
    cases i with
    | field l =>
      have hl := fieldLine?_clause l
      simp only [FieldLine.clause] at hl
      simp [message?, ih, Item.clause, FieldLine.clause, addMember, hl]
    | oneof name members =>
      simp [message?, ih, Item.clause, addMember, hm, he, mapM_map_of_inverse fieldLine?_clause]

mutual
theorem message?_body : (m : Message) → message? m.name m.body = some m
  | ⟨name, items, nested, enums⟩ => by
    rw [Message.body]
    exact message?_items (message?_nested name enums nested) items
private theorem message?_nested (name : Bytes) (enums : List Enum) : (nested : List Message) →
    message? name (messageClauses nested ++ enums.map Enum.clause) = some { name, nested, enums }
  | [] => message?_enums name enums
  | m :: nested => by
    have hm := message?_body m
    have hn := message?_nested name enums nested
    simp [messageClauses, message?, hn, addMember, hm]
end

private theorem ofClauses?_services (names : List Bytes) (cs : List Clause) :
    ofClauses? ((names.map .service).map Declaration.clause ++ cs) =
      (ofClauses? cs).map fun f => { f with services := names ++ f.services } := by
  induction names with
  | nil => simp
  | cons name names ih =>
    simp only [List.map_cons, List.cons_append, ofClauses?, ih]
    cases ofClauses? cs <;> simp [Declaration.clause, addTopLevel]

private theorem ofClauses?_enums (enums : List Enum) (cs : List Clause) :
    ofClauses? ((enums.map .enum).map Declaration.clause ++ cs) =
      (ofClauses? cs).map fun f => { f with enums := enums ++ f.enums } := by
  have hs : utf8 "enum" ≠ utf8 "service" := by decide
  induction enums with
  | nil => simp
  | cons e enums ih =>
    simp only [List.map_cons, List.cons_append, ofClauses?, ih]
    cases ofClauses? cs <;> simp [Declaration.clause, Enum.clause, addTopLevel, hs, enum?_clause]

private theorem ofClauses?_messages (messages : List Message) (cs : List Clause) :
    ofClauses? ((messages.map .message).map Declaration.clause ++ cs) =
      (ofClauses? cs).map fun f => { f with messages := messages ++ f.messages } := by
  have hs : utf8 "message" ≠ utf8 "service" := by decide
  have he : utf8 "message" ≠ utf8 "enum" := by decide
  induction messages with
  | nil => simp
  | cons m messages ih =>
    simp only [List.map_cons, List.cons_append, ofClauses?, ih]
    cases ofClauses? cs <;> simp [Declaration.clause, Message.clause, addTopLevel, hs, he, message?_body]

private theorem ofClauses?_declarations (order : Order) (f : File) :
    ofClauses? ((f.declarations order).map Declaration.clause) =
      some { services := f.services, enums := f.enums, messages := f.messages } := by
  have hs := ofClauses?_services f.services []
  have hm := ofClauses?_messages f.messages []
  rw [List.append_nil] at hs hm
  cases order with
  | servicesFirst =>
    simp only [File.declarations, List.map_append, List.append_assoc]
    rw [ofClauses?_services, ofClauses?_enums, hm]
    simp [ofClauses?]
  | messagesFirst =>
    simp only [File.declarations, List.map_append, List.append_assoc]
    rw [ofClauses?_messages, ofClauses?_enums, hs]
    simp [ofClauses?]

private theorem ofClauses?_imports (imports : List Import) (cs : List Clause) :
    ofClauses? (imports.map Import.clause ++ cs) =
      (ofClauses? cs).map fun f => { f with imports := imports ++ f.imports } := by
  have hp : utf8 "weak" ≠ utf8 "public" := by decide
  induction imports with
  | nil => simp
  | cons i imports ih =>
    obtain ⟨access, path⟩ := i
    simp only [List.map_cons, List.cons_append, ofClauses?, ih]
    cases ofClauses? cs with
    | none => simp
    | some f => cases access <;> simp [Import.clause, Access.words, addTopLevel, hp]

private theorem addTopLevel_package (rest : File) (p : Bytes) :
    addTopLevel rest (packageClause p) = some { rest with package := some p } := by
  cases p <;> simp [packageClause, addTopLevel]

private theorem addTopLevel_heading (rest : File) (h : Heading) :
    addTopLevel rest h.clause = some { rest with heading := some h } := by
  have he : utf8 "edition" ≠ utf8 "syntax" := by decide
  cases h <;> simp [Heading.clause, addTopLevel, he]

/-- An outline comes back from its clauses. -/
theorem ofClauses?_clauses (order : Order) (f : File) : ofClauses? (f.clauses order) = some f := by
  obtain ⟨heading, imports, package, services, enums, messages⟩ := f
  have hd := ofClauses?_declarations order ⟨heading, imports, package, services, enums, messages⟩
  cases package <;> cases heading <;>
    simp [File.clauses, ofClauses?, ofClauses?_imports, hd, addTopLevel_package, addTopLevel_heading]

/-- The tokens of an outline give back the outline. -/
theorem eq_of_clauseTokens {order : Order} {a b : File}
    (h : clauseTokens (a.clauses order) = clauseTokens (b.clauses order)) : a = b := by
  have ha := ofClauses?_clauses order a
  have hb := ofClauses?_clauses order b
  rw [clauseTokens_injective h, hb] at ha
  exact (Option.some.inj ha).symm

end ProtoRecovery.Outline
