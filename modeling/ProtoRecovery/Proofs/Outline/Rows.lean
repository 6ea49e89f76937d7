import ProtoRecovery.Outline.Script
import ProtoRecovery.Proofs.Layout.Rows

/-! # The rows of an outline, and that its script lays them -/
namespace ProtoRecovery.Outline
open Writer

/-- The head of a block. -/
def opening (keyword : String) (name : Bytes) : Bytes :=
  utf8 keyword ++ utf8 " " ++ name ++ utf8 " \x7b"

def blockRows (d : Nat) (keyword : String) (name : Bytes) (content : List Row) : List Row :=
  .line d (opening keyword name) :: content ++ [Row.closing d]

theorem lays_block {d : Nat} {content : List Op} {rows : List Row} (keyword : String) (name : Bytes)
    (h : Lays (d + 1) content rows) : Lays d (block keyword name content) (blockRows d keyword name rows) :=
  h.block (opening keyword name)

def Item.rows (d : Nat) : Item → List Row
  | field l => [.line d l.text]
  | oneof name members => blockRows d "oneof" name (members.map fun l => .line (d + 1) l.text)

/-- The line of an enum value. -/
def valueText (v : Bytes × Int32) : Bytes :=
  v.1 ++ utf8 " = " ++ Text.decimalInt v.2.toInt ++ utf8 ";"

def Enum.rows (d : Nat) (e : Enum) : List Row :=
  blockRows d "enum" e.name (e.values.map fun v => .line (d + 1) (valueText v))

mutual
def Message.rows (d : Nat) : Message → List Row
  | ⟨name, items, nested, enums⟩ =>
    blockRows d "message" name (items.flatMap (Item.rows (d + 1)) ++ nestedRows (d + 1) nested ++
      enums.flatMap fun e => .empty :: e.rows (d + 1))
def nestedRows (d : Nat) : List Message → List Row
  | [] => []
  | m :: r => .empty :: m.rows d ++ nestedRows d r
end

/-- A declaration at the top of a file. -/
inductive Declaration | service (name : Bytes) | enum (e : Enum) | message (m : Message)

namespace Declaration

def script : Declaration → List Op
  | service name => serviceScript name
  | enum e => e.script
  | message m => m.script

def rows : Declaration → List Row
  | service name => blockRows 0 "service" name []
  | enum e => e.rows 0
  | message m => m.rows 0

end Declaration

/-- The declarations of a file in the order in which they are shown. -/
def File.declarations (order : Order) (f : File) : List Declaration :=
  let services := f.services.map .service
  let enums := f.enums.map .enum
  let messages := f.messages.map .message
  match order with
  | .servicesFirst => services ++ enums ++ messages
  | .messagesFirst => messages ++ enums ++ services

def paragraphRows (lines : List Bytes) : List Row :=
  if lines.isEmpty then [] else lines.map (Row.line 0) ++ [.empty]

def Import.text (i : Import) : Bytes :=
  utf8 "import " ++ i.access.keyword ++ Text.quote i.path ++ utf8 ";"

def packageText (p : Bytes) : Bytes := utf8 "package " ++ p ++ utf8 ";"

def File.headerRows (f : File) : List Row :=
  paragraphRows (f.heading.toList.map Heading.text) ++ paragraphRows (f.imports.map Import.text) ++
    paragraphRows (f.package.toList.map packageText)

def File.rows (order : Order) (f : File) : List Row :=
  f.headerRows ++ List.intercalate [.empty] ((f.declarations order).map Declaration.rows)

theorem File.blocks_eq (order : Order) (f : File) :
    f.blocks order = (f.declarations order).map Declaration.script := by
  cases order <;> simp [blocks, declarations, Declaration.script, Function.comp_def]

theorem lays_lines {α : Type} (d : Nat) (text : α → Bytes) (xs : List α) :
    Lays d (xs.map fun x => .line (text x)) (xs.map fun x => .line d (text x)) := by
  rw [List.map_eq_flatMap, List.map_eq_flatMap]
  exact .flatMap fun x _ => .line d (text x)

theorem Item.lays (d : Nat) (i : Item) : Lays d i.script (i.rows d) := by
  cases i with
  | field l => exact .line d l.text
  | oneof name members => exact lays_block "oneof" name (lays_lines (d + 1) FieldLine.text members)

theorem Enum.lays (d : Nat) (e : Enum) : Lays d e.script (e.rows d) :=
  lays_block "enum" e.name (lays_lines (d + 1) valueText e.values)

mutual
theorem Message.lays (d : Nat) : (m : Message) → Lays d m.script (m.rows d)
  | ⟨name, items, nested, enums⟩ => by
    have hitems : Lays (d + 1) (items.flatMap Item.script) (items.flatMap (Item.rows (d + 1))) :=
      .flatMap fun i _ => i.lays (d + 1)
    have henums : Lays (d + 1) (enums.flatMap fun e => .blank :: e.script)
        (enums.flatMap fun e => .empty :: e.rows (d + 1)) :=
      .flatMap fun e _ => (Lays.blank (d + 1)).append (e.lays (d + 1))
    rw [Message.script, Message.rows]
    exact lays_block "message" name ((hitems.append (lays_nested (d + 1) nested)).append henums)
theorem lays_nested (d : Nat) : (ms : List Message) → Lays d (nestedScript ms) (nestedRows d ms)
  | [] => .nil d
  | m :: ms => by
    rw [nestedScript, nestedRows]
    exact ((Lays.blank d).append (m.lays d)).append (lays_nested d ms)
end

theorem Declaration.lays (x : Declaration) : Lays 0 x.script x.rows := by
  cases x with
  | service name => exact lays_block "service" name (.nil 1)
  | enum e => exact e.lays 0
  | message m => exact m.lays 0

/-- All pieces but the first have the separator before them. -/
theorem intercalate_cons {α : Type} (sep : α) (x : List α) (xs : List (List α)) :
    List.intercalate [sep] (x :: xs) = x ++ xs.flatMap (sep :: ·) := by
  induction xs generalizing x with
  | nil => simp [List.intercalate]
  | cons y xs ih =>
    have hcons : List.intercalate [sep] (x :: y :: xs) = x ++ sep :: List.intercalate [sep] (y :: xs) := by
      simp [List.intercalate, List.intersperse]
    rw [hcons, ih]
    rfl

theorem mem_intercalate {α : Type} {sep x : α} {xs : List (List α)} (h : x ∈ List.intercalate [sep] xs) :
    x = sep ∨ ∃ y ∈ xs, x ∈ y := by
  cases xs with
  | nil => cases h
  | cons y xs =>
    rw [intercalate_cons] at h
    rcases List.mem_append.1 h with h | h
    · exact .inr ⟨y, List.mem_cons_self, h⟩
    · obtain ⟨z, hz, h⟩ := List.mem_flatMap.1 h
      exact (List.mem_cons.1 h).imp_right fun h => ⟨z, List.mem_cons_of_mem y hz, h⟩

theorem lays_intercalate (xs : List Declaration) :
    Lays 0 (List.intercalate [.blank] (xs.map Declaration.script))
      (List.intercalate [.empty] (xs.map Declaration.rows)) := by
  cases xs with
  | nil => exact .nil 0
  | cons x xs =>
    simp only [List.map_cons, intercalate_cons, List.flatMap_map]
    exact x.lays.append (.flatMap fun y _ => (Lays.blank 0).append y.lays)

theorem lays_paragraph (lines : List Bytes) : Lays 0 (paragraph lines) (paragraphRows lines) := by
  unfold paragraph paragraphRows
  split
  · exact .nil 0
  · exact (lays_lines 0 id lines).append (.blank 0)

theorem File.lays_header (f : File) : Lays 0 f.header f.headerRows :=
  ((lays_paragraph _).append (lays_paragraph _)).append (lays_paragraph _)

/-- A file is laid out row by row. -/
theorem File.lays (order : Order) (f : File) : Lays 0 (f.script order) (f.rows order) := by
  rw [File.script, File.rows, File.blocks_eq]
  exact f.lays_header.append (lays_intercalate _)

end ProtoRecovery.Outline
