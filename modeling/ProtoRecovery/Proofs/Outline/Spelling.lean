import ProtoRecovery.Proofs.Outline.Clauses
import ProtoRecovery.Proofs.Outline.Named
import ProtoRecovery.Proofs.Outline.Scanning

/-! # Spelling: the rows of an outline scan as the tokens of its clauses -/
namespace ProtoRecovery.Outline
open Schema Outline.Token

/-- A name or a number as a scanner takes it. -/
def IsWord (w : Bytes) : Prop := w ≠ [] ∧ ∀ b ∈ w, isWordByte b = true

/-- All that is shown scans as words; only a package may be empty. -/
def words : Shown where
  name := IsWord
  type := IsWord
  package p := ∀ b ∈ p, isWordByte b = true

/-- How a row stands for tokens: on one line that starts with none of the characters that indent. -/
structure Spells (r : Row) (tokens : List Token) : Prop where
  unbroken : Bytes.newline ∉ r.content
  start : ∀ b ∈ r.content.head?, isWordByte b = true ∨ b = 0x7d
  reads : Reads (r.content ++ [Bytes.newline]) tokens

/-- How rows stand for tokens, each for its own. -/
inductive Spelling : List Row → List Token → Prop
  | nil : Spelling [] []
  | cons {r rows a b} : Spells r a → Spelling rows b → Spelling (r :: rows) (a ++ b)

namespace Spelling

theorem append {ra rb : List Row} {a b : List Token} (ha : Spelling ra a) (hb : Spelling rb b) :
    Spelling (ra ++ rb) (a ++ b) := by
  induction ha with
  | nil => exact hb
  | cons h _ ih =>
    rw [List.cons_append, List.append_assoc]
    exact .cons h ih

theorem single {r : Row} {tokens : List Token} (h : Spells r tokens) : Spelling [r] tokens := by
  simpa using Spelling.cons h .nil

end Spelling

theorem spells_empty : Spells .empty [] :=
  ⟨by simp [Row.content], by simp [Row.content], Reads.gap (by decide) .nil⟩

theorem Spelling.empty_cons {rows : List Row} {tokens : List Token} (h : Spelling rows tokens) :
    Spelling (.empty :: rows) tokens := .cons spells_empty h

theorem spells_closing (d : Nat) : Spells (Row.closing d) [.closing] := by
  refine ⟨?_, ?_, Reads.mark rfl (Reads.gap (by decide) .nil)⟩
  · change Bytes.newline ∉ utf8 "\x7d"
    decide
  · intro b hb
    exact .inr (Option.mem_some_iff.mp hb).symm

/-- Words with a space after each. -/
def spaced (words : List Bytes) : Bytes := words.flatMap (· ++ [0x20])

theorem IsWord.newline_notMem {w : Bytes} (h : IsWord w) : Bytes.newline ∉ w := fun hn => by
  have := h.2 _ hn
  revert this
  decide

theorem isWord_literal {s : String} (h : utf8 s ≠ [] ∧ (utf8 s).all isWordByte = true) : IsWord (utf8 s) :=
  ⟨h.1, List.all_eq_true.mp h.2⟩

theorem isWord_keyword (l : Label) : IsWord l.keyword := by
  cases l <;> exact isWord_literal (by decide)

theorem isWord_scalar (s : Scalar) : IsWord s.keyword := by
  cases s <;> exact isWord_literal (by decide)

theorem isWord_decimalInt (i : Int) : IsWord (Text.decimalInt i) := by
  have hd : ∀ n : Fin 256, Text.isDigitByte (UInt8.ofFin n) = true → isWordByte (UInt8.ofFin n) = true := by
    decide +kernel
  refine ⟨Text.decimalInt_ne_nil i, fun b hb => ?_⟩
  rcases Text.mem_decimalInt hb with rfl | hb
  · decide
  · exact hd b.toFin hb

private theorem reads_spaced {words : List Bytes} (h : ∀ w ∈ words, IsWord w) {t : Bytes} {tokens : List Token}
    (ht : Reads t tokens) : Reads (spaced words ++ t) (words.map .word ++ tokens) := by
  induction words with
  | nil => exact ht
  | cons w words ih =>
    have hw := h w List.mem_cons_self
    have hrest := ih fun x hx => h x (List.mem_cons_of_mem w hx)
    have := Reads.word hw.1 hw.2 (b := 0x20) (by decide) (Reads.gap (by decide) hrest)
    simpa [spaced] using this

/-- A line that starts with a word is spelled as its words and what its tail gives. -/
private theorem spells_line {d : Nat} {w content : Bytes} {tokens : List Token} (words : List Bytes) (tail : Bytes)
    (hc : content = spaced (w :: words) ++ tail) (hw : ∀ x ∈ w :: words, IsWord x)
    (ht : Bytes.newline ∉ tail) (hr : Reads (tail ++ [Bytes.newline]) tokens) :
    Spells (.line d content) ((w :: words).map .word ++ tokens) := by
  subst hc
  refine ⟨?_, ?_, ?_⟩
  · simp only [Row.content, spaced, List.mem_append, List.mem_flatMap, List.mem_singleton, not_or]
    refine ⟨?_, ht⟩
    rintro ⟨x, hx, hn | hn⟩
    · exact (hw x hx).newline_notMem hn
    · revert hn
      decide
  · intro b hb
    obtain ⟨hne, hall⟩ := hw w List.mem_cons_self
    obtain ⟨y, w, rfl⟩ := List.exists_cons_of_ne_nil hne
    have : y = b := by simpa [Row.content, spaced] using hb
    exact .inl (this ▸ hall y List.mem_cons_self)
  · rw [Row.content, List.append_assoc]
    exact reads_spaced hw hr

private theorem reads_end : Reads (0x3b :: [Bytes.newline]) [.semicolon] :=
  Reads.mark rfl (Reads.gap (by decide) .nil)

theorem spells_opening (d : Nat) {keyword : String} {name : Bytes} (hk : IsWord (utf8 keyword)) (hn : IsWord name) :
    Spells (.line d (opening keyword name)) [.word (utf8 keyword), .word name, .opening] := by
  refine spells_line [name] [0x7b] ?_ ?_ (by decide)
    (Reads.mark rfl (Reads.gap (by decide) .nil))
  · simp [opening, spaced, show utf8 " " = [0x20] from rfl, show utf8 " \x7b" = [0x20, 0x7b] from rfl]
  · simpa using ⟨hk, hn⟩

/-- A line that gives a number to what its words name. -/
private theorem spells_numbered (d : Nat) {w content : Bytes} {n : Int32} (words : List Bytes)
    (hc : content = spaced (w :: words) ++ (0x3d :: 0x20 :: Text.decimalInt n.toInt ++ [0x3b]))
    (hw : ∀ x ∈ w :: words, IsWord x) :
    Spells (.line d content) (Clause.statement (w :: words) (numberOperand n)).tokens := by
  have hn := isWord_decimalInt n.toInt
  refine spells_line words _ hc hw ?_ ?_
  · have := hn.newline_notMem
    simp only [List.cons_append, List.mem_cons, List.mem_append, not_or]
    exact ⟨by decide, by decide, this, by decide, by simp⟩
  · have := Reads.word hn.1 hn.2 (b := 0x3b) (by decide) reads_end
    simpa [numberOperand, Operand.tokens] using Reads.mark (b := 0x3d) rfl (Reads.gap (b := 0x20) (by decide) this)

theorem FieldLine.spells (d : Nat) {l : FieldLine} (h : l.Named words) : Spells (.line d l.text) l.clause.tokens := by
  obtain ⟨label, type, name, number⟩ := l
  have hs : utf8 " " = [0x20] := rfl
  have he : utf8 " = " = [0x20, 0x3d, 0x20] := rfl
  have hsc : utf8 ";" = [0x3b] := rfl
  cases label with
  | none =>
    refine spells_numbered d [name] ?_ ?_
    · simp [FieldLine.text, spaced, hs, he, hsc]
    · simpa using ⟨h.1, h.2⟩
  | some label =>
    refine spells_numbered d [type, name] ?_ ?_
    · simp [FieldLine.text, spaced, hs, he, hsc]
    · simpa using ⟨isWord_keyword label, h.1, h.2⟩

theorem spells_value (d : Nat) {v : Bytes × Int32} (h : IsWord v.1) :
    Spells (.line d (valueText v)) (valueClause v).tokens := by
  refine spells_numbered d [] ?_ ?_
  · simp [valueText, spaced, show utf8 " = " = [0x20, 0x3d, 0x20] from rfl, show utf8 ";" = [0x3b] from rfl]
  · simpa using h

private theorem quoted_statement_parts (q : Bytes) :
    Bytes.newline ∉ Text.quote q ++ [0x3b] ∧
      Reads (Text.quote q ++ [0x3b] ++ [Bytes.newline]) [.text q, .semicolon] := by
  constructor
  · simp only [List.mem_append, List.mem_singleton, not_or]
    exact ⟨Text.newline_notMem_quote q, by decide⟩
  · rw [List.append_assoc]
    exact Reads.quoted q reads_end

theorem Heading.spells (h : Heading) : Spells (.line 0 h.text) h.clause.tokens := by
  have hequals (q : Bytes) : Bytes.newline ∉ 0x3d :: 0x20 :: (Text.quote q ++ [0x3b]) ∧
      Reads (0x3d :: 0x20 :: (Text.quote q ++ [0x3b]) ++ [Bytes.newline]) [.equals, .text q, .semicolon] := by
    obtain ⟨hn, hr⟩ := quoted_statement_parts q
    constructor
    · simp only [List.mem_cons, not_or]
      exact ⟨by decide, by decide, hn⟩
    · exact Reads.mark rfl (Reads.gap (by decide) hr)
  cases h with
  | dialect name =>
    refine spells_line [] _ ?_ ?_ (hequals name).1 (hequals name).2
    · simp [Heading.text, spaced, show utf8 "syntax = " = utf8 "syntax" ++ [0x20, 0x3d, 0x20] from rfl,
        show utf8 ";" = [0x3b] from rfl]
    · simpa using isWord_literal (s := "syntax") (by decide)
  | edition name =>
    refine spells_line [] _ ?_ ?_ (hequals name).1 (hequals name).2
    · simp [Heading.text, spaced, show utf8 "edition = " = utf8 "edition" ++ [0x20, 0x3d, 0x20] from rfl,
        show utf8 ";" = [0x3b] from rfl]
    · simpa using isWord_literal (s := "edition") (by decide)

theorem Import.spells (i : Import) : Spells (.line 0 i.text) i.clause.tokens := by
  obtain ⟨access, path⟩ := i
  obtain ⟨hn, hr⟩ := quoted_statement_parts path
  refine spells_line access.words _ ?_ ?_ hn hr
  · have hi : utf8 "import " = utf8 "import" ++ [0x20] := rfl
    have hs : utf8 ";" = [0x3b] := rfl
    have ha : access.keyword = spaced access.words := by cases access <;> rfl
    simp [Import.text, spaced, hi, hs, ha]
  · have hi : IsWord (utf8 "import") := isWord_literal (by decide)
    cases access with
    | ordinary => simpa [Access.words] using hi
    | reexported => simpa [Access.words] using ⟨hi, isWord_literal (s := "public") (by decide)⟩
    | weak => simpa [Access.words] using ⟨hi, isWord_literal (s := "weak") (by decide)⟩

theorem spells_package {p : Bytes} (h : ∀ b ∈ p, isWordByte b = true) :
    Spells (.line 0 (packageText p)) (packageClause p).tokens := by
  have hk : IsWord (utf8 "package") := isWord_literal (by decide)
  have ht : packageText p = spaced [utf8 "package"] ++ (p ++ [0x3b]) := by
    simp [packageText, spaced, show utf8 "package " = utf8 "package" ++ [0x20] from rfl,
      show utf8 ";" = [0x3b] from rfl]
  cases p with
  | nil => exact spells_line [] _ ht (by simpa using hk) (by decide) reads_end
  | cons b p =>
    have hp : IsWord (b :: p) := ⟨by simp, h⟩
    refine spells_line [] _ ht (by simpa using hk) ?_ ?_
    · simp only [List.mem_append, List.mem_singleton, not_or]
      exact ⟨hp.newline_notMem, by decide⟩
    · rw [List.append_assoc]
      exact Reads.word hp.1 hp.2 (by decide) reads_end

theorem spelling_block {d : Nat} {keyword : String} {name : Bytes} {rows : List Row} {body : List Clause}
    (hk : IsWord (utf8 keyword)) (hn : IsWord name) (h : Spelling rows (clauseTokens body)) :
    Spelling (blockRows d keyword name rows) (Clause.block [utf8 keyword, name] body).tokens := by
  have := (Spelling.single (spells_opening d hk hn)).append (h.append (.single (spells_closing d)))
  simpa [blockRows, Clause.tokens] using this

theorem spelling_map {α : Type} {row : α → Row} {clause : α → Clause} {xs : List α}
    (h : ∀ x ∈ xs, Spells (row x) (clause x).tokens) :
    Spelling (xs.map row) (clauseTokens (xs.map clause)) := by
  induction xs with
  | nil => exact .nil
  | cons x xs ih => exact .cons (h x List.mem_cons_self) (ih fun y hy => h y (List.mem_cons_of_mem x hy))

theorem spelling_flatMap {α : Type} {rows : α → List Row} {clause : α → Clause} {xs : List α}
    (h : ∀ x ∈ xs, Spelling (rows x) (clause x).tokens) :
    Spelling (xs.flatMap rows) (clauseTokens (xs.map clause)) := by
  induction xs with
  | nil => exact .nil
  | cons x xs ih =>
    exact (h x List.mem_cons_self).append (ih fun y hy => h y (List.mem_cons_of_mem x hy))

theorem Item.spelling (d : Nat) {i : Item} (h : i.Named words) : Spelling (i.rows d) i.clause.tokens := by
  cases i with
  | field l => exact .single (l.spells d h)
  | oneof name members =>
    exact spelling_block (isWord_literal (by decide)) h.1
      (spelling_map fun l hl => FieldLine.spells (d + 1) (h.2 l hl))

theorem Enum.spelling (d : Nat) {e : Enum} (h : e.Named words) : Spelling (e.rows d) e.clause.tokens :=
  spelling_block (isWord_literal (by decide)) h.1
    (spelling_map fun v hv => spells_value (d + 1) (h.2 v hv))

mutual
theorem Message.spelling (d : Nat) : (m : Message) → (∀ x ∈ m.all, x.Named words) →
    Spelling (m.rows d) m.clause.tokens
  | ⟨name, items, nested, enums⟩, h => by
    rw [Message.all, List.forall_mem_cons] at h
    obtain ⟨⟨hname, hitems, henums⟩, hnested⟩ := h
    have hi : Spelling (items.flatMap (Item.rows (d + 1))) (clauseTokens (items.map Item.clause)) :=
      spelling_flatMap fun i hi => Item.spelling (d + 1) (hitems i hi)
    have he : Spelling (enums.flatMap fun e => .empty :: e.rows (d + 1)) (clauseTokens (enums.map Enum.clause)) :=
      spelling_flatMap fun e he => (Enum.spelling (d + 1) (henums e he)).empty_cons
    rw [Message.rows, Message.clause, Message.body]
    refine spelling_block (isWord_literal (by decide)) hname ?_
    rw [clauseTokens_append, clauseTokens_append, List.append_assoc]
    exact hi.append ((spelling_nested (d + 1) nested hnested).append he)
theorem spelling_nested (d : Nat) : (ms : List Message) → (∀ x ∈ allIn ms, x.Named words) →
    Spelling (nestedRows d ms) (clauseTokens (messageClauses ms))
  | [], _ => .nil
  | m :: ms, h => by
    rw [allIn, List.forall_mem_append] at h
    rw [nestedRows, messageClauses, clauseTokens]
    exact (Message.spelling d m h.1).empty_cons.append (spelling_nested d ms h.2)
end

theorem Declaration.spelling {x : Declaration} (h : x.Named words) : Spelling x.rows x.clause.tokens := by
  cases x with
  | service name => exact spelling_block (isWord_literal (by decide)) h .nil
  | enum e => exact Enum.spelling 0 h
  | message m => exact Message.spelling 0 m h

private theorem spelling_intercalate {xs : List Declaration} (h : ∀ x ∈ xs, x.Named words) :
    Spelling (List.intercalate [.empty] (xs.map Declaration.rows)) (clauseTokens (xs.map Declaration.clause)) := by
  cases xs with
  | nil => exact .nil
  | cons x xs =>
    obtain ⟨hx, hxs⟩ := List.forall_mem_cons.1 h
    simp only [List.map_cons, intercalate_cons, List.flatMap_map]
    exact (Declaration.spelling hx).append (spelling_flatMap fun y hy => (Declaration.spelling (hxs y hy)).empty_cons)

private theorem spelling_paragraph {α : Type} {text : α → Bytes} {clause : α → Clause} {xs : List α}
    (h : ∀ x ∈ xs, Spells (.line 0 (text x)) (clause x).tokens) :
    Spelling (paragraphRows (xs.map text)) (clauseTokens (xs.map clause)) := by
  have hlines : Spelling (xs.map fun x => .line 0 (text x)) (clauseTokens (xs.map clause)) := spelling_map h
  unfold paragraphRows
  split
  · next hx =>
    have : xs = [] := by simpa using hx
    subst this
    exact .nil
  · simpa [Function.comp_def] using hlines.append (.single spells_empty)

/-- The rows of a file whose names are words spell its clauses. -/
theorem File.spelling (order : Order) {f : File} (h : f.Named words) :
    Spelling (f.rows order) (clauseTokens (f.clauses order)) := by
  have hh : Spelling (paragraphRows (f.heading.toList.map Heading.text))
      (clauseTokens (f.heading.toList.map Heading.clause)) := spelling_paragraph fun x _ => x.spells
  have hi : Spelling (paragraphRows (f.imports.map Import.text)) (clauseTokens (f.imports.map Import.clause)) :=
    spelling_paragraph fun i _ => i.spells
  have hp : Spelling (paragraphRows (f.package.toList.map packageText))
      (clauseTokens (f.package.toList.map packageClause)) :=
    spelling_paragraph fun p hp => spells_package (h.package p (Option.mem_toList.mp hp))
  have hd := spelling_intercalate (h.declarations order)
  simp only [File.rows, File.headerRows, File.clauses, clauseTokens_append, List.append_assoc]
  exact hh.append (hi.append (hp.append hd))

end ProtoRecovery.Outline
