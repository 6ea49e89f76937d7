import ProtoRecovery.Proofs.Outline.Balanced
import ProtoRecovery.Proofs.Outline.Indentation
import ProtoRecovery.Proofs.Render.Outcome

/-! # The layout of a rendered text, line by line -/
namespace ProtoRecovery
open Outline Schema

/-- A line that opens a block ends with a brace. -/
def opensBlock (t : Bytes) : Bool := t.getLast? == some 0x7b

/-- A line that ends with the other brace closes a block. -/
def closesBlock (t : Bytes) : Bool := t.getLast? == some 0x7d

section
variable (d : Nat) (s : Bytes)

private theorem braces_empty : opensBlock Row.empty.content = false ∧ closesBlock Row.empty.content = false :=
  ⟨rfl, rfl⟩

private theorem braces_statement :
    opensBlock (Row.line d (s ++ [0x3b])).content = false ∧ closesBlock (Row.line d (s ++ [0x3b])).content = false := by
  simp [Row.content, opensBlock, closesBlock]

private theorem braces_opening : opensBlock (Row.line d (s ++ [0x20, 0x7b])).content = true ∧
    closesBlock (Row.line d (s ++ [0x20, 0x7b])).content = false := by
  simp [Row.content, opensBlock, closesBlock]

private theorem braces_closing :
    opensBlock (Row.closing d).content = false ∧ closesBlock (Row.closing d).content = true :=
  ⟨rfl, rfl⟩

end

namespace Walk

/-- Every block that is opened is closed, but for those by which the depths differ. -/
theorem balance {a b : Nat} {rows : List Row} (h : Walk a rows b) :
    a + rows.countP (opensBlock ·.content) = b + rows.countP (closesBlock ·.content) := by
  induction h with
  | nil => rfl
  | empty _ ih => simpa [List.countP_cons, braces_empty] using ih
  | @statement d _ _ s _ _ ih => simpa [List.countP_cons, braces_statement d s] using ih
  | @opening d _ _ s _ _ ih =>
    simp only [List.countP_cons, braces_opening d s, if_true, Bool.false_eq_true, if_false]
    omega
  | @closing d _ _ _ ih =>
    simp only [List.countP_cons, braces_closing d, if_true, Bool.false_eq_true, if_false]
    omega

theorem split {a c : Nat} {r s : List Row} (h : Walk a (r ++ s) c) : ∃ b, Walk a r b ∧ Walk b s c := by
  induction r generalizing a with
  | nil => exact ⟨a, .nil a, h⟩
  | cons x r ih =>
    cases h with
    | empty h =>
      obtain ⟨b, hr, hs⟩ := ih h
      exact ⟨b, .empty hr, hs⟩
    | statement t hn h =>
      obtain ⟨b, hr, hs⟩ := ih h
      exact ⟨b, .statement t hn hr, hs⟩
    | opening t hn h =>
      obtain ⟨b, hr, hs⟩ := ih h
      exact ⟨b, .opening t hn hr, hs⟩
    | closing h =>
      obtain ⟨b, hr, hs⟩ := ih h
      exact ⟨b, .closing hr, hs⟩

end Walk

/-- How the content of a line may end. -/
def IsContent (t : Bytes) : Prop := (∃ s, t = s ++ utf8 ";") ∨ (∃ s, t = s ++ utf8 " \x7b") ∨ t = utf8 "\x7d"

/-- The depth of a line is the number of blocks that are open before it, less the one it closes. -/
theorem Walk.depth_eq {before after : List Row} {r : Row} {b : Nat} (h : Walk 0 (before ++ r :: after) b) :
    ∃ d, before.countP (opensBlock ·.content) = (before ++ [r]).countP (closesBlock ·.content) + d ∧
      (r = .empty ∨ ∃ t, r = .line d t ∧ Bytes.newline ∉ t ∧ IsContent t) := by
  obtain ⟨d, hbefore, hrest⟩ := h.split
  have hcount := hbefore.balance
  simp only [List.countP_append, List.countP_singleton]
  cases hrest with
  | empty h =>
    refine ⟨d, ?_, .inl rfl⟩
    rw [braces_empty.2]
    simp only [Bool.false_eq_true, if_false]
    omega
  | statement s hn h =>
    refine ⟨d, ?_, .inr ⟨_, rfl, by simpa [Bytes.newline] using hn, .inl ⟨s, rfl⟩⟩⟩
    rw [(braces_statement d s).2]
    simp only [Bool.false_eq_true, if_false]
    omega
  | opening s hn h =>
    refine ⟨d, ?_, .inr ⟨_, rfl, by simpa [Bytes.newline] using hn, .inr (.inl ⟨s, rfl⟩)⟩⟩
    rw [(braces_opening d s).2]
    simp only [Bool.false_eq_true, if_false]
    omega
  | @closing e _ _ h =>
    refine ⟨e, ?_, .inr ⟨_, rfl, by decide, .inr (.inr rfl)⟩⟩
    rw [(braces_closing e).2]
    simp only [if_true]
    omega

/-- A row that is empty or has a content. -/
def Row.Formed (r : Row) : Prop := r = .empty ∨ IsContent r.content

theorem Walk.formed {b : Nat} {rows : List Row} (h : Walk 0 rows b) :
    ∀ r ∈ rows, Bytes.newline ∉ r.content ∧ r.Formed := by
  intro r hr
  obtain ⟨before, after, rfl⟩ := List.append_of_mem hr
  obtain ⟨d, -, hempty | ⟨t, rfl, hn, ht⟩⟩ := h.depth_eq
  · rw [hempty]
    exact ⟨by simp [Row.content], .inl rfl⟩
  · exact ⟨hn, .inr ht⟩

theorem IsContent.ne_nil {t : Bytes} (h : IsContent t) : t ≠ [] := by
  rcases h with ⟨s, rfl⟩ | ⟨s, rfl⟩ | rfl
  · exact List.append_ne_nil_of_right_ne_nil s (by decide)
  · exact List.append_ne_nil_of_right_ne_nil s (by decide)
  · decide

/-- A content that ends with the closing brace is the brace. -/
theorem IsContent.eq_closing {t : Bytes} (h : IsContent t) (hc : closesBlock t = true) : t = utf8 "\x7d" := by
  rcases h with ⟨s, rfl⟩ | ⟨s, rfl⟩ | rfl
  · simp [closesBlock, show utf8 ";" = [0x3b] from rfl] at hc
  · simp [closesBlock, show utf8 " \x7b" = [0x20, 0x7b] from rfl] at hc
  · rfl

section
variable (i : Indent) {r : Row}

private theorem getLast?_unended (h : r.Formed) : (r.unended i).getLast? = r.content.getLast? := by
  rcases h with rfl | h
  · rfl
  · rw [Row.unended, List.getLast?_append, List.getLast?_eq_some_getLast h.ne_nil]
    rfl

private theorem opensBlock_unended (h : r.Formed) : opensBlock (r.unended i) = opensBlock r.content := by
  rw [opensBlock, getLast?_unended i h, opensBlock]

private theorem closesBlock_unended (h : r.Formed) : closesBlock (r.unended i) = closesBlock r.content := by
  rw [closesBlock, getLast?_unended i h, closesBlock]

private theorem unended_eq_nil (h : r.Formed) : r.unended i = [] ↔ r = .empty := by
  constructor
  · intro he
    rcases h with h | h
    · exact h
    · exact absurd (List.append_eq_nil_iff.1 he).2 h.ne_nil
  · rintro rfl
    rfl

end

/-- What holds of a line after others: the blocks that are open around it give its indentation. -/
def IsLineAfter (i : Indent) (before : List Bytes) (line : Bytes) : Prop :=
  ∃ d, before.countP opensBlock = (before ++ [line]).countP closesBlock + d ∧
    (line = [] ∨ ∃ content, line =
      (List.replicate (i.width.toNatClampNeg * d) (Utf8.encode i.char)).flatten ++ content ∧ IsContent content)

/-- Lines that are laid out well. -/
structure LaidOut (i : Indent) (lines : List Bytes) : Prop where
  unbroken : ∀ line ∈ lines, Bytes.newline ∉ line
  indented : ∀ before line after, lines = before ++ line :: after → IsLineAfter i before line
  closed : lines.countP opensBlock = lines.countP closesBlock
  starts : lines.head? ≠ some []
  gaps : lines.IsChain fun a b => a = [] → b ≠ [] ∧ closesBlock b = false

section
variable {i : Indent} {rows : List Row}

private theorem countP_unended {p : Bytes → Bool} (hp : ∀ r : Row, r.Formed → p (r.unended i) = p r.content)
    (h : ∀ r ∈ rows, r.Formed) : (rows.map (Row.unended i)).countP p = rows.countP (p ·.content) := by
  rw [List.countP_map]
  exact List.countP_congr fun r hr => by simp [hp r (h r hr)]

private theorem isLineAfter_unended {before after : List Row} {r : Row} {b : Nat}
    (h : Walk 0 (before ++ r :: after) b) (hw : i.width.toNatClampNeg * r.depth < 9223372036854775808) :
    IsLineAfter i (before.map (Row.unended i)) (r.unended i) := by
  have hformed : ∀ x ∈ before ++ [r], x.Formed := fun x hx => by
    rw [List.append_cons] at h
    exact (h.formed x (List.mem_append_left after hx)).2
  have hbefore : ∀ x ∈ before, x.Formed := fun x hx => hformed x (List.mem_append_left _ hx)
  have hmap : before.map (Row.unended i) ++ [r.unended i] = (before ++ [r]).map (Row.unended i) := by simp
  obtain ⟨d, hcount, hr⟩ := h.depth_eq
  refine ⟨d, ?_, ?_⟩
  · rw [hmap, countP_unended (fun _ => opensBlock_unended i) hbefore,
      countP_unended (fun _ => closesBlock_unended i) hformed, hcount]
  · rcases hr with rfl | ⟨t, rfl, -, ht⟩
    · exact .inl rfl
    · have hpadding : (i.width * Int64.ofNat d).toNatClampNeg = i.width.toNatClampNeg * d :=
        toNatClampNeg_mul_ofNat i.width_pos hw
      refine .inr ⟨t, ?_, ht⟩
      rw [Row.unended, Row.padding, hpadding]
      rfl

private theorem gap_unended {x y : Row} (hx : x.Formed) (hy : y.Formed) (h : x.Follows y) (hnil : x.unended i = []) :
    y.unended i ≠ [] ∧ closesBlock (y.unended i) = false := by
  obtain ⟨hne, hclosing⟩ := h ((unended_eq_nil i hx).1 hnil)
  refine ⟨fun hn => hne ((unended_eq_nil i hy).1 hn), ?_⟩
  rw [closesBlock_unended i hy, Bool.eq_false_iff]
  intro hc
  rcases hy with hempty | hcontent
  · exact hne hempty
  · exact hclosing (hcontent.eq_closing hc)

/-- The lines of a page are laid out well, when no padding is too wide. -/
theorem laidOut_page (h : Page rows) (hw : ∀ r ∈ rows, i.width.toNatClampNeg * r.depth < 9223372036854775808) :
    LaidOut i (rows.map (Row.unended i)) := by
  have hformed : ∀ r ∈ rows, r.Formed := fun r hr => (h.walk.formed r hr).2
  constructor
  · intro line hline
    obtain ⟨r, hr, rfl⟩ := List.mem_map.1 hline
    simpa [Row.unended] using ⟨newline_notMem_padding i r, (h.walk.formed r hr).1⟩
  · intro before line after hlines
    obtain ⟨rb, rest, rfl, rfl, hrest⟩ := List.map_eq_append_iff.1 hlines
    obtain ⟨r, ra, rfl, rfl, rfl⟩ := List.map_eq_cons_iff.1 hrest
    exact isLineAfter_unended h.walk (hw r (by simp))
  · have hbalance := h.walk.balance
    rw [countP_unended (fun _ => opensBlock_unended i) hformed, countP_unended (fun _ => closesBlock_unended i) hformed]
    omega
  · intro hhead
    rw [List.head?_map, Option.map_eq_some_iff] at hhead
    obtain ⟨r, hr, hnil⟩ := hhead
    have hr' := hformed r (List.mem_of_head? hr)
    exact (h.opens r hr).1 ((unended_eq_nil i hr').1 hnil)
  · rw [List.isChain_iff_forall_rel_of_append_cons_cons]
    intro a b before after hlines
    obtain ⟨rb, rest, rfl, -, hrest⟩ := List.map_eq_append_iff.1 hlines
    obtain ⟨x, rest', rfl, rfl, hrest'⟩ := List.map_eq_cons_iff.1 hrest
    obtain ⟨y, ra, rfl, rfl, -⟩ := List.map_eq_cons_iff.1 hrest'
    have hfollows := List.isChain_iff_forall_rel_of_append_cons_cons.1 h.chain rfl
    exact gap_unended (hformed x (by simp)) (hformed y (by simp)) hfollows

end

private theorem mem_of_mem_split {sep b : UInt8} {t piece : Bytes} (hp : piece ∈ Bytes.split sep t) (hb : b ∈ piece) :
    b ∈ t := by
  induction t generalizing piece with
  | nil =>
    rw [List.mem_singleton.1 hp] at hb
    cases hb
  | cons x t ih =>
    unfold Bytes.split at hp
    split at hp
    · rcases List.mem_cons.1 hp with rfl | hp
      · cases hb
      · exact List.mem_cons_of_mem x (ih hp hb)
    · split at hp
      · rw [List.mem_singleton.1 hp, List.mem_singleton] at hb
        exact hb ▸ List.mem_cons_self
      next first others hs =>
        rcases List.mem_cons.1 hp with rfl | hp
        · rcases List.mem_cons.1 hb with rfl | hb
          · exact List.mem_cons_self
          · exact List.mem_cons_of_mem x (ih (hs ▸ List.mem_cons_self) hb)
        · exact List.mem_cons_of_mem x (ih (hs ▸ List.mem_cons_of_mem first hp) hb)

private theorem mem_of_mem_lastSegment {b : UInt8} {t : Bytes} (h : b ∈ Bytes.lastSegment t) : b ∈ t := by
  unfold Bytes.lastSegment at h
  cases hs : (Bytes.split Bytes.dot t).getLast? with
  | none => simp [List.getLastD_eq_getLast?, hs] at h
  | some piece =>
    rw [List.getLastD_eq_getLast?, hs] at h
    exact mem_of_mem_split (List.mem_of_getLast? hs) h

/-- Where no name breaks a line, nothing that is shown does. -/
theorem unbroken_gives_unbroken (style : Style) : Naming.Gives .unbroken style unbroken := by
  have hnotMem : ∀ t : Bytes, (!t.contains Bytes.newline) = true → Bytes.newline ∉ t := by simp
  constructor
  · exact hnotMem
  · exact fun s => (isWord_scalar s).newline_notMem
  · intro t _ ht
    cases style.typeNames with
    | short => exact fun hn => hnotMem t ht (mem_of_mem_lastSegment hn)
    | qualified => exact hnotMem t ht
  · exact hnotMem

private theorem nothing_declared {style : Style} {order : Order} {f : Schema.File}
    (h : (shownFile style f).declarations order = []) :
    f.services.reduceOption = [] ∧ f.enums.reduceOption = [] ∧ f.messages.reduceOption = [] := by
  cases order <;> simp [File.declarations, shownFile, shownMessages_eq] at h <;> tauto

/-- A file whose names break no line, and whose padding is not too wide, is written to its end at the
outermost level and without an error, and its text is laid out well. -/
theorem rendered_laidOut (o : RenderOptions) {f : Schema.File} {outline : Outline.File}
    (hn : f.named .unbroken = true)
    (hw : o.indent.width.toNatClampNeg * (f.nesting + 2) < 9223372036854775808)
    (hf : ofFile o.toStyle f = .ok outline) :
    (written o outline).level = 0 ∧ (written o outline).error = none ∧
      ∃ lines, render o f = .ok (lines.flatMap (· ++ [Bytes.newline])) ∧ LaidOut o.indent lines ∧
        (lines.getLast? = some [] →
          f.services.reduceOption = [] ∧ f.enums.reduceOption = [] ∧ f.messages.reduceOption = []) := by
  rw [ofFile_eq, verdict_eq_ok] at hf
  obtain ⟨hfault, rfl⟩ := hf
  have hnamed := shownFile_named (unbroken_gives_unbroken o.toStyle) hn hfault
  have hpage : Page (renderedRows o f) := File.page hnamed o.order
  have hpos : 0 < o.indent.width.toNatClampNeg := (Int64.toNatClampNeg_pos_iff _).2 o.indent.width_pos
  have hnesting : f.nesting + 2 < Row.depthLimit := by
    calc f.nesting + 2 ≤ o.indent.width.toNatClampNeg * (f.nesting + 2) := Nat.le_mul_of_pos_left _ hpos
      _ < Row.depthLimit := hw
  have hwide : ∀ r ∈ renderedRows o f, o.indent.width.toNatClampNeg * r.depth < 9223372036854775808 := by
    intro r hr
    have hdepth := depth_rows_shownFile o.toStyle o.order f r hr
    exact lt_of_le_of_lt (Nat.mul_le_mul_left _ hdepth) hw
  have hunbroken : ∀ r ∈ renderedRows o f, Bytes.newline ∉ r.content := fun r hr => (hpage.walk.formed r hr).1
  rw [written_eq o hnesting, render_eq_verdict o hnesting, hfault, flatMap_text hunbroken]
  refine ⟨rfl, rfl, _, rfl, laidOut_page hpage hwide, fun hlast => ?_⟩
  rw [List.getLast?_map, Option.map_eq_some_iff] at hlast
  obtain ⟨r, hr, hnil⟩ := hlast
  have hr' := (hpage.walk.formed r (List.mem_of_getLast? hr)).2
  rw [(unended_eq_nil o.indent hr').1 hnil] at hr
  exact nothing_declared (File.declarations_eq_nil hnamed hr)

private def shelf : Schema.File where
  package := some (utf8 "lib")
  enums := [none, some { name := some (utf8 "Size"), values := [some { name := some (utf8 "SMALL") }] }]
  services := [some { name := some (utf8 "Lending") }]
  messages := [some {
    name := some (utf8 "Shelf")
    nested := [some {
      name := some (utf8 "Book")
      oneofs := [some { name := some (utf8 "mark") }]
      fields := [
        some { name := some (utf8 "page"), number := some 1, type := some 5, oneofIndex := some 0 },
        some { name := some (utf8 "line"), number := some 2, type := some 5, oneofIndex := some 0 }]
      enums := [some { name := some (utf8 "State") }] }] }]

private def shelfOptions : RenderOptions := { order := .messagesFirst, indent := { char := '\t', width := 2 } }

private def shelfLines : List Bytes :=
  ["package lib;", "", "message Shelf \x7b", "", "\t\tmessage Book \x7b", "\t\t\t\toneof mark \x7b",
    "\t\t\t\t\t\tint32 page = 1;", "\t\t\t\t\t\tint32 line = 2;", "\t\t\t\t\x7d", "", "\t\t\t\tenum State \x7b",
    "\t\t\t\t\x7d", "\t\t\x7d", "\x7d", "", "enum Size \x7b", "\t\tSMALL = 0;", "\x7d", "", "service Lending \x7b",
    "\x7d"].map utf8

theorem rendered_laidOut_shelf : shelf.named .unbroken = true ∧
    shelfOptions.indent.width.toNatClampNeg * (shelf.nesting + 2) < 9223372036854775808 ∧
    ∃ outline, ofFile shelfOptions.toStyle shelf = .ok outline ∧ (written shelfOptions outline).level = 0 ∧
      render shelfOptions shelf = .ok (shelfLines.flatMap (· ++ [Bytes.newline])) ∧
      LaidOut shelfOptions.indent shelfLines := by
  have hn : shelf.named .unbroken = true := by decide
  have hw : shelfOptions.indent.width.toNatClampNeg * (shelf.nesting + 2) < 9223372036854775808 := by decide
  have hf : ofFile shelfOptions.toStyle shelf = .ok (shownFile shelfOptions.toStyle shelf) := by
    rw [ofFile_eq, show firstFault shelf = none by decide]
    rfl
  have shown : render shelfOptions shelf = .ok (shelfLines.flatMap (· ++ [Bytes.newline])) := by decide +kernel
  obtain ⟨hlevel, -, lines, hrender, hlaid, -⟩ := rendered_laidOut shelfOptions hn hw hf
  have hlines : lines = shelfLines := by
    have hunbroken : ∀ line ∈ shelfLines, Bytes.newline ∉ line := by decide +kernel
    have hsplit := congrArg (Bytes.split Bytes.newline) (Except.ok.inj (hrender.symm.trans shown))
    rw [Bytes.split_text hlaid.unbroken, Bytes.split_text hunbroken] at hsplit
    exact List.append_cancel_right hsplit
  exact ⟨hn, hw, _, hf, hlevel, shown, hlines ▸ hlaid⟩

end ProtoRecovery
