import ProtoRecovery.Proofs.Render.LayoutLaw

/-! # Margins: no line of a rendered text starts with a slash -/
namespace ProtoRecovery
open Outline Schema

/-- A row at the outermost level does not start with a slash. -/
def Row.Plain (r : Row) : Prop := r.depth = 0 → r.content.head? ≠ some Bytes.slash

namespace Outline

theorem IsWord.head?_append {w : Bytes} (h : IsWord w) (t : Bytes) : (w ++ t).head? ≠ some Bytes.slash := by
  obtain ⟨b, rest, rfl⟩ := List.exists_cons_of_ne_nil h.1
  intro hhead
  have hb := h.2 b List.mem_cons_self
  rw [Option.some.inj hhead] at hb
  exact absurd hb (by decide)

theorem plain_blockRows {d : Nat} {keyword : String} {name : Bytes} {content : List Row} (hk : IsWord (utf8 keyword))
    (h : ∀ r ∈ content, r.Plain) : ∀ r ∈ blockRows d keyword name content, r.Plain := by
  intro r hr
  simp only [blockRows, List.cons_append, List.mem_cons, List.mem_append, List.not_mem_nil, or_false] at hr
  rcases hr with rfl | hr | rfl
  · intro _
    rw [Row.content, opening, List.append_assoc, List.append_assoc]
    exact hk.head?_append _
  · exact h r hr
  · intro _
    show (utf8 "\x7d").head? ≠ some Bytes.slash
    decide

/-- Rows at an inner level. -/
theorem plain_lines {α : Type} (d : Nat) (text : α → Bytes) (xs : List α) :
    ∀ r ∈ xs.map fun x => Row.line (d + 1) (text x), r.Plain := by
  intro r hr
  obtain ⟨x, -, rfl⟩ := List.mem_map.1 hr
  exact fun h => absurd h (Nat.succ_ne_zero d)

theorem Item.plain (d : Nat) (i : Item) : ∀ r ∈ i.rows (d + 1), r.Plain := by
  cases i with
  | field l => exact plain_lines d FieldLine.text [l]
  | oneof name members => exact plain_blockRows (isWord_literal (by decide)) (plain_lines (d + 1) FieldLine.text members)

theorem Enum.plain (d : Nat) (e : Enum) : ∀ r ∈ e.rows d, r.Plain :=
  plain_blockRows (isWord_literal (by decide)) (plain_lines d valueText e.values)

theorem plain_empty : Row.empty.Plain := fun _ => nofun

mutual
theorem Message.plain (d : Nat) : (m : Message) → ∀ r ∈ m.rows d, r.Plain
  | ⟨name, items, nested, enums⟩ => by
    rw [Message.rows]
    refine plain_blockRows (isWord_literal (by decide)) fun r hr => ?_
    rcases List.mem_append.1 hr with hr | hr
    · rcases List.mem_append.1 hr with hr | hr
      · obtain ⟨i, -, hi⟩ := List.mem_flatMap.1 hr
        exact i.plain d r hi
      · exact plain_nested (d + 1) nested r hr
    · obtain ⟨e, -, he⟩ := List.mem_flatMap.1 hr
      rcases List.mem_cons.1 he with rfl | he
      · exact plain_empty
      · exact e.plain (d + 1) r he
theorem plain_nested (d : Nat) : (ms : List Message) → ∀ r ∈ nestedRows d ms, r.Plain
  | [] => by simp [nestedRows]
  | m :: ms => by
    intro r hr
    rw [nestedRows, List.cons_append, List.mem_cons, List.mem_append] at hr
    rcases hr with rfl | hr | hr
    · exact plain_empty
    · exact m.plain d r hr
    · exact plain_nested d ms r hr
end

theorem Declaration.plain (x : Declaration) : ∀ r ∈ x.rows, r.Plain := by
  cases x with
  | service name => exact plain_blockRows (isWord_literal (by decide)) (by simp)
  | enum e => exact e.plain 0
  | message m => exact m.plain 0

theorem plain_paragraph {lines : List Bytes} (h : ∀ t ∈ lines, t.head? ≠ some Bytes.slash) :
    ∀ r ∈ paragraphRows lines, r.Plain := by
  intro r hr
  unfold paragraphRows at hr
  split at hr
  · cases hr
  · rcases List.mem_append.1 hr with hr | hr
    · obtain ⟨t, ht, rfl⟩ := List.mem_map.1 hr
      exact fun _ => h t ht
    · rw [List.mem_singleton.1 hr]
      exact plain_empty

theorem File.plain_header (f : File) : ∀ r ∈ f.headerRows, r.Plain := by
  intro r hr
  rcases List.mem_append.1 hr with hr | hr
  · rcases List.mem_append.1 hr with hr | hr
    · refine plain_paragraph (fun t ht => ?_) r hr
      obtain ⟨x, -, rfl⟩ := List.mem_map.1 ht
      cases x <;> exact nofun
    · refine plain_paragraph (fun t ht => ?_) r hr
      obtain ⟨x, -, rfl⟩ := List.mem_map.1 ht
      exact nofun
  · refine plain_paragraph (fun t ht => ?_) r hr
    obtain ⟨p, -, rfl⟩ := List.mem_map.1 ht
    exact nofun

theorem File.plain (f : File) (order : Order) : ∀ r ∈ f.rows order, r.Plain := by
  intro r hr
  rcases List.mem_append.1 hr with hr | hr
  · exact f.plain_header r hr
  · rcases mem_intercalate hr with rfl | ⟨rows, hrows, hr⟩
    · exact plain_empty
    · obtain ⟨x, -, rfl⟩ := List.mem_map.1 hrows
      exact x.plain r hr

end Outline

/-- An inner level is indented, so far as the padding is not too wide. -/
theorem Row.depth_of_padding {i : Indent} {r : Row} (hw : i.width.toNatClampNeg * r.depth < 9223372036854775808)
    (h : r.padding i = []) : r.depth = 0 := by
  cases r with
  | empty => rfl
  | line d t =>
    have hencode : Utf8.encode i.char ≠ [] := by
      rcases i.encode_cases with ⟨b, hb, -⟩ | ⟨hne, -⟩
      · rw [hb]
        exact List.cons_ne_nil b []
      · exact hne
    have hpos : 0 < i.width.toNatClampNeg := (Int64.toNatClampNeg_pos_iff _).2 i.width_pos
    have hwidth : (i.width * Int64.ofNat d).toNatClampNeg = i.width.toNatClampNeg * d :=
      toNatClampNeg_mul_ofNat i.width_pos hw
    rw [Row.padding, hwidth, List.flatten_eq_nil_iff] at h
    by_contra hd
    have hcount : i.width.toNatClampNeg * d ≠ 0 := Nat.mul_ne_zero hpos.ne' hd
    exact hencode (h _ (List.mem_replicate.2 ⟨hcount, rfl⟩))

theorem Row.head?_unended {i : Indent} {r : Row} (hr : r.Plain)
    (hw : i.width.toNatClampNeg * r.depth < 9223372036854775808) : (r.unended i).head? ≠ some Bytes.slash := by
  rw [Row.unended]
  cases hp : r.padding i with
  | nil => exact hr (Row.depth_of_padding hw hp)
  | cons b rest =>
    -- The line starts with the indentation, whatever its content is.
    intro hhead
    have hb : Bytes.slash ∈ Utf8.encode i.char := by
      apply mem_padding (r := r)
      rw [hp, ← Option.some.inj hhead]
      exact List.mem_cons_self
    exact i.notMem_encode (by decide) (by decide) hb

/-- A text that a file is rendered as, where no name breaks a line and no padding is too wide. -/
def IsRendering (t : Bytes) : Prop :=
  ∃ (o : RenderOptions) (f : Schema.File), render o f = .ok t ∧ f.named .unbroken = true ∧
    o.indent.width.toNatClampNeg * (f.nesting + 2) < 9223372036854775808

theorem IsRendering.lines {t : Bytes} (h : IsRendering t) :
    ∃ lines : List Bytes, t = lines.flatMap (· ++ [Bytes.newline]) ∧
      ∀ line ∈ lines, Bytes.newline ∉ line ∧ line.head? ≠ some Bytes.slash := by
  obtain ⟨o, f, hrender, hn, hw⟩ := h
  obtain ⟨hfault, rfl⟩ := text_of_render hrender
  have hpage : Page (renderedRows o f) := File.page (shownFile_named (unbroken_gives_unbroken o.toStyle) hn hfault) o.order
  have hunbroken : ∀ r ∈ renderedRows o f, Bytes.newline ∉ r.content := fun r hr => (hpage.walk.formed r hr).1
  refine ⟨_, flatMap_text hunbroken, fun line hline => ?_⟩
  obtain ⟨r, hr, rfl⟩ := List.mem_map.1 hline
  have hwide : o.indent.width.toNatClampNeg * r.depth < 9223372036854775808 :=
    lt_of_le_of_lt (Nat.mul_le_mul_left _ (depth_rows_shownFile o.toStyle o.order f r hr)) hw
  refine ⟨?_, Row.head?_unended (File.plain _ o.order r hr) hwide⟩
  simpa [Row.unended] using ⟨newline_notMem_padding o.indent r, hunbroken r hr⟩

end ProtoRecovery
