import ProtoRecovery.Proofs.Layout.Balance
import ProtoRecovery.Proofs.Outline.Spelling

/-! # The rows of an outline are balanced -/
namespace ProtoRecovery.Outline

/-- Nothing that is shown breaks a line. -/
def unbroken : Shown where
  name t := Bytes.newline ∉ t
  type t := Bytes.newline ∉ t
  package t := Bytes.newline ∉ t

private theorem newline_notMem_append {s t : Bytes} (hs : Bytes.newline ∉ s) (ht : Bytes.newline ∉ t) :
    Bytes.newline ∉ s ++ t := by
  simpa using ⟨hs, ht⟩

private theorem newline_notMem_number (n : Int32) : Bytes.newline ∉ Text.decimalInt n.toInt :=
  (isWord_decimalInt n.toInt).newline_notMem

private theorem run_numbered (d : Nat) {s : Bytes} (h : Bytes.newline ∉ s) (n : Int32) :
    Run d [.line d (s ++ utf8 " = " ++ Text.decimalInt n.toInt ++ utf8 ";")] :=
  .statement d (newline_notMem_append (newline_notMem_append h (by decide)) (newline_notMem_number n))

theorem FieldLine.run (d : Nat) {l : FieldLine} (h : l.Named unbroken) : Run d [.line d l.text] := by
  obtain ⟨label, type, name, number⟩ := l
  obtain ⟨htype, hname⟩ := h
  have htail : ∀ s, Bytes.newline ∉ s → Run d [.line d (s ++ type ++ utf8 " " ++ name ++ utf8 " = " ++
      Text.decimalInt number.toInt ++ utf8 ";")] := fun s hs =>
    run_numbered d (newline_notMem_append (newline_notMem_append (newline_notMem_append hs htype) (by decide)) hname) _
  cases label with
  | none => exact htail [] (by simp)
  | some label => exact htail _ (newline_notMem_append (isWord_keyword label).newline_notMem (by decide))

theorem run_value (d : Nat) {v : Bytes × Int32} (h : Bytes.newline ∉ v.1) : Run d [.line d (valueText v)] :=
  run_numbered d h v.2

private theorem opening_eq (keyword : String) (name : Bytes) :
    opening keyword name = utf8 keyword ++ utf8 " " ++ name ++ [0x20, 0x7b] := rfl

/-- Rows that start with a line that closes nothing, or that are none. -/
def Opens (rows : List Row) : Prop := ∀ r ∈ rows.head?, r ≠ .empty ∧ r.content ≠ utf8 "\x7d"

private theorem opening_ne_closing (keyword : String) (name : Bytes) : opening keyword name ≠ utf8 "\x7d" := by
  intro h
  have hlast := congrArg List.getLast? h
  simp [opening_eq, show utf8 "\x7d" = [0x7d] from rfl] at hlast

theorem opens_block (d : Nat) (keyword : String) (name : Bytes) (rows : List Row) :
    Opens (blockRows d keyword name rows) := by
  intro r hr
  cases hr
  exact ⟨by simp, opening_ne_closing keyword name⟩

theorem run_block (d : Nat) {keyword : String} {name : Bytes} (hk : IsWord (utf8 keyword))
    (hn : Bytes.newline ∉ name) {rows : List Row} (hr : Run (d + 1) rows) : Run d (blockRows d keyword name rows) := by
  rw [blockRows, opening_eq]
  exact .block d (newline_notMem_append (newline_notMem_append hk.newline_notMem (by decide)) hn) hr

/-- A block with an empty line before it. -/
theorem run_gap (d : Nat) {keyword : String} {name : Bytes} {rows : List Row}
    (h : Run d (blockRows d keyword name rows)) : Run d (.empty :: blockRows d keyword name rows) :=
  Run.gap (opening_ne_closing keyword name) h

private theorem run_lines {α : Type} {d : Nat} {text : α → Bytes} {xs : List α}
    (h : ∀ x ∈ xs, Run d [.line d (text x)]) : Run d (xs.map fun x => .line d (text x)) := by
  rw [List.map_eq_flatMap]
  exact .flatMap h

theorem Item.run (d : Nat) {i : Item} (h : i.Named unbroken) : Run d (i.rows d) := by
  cases i with
  | field l => exact FieldLine.run d h
  | oneof name members =>
    exact run_block d (isWord_literal (by decide)) h.1 (run_lines fun l hl => FieldLine.run (d + 1) (h.2 l hl))

theorem Enum.run (d : Nat) {e : Enum} (h : e.Named unbroken) : Run d (e.rows d) :=
  run_block d (isWord_literal (by decide)) h.1 (run_lines fun v hv => run_value (d + 1) (h.2 v hv))

mutual
theorem Message.run (d : Nat) : (m : Message) → (∀ x ∈ m.all, x.Named unbroken) → Run d (m.rows d)
  | ⟨name, items, nested, enums⟩, h => by
    rw [Message.all, List.forall_mem_cons] at h
    obtain ⟨⟨hname, hitems, henums⟩, hnested⟩ := h
    have hi : Run (d + 1) (items.flatMap (Item.rows (d + 1))) := .flatMap fun i hi => Item.run (d + 1) (hitems i hi)
    have he : Run (d + 1) (enums.flatMap fun e => .empty :: e.rows (d + 1)) :=
      .flatMap fun e he => run_gap (d + 1) (Enum.run (d + 1) (henums e he))
    rw [Message.rows]
    exact run_block d (isWord_literal (by decide)) hname ((hi.append (run_nested (d + 1) nested hnested)).append he)
theorem run_nested (d : Nat) : (ms : List Message) → (∀ x ∈ allIn ms, x.Named unbroken) → Run d (nestedRows d ms)
  | [], _ => .nil d
  | m :: ms, h => by
    rw [allIn, List.forall_mem_append] at h
    have hm := Message.run d m h.1
    have hms := run_nested d ms h.2
    obtain ⟨name, items, nested, enums⟩ := m
    rw [nestedRows]
    rw [Message.rows] at hm ⊢
    exact (run_gap d hm).append hms
end

theorem Declaration.run {x : Declaration} (h : x.Named unbroken) : Run 0 x.rows := by
  cases x with
  | service name => exact run_block 0 (isWord_literal (by decide)) h (.nil 1)
  | enum e => exact Enum.run 0 h
  | message m => exact Message.run 0 m h

theorem Declaration.exists_block (x : Declaration) : ∃ keyword name rows, x.rows = blockRows 0 keyword name rows := by
  cases x with
  | service name => exact ⟨_, _, _, rfl⟩
  | enum e => exact ⟨_, _, _, rfl⟩
  | message m =>
    obtain ⟨name, items, nested, enums⟩ := m
    exact ⟨_, _, _, Message.rows.eq_1 ..⟩

/-- The declarations of a file, with empty lines between them. -/
theorem run_declarations {xs : List Declaration} (h : ∀ x ∈ xs, x.Named unbroken) :
    Run 0 (List.intercalate [.empty] (xs.map Declaration.rows)) := by
  cases xs with
  | nil => exact .nil 0
  | cons x xs =>
    obtain ⟨hx, hxs⟩ := List.forall_mem_cons.1 h
    simp only [List.map_cons, intercalate_cons, List.flatMap_map]
    refine (Declaration.run hx).append (.flatMap fun y hy => ?_)
    have hy := Declaration.run (hxs y hy)
    obtain ⟨keyword, name, rows, hrows⟩ := y.exists_block
    rw [hrows] at hy ⊢
    exact run_gap 0 hy

private theorem Opens.append {r s : List Row} (hr : Opens r) (hs : Opens s) : Opens (r ++ s) := by
  cases r with
  | nil => exact hs
  | cons x r => exact hr

theorem opens_declarations (xs : List Declaration) :
    Opens (List.intercalate [.empty] (xs.map Declaration.rows)) := by
  cases xs with
  | nil => simp [Opens, List.intercalate]
  | cons x xs =>
    rw [List.map_cons, intercalate_cons]
    obtain ⟨keyword, name, rows, h⟩ := x.exists_block
    rw [h]
    exact opens_block 0 keyword name rows

/-- Rows that come back to the outermost depth; they may end with an empty line. -/
structure Page (rows : List Row) : Prop where
  walk : Walk 0 rows 0
  chain : rows.IsChain Row.Follows
  opens : Opens rows

theorem Page.append {r s : List Row} (hr : Page r) (hs : Page s) : Page (r ++ s) := by
  refine ⟨hr.walk.append hs.walk, hr.chain.append hs.chain ?_, hr.opens.append hs.opens⟩
  intro x _ y hy _
  exact hs.opens y hy

private theorem page_paragraph {lines : List Bytes} (h : ∀ t ∈ lines, ∃ s, t = s ++ [0x3b] ∧ Bytes.newline ∉ s) :
    Page (paragraphRows lines) := by
  have hrun : Run 0 (lines.map (Row.line 0)) := by
    refine run_lines fun t ht => ?_
    obtain ⟨s, rfl, hs⟩ := h t ht
    exact .statement 0 hs
  unfold paragraphRows
  split
  · exact ⟨.nil 0, .nil, by simp [Opens]⟩
  next hne =>
    obtain ⟨t, lines, rfl⟩ := List.exists_cons_of_ne_nil (show lines ≠ [] by simpa using hne)
    refine ⟨hrun.walk.append (.empty (.nil 0)), hrun.chain.append (.singleton _) ?_, ?_⟩
    · intro x hx _ _ he
      exact absurd (he ▸ hx) hrun.ends
    · intro r hr
      cases hr
      obtain ⟨s, rfl, -⟩ := h t List.mem_cons_self
      refine ⟨by simp, fun e => ?_⟩
      have hlast := congrArg List.getLast? e
      simp [Row.content, show utf8 "\x7d" = [0x7d] from rfl] at hlast

private theorem page_header {f : File} (h : f.Named unbroken) : Page f.headerRows := by
  have hquoted : ∀ (s q : Bytes), Bytes.newline ∉ s → Bytes.newline ∉ s ++ Text.quote q := fun s q hs =>
    newline_notMem_append hs (Text.newline_notMem_quote q)
  refine ((page_paragraph ?_).append (page_paragraph ?_)).append (page_paragraph ?_)
  · intro t ht
    obtain ⟨x, -, rfl⟩ := List.mem_map.1 ht
    cases x with
    | dialect name => exact ⟨_, rfl, hquoted (utf8 "syntax = ") name (by decide)⟩
    | edition name => exact ⟨_, rfl, hquoted (utf8 "edition = ") name (by decide)⟩
  · intro t ht
    obtain ⟨⟨access, path⟩, -, rfl⟩ := List.mem_map.1 ht
    refine ⟨_, rfl, hquoted (utf8 "import " ++ access.keyword) path (newline_notMem_append (by decide) ?_)⟩
    cases access <;> decide
  · intro t ht
    obtain ⟨p, hp, rfl⟩ := List.mem_map.1 ht
    have hpackage : Bytes.newline ∉ p := h.package p (Option.mem_toList.1 hp)
    exact ⟨_, rfl, newline_notMem_append (show Bytes.newline ∉ utf8 "package " by decide) hpackage⟩

/-- The rows of a file whose names break no line. -/
theorem File.page {f : File} (h : f.Named unbroken) (order : Order) : Page (f.rows order) := by
  have hrun := run_declarations (h.declarations order)
  exact (page_header h).append ⟨hrun.walk, hrun.chain, opens_declarations _⟩

/-- Only a file without declarations ends with an empty line. -/
theorem File.declarations_eq_nil {f : File} (h : f.Named unbroken) {order : Order}
    (he : (f.rows order).getLast? = some .empty) : f.declarations order = [] := by
  have hrun := run_declarations (h.declarations order)
  rw [File.rows, List.getLast?_append] at he
  rcases Option.or_eq_some_iff.1 he with he | ⟨hnone, -⟩
  · exact absurd he hrun.ends
  · cases hd : f.declarations order with
    | nil => rfl
    | cons x xs =>
      obtain ⟨keyword, name, rows, hx⟩ := x.exists_block
      rw [List.getLast?_eq_none_iff, hd, List.map_cons, intercalate_cons, hx] at hnone
      simp [blockRows] at hnone

end ProtoRecovery.Outline
