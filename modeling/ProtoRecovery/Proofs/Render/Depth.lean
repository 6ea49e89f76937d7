import ProtoRecovery.Proofs.Outline.Named
import ProtoRecovery.Proofs.Render.Text

/-! # How deep the rows of a file lie -/
namespace ProtoRecovery.Outline
open Schema

private theorem depth_blockRows {d n : Nat} {keyword : String} {name : Bytes} {content : List Row} (hd : d ≤ n)
    (h : ∀ r ∈ content, r.depth ≤ n) : ∀ r ∈ blockRows d keyword name content, r.depth ≤ n := by
  intro r hr
  simp only [blockRows, List.cons_append, List.mem_cons, List.mem_append, List.not_mem_nil, or_false] at hr
  rcases hr with rfl | hr | rfl
  · exact hd
  · exact h r hr
  · exact hd

theorem Item.depth_rows {d : Nat} (i : Item) : ∀ r ∈ i.rows d, r.depth ≤ d + 1 := by
  cases i with
  | field l =>
    intro r hr
    rw [List.mem_singleton.1 hr]
    exact Nat.le_succ d
  | oneof name members =>
    refine depth_blockRows (Nat.le_succ d) fun r hr => ?_
    obtain ⟨l, -, rfl⟩ := List.mem_map.1 hr
    exact Nat.le_refl _

theorem Enum.depth_rows {d : Nat} (e : Enum) : ∀ r ∈ e.rows d, r.depth ≤ d + 1 := by
  refine depth_blockRows (Nat.le_succ d) fun r hr => ?_
  obtain ⟨v, -, rfl⟩ := List.mem_map.1 hr
  exact Nat.le_refl _

mutual
theorem depth_shownMessage (style : Style) (dialect : Bytes) (d : Nat) : (m : Schema.Message) →
    ∀ r ∈ (shownMessage style dialect m).rows d, r.depth ≤ d + m.height + 1
  | ⟨name, fields, nested, enums, oneofs, extensions, mapEntry, features⟩ => by
    rw [shownMessage, Message.rows, Message.height]
    refine depth_blockRows (by omega) fun r hr => ?_
    rcases List.mem_append.1 hr with hr | hr
    · rcases List.mem_append.1 hr with hr | hr
      · obtain ⟨i, -, hi⟩ := List.mem_flatMap.1 hr
        have := i.depth_rows r hi
        omega
      · have := depth_shownMessages style dialect (d + 1) nested r hr
        omega
    · obtain ⟨e, -, he⟩ := List.mem_flatMap.1 hr
      rcases List.mem_cons.1 he with rfl | he
      · exact Nat.zero_le _
      · have := e.depth_rows r he
        omega
theorem depth_shownMessages (style : Style) (dialect : Bytes) (d : Nat) : (ms : List (Option Schema.Message)) →
    ∀ r ∈ nestedRows d (shownMessages style dialect ms), r.depth ≤ d + heightIn ms + 1
  | [] => by simp [shownMessages, nestedRows]
  | none :: ms => depth_shownMessages style dialect d ms
  | some m :: ms => by
    intro r hr
    rw [shownMessages, nestedRows, List.cons_append, List.mem_cons, List.mem_append] at hr
    rw [heightIn]
    rcases hr with rfl | hr | hr
    · exact Nat.zero_le _
    · have := depth_shownMessage style dialect d m r hr
      omega
    · have := depth_shownMessages style dialect d ms r hr
      omega
end

private theorem mem_nestedRows {d : Nat} {m : Message} {ms : List Message} (hm : m ∈ ms) {r : Row}
    (hr : r ∈ m.rows d) : r ∈ nestedRows d ms := by
  induction ms with
  | nil => cases hm
  | cons x ms ih =>
    rw [nestedRows, List.cons_append, List.mem_cons, List.mem_append]
    rcases List.mem_cons.1 hm with rfl | hm
    · exact .inr (.inl hr)
    · exact .inr (.inr (ih hm))

private theorem depth_declaration {style : Style} {order : Order} {f : Schema.File} {x : Declaration}
    (hx : x ∈ (shownFile style f).declarations order) : ∀ r ∈ x.rows, r.depth ≤ f.nesting + 2 := by
  intro r hr
  rcases File.mem_declarations.1 hx with ⟨s, -, rfl⟩ | ⟨e, -, rfl⟩ | ⟨m, hm, rfl⟩
  · exact depth_blockRows (Nat.zero_le _) (by simp) r hr
  · have := e.depth_rows r hr
    omega
  · have := depth_shownMessages style (textOf f.dialect) 0 f.messages r (mem_nestedRows hm hr)
    rw [Schema.File.nesting]
    omega

private theorem depth_paragraph (lines : List Bytes) : ∀ r ∈ paragraphRows lines, r.depth = 0 := by
  intro r hr
  unfold paragraphRows at hr
  split at hr
  · cases hr
  · rcases List.mem_append.1 hr with hr | hr
    · obtain ⟨t, -, rfl⟩ := List.mem_map.1 hr
      rfl
    · rw [List.mem_singleton.1 hr]
      rfl

theorem File.depth_headerRows (f : File) : ∀ r ∈ f.headerRows, r.depth = 0 := by
  intro r hr
  rcases List.mem_append.1 hr with hr | hr
  · rcases List.mem_append.1 hr with hr | hr
    · exact depth_paragraph _ r hr
    · exact depth_paragraph _ r hr
  · exact depth_paragraph _ r hr

/-- Members of oneofs and values of enums lie two levels below the message they are in. -/
theorem depth_rows_shownFile (style : Style) (order : Order) (f : Schema.File) :
    ∀ r ∈ (shownFile style f).rows order, r.depth ≤ f.nesting + 2 := by
  intro r hr
  rcases List.mem_append.1 hr with hr | hr
  · have hzero := File.depth_headerRows _ r hr
    omega
  · rcases mem_intercalate hr with rfl | ⟨rows, hrows, hr⟩
    · exact Nat.zero_le _
    · obtain ⟨x, hx, rfl⟩ := List.mem_map.1 hrows
      exact depth_declaration hx r hr

end ProtoRecovery.Outline
