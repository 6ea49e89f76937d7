import ProtoRecovery.Proofs.Outline.Spelling
import ProtoRecovery.Proofs.Text.Splitting

/-! # Indented rows: taking the indentation off, and scanning what is left -/
namespace ProtoRecovery
open Outline Outline.Token

/-- A row without the end of its line. -/
def Row.unended (i : Indent) (r : Row) : Bytes := r.padding i ++ r.content

/-- An indenting character is a gap between tokens, or all of its bytes are beyond ASCII. -/
theorem Indent.encode_cases (i : Indent) :
    (∃ b, Utf8.encode i.char = [b] ∧ isGap b = true ∧ b ≠ Bytes.newline) ∨
      Utf8.encode i.char ≠ [] ∧ ∀ b ∈ Utf8.encode i.char, 0x80 ≤ b := by
  obtain ⟨hblank, hn⟩ : Text.isBlank i.char = true ∧ i.char ≠ '\n' := by
    have := i.char_ok
    simp only [canIndent, Bool.and_eq_true, bne_iff_ne] at this
    exact this.1
  by_cases hc : i.char.toNat < 0x80
  · left
    refine ⟨_, Utf8.encode_of_ascii hc, ?_⟩
    have hnat : i.char.toNat ≠ 0x0a := fun h => hn (Char.toNat_inj.1 h)
    have hgap : ∀ n < 0x80, n ≠ 0x0a → Text.isBlank (Char.ofNat n) = true →
        isGap (UInt8.ofNat n) = true ∧ UInt8.ofNat n ≠ Bytes.newline := by decide
    exact hgap _ hc hnat (by rwa [Char.ofNat_toNat])
  · right
    refine ⟨?_, fun b hb => Utf8.high_of_mem_encode (Nat.le_of_not_lt hc) hb⟩
    exact List.ne_nil_of_length_pos (String.length_utf8EncodeChar _ ▸ Char.utf8Size_pos _)

theorem mem_padding {i : Indent} {r : Row} {b : UInt8} (h : b ∈ r.padding i) : b ∈ Utf8.encode i.char := by
  cases r with
  | empty => cases h
  | line d t =>
    obtain ⟨l, hl, hb⟩ := List.mem_flatten.1 h
    rwa [← List.eq_of_mem_replicate hl]

/-- What is neither a gap nor beyond ASCII does not indent. -/
theorem Indent.notMem_encode (i : Indent) {b : UInt8} (hgap : isGap b = false) (hlow : b < 0x80) :
    b ∉ Utf8.encode i.char := by
  intro hb
  rcases i.encode_cases with ⟨c, hc, hg, -⟩ | ⟨-, hhigh⟩
  · rw [hc, List.mem_singleton] at hb
    subst hb
    rw [hg] at hgap
    cases hgap
  · exact absurd (hhigh b hb) (UInt8.not_le.2 hlow)

theorem isMargin_of_mem_padding {i : Indent} {r : Row} {b : UInt8} (h : b ∈ r.padding i) : isMargin b = true := by
  have hb := mem_padding h
  rcases i.encode_cases with ⟨c, hc, hgap, -⟩ | ⟨-, hhigh⟩
  · rw [hc, List.mem_singleton] at hb
    simp [isMargin, hb, hgap]
  · simp [isMargin, hhigh b hb]

/-- No line starts with a byte that can indent it. -/
private theorem isMargin_of_start {b : UInt8} (h : isWordByte b = true ∨ b = 0x7d) : isMargin b = false := by
  have hall : ∀ n : Fin 256, isWordByte (UInt8.ofFin n) = true ∨ UInt8.ofFin n = 0x7d →
      isMargin (UInt8.ofFin n) = false := by decide +kernel
  exact hall b.toFin h

theorem newline_notMem_padding (i : Indent) (r : Row) : Bytes.newline ∉ r.padding i := by
  intro h
  have hb := mem_padding h
  rcases i.encode_cases with ⟨c, hc, -, hn⟩ | ⟨-, hhigh⟩
  · rw [hc, List.mem_singleton] at hb
    exact hn hb.symm
  · exact absurd (hhigh _ hb) (by decide)

theorem dropWhile_unended {r : Row} {tokens : List Outline.Token} (h : Spells r tokens) (i : Indent) :
    (r.unended i).dropWhile isMargin = r.content := by
  rw [Row.unended, List.dropWhile_append_of_pos fun b => isMargin_of_mem_padding]
  cases hc : r.content with
  | nil => rfl
  | cons b t =>
    have hb : isMargin b = false := isMargin_of_start (h.start b (by simp [hc]))
    exact List.dropWhile_cons_of_neg (by simp [hb])

/-- The text of rows is that of their lines. -/
theorem flatMap_text {i : Indent} {rows : List Row} (h : ∀ r ∈ rows, Bytes.newline ∉ r.content) :
    rows.flatMap (Row.text i) = (rows.map (Row.unended i)).flatMap (· ++ [Bytes.newline]) := by
  rw [List.flatMap_map]
  exact List.flatMap_congr fun r hr => Row.text_of_notMem (h r hr) i

/-- Rows that break no line are the lines of their text. -/
theorem split_rows (i : Indent) {rows : List Row} (h : ∀ r ∈ rows, Bytes.newline ∉ r.content) :
    Bytes.split Bytes.newline (rows.flatMap (Row.text i)) = rows.map (Row.unended i) ++ [[]] := by
  rw [flatMap_text h]
  refine Bytes.split_text fun line hline => ?_
  obtain ⟨r, hr, rfl⟩ := List.mem_map.1 hline
  simpa [Row.unended] using ⟨newline_notMem_padding i r, h r hr⟩

namespace Outline.Spelling

theorem spells {rows : List Row} {tokens : List Outline.Token} (h : Spelling rows tokens) :
    ∀ r ∈ rows, ∃ a, Spells r a := by
  induction h with
  | nil => simp
  | cons hr _ ih => exact List.forall_mem_cons.2 ⟨⟨_, hr⟩, ih⟩

/-- Without indentation, rows read as what they spell. -/
theorem reads {rows : List Row} {tokens : List Outline.Token} (h : Spelling rows tokens) :
    Reads (rows.flatMap fun r => r.content ++ [Bytes.newline]) tokens := by
  induction h with
  | nil => exact .nil
  | cons hr _ ih => simpa only [List.flatMap_cons] using hr.reads.append ih

/-- Without their indentation, rows are the lines of their contents. -/
theorem unindented_text {rows : List Row} {tokens : List Outline.Token} (h : Spelling rows tokens) (i : Indent) :
    unindented (rows.flatMap (Row.text i)) = rows.flatMap fun r => r.content ++ [Bytes.newline] := by
  have hunbroken : ∀ r ∈ rows, Bytes.newline ∉ r.content := fun r hr => (h.spells r hr).elim fun _ hr => hr.unbroken
  have hcontents : (rows.map (Row.unended i)).map (·.dropWhile isMargin) = rows.map Row.content := by
    rw [List.map_map]
    exact List.map_congr_left fun r hr => (h.spells r hr).elim fun _ hr => dropWhile_unended hr i
  have hlines : ∀ line ∈ rows.map Row.content, Bytes.newline ∉ line := by simpa using hunbroken
  calc unindented (rows.flatMap (Row.text i))
      = Bytes.join Bytes.newline (rows.map Row.content ++ [[]]) := by
        rw [unindented, split_rows i hunbroken, List.map_append, hcontents]
        rfl
    _ = (rows.map Row.content).flatMap (· ++ [Bytes.newline]) := by rw [← Bytes.split_text hlines, Bytes.join_split]
    _ = rows.flatMap fun r => r.content ++ [Bytes.newline] := List.flatMap_map ..

/-- Whatever the indentation, a text of rows scans as what they spell once it is taken off. -/
theorem scan_unindented {rows : List Row} {tokens : List Outline.Token} (h : Spelling rows tokens) (i : Indent) :
    scan (unindented (rows.flatMap (Row.text i))) = some tokens := by
  have hreads := h.reads []
  rw [List.append_nil] at hreads
  rw [h.unindented_text, hreads]
  simp [scan_nil]

/-- The text of rows gives back what they spell. -/
theorem tokens_eq {i : Indent} {ra rb : List Row} {a b : List Outline.Token} (ha : Spelling ra a) (hb : Spelling rb b)
    (h : ra.flatMap (Row.text i) = rb.flatMap (Row.text i)) : a = b := by
  have hscan := ha.scan_unindented i
  rw [h, hb.scan_unindented] at hscan
  exact (Option.some.inj hscan).symm

end Outline.Spelling
end ProtoRecovery
