import ProtoRecovery.Proofs.Layout.Rows

/-! # Lines of a text: however a text is laid out, each of its pieces is indented and ended -/
namespace ProtoRecovery

/-- What a line starts with at some depth: the width of one level as often as there are levels. -/
def Indent.margin (i : Indent) (d : Nat) : Bytes :=
  (List.replicate (i.width.toNatClampNeg * d) (Utf8.encode i.char)).flatten

theorem Indent.length_margin (i : Indent) (d : Nat) :
    (i.margin d).length = i.width.toNatClampNeg * d * i.char.utf8Size := by
  have hchar : (Utf8.encode i.char).length = i.char.utf8Size := String.length_utf8EncodeChar i.char
  rw [margin, List.length_flatten, List.map_replicate, List.sum_replicate_nat, hchar]

private theorem length_pieces (lead : Bytes) (pieces : List Bytes) :
    (pieces.flatMap fun piece => lead ++ piece ++ [Bytes.newline]).length =
      (pieces.flatMap (· ++ [Bytes.newline])).length + pieces.length * lead.length := by
  induction pieces with
  | nil => simp
  | cons piece pieces ih =>
    simp only [List.flatMap_cons, List.length_append, List.length_cons, Nat.succ_mul, ih]
    omega

namespace Writer

/-- How deep a writer stands, where its level is not negative. -/
def depth (w : Writer) : Nat := w.level.toNatClampNeg

theorem level_eq_ofNat {w : Writer} (h : 0 ≤ w.level) : w.level = Int64.ofNat w.depth :=
  (w.level.ofNat_toNatClampNeg h).symm

theorem padding_of_level_zero {w : Writer} (h : w.level = 0) : w.padding = [] := by
  have hzero : (w.indent.width * w.level).toNatClampNeg = 0 := by
    rw [h, Int64.mul_zero]
    rfl
  rw [padding, hzero, List.replicate_zero, List.flatten_nil]

theorem padding_eq_margin {w : Writer} (hl : 0 ≤ w.level)
    (hwide : w.indent.width.toNatClampNeg * w.depth < 9223372036854775808) : w.padding = w.indent.margin w.depth := by
  have hcount := toNatClampNeg_mul_ofNat w.indent.width_pos hwide
  rw [padding, level_eq_ofNat hl, hcount, Indent.margin]

/-- Whether a text is split or not, it is laid out piece by piece. -/
theorem laidOut_eq_pieces (w : Writer) (t : Bytes) :
    w.laidOut t = (Bytes.split Bytes.newline t).flatMap fun piece => w.padding ++ piece ++ [Bytes.newline] := by
  unfold laidOut
  split
  -- At the outermost level the padding is empty, so that the pieces with their ends are the text with its own.
  case isTrue hlevel => simpa [padding_of_level_zero hlevel] using (Bytes.flatMap_split t).symm
  case isFalse =>
    split
    case isTrue => rfl
    case isFalse hone => simp [Bytes.split_of_notMem hone]

theorem laidOut_of_notMem (w : Writer) {t : Bytes} (h : Bytes.newline ∉ t) :
    w.laidOut t = w.padding ++ t ++ [Bytes.newline] := by
  rw [laidOut_eq_pieces, Bytes.split_of_notMem h, List.flatMap_singleton]

theorem laidOut_append (w : Writer) (a b : Bytes) :
    w.laidOut (a ++ Bytes.newline :: b) = w.laidOut a ++ w.laidOut b := by
  simp only [laidOut_eq_pieces, Bytes.split_append, List.flatMap_append]

theorem length_laidOut (w : Writer) (t : Bytes) :
    (w.laidOut t).length = t.length + 1 + (Bytes.split Bytes.newline t).length * w.padding.length := by
  rw [laidOut_eq_pieces, length_pieces, Bytes.flatMap_split, List.length_append, List.length_singleton]

/-- Two texts that are joined by a line break are written as one after the other. -/
theorem line_line {w : Writer} (h : w.writable = true) (a b : Bytes) :
    w.line (a ++ Bytes.newline :: b) = (w.line a).line b := by
  have hnext : (w.append (w.laidOut a)).writable = true := h
  rw [line_of_writable h, line_of_writable h, line_of_writable hnext, append_append, laidOut_append]
  rfl

/-- As long as text may be added, the level is not negative and no padding is too wide, a text adds exactly its
pieces, each one indented and ended, and changes nothing else; a text with a line break is written as the part before
it and then the part after it; and the length grows by that of the text, one for its end, and the width of the
padding for each piece. -/
theorem line_adds_pieces {w : Writer} (hw : w.writable = true) (hl : 0 ≤ w.level)
    (hwide : w.indent.width.toNatClampNeg * w.depth < 9223372036854775808) :
    (∀ t, w.line t = w.append ((Bytes.split Bytes.newline t).flatMap fun piece =>
      w.indent.margin w.depth ++ piece ++ [Bytes.newline])) ∧
    (∀ a b, w.line (a ++ Bytes.newline :: b) = (w.line a).line b) ∧
    ∀ t, (w.line t).length = w.length + t.length + 1 +
      (Bytes.split Bytes.newline t).length * (w.indent.width.toNatClampNeg * w.depth * w.indent.char.utf8Size) := by
  have hpadding := padding_eq_margin hl hwide
  refine ⟨fun t => ?_, line_line hw, fun t => ?_⟩
  · rw [line_of_writable hw, laidOut_eq_pieces, hpadding]
  · have hlength := length_laidOut w t
    rw [hpadding, Indent.length_margin] at hlength
    rw [line_of_writable hw, length_eq, length_eq, text_append, List.length_append, hlength]
    omega

/-- Two levels of three wide blanks each, after a line of text. -/
private def ribbon : Writer :=
  { indent := { char := '\u3000', width := 3 }, written := (utf8 "x\n").reverse, level := 2 }

theorem line_adds_pieces_ribbon : ribbon.writable = true ∧ 0 ≤ ribbon.level ∧
    ribbon.indent.width.toNatClampNeg * ribbon.depth < 9223372036854775808 ∧
    (ribbon.line (utf8 "a\n\nb\n")).text = utf8 "x\n　　　　　　a\n　　　　　　\n　　　　　　b\n　　　　　　\n" ∧
    ribbon.line (utf8 "a\n\nb\n") = ((ribbon.line (utf8 "a")).line (utf8 "")).line (utf8 "b\n") ∧
    (ribbon.line (utf8 "a\n\nb\n")).length = 80 := by
  have hw : ribbon.writable = true := by decide
  have hl : 0 ≤ ribbon.level := by decide
  have hwide : ribbon.indent.width.toNatClampNeg * ribbon.depth < 9223372036854775808 := by decide
  obtain ⟨hadds, hjoins, hlength⟩ := line_adds_pieces hw hl hwide
  refine ⟨hw, hl, hwide, ?_, ?_, ?_⟩
  · rw [hadds, text_append]
    decide
  · have hfirst := hjoins (utf8 "a") (utf8 "\nb\n")
    have hsecond := line_line (w := ribbon.line (utf8 "a")) (by decide) (utf8 "") (utf8 "b\n")
    exact hfirst.trans hsecond
  · rw [hlength]
    decide

end Writer
end ProtoRecovery
