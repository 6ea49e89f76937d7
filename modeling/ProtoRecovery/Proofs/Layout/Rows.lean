import ProtoRecovery.Layout.Writer
import ProtoRecovery.Proofs.Text.Splitting

/-! # Rows: the lines that balanced calls add to a text -/
namespace ProtoRecovery

/-- An empty line, or a line by its depth and its content. -/
inductive Row | empty | line (depth : Nat) (content : Bytes) deriving DecidableEq, Repr

namespace Row

/-- Levels are counted in 64 bits; from this depth on they are negative. -/
abbrev depthLimit : Nat := 9223372036854775808

def depth : Row → Nat
  | empty => 0
  | line d _ => d

def content : Row → Bytes
  | empty => []
  | line _ t => t

/-- The bytes of a row under given settings. -/
def text (i : Indent) : Row → Bytes
  | empty => [Bytes.newline]
  | line d t => ({ indent := i, level := Int64.ofNat d } : Writer).laidOut t

/-- The line that closes a block. -/
def closing (d : Nat) : Row := line d (utf8 "\x7d")

/-- What stands before a row. -/
def padding (i : Indent) : Row → Bytes
  | empty => []
  | line d _ => (List.replicate (i.width * Int64.ofNat d).toNatClampNeg (Utf8.encode i.char)).flatten

end Row

/-- Without overflow, the width of the padding is that of one level as often as there are levels. -/
theorem toNatClampNeg_mul_ofNat {w : Int64} (hw : 0 < w) {d : Nat}
    (h : w.toNatClampNeg * d < 9223372036854775808) :
    (w * Int64.ofNat d).toNatClampNeg = w.toNatClampNeg * d := by
  have hof : Int64.ofNat w.toNatClampNeg = w := w.ofNat_toNatClampNeg (Int64.le_of_lt hw)
  have hmul : w * Int64.ofNat d = Int64.ofNat (w.toNatClampNeg * d) := by rw [Int64.ofNat_mul, hof]
  rw [hmul]
  exact Int64.toNatClampNeg_ofNat_of_lt h

/-- A row without a line break of its own is one line. -/
theorem Row.text_of_notMem {r : Row} (h : Bytes.newline ∉ r.content) (i : Indent) :
    r.text i = r.padding i ++ r.content ++ [Bytes.newline] := by
  cases r with
  | empty => rfl
  | line d t =>
    have ht : Bytes.newline ∉ t := h
    by_cases hd : Int64.ofNat d = 0
    · simp [text, padding, content, Writer.laidOut, hd]
    · simp [text, padding, content, Writer.laidOut, Writer.padding, hd, ht]

namespace Writer

@[simp] theorem append_level (w : Writer) (t : Bytes) : (w.append t).level = w.level := rfl

theorem append_append (w : Writer) (s t : Bytes) : (w.append s).append t = w.append (s ++ t) := by
  simp [append, List.reverseAux_eq]

theorem run_append (w : Writer) (a b : List Op) : w.run (a ++ b) = (w.run a).run b :=
  List.foldl_append

theorem run_concat (w : Writer) (ops : List Op) (op : Op) : w.run (ops ++ [op]) = (w.run ops).apply op :=
  List.foldl_concat ..

theorem error_of_writable {w : Writer} (h : w.writable = true) : w.error = none := by
  simp only [writable, Bool.and_eq_true, Option.isNone_iff_eq_none] at h
  exact h.2

theorem laidOut_eq_text {w : Writer} {d : Nat} (hl : w.level = Int64.ofNat d) (t : Bytes) :
    w.laidOut t = Row.text w.indent (.line d t) := by
  simp [Row.text, laidOut, padding, hl]

theorem line_of_writable {w : Writer} (h : w.writable = true) (t : Bytes) :
    w.line t = w.append (w.laidOut t) := by
  simp [line, h]

theorem blank_of_writable {w : Writer} (h : w.writable = true) : w.blank = w.append [Bytes.newline] := by
  have hn : ¬(1 : Int64) ≤ 0 := by decide
  have hc : (1 : Int64).toNatClampNeg = 1 := by decide
  simp [blank, blanks, h, hn, hc]

theorem fail_error {w : Writer} {e : LayoutError} (h : w.error = some e) (e' : LayoutError) :
    (w.fail e').error = some e := by
  simp [fail, h]

theorem refuse_error {w : Writer} {e : LayoutError} (h : w.error = some e) : w.refuse.error = some e := by
  unfold refuse
  split
  · exact fail_error h _
  · exact h

theorem line_error {w : Writer} {e : LayoutError} (h : w.error = some e) (t : Bytes) :
    (w.line t).error = some e := by
  have hw : w.writable = false := by simp [writable, h]
  simpa [line, hw] using refuse_error h

theorem blanks_error {w : Writer} {e : LayoutError} (h : w.error = some e) (n : Int64) :
    (w.blanks n).error = some e := by
  have hw : w.writable = false := by simp [writable, h]
  unfold blanks
  split
  · exact h
  · simpa [hw] using refuse_error h

theorem shallower_error {w : Writer} {e : LayoutError} (h : w.error = some e) :
    w.shallower.error = some e := by
  unfold shallower setLevel
  split
  case h_1 w' hs =>
    split at hs
    · cases hs
    · cases hs
      exact h
  case h_2 => exact fail_error h _

theorem closeBlock_error {w : Writer} {e : LayoutError} (h : w.error = some e) :
    w.closeBlock.error = some e := by
  unfold closeBlock
  split
  · exact fail_error h _
  · exact line_error (shallower_error h) _

theorem closeUpTo_of_error {w : Writer} {e : LayoutError} (h : w.error = some e) (n : Nat) :
    closeUpTo n w = w := by
  cases n <;> simp [closeUpTo, h]

/-- The first error stays, whatever is called. -/
theorem apply_error {w : Writer} {e : LayoutError} (h : w.error = some e) (op : Op) :
    (w.apply op).error = some e := by
  cases op with
  | line t => exact line_error h t
  | blank => exact blanks_error h 1
  | blanks n => exact blanks_error h n
  | openBlock => exact line_error h _
  | closeBlock => exact closeBlock_error h
  | closeAll => simpa [apply, closeAll, closeUpTo_of_error h] using h
  | deeper => exact h
  | shallower => exact shallower_error h
  | setLevel n =>
    by_cases hn : n < 0 <;> simpa [apply, setLevel, hn, Except.toOption] using h
  | freeze => exact h

theorem run_error {w : Writer} {e : LayoutError} (h : w.error = some e) (ops : List Op) :
    (w.run ops).error = some e := by
  induction ops generalizing w with
  | nil => exact h
  | cons op ops ih => exact ih (apply_error h op)

/-- What calls do to a writer at some depth: they add rows and leave all else as it was, unless one
of the rows is too deep and an error is recorded. -/
def Lays (d : Nat) (ops : List Op) (rows : List Row) : Prop :=
  ∀ w : Writer, w.writable = true → w.level = Int64.ofNat d →
    w.run ops = w.append (rows.flatMap (Row.text w.indent)) ∨
      (∃ e, (w.run ops).error = some e) ∧ ∃ r ∈ rows, Row.depthLimit ≤ r.depth

theorem Lays.nil (d : Nat) : Lays d [] [] := fun _ _ _ => .inl rfl

theorem Lays.append {d : Nat} {a b : List Op} {ra rb : List Row} (ha : Lays d a ra) (hb : Lays d b rb) :
    Lays d (a ++ b) (ra ++ rb) := by
  intro w hw hl
  rw [run_append]
  rcases ha w hw hl with h | ⟨⟨e, he⟩, r, hr, hd⟩
  · rw [h]
    rcases hb (w.append (ra.flatMap (Row.text w.indent))) hw hl with h' | ⟨he, r, hr, hd⟩
    · left
      rw [h', append_append, List.flatMap_append]
      rfl
    · exact .inr ⟨he, r, List.mem_append_right _ hr, hd⟩
  · exact .inr ⟨⟨e, run_error he b⟩, r, List.mem_append_left _ hr, hd⟩

theorem Lays.line (d : Nat) (t : Bytes) : Lays d [.line t] [.line d t] := by
  intro w hw hl
  left
  simp [run, apply, line_of_writable hw, laidOut_eq_text hl]

theorem Lays.blank (d : Nat) : Lays d [.blank] [.empty] := by
  intro w hw _
  left
  simp [run, apply, blank_of_writable hw, Row.text]

theorem Lays.flatMap {α : Type} {d : Nat} {ops : α → List Op} {rows : α → List Row} {xs : List α}
    (h : ∀ x ∈ xs, Lays d (ops x) (rows x)) : Lays d (xs.flatMap ops) (xs.flatMap rows) := by
  induction xs with
  | nil => exact .nil d
  | cons x xs ih =>
    have hx := h x List.mem_cons_self
    have hxs := ih fun y hy => h y (List.mem_cons_of_mem x hy)
    simpa only [List.flatMap_cons] using hx.append hxs

private theorem depthLimit_le_of_neg {d : Nat} (h : Int64.ofNat d < 0) : Row.depthLimit ≤ d := by
  by_contra hd
  have := Int64.zero_le_ofNat_of_lt (a := d) (by simpa using hd)
  exact absurd h (Int64.not_lt.2 this)

private theorem depthLimit_le_of_succ_eq_zero {d : Nat} (h : Int64.ofNat (d + 1) = 0) :
    Row.depthLimit ≤ d := by
  have hm := congrArg Int64.toInt h
  rw [Int64.toInt_ofNat'] at hm
  have hdvd := Int.dvd_of_bmod_eq_zero (hm.trans Int64.toInt_zero)
  have hsize : Int64.size = 18446744073709551616 := rfl
  rw [hsize] at hdvd
  show 9223372036854775808 ≤ d
  omega

/-- Closing a block writes the brace one level up, unless that level is out of range. -/
theorem closeBlock_cases {w : Writer} {d : Nat} (hw : w.writable = true)
    (hl : w.level = Int64.ofNat (d + 1)) :
    w.closeBlock = { w with level := Int64.ofNat d }.append (Row.text w.indent (Row.closing d)) ∨
      (∃ e, w.closeBlock.error = some e) ∧ Row.depthLimit ≤ d := by
  have he := error_of_writable hw
  by_cases hz : w.level = 0
  · exact .inr ⟨⟨.unopened, by simp [closeBlock, hz, fail, he]⟩, depthLimit_le_of_succ_eq_zero (hl ▸ hz)⟩
  have hc : w.closeBlock = w.shallower.line (utf8 "\x7d") := by simp [closeBlock, hz]
  have hsub : w.level - 1 = Int64.ofNat d := by
    rw [hl, Int64.ofNat_add]
    exact Int64.add_sub_cancel _ _
  rw [hc]
  by_cases hn : Int64.ofNat d < 0
  · right
    have hs : w.shallower.error = some (.badLevel (Int64.ofNat d)) := by
      simp [shallower, setLevel, hsub, hn, fail, he]
    exact ⟨⟨_, line_error hs _⟩, depthLimit_le_of_neg hn⟩
  · left
    have hs : w.shallower = { w with level := Int64.ofNat d } := by
      simp [shallower, setLevel, hsub, hn]
    rw [hs]
    exact line_of_writable (w := { w with level := Int64.ofNat d }) hw _

/-- A block: its head, its rows one level deeper, and the closing brace. -/
theorem Lays.block {d : Nat} {content : List Op} {rows : List Row} (head : Bytes)
    (h : Lays (d + 1) content rows) :
    Lays d (.line head :: .deeper :: content ++ [.closeBlock])
      (.line d head :: rows ++ [Row.closing d]) := by
  intro w hw hl
  set start := (w.append (Row.text w.indent (.line d head))).deeper with hstart
  have hrun : w.run (.line head :: .deeper :: content ++ [.closeBlock]) =
      (start.run content).closeBlock := by
    simp [run, apply, line_of_writable hw, laidOut_eq_text hl, hstart]
  have hlevel : start.level = Int64.ofNat (d + 1) := by simp [hstart, deeper, hl]
  rw [hrun]
  rcases h start hw hlevel with hc | ⟨⟨e, he⟩, r, hr, hd⟩
  · rw [hc]
    rcases closeBlock_cases (w := start.append _) hw hlevel with hb | ⟨he, hd⟩
    · left
      rw [hb]
      simp [hstart, Writer.append, deeper, ← hl, List.reverseAux_eq]
    · exact .inr ⟨he, Row.closing d, by simp, hd⟩
  · exact .inr ⟨⟨e, closeBlock_error he⟩, r, by simp [hr], hd⟩

end Writer
end ProtoRecovery
