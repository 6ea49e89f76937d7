import Mathlib.Data.List.Induction
import ProtoRecovery.Proofs.Layout.Levels
import ProtoRecovery.Proofs.Layout.Lines

/-! # Nesting: the lines that open and close blocks match, and each pair stands at one depth -/
namespace ProtoRecovery.Writer

/-- Calls that write a line, or open or close a block. -/
def Op.builds : Op → Bool
  | .line _ | .openBlock | .closeBlock => true
  | _ => false

/-- What a call adds to the text. -/
def added (w : Writer) (op : Op) : Bytes := (w.apply op).text.drop w.text.length

/-- The line of a call, if the call is there for a block and adds one. -/
def blockLine (w : Writer) (op : Op) : List (Op × Bytes) :=
  if (op = .openBlock ∨ op = .closeBlock) ∧ w.added op ≠ [] then [(op, w.added op)] else []

/-- The lines that calls add to open and close blocks, each with its call. -/
def blockLines : Writer → List Op → List (Op × Bytes)
  | _, [] => []
  | w, op :: ops => w.blockLine op ++ blockLines (w.apply op) ops

/-- What stands before every line at some depth. -/
def lead (i : Indent) (d : Nat) : Bytes := ({ indent := i, level := Int64.ofNat d } : Writer).padding

/-- The line that opens a block at some depth. -/
def opened (i : Indent) (d : Nat) : Op × Bytes := (.openBlock, lead i d ++ utf8 "\x7b" ++ [Bytes.newline])

/-- The line that closes it. -/
def closed (i : Indent) (d : Nat) : Op × Bytes := (.closeBlock, lead i d ++ utf8 "\x7d" ++ [Bytes.newline])

/-- Lines of blocks that are all closed again: each one stands between two lines with one lead, and what is inside stands
one level deeper. -/
inductive Nested (i : Indent) : Nat → List (Op × Bytes) → Prop
  | nil (d : Nat) : Nested i d []
  | block {d inside rest} : Nested i (d + 1) inside → Nested i d rest →
      Nested i d (opened i d :: inside ++ closed i d :: rest)

/-- Lines of blocks of which some are still open, one for each level. -/
inductive Pending (i : Indent) : Nat → List (Op × Bytes) → Prop
  | none {lines} : Nested i 0 lines → Pending i 0 lines
  | more {d lines inside} : Pending i d lines → Nested i (d + 1) inside → Pending i (d + 1) (lines ++ opened i d :: inside)

section
variable {i : Indent} {d : Nat} {a b : List (Op × Bytes)}

theorem Nested.append (ha : Nested i d a) (hb : Nested i d b) : Nested i d (a ++ b) := by
  induction ha with
  | nil => exact hb
  | @block d inside rest hinside _ _ ih =>
    have hblock := Nested.block hinside (ih hb)
    simpa only [List.cons_append, List.append_assoc] using hblock

theorem Pending.append (ha : Pending i d a) (hb : Nested i d b) : Pending i d (a ++ b) := by
  cases ha with
  | none ha => exact .none (ha.append hb)
  | more ha hinside =>
    rw [List.append_assoc, List.cons_append]
    exact .more ha (hinside.append hb)

theorem Pending.opening (h : Pending i d a) : Pending i (d + 1) (a ++ [opened i d]) := .more h (.nil (d + 1))

/-- The last block that is open is the one to be closed. -/
theorem Pending.closing (h : Pending i (d + 1) a) : Pending i d (a ++ [closed i d]) := by
  cases h with
  | @more _ lines inside hlines hinside =>
    have hblock : Nested i d (opened i d :: inside ++ closed i d :: []) := .block hinside (.nil d)
    simpa only [List.append_assoc] using hlines.append hblock

theorem Pending.nested (h : Pending i 0 a) : Nested i 0 a := by
  cases h with
  | none h => exact h

end

/-- As many lines open a block as close one. -/
theorem Nested.count {i : Indent} {d : Nat} {lines : List (Op × Bytes)} (h : Nested i d lines) :
    lines.countP (·.1 = .openBlock) = lines.countP (·.1 = .closeBlock) := by
  induction h with
  | nil => rfl
  | block _ _ ih ih' =>
    simp only [List.cons_append, List.countP_cons, List.countP_append, ih, ih', opened, closed]
    simp
    omega

theorem blockLines_append (w : Writer) (a b : List Op) :
    w.blockLines (a ++ b) = w.blockLines a ++ (w.run a).blockLines b := by
  induction a generalizing w with
  | nil => rfl
  | cons op a ih =>
    have hstep := ih (w.apply op)
    rw [List.cons_append, blockLines, blockLines, hstep, List.append_assoc]
    rfl

theorem blockLines_concat (w : Writer) (ops : List Op) (op : Op) :
    w.blockLines (ops ++ [op]) = w.blockLines ops ++ (w.run ops).blockLine op := by
  rw [blockLines_append, blockLines, blockLines, List.append_nil]

theorem added_of_text {w : Writer} {op : Op} {t : Bytes} (h : (w.apply op).text = w.text ++ t) : w.added op = t := by
  rw [added, h, List.drop_left]

theorem blockLine_of_not_writable {w : Writer} (h : w.writable = false) (op : Op) : w.blockLine op = [] := by
  have htext : (w.apply op).text = w.text ++ [] := by
    rw [List.append_nil]
    exact (change_apply w op).text_of_not_writable h
  rw [blockLine, if_neg (by simp [added_of_text htext])]

section
variable {w : Writer} {d : Nat} (hw : w.writable = true)
include hw

theorem blockLine_openBlock (hl : w.level = Int64.ofNat d) : w.blockLine .openBlock = [opened w.indent d] := by
  have hpadding : w.padding = lead w.indent d := by rw [padding, hl, lead, padding]
  have htext : (w.apply .openBlock).text = w.text ++ (opened w.indent d).2 := by
    show (w.line (utf8 "\x7b")).text = _
    rw [line_of_writable hw, text_append, laidOut_of_notMem w (by decide), hpadding, opened]
  rw [blockLine, added_of_text htext, if_pos ⟨.inl rfl, by simp [opened]⟩]
  rfl

theorem closeBlock_inside (hl : w.level = Int64.ofNat (d + 1)) (hd : d < Row.depthLimit) :
    w.closeBlock = { w with level := Int64.ofNat d }.append (closed w.indent d).2 := by
  rcases closeBlock_cases hw hl with h | ⟨-, hle⟩
  · rw [h, Row.closing, Row.text, laidOut_of_notMem _ (by decide)]
    rfl
  · exact absurd hd (Nat.not_lt.2 hle)

theorem blockLine_closeBlock (hl : w.level = Int64.ofNat (d + 1)) (hd : d < Row.depthLimit) :
    w.blockLine .closeBlock = [closed w.indent d] := by
  have htext : (w.apply .closeBlock).text = w.text ++ (closed w.indent d).2 := by
    show w.closeBlock.text = _
    rw [closeBlock_inside hw hl hd, text_append]
    rfl
  rw [blockLine, added_of_text htext, if_pos ⟨.inr rfl, by simp [closed]⟩]
  rfl

end

/-- Calls to a new writer that have left so many blocks open: text may still be added, and each block that was opened has
its line. -/
structure Going (i : Indent) (ops : List Op) (d : Nat) : Prop where
  writable : (run { indent := i } ops).writable = true
  level : (run { indent := i } ops).level = Int64.ofNat d
  depth : d + ops.count .closeBlock = ops.count .openBlock
  lines : Pending i d (blockLines { indent := i } ops)
  all : (blockLines { indent := i } ops).countP (·.1 = .openBlock) = ops.count .openBlock

/-- Calls to a new writer of which one was to close a block while none was open: no text is added any more. -/
structure Stopped (i : Indent) (ops : List Op) : Prop where
  writable : (run { indent := i } ops).writable = false
  mem : Op.closeBlock ∈ ops
  lines : Nested i 0 (blockLines { indent := i } ops)

section
variable {i : Indent} {ops : List Op} {d : Nat}

theorem Going.nil : Going i [] 0 := ⟨rfl, rfl, rfl, .none (.nil 0), rfl⟩

theorem Going.line (h : Going i ops d) (t : Bytes) : Going i (ops ++ [.line t]) d := by
  have hrun : run { indent := i } (ops ++ [.line t]) =
      (run { indent := i } ops).append ((run { indent := i } ops).laidOut t) := by
    rw [run_concat, apply, line_of_writable h.writable]
  have hlines : blockLines { indent := i } (ops ++ [.line t]) = blockLines { indent := i } ops := by
    rw [blockLines_concat, blockLine, if_neg (by simp), List.append_nil]
  refine ⟨by rw [hrun]; exact h.writable, by rw [hrun]; exact h.level, ?_, by rw [hlines]; exact h.lines, ?_⟩
  · simpa [List.count_append] using h.depth
  · simpa [hlines, List.count_append] using h.all

theorem Going.openBlock (h : Going i ops d) : Going i (ops ++ [.openBlock]) (d + 1) := by
  have hrun : run { indent := i } (ops ++ [.openBlock]) =
      ((run { indent := i } ops).append ((run { indent := i } ops).laidOut (utf8 "\x7b"))).deeper := by
    rw [run_concat, apply, Writer.openBlock, line_of_writable h.writable]
  have hlines : blockLines { indent := i } (ops ++ [.openBlock]) = blockLines { indent := i } ops ++ [opened i d] := by
    rw [blockLines_concat, blockLine_openBlock h.writable h.level, run_indent]
  refine ⟨by rw [hrun]; exact h.writable, ?_, ?_, by rw [hlines]; exact h.lines.opening, ?_⟩
  · rw [run_concat, level_rises _ rfl, h.level, Int64.ofNat_add]
    rfl
  · have hdepth := h.depth
    simp [List.count_append]
    omega
  · simp [hlines, List.countP_append, h.all, List.count_append, opened]

theorem Going.closeBlock (h : Going i ops (d + 1)) (hd : d < Row.depthLimit) : Going i (ops ++ [.closeBlock]) d := by
  have hrun : run { indent := i } (ops ++ [.closeBlock]) =
      { run { indent := i } ops with level := Int64.ofNat d }.append (closed (run { indent := i } ops).indent d).2 := by
    rw [run_concat, apply, closeBlock_inside h.writable h.level hd]
  have hlines : blockLines { indent := i } (ops ++ [.closeBlock]) = blockLines { indent := i } ops ++ [closed i d] := by
    rw [blockLines_concat, blockLine_closeBlock h.writable h.level hd, run_indent]
  refine ⟨by rw [hrun]; exact h.writable, by rw [hrun]; rfl, ?_, by rw [hlines]; exact h.lines.closing, ?_⟩
  · have hdepth := h.depth
    simp [List.count_append]
    omega
  · simp [hlines, List.countP_append, h.all, List.count_append, closed]

/-- Where no block is open, the call to close one records an error and adds nothing. -/
theorem Going.stops (h : Going i ops 0) : Stopped i (ops ++ [.closeBlock]) := by
  have hfail : (run { indent := i } ops).apply .closeBlock = (run { indent := i } ops).fail .unopened := if_pos h.level
  refine ⟨?_, by simp, ?_⟩
  · rw [run_concat, hfail]
    exact not_writable_iff.2 (.inr (by simp [fail]))
  · have htext : ((run { indent := i } ops).apply .closeBlock).text = (run { indent := i } ops).text ++ [] := by
      rw [hfail, List.append_nil]
      rfl
    rw [blockLines_concat, blockLine, added_of_text htext, if_neg (by simp), List.append_nil]
    exact h.lines.nested

theorem Stopped.concat (h : Stopped i ops) (op : Op) : Stopped i (ops ++ [op]) := by
  refine ⟨?_, List.mem_append_left _ h.mem, ?_⟩
  · rw [run_concat]
    exact (run_of_not_writable h.writable [op]).1
  · rw [blockLines_concat, blockLine_of_not_writable h.writable, List.append_nil]
    exact h.lines

/-- Calls that build go on or have stopped, as long as 64 bits can count the blocks. -/
theorem going_or_stopped (hops : ∀ op ∈ ops, op.builds = true) (hn : ops.count .openBlock < Row.depthLimit) :
    (∃ d, Going i ops d) ∨ Stopped i ops := by
  induction ops using List.reverseRecOn with
  | nil => exact .inl ⟨0, .nil⟩
  | append_singleton ops op ih =>
    have hbefore : ops.count .openBlock < Row.depthLimit := by
      rw [List.count_append] at hn
      omega
    rcases ih (fun o ho => hops o (List.mem_append_left _ ho)) hbefore with ⟨d, h⟩ | h
    · have hop := hops op (by simp)
      cases op with
      | line t => exact .inl ⟨d, h.line t⟩
      | openBlock => exact .inl ⟨d + 1, h.openBlock⟩
      | closeBlock =>
        -- Closing stops the writer only where no block is open, and then all lines match already.
        cases d with
        | zero => exact .inr h.stops
        | succ d =>
          have hdepth := h.depth
          exact .inl ⟨d, h.closeBlock (by omega)⟩
      | blank | blanks | closeAll | deeper | shallower | setLevel | freeze => simp [Op.builds] at hop
    · exact .inr (h.concat op)

end
end ProtoRecovery.Writer
