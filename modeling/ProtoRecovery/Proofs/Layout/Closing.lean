import Mathlib.Logic.Function.Iterate
import ProtoRecovery.Proofs.Layout.Nesting

/-! # Closing all blocks: when it stops, what it writes, and that it leaves no block open -/
namespace ProtoRecovery.Writer

/-- Whether another block is to be closed: one is open, and there is no error. -/
def unfinished (w : Writer) : Bool := 0 < w.level && w.error.isNone

theorem unfinished_iff {w : Writer} : w.unfinished = true ↔ 0 < w.level ∧ w.error = none := by
  simp [unfinished]

theorem closeUpTo_succ (n : Nat) (w : Writer) :
    closeUpTo (n + 1) w = if w.unfinished = true then closeUpTo n w.closeBlock else w := rfl

theorem depth_eq_zero {w : Writer} (h : w.level ≤ 0) : w.depth = 0 :=
  Int64.toNatClampNeg_eq_zero_iff.2 h

theorem depth_of_pos {w v : Writer} (h : 0 < w.level) (hv : v.level = w.level - 1) : w.depth = v.depth + 1 := by
  have hpos : 0 < w.level.toInt := Int64.lt_iff_toInt_lt.1 h
  have hlt : w.level.toInt < 9223372036854775808 := w.level.toInt_lt
  have hsub : v.level.toInt = w.level.toInt - 1 := by
    rw [hv, Int64.toInt_sub, show (1 : Int64).toInt = 1 from rfl]
    exact Int.bmod_eq_of_le (by omega) (by omega)
  show w.level.toInt.toNat = v.level.toInt.toNat + 1
  omega

theorem closeBlock_level {w : Writer} (h : 0 < w.level) : w.closeBlock.level = w.level - 1 := by
  rw [closeBlock_of_pos h, level_line]

theorem ofNat_pos {d : Nat} (hd : 0 < d) (h : d < Row.depthLimit) : 0 < Int64.ofNat d := by
  rw [Int64.lt_iff_toInt_lt, Int64.toInt_ofNat_of_lt h, Int64.toInt_zero]
  omega

/-- A bounded closing is some rounds of the loop. -/
theorem closeUpTo_rounds (n : Nat) (w : Writer) :
    ∃ k ≤ n, closeUpTo n w = closeBlock^[k] w ∧ ∀ j < k, (closeBlock^[j] w).unfinished = true := by
  induction n generalizing w with
  | zero => exact ⟨0, Nat.le_refl 0, rfl, by simp⟩
  | succ n ih =>
    by_cases h : w.unfinished = true
    · obtain ⟨k, hk, heq, hrounds⟩ := ih w.closeBlock
      refine ⟨k + 1, Nat.succ_le_succ hk, ?_, ?_⟩
      · rw [closeUpTo_succ, if_pos h, heq, Function.iterate_succ_apply]
      · intro j hj
        cases j with
        | zero => exact h
        | succ j =>
          rw [Function.iterate_succ_apply]
          exact hrounds j (Nat.lt_of_succ_lt_succ hj)
    · exact ⟨0, Nat.zero_le _, if_neg h, by simp⟩

/-- Each round goes one level up, so as many rounds as there are levels are enough. -/
theorem closeUpTo_finished {n : Nat} {w : Writer} (h : w.depth ≤ n) : (closeUpTo n w).unfinished = false := by
  induction n generalizing w with
  | zero =>
    rw [closeUpTo, Bool.eq_false_iff, Ne, unfinished_iff]
    rintro ⟨hpos, -⟩
    have hdepth := depth_of_pos (v := { w with level := w.level - 1 }) hpos rfl
    omega
  | succ n ih =>
    by_cases hw : w.unfinished = true
    · rw [closeUpTo_succ, if_pos hw]
      have hpos := (unfinished_iff.1 hw).1
      have hdepth := depth_of_pos hpos (closeBlock_level hpos)
      exact ih (by omega)
    · rw [closeUpTo_succ, if_neg hw]
      simpa using hw

theorem closeAll_of_idle {w : Writer} (h : w.error ≠ none ∨ w.level ≤ 0) : w.closeAll = w := by
  rcases h with h | h
  · obtain ⟨e, he⟩ := Option.ne_none_iff_exists'.1 h
    exact closeUpTo_of_error he _
  · have hdepth : w.level.toNatClampNeg = 0 := depth_eq_zero h
    rw [closeAll, hdepth, closeUpTo]

theorem closeAll_of_frozen {w : Writer} (hf : w.frozen = true) (he : w.error = none) (h : 0 < w.level) :
    w.closeAll = { w.fail .frozen with level := w.level - 1 } := by
  have hdepth : w.level.toNatClampNeg = _ := depth_of_pos (v := { w with level := w.level - 1 }) h rfl
  rw [closeAll, hdepth, closeUpTo_of_frozen hf he h]

/-- As long as text may be added, closing writes the closing lines from the innermost block to the outermost. -/
theorem closeUpTo_lines {w : Writer} {n : Nat} (hw : w.writable = true) (hl : w.level = Int64.ofNat n)
    (hn : n < Row.depthLimit) : closeUpTo n w =
      { w.append ((List.range n).reverse.flatMap fun d => (closed w.indent d).2) with level := 0 } := by
  induction n generalizing w with
  | zero =>
    have hsame : { w with level := 0 } = w := by rw [show (0 : Int64) = w.level from hl.symm]
    exact hsame.symm
  | succ n ih =>
    have herror := error_of_writable hw
    have hpos : 0 < w.level := by
      rw [hl]
      exact ofNat_pos (Nat.succ_pos n) hn
    have hclose := closeBlock_inside hw hl (by omega)
    -- The first round closes the innermost block, and the rest is the same one level up.
    have hrest := ih (w := w.closeBlock) (by rw [hclose]; exact hw) (by rw [hclose]; rfl) (by omega)
    rw [closeUpTo_succ, if_pos (unfinished_iff.2 ⟨hpos, herror⟩), hrest, hclose, append_append, List.range_succ,
      List.reverse_append]
    rfl

theorem lead_eq_margin {i : Indent} {d : Nat} (h : i.width.toNatClampNeg * d < 9223372036854775808) :
    lead i d = i.margin d := by
  rw [lead, padding, toNatClampNeg_mul_ofNat i.width_pos h, Indent.margin]

theorem closeAll_of_writable {w : Writer} (hw : w.writable = true) (hl : 0 ≤ w.level)
    (hwide : w.indent.width.toNatClampNeg * w.depth < 9223372036854775808) : w.closeAll =
      { w.append ((List.range w.depth).reverse.flatMap fun d => w.indent.margin d ++ utf8 "\x7d" ++ [Bytes.newline]) with
        level := 0 } := by
  have hdepth : w.depth < Row.depthLimit := by
    have hpos : 0 < w.indent.width.toNatClampNeg := (Int64.toNatClampNeg_pos_iff _).2 w.indent.width_pos
    exact Nat.lt_of_le_of_lt (Nat.le_mul_of_pos_left _ hpos) hwide
  have hlines : (List.range w.depth).reverse.flatMap (fun d => (closed w.indent d).2) =
      (List.range w.depth).reverse.flatMap fun d => w.indent.margin d ++ utf8 "\x7d" ++ [Bytes.newline] := by
    refine List.flatMap_congr fun d hd => ?_
    have hlt : d < w.depth := List.mem_range.1 (List.mem_reverse.1 hd)
    rw [closed, lead_eq_margin (Nat.lt_of_le_of_lt (Nat.mul_le_mul_left _ (Nat.le_of_lt hlt)) hwide)]
  rw [closeAll, ← hlines]
  exact closeUpTo_lines hw (level_eq_ofNat hl) hdepth

/-- Closing blocks while text may be added makes no error. -/
theorem writable_closeAll {w : Writer} (h : w.writable = true) : w.closeAll.writable = true := by
  obtain ⟨t, m, hclosed⟩ := closeUpTo_of_writable h w.level.toNatClampNeg
  rw [closeAll, hclosed]
  exact h

theorem run_closeBlocks (w : Writer) (k : Nat) : w.run (List.replicate k .closeBlock) = closeBlock^[k] w := by
  induction k generalizing w with
  | zero => rfl
  | succ k ih =>
    rw [List.replicate_succ, Function.iterate_succ_apply, ← ih]
    rfl

/-- Where no block is to be closed any more, none is open. -/
theorem Going.depth_eq_zero {i : Indent} {ops : List Op} {d : Nat} (h : Going i ops d)
    (hn : ops.count .openBlock < Row.depthLimit) (hend : (run { indent := i } ops).unfinished = false) : d = 0 := by
  by_contra hne
  have hlimit : d < Row.depthLimit := by
    have hdepth := h.depth
    omega
  have hpos : 0 < (run { indent := i } ops).level := by
    rw [h.level]
    exact ofNat_pos (Nat.pos_of_ne_zero hne) hlimit
  simp [unfinished_iff.2 ⟨hpos, error_of_writable h.writable⟩] at hend

/-- Closing all blocks after calls that build closes each block with a line at the depth of the line that opened it. -/
theorem closeAll_nested (i : Indent) {ops : List Op} (hops : ∀ op ∈ ops, op.builds = true)
    (hn : ops.count .openBlock < Row.depthLimit) :
    ∃ k, (run { indent := i } ops).closeAll = run { indent := i } (ops ++ List.replicate k .closeBlock) ∧
      Nested i 0 (blockLines { indent := i } (ops ++ List.replicate k .closeBlock)) ∧
      (.closeBlock ∉ ops → k = ops.count .openBlock ∧
        (blockLines { indent := i } (ops ++ List.replicate k .closeBlock)).countP (·.1 = .openBlock) = k) := by
  set w := run { indent := i } ops with hw
  obtain ⟨k, -, hrounds, -⟩ := closeUpTo_rounds w.depth w
  have hrun : w.closeAll = run { indent := i } (ops ++ List.replicate k .closeBlock) := by
    rw [run_append, run_closeBlocks]
    exact hrounds
  have hall : ∀ op ∈ ops ++ List.replicate k .closeBlock, op.builds = true := by
    intro op hop
    rcases List.mem_append.1 hop with hop | hop
    · exact hops op hop
    · rw [List.eq_of_mem_replicate hop]
      rfl
  have hopened : (ops ++ List.replicate k Op.closeBlock).count .openBlock = ops.count .openBlock := by
    simp [List.count_append, List.count_replicate]
  have hend : (run { indent := i } (ops ++ List.replicate k .closeBlock)).unfinished = false := by
    rw [← hrun]
    exact closeUpTo_finished (Nat.le_refl _)
  rw [← hopened] at hn
  -- The rounds are calls like those before them, so what holds of all calls that build holds of both together.
  refine ⟨k, hrun, ?_, fun hnone => ?_⟩
  · rcases going_or_stopped (i := i) hall hn with ⟨d, h⟩ | h
    · have hzero := h.depth_eq_zero hn hend
      subst hzero
      exact h.lines.nested
    · exact h.lines
  · have hgoing : w.writable = true := by
      rcases going_or_stopped (i := i) hops (hopened ▸ hn) with ⟨d, h⟩ | h
      · exact h.writable
      · exact absurd h.mem hnone
    rcases going_or_stopped (i := i) hall hn with ⟨d, h⟩ | h
    · have hcount := h.depth
      rw [h.depth_eq_zero hn hend, hopened, List.count_append, List.count_eq_zero_of_not_mem hnone,
        List.count_replicate_self] at hcount
      exact ⟨by omega, by rw [h.all, hopened]; omega⟩
    · have hstopped := h.writable
      rw [← hrun, writable_closeAll hgoing] at hstopped
      cases hstopped

/-- After any calls to a new writer, closing all blocks stops after some rounds of closing one, each made because a block
was open and there was no error, and the next would not be. Where text may be added and no padding is too wide, it adds
one closing line for each level, from the innermost to the outermost, and ends at the outermost level; after an error
or at no positive level it changes nothing; after freezing the first round records that and goes one level up. If the
calls wrote lines and opened and closed blocks, then after it the lines that open blocks and those that close them are
as many and match, each pair with one lead; if the calls closed no block, each block that they opened has its line, and
closing all wrote the same number. -/
theorem closeAll_closes_every_block (i : Indent) (ops : List Op) :
    let w := run { indent := i } ops
    (∃ k ≤ w.depth, w.closeAll = closeBlock^[k] w ∧ (∀ j < k, (closeBlock^[j] w).unfinished = true) ∧
      w.closeAll.unfinished = false) ∧
    (w.writable = true → 0 ≤ w.level → i.width.toNatClampNeg * w.depth < 9223372036854775808 → w.closeAll =
      { w.append ((List.range w.depth).reverse.flatMap fun d => i.margin d ++ utf8 "\x7d" ++ [Bytes.newline]) with
        level := 0 }) ∧
    (w.error ≠ none ∨ w.level ≤ 0 → w.closeAll = w) ∧
    (w.frozen = true → w.error = none → 0 < w.level →
      w.closeAll = { w with level := w.level - 1, error := some .frozen }) ∧
    ((∀ op ∈ ops, op.builds = true) → ops.count .openBlock < Row.depthLimit →
      ∃ k, w.closeAll = run { indent := i } (ops ++ List.replicate k .closeBlock) ∧
        let lines := blockLines { indent := i } (ops ++ List.replicate k .closeBlock)
        Nested i 0 lines ∧ lines.countP (·.1 = .openBlock) = lines.countP (·.1 = .closeBlock) ∧
          (.closeBlock ∉ ops → k = ops.count .openBlock ∧ lines.countP (·.1 = .openBlock) = k)) := by
  intro w
  have hindent : w.indent = i := run_indent _ ops
  refine ⟨?_, fun hw hl hwide => ?_, closeAll_of_idle, fun hf he hl => ?_, fun hops hn => ?_⟩
  · obtain ⟨k, hk, hrounds, hgoes⟩ := closeUpTo_rounds w.depth w
    exact ⟨k, hk, hrounds, hgoes, closeUpTo_finished (Nat.le_refl _)⟩
  · rw [← hindent] at hwide ⊢
    exact closeAll_of_writable hw hl hwide
  · rw [closeAll_of_frozen hf he hl, fail, he]
    rfl
  · obtain ⟨k, hrun, hnested, hall⟩ := closeAll_nested i hops hn
    exact ⟨k, hrun, hnested, hnested.count, hall⟩

/-- Two blocks that stay open, and one inside that is closed. -/
private def attics : List Op := [.line (utf8 "a"), .openBlock, .openBlock, .closeBlock, .line (utf8 "b\nc"), .openBlock]

theorem closeAll_closes_every_block_attics :
    let i : Indent := { char := '\t', width := 1 }
    let w := run { indent := i } attics
    let frozen := run { indent := i } (attics ++ [.freeze])
    let closed := run { indent := i } (attics ++ [.closeAll])
    w.writable = true ∧ 0 ≤ w.level ∧ i.width.toNatClampNeg * w.depth < 9223372036854775808 ∧
    w.closeAll.text = utf8 "a\n\x7b\n\t\x7b\n\t\x7d\n\tb\n\tc\n\t\x7b\n\t\x7d\n\x7d\n" ∧ w.closeAll.level = 0 ∧
    closed.level ≤ 0 ∧ closed.closeAll = closed ∧
    frozen.frozen = true ∧ frozen.error = none ∧ 0 < frozen.level ∧
    frozen.closeAll.text = w.text ∧ frozen.closeAll.error = some .frozen ∧ frozen.closeAll.level = 1 ∧
    (∀ op ∈ attics, op.builds = true) ∧ attics.count .openBlock < Row.depthLimit ∧
    ∃ k, w.closeAll = run { indent := i } (attics ++ List.replicate k .closeBlock) ∧
      Nested i 0 (blockLines { indent := i } (attics ++ List.replicate k .closeBlock)) := by
  intro i w frozen closed
  have hw : w.writable = true := by decide
  have hl : 0 ≤ w.level := by decide
  have hwide : i.width.toNatClampNeg * w.depth < 9223372036854775808 := by decide
  have houter : closed.level ≤ 0 := by decide
  have hfrozen : frozen.frozen = true := by decide
  have herror : frozen.error = none := by decide
  have hinner : 0 < frozen.level := by decide
  have hops : ∀ op ∈ attics, op.builds = true := by decide
  have hn : attics.count .openBlock < Row.depthLimit := by decide
  obtain ⟨-, hcloses, -, -, hbuilds⟩ := closeAll_closes_every_block i attics
  obtain ⟨-, -, hidle, -, -⟩ := closeAll_closes_every_block i (attics ++ [.closeAll])
  obtain ⟨-, -, -, hrecords, -⟩ := closeAll_closes_every_block i (attics ++ [.freeze])
  have hclosed := hcloses hw hl hwide
  have hrecorded := hrecords hfrozen herror hinner
  obtain ⟨k, hrun, hnested, -⟩ := hbuilds hops hn
  refine ⟨hw, hl, hwide, ?_, ?_, houter, hidle (.inr houter), hfrozen, herror, hinner, ?_, ?_, ?_, hops, hn, k, hrun,
    hnested⟩
  · rw [hclosed]
    decide
  · rw [hclosed]
  · rw [hrecorded]
    decide
  · rw [hrecorded]
  · rw [hrecorded]
    decide

end ProtoRecovery.Writer
