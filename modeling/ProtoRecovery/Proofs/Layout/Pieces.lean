import ProtoRecovery.Proofs.Layout.Rows

/-! # Calls in pieces: calls do the same after any text, so pieces can be judged one by one -/
namespace ProtoRecovery.Writer

/-- The writer with a text before all that it has written. -/
def after (t : Bytes) (w : Writer) : Writer := { w with written := w.written ++ t.reverse }

section
variable (t : Bytes) (w : Writer)

@[simp] theorem level_after : (w.after t).level = w.level := rfl
@[simp] theorem frozen_after : (w.after t).frozen = w.frozen := rfl
@[simp] theorem error_after : (w.after t).error = w.error := rfl
@[simp] theorem writable_after : (w.after t).writable = w.writable := rfl
@[simp] theorem laidOut_after (s : Bytes) : (w.after t).laidOut s = w.laidOut s := rfl
@[simp] theorem deeper_after : (w.after t).deeper = w.deeper.after t := rfl
@[simp] theorem fail_after (e : LayoutError) : (w.after t).fail e = (w.fail e).after t := rfl

@[simp] theorem append_after (s : Bytes) : (w.after t).append s = (w.append s).after t := by
  simp [after, append, List.reverseAux_eq]

@[simp] theorem refuse_after : (w.after t).refuse = w.refuse.after t := by
  cases h : w.frozen <;> simp [refuse, h]

@[simp] theorem line_after (s : Bytes) : (w.after t).line s = (w.line s).after t := by
  simp only [line, writable_after, laidOut_after, append_after, refuse_after, apply_ite (after t)]

@[simp] theorem blanks_after (n : Int64) : (w.after t).blanks n = (w.blanks n).after t := by
  simp only [blanks, writable_after, append_after, refuse_after, apply_ite (after t)]

@[simp] theorem shallower_after : (w.after t).shallower = w.shallower.after t := by
  unfold shallower setLevel
  by_cases h : w.level - 1 < 0
  · simp [h]
  · simp [h]
    rfl

@[simp] theorem closeBlock_after : (w.after t).closeBlock = w.closeBlock.after t := by
  simp only [closeBlock, level_after, fail_after, shallower_after, line_after, apply_ite (after t)]

theorem closeUpTo_after (n : Nat) : closeUpTo n (w.after t) = (closeUpTo n w).after t := by
  induction n generalizing w with
  | zero => rfl
  | succ n ih =>
    simp only [closeUpTo, level_after, error_after, closeBlock_after, ih]
    exact (apply_ite (after t) _ _ _).symm

/-- A call does the same after any text. -/
theorem apply_after (op : Op) : (w.after t).apply op = (w.apply op).after t := by
  cases op with
  | line s => exact line_after t w s
  | blank => exact blanks_after t w 1
  | blanks n => exact blanks_after t w n
  | openBlock => simp [apply, openBlock]
  | closeBlock => exact closeBlock_after t w
  | closeAll => exact closeUpTo_after t w _
  | deeper => rfl
  | shallower => exact shallower_after t w
  | setLevel n =>
    by_cases hn : n < 0
    · simp [apply, setLevel, hn, Except.toOption]
    · simp [apply, setLevel, hn, Except.toOption]
      rfl
  | freeze => rfl

theorem run_after (ops : List Op) : (w.after t).run ops = (w.run ops).after t := by
  induction ops generalizing w with
  | nil => rfl
  | cons op ops ih =>
    have happly := apply_after t w op
    show ((w.after t).apply op).run ops = ((w.apply op).run ops).after t
    rw [happly, ih]

end

/-- Calls that a new writer takes without an error. -/
def Sound (i : Indent) (ops : List Op) : Prop := (run { indent := i } ops).error = none

section
variable {i : Indent} {a b : List Op} {rows : List Row}

theorem Lays.run_eq (h : Lays 0 a rows) (hs : Sound i a) :
    run { indent := i } a = ({ indent := i } : Writer).append (rows.flatMap (Row.text i)) := by
  rcases h { indent := i } rfl rfl with h | ⟨⟨e, he⟩, -⟩
  · exact h
  · rw [Sound, he] at hs
    cases hs

theorem Lays.sound (h : Lays 0 a rows) (hd : ∀ r ∈ rows, r.depth < Row.depthLimit) : Sound i a := by
  rcases h { indent := i } rfl rfl with h | ⟨-, r, hr, hle⟩
  · rw [Sound, h]
    rfl
  · have := hd r hr
    omega

/-- Where a piece comes back to the outermost level, what follows it is judged on its own. -/
theorem Lays.sound_append (h : Lays 0 a rows) : Sound i (a ++ b) ↔ Sound i a ∧ Sound i b := by
  unfold Sound
  rw [run_append]
  cases he : (run { indent := i } a).error with
  | some e => simp [run_error he]
  | none =>
    have hnew : ({ indent := i } : Writer).append (rows.flatMap (Row.text i)) =
        after (rows.flatMap (Row.text i)) { indent := i } := by
      simp [Writer.append, after, List.reverseAux_eq]
    rw [h.run_eq he, hnew, run_after]
    simp

theorem sound_flatMap {α : Type} {ops : α → List Op} {rows : α → List Row} {xs : List α}
    (h : ∀ x ∈ xs, Lays 0 (ops x) (rows x)) : Sound i (xs.flatMap ops) ↔ ∀ x ∈ xs, Sound i (ops x) := by
  induction xs with
  | nil => simp [Sound, run]
  | cons x xs ih =>
    obtain ⟨hx, hxs⟩ := List.forall_mem_cons.1 h
    rw [List.flatMap_cons, hx.sound_append, ih hxs, List.forall_mem_cons]

theorem sound_blank : Sound i [.blank] := (Lays.blank 0).sound (by simp [Row.depth])

end
end ProtoRecovery.Writer
