import ProtoRecovery.Proofs.Layout.Rows

/-! # Calls to a writer: text only grows, the first error stays, and freezing ends it all -/
namespace ProtoRecovery.Writer

/-- All that a call can do: move the level, add text while that is allowed, record an error without adding any text,
or freeze. -/
inductive Change (w : Writer) : Writer → Prop
  | level (n : Int64) : Change w { w with level := n }
  | add (writable : w.writable = true) (t : Bytes) (n : Int64) : Change w { w.append t with level := n }
  | refuse (e : LayoutError) (n : Int64) : Change w { w.fail e with level := n }
  | freeze (n : Int64) : Change w { w.freeze with level := n }

namespace Change
variable {w v : Writer}

theorem refl (w : Writer) : Change w w := .level w.level

theorem relevel (h : Change w v) (n : Int64) : Change w { v with level := n } := by
  cases h with
  | level => exact .level n
  | add writable t => exact .add writable t n
  | refuse e => exact .refuse e n
  | freeze => exact .freeze n

theorem of_level {n : Int64} (h : Change { w with level := n } v) : Change w v := by
  cases h with
  | level m => exact .level m
  | add writable t m => exact .add (w := w) writable t m
  | refuse e m => exact .refuse e m
  | freeze m => exact .freeze m

end Change

theorem change_fail (w : Writer) (e : LayoutError) : Change w (w.fail e) := .refuse e w.level

theorem change_refuse (w : Writer) : Change w w.refuse := by
  unfold refuse
  split
  · exact change_fail w .frozen
  · exact .refl w

theorem change_line (w : Writer) (t : Bytes) : Change w (w.line t) := by
  unfold line
  split
  · next h => exact .add h (w.laidOut t) w.level
  · exact change_refuse w

theorem change_blanks (w : Writer) (n : Int64) : Change w (w.blanks n) := by
  unfold blanks
  split
  · exact .refl w
  · split
    · next h => exact .add h _ w.level
    · exact change_refuse w

/-- One level up, unless that level is negative. -/
theorem shallower_cases (w : Writer) :
    w.shallower = { w with level := w.level - 1 } ∨ w.shallower = w.fail (.badLevel (w.level - 1)) := by
  unfold shallower setLevel
  by_cases h : w.level - 1 < 0
  · exact .inr (by simp [h])
  · exact .inl (by simp [h])

theorem fail_fail (w : Writer) (e e' : LayoutError) : (w.fail e).fail e' = w.fail e := by
  simp [fail]

/-- Where an error is recorded a line changes nothing. -/
theorem line_fail (w : Writer) (e : LayoutError) (t : Bytes) : (w.fail e).line t = w.fail e := by
  have hw : (w.fail e).writable = false := by simp [writable, fail]
  simp [line, hw, refuse, fail_fail]

theorem change_shallower (w : Writer) : Change w w.shallower := by
  rcases w.shallower_cases with h | h <;> rw [h]
  · exact .level _
  · exact change_fail w _

theorem change_closeBlock (w : Writer) : Change w w.closeBlock := by
  unfold closeBlock
  split
  · exact change_fail w .unopened
  · rcases w.shallower_cases with h | h <;> rw [h]
    · exact (change_line _ _).of_level
    · rw [line_fail]
      exact change_fail w _

/-- Below a level above zero there is one that is not negative. -/
theorem shallower_of_pos {w : Writer} (h : 0 < w.level) : w.shallower = { w with level := w.level - 1 } := by
  have hn : ¬w.level - 1 < 0 := by grind
  simp [shallower, setLevel, hn]

theorem closeBlock_of_pos {w : Writer} (h : 0 < w.level) :
    w.closeBlock = ({ w with level := w.level - 1 } : Writer).line (utf8 "\x7d") := by
  have hne : ¬w.level = 0 := by
    intro hz
    rw [hz] at h
    exact absurd h (by decide)
  rw [closeBlock, if_neg hne, shallower_of_pos h]

/-- As long as text may be added, blocks are closed without an error. -/
theorem closeUpTo_of_writable {w : Writer} (h : w.writable = true) (n : Nat) :
    ∃ t m, closeUpTo n w = { w.append t with level := m } := by
  induction n generalizing w with
  | zero => exact ⟨[], w.level, rfl⟩
  | succ n ih =>
    rw [closeUpTo]
    split
    · next hopen =>
      obtain ⟨hpos, -⟩ : 0 < w.level ∧ w.error = none := by simpa using hopen
      set up : Writer := { w with level := w.level - 1 } with hup
      have hclose : w.closeBlock = up.append (up.laidOut (utf8 "\x7d")) := by
        rw [closeBlock_of_pos hpos]
        exact line_of_writable (w := up) h _
      obtain ⟨t, m, ht⟩ := ih (w := w.closeBlock) (by rw [hclose]; exact h)
      refine ⟨up.laidOut (utf8 "\x7d") ++ t, m, ?_⟩
      rw [ht, hclose, append_append]
      rfl
    · exact ⟨[], w.level, rfl⟩

theorem closeBlock_of_frozen {w : Writer} (hf : w.frozen = true) (he : w.error = none) (h : 0 < w.level) :
    w.closeBlock = { w.fail .frozen with level := w.level - 1 } := by
  rw [closeBlock_of_pos h]
  simp [line, writable, refuse, hf, he, fail]

/-- The first attempt to write after freezing records the error, and no block is closed any more. -/
theorem closeUpTo_of_frozen {w : Writer} (hf : w.frozen = true) (he : w.error = none) (h : 0 < w.level) (n : Nat) :
    closeUpTo (n + 1) w = { w.fail .frozen with level := w.level - 1 } := by
  have hclose := closeBlock_of_frozen hf he h
  have herror : w.closeBlock.error = some .frozen := by simp [hclose, fail, he]
  rw [closeUpTo, if_pos (by simp [h, he]), closeUpTo_of_error herror, hclose]

theorem change_closeUpTo (w : Writer) (n : Nat) : Change w (closeUpTo n w) := by
  cases n with
  | zero => exact .refl w
  | succ n =>
    by_cases hw : w.writable = true
    · obtain ⟨t, m, h⟩ := closeUpTo_of_writable hw (n + 1)
      rw [h]
      exact .add hw t m
    · by_cases hopen : 0 < w.level ∧ w.error = none
      · obtain ⟨hpos, herror⟩ := hopen
        have hfrozen : w.frozen = true := by simpa [writable, herror] using hw
        rw [closeUpTo_of_frozen hfrozen herror hpos]
        exact .refuse .frozen _
      · rw [closeUpTo, if_neg (by simpa using hopen)]
        exact .refl w

theorem change_apply (w : Writer) (op : Op) : Change w (w.apply op) := by
  cases op with
  | line t => exact change_line w t
  | blank => exact change_blanks w 1
  | blanks n => exact change_blanks w n
  | openBlock => exact (change_line w _).relevel _
  | closeBlock => exact change_closeBlock w
  | closeAll => exact change_closeUpTo w _
  | deeper => exact .level _
  | shallower => exact change_shallower w
  | setLevel n =>
    by_cases hn : n < 0
    · simpa [apply, setLevel, hn, Except.toOption] using! Change.refl w
    · simpa [apply, setLevel, hn, Except.toOption] using! Change.level n
  | freeze => exact .freeze w.level

/-! ### What every change keeps -/

namespace Change
variable {w v : Writer}

theorem text_prefix (h : Change w v) : w.text <+: v.text := by
  cases h with
  | level | refuse | freeze => exact List.prefix_rfl
  | add _ t => exact ⟨t, (text_append w t).symm⟩

theorem error (h : Change w v) {e : LayoutError} (he : w.error = some e) : v.error = some e := by
  cases h with
  | level | add | freeze => exact he
  | refuse e' => exact fail_error he e'

theorem indent (h : Change w v) : v.indent = w.indent := by
  cases h <;> rfl

theorem frozen (h : Change w v) (hf : w.frozen = true) : v.frozen = true := by
  cases h with
  | level | add | refuse => exact hf
  | freeze => rfl

theorem text_of_not_writable (h : Change w v) (hw : w.writable = false) : v.text = w.text := by
  cases h with
  | level | refuse | freeze => rfl
  | add writable => simp [hw] at writable

/-- A call that leaves a writer to which no text may be added has added none itself. -/
theorem text_of_stopped (h : Change w v) (hv : v.writable = false) : v.text = w.text := by
  cases h with
  | level | refuse | freeze => rfl
  | add writable t n =>
    have : w.writable = false := hv
    simp [this] at writable

end Change

theorem not_writable_iff {w : Writer} : w.writable = false ↔ w.frozen = true ∨ w.error ≠ none := by
  cases hf : w.frozen <;> cases he : w.error <;> simp [writable, hf, he]

theorem run_of_not_writable {w : Writer} (h : w.writable = false) (ops : List Op) :
    (w.run ops).writable = false ∧ (w.run ops).text = w.text := by
  induction ops generalizing w with
  | nil => exact ⟨h, rfl⟩
  | cons op ops ih =>
    have change := change_apply w op
    have hstop : (w.apply op).writable = false := by
      rcases not_writable_iff.1 h with hf | he
      · exact not_writable_iff.2 (.inl (change.frozen hf))
      · obtain ⟨e, he⟩ := Option.ne_none_iff_exists'.1 he
        exact not_writable_iff.2 (.inr (by simp [change.error he]))
    obtain ⟨hrun, htext⟩ := ih hstop
    exact ⟨hrun, htext.trans (change.text_of_not_writable h)⟩

theorem run_indent (w : Writer) (ops : List Op) : (w.run ops).indent = w.indent := by
  induction ops generalizing w with
  | nil => rfl
  | cons op ops ih => exact (ih (w.apply op)).trans (change_apply w op).indent

theorem run_frozen {w : Writer} (h : w.frozen = true) (ops : List Op) : (w.run ops).frozen = true := by
  induction ops generalizing w with
  | nil => exact h
  | cons op ops ih => exact ih ((change_apply w op).frozen h)

theorem frozen_of_mem {ops : List Op} (h : Op.freeze ∈ ops) (w : Writer) : (w.run ops).frozen = true := by
  obtain ⟨before, after, rfl⟩ := List.append_of_mem h
  rw [run_append]
  exact run_frozen (w := (w.run before).freeze) rfl after

/-- What freezing hands out: the text, and the first error if there is one. -/
def handout (w : Writer) : Bytes × Option LayoutError := (w.freeze.text, w.freeze.error)

/-- Calls to a new writer, whatever they are (a formatted line is a line of some text): a call adds to the end of the
text; an error that is recorded stays, and with it the text; once the writer was frozen, freezing it again hands out
the same text, with the error. So in the end the text is that of the calls before the first that freezes the writer or
records an error. The length is that of the text, and a level that is rejected changes nothing. -/
theorem text_grows_until_stopped (i : Indent) (before : List Op) (op : Op) (after : List Op) :
    let w := run { indent := i } before
    let next := w.apply op
    let last := next.run after
    w.text <+: next.text ∧
    (∀ e, w.error = some e → last.error = some e ∧ last.text = w.text) ∧
    (Op.freeze ∈ before → last.text = w.text ∧ last.handout = (w.text, last.error)) ∧
    (op = .freeze ∨ next.error ≠ none → last.handout = (w.text, last.error)) ∧
    last.length = last.text.length ∧
    ∀ n < 0, w.setLevel n = .error (.badLevel n) ∧ w.apply (.setLevel n) = w := by
  intro w next last
  have change : Change w next := change_apply w op
  have stopped : w.writable = false → last.text = w.text := fun hw => (run_of_not_writable hw (op :: after)).2
  refine ⟨change.text_prefix, fun e he => ⟨?_, ?_⟩, fun hmem => ?_, fun hstop => ?_, length_eq last, fun n hn => ?_⟩
  · exact run_error (change.error he) after
  · exact stopped (not_writable_iff.2 (.inr (by simp [he])))
  · have htext := stopped (not_writable_iff.2 (.inl (frozen_of_mem hmem _)))
    exact ⟨htext, Prod.ext htext rfl⟩
  · have hnext : next.writable = false := by
      rcases hstop with rfl | he
      · exact not_writable_iff.2 (.inl rfl)
      · exact not_writable_iff.2 (.inr he)
    have htext : last.text = w.text := (run_of_not_writable hnext after).2.trans (change.text_of_stopped hnext)
    exact Prod.ext htext rfl
  · simp [setLevel, apply, hn, Except.toOption]

/-- A level that is rejected is no error, but a line after freezing is one, and so is closing a block that was never
opened. -/
theorem text_grows_until_stopped_tea :
    let i : Indent := { width := 2 }
    let brewed := run { indent := i } [.openBlock, .line (utf8 "tea"), .setLevel (-7)]
    let served := (brewed.apply .freeze).run [.line (utf8 "milk"), .closeAll, .freeze]
    let poured := run { indent := i } [.line (utf8 "tea")]
    let spilt := (poured.apply .closeBlock).run [.deeper, .line (utf8 "milk"), .freeze]
    (brewed.text = utf8 "\x7b\n  tea\n" ∧ brewed.text <+: (brewed.apply .freeze).text ∧
      served.handout = (utf8 "\x7b\n  tea\n", some .frozen) ∧ served.length = 8) ∧
    (poured.apply .closeBlock).error = some .unopened ∧ spilt.handout = (utf8 "tea\n", some .unopened) := by
  intro i brewed served poured spilt
  have hbrewed : brewed.text = utf8 "\x7b\n  tea\n" := by decide
  have hpoured : poured.text = utf8 "tea\n" := by decide
  have herror : (poured.apply .closeBlock).error = some .unopened := by decide
  obtain ⟨hgrows, -, -, hserved, hlength, -⟩ := text_grows_until_stopped i
    [.openBlock, .line (utf8 "tea"), .setLevel (-7)] .freeze [.line (utf8 "milk"), .closeAll, .freeze]
  obtain ⟨-, -, -, hspilt, -, -⟩ := text_grows_until_stopped i
    [.line (utf8 "tea")] .closeBlock [.deeper, .line (utf8 "milk"), .freeze]
  have hlast : served.handout = (utf8 "\x7b\n  tea\n", some .frozen) := by
    rw [← hbrewed, show some .frozen = served.error by decide]
    exact hserved (.inl rfl)
  refine ⟨⟨hbrewed, hgrows, hlast, hlength.trans ?_⟩, herror, ?_⟩
  · exact congrArg (fun handed => handed.1.length) hlast
  · rw [← hpoured, show some .unopened = spilt.error by decide]
    exact hspilt (.inr (by simp [herror, poured]))

end ProtoRecovery.Writer
