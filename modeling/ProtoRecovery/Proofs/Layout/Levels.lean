import Mathlib.Data.List.Induction
import ProtoRecovery.Proofs.Layout.Calls

/-! # Levels: none is negative until a call goes deeper than 64 bits can count -/
namespace ProtoRecovery.Writer

/-- Calls that go one level deeper. -/
def Op.rises : Op → Bool
  | .deeper | .openBlock => true
  | _ => false

/-- A call goes deeper at the last level that 64 bits can count. -/
def Wraps (w : Writer) (op : Op) : Prop := op.rises = true ∧ w.level = Int64.maxValue

/-- A call asks for a negative level: for one level up from the outermost one, or for the level itself. -/
def AsksBelow (w : Writer) : Op → Prop
  | .shallower | .closeBlock => w.level = 0
  | .setLevel n => n < 0
  | _ => False

/-- How a call tells of an error: setting a level answers it, all other calls record it, unless one is recorded
already. -/
def Tells (w : Writer) (op : Op) (e : LayoutError) : Prop :=
  match op with
  | .setLevel n => w.setLevel n = .error e
  | op => (w.apply op).error = w.error.or (some e)

/-! ### What a call does to the level -/

theorem level_refuse (w : Writer) : w.refuse.level = w.level := by
  unfold refuse
  split <;> rfl

theorem level_line (w : Writer) (t : Bytes) : (w.line t).level = w.level := by
  unfold line
  split
  · rfl
  · exact level_refuse w

theorem level_blanks (w : Writer) (n : Int64) : (w.blanks n).level = w.level := by
  unfold blanks
  split
  · rfl
  · split
    · rfl
    · exact level_refuse w

theorem level_rises (w : Writer) {op : Op} (h : op.rises = true) : (w.apply op).level = w.level + 1 := by
  cases op with
  | deeper => rfl
  | openBlock => exact congrArg (· + 1) (level_line w _)
  | line | blank | blanks | closeBlock | closeAll | shallower | setLevel | freeze => simp [Op.rises] at h

theorem shallower_of_zero {w : Writer} (h : w.level = 0) : w.shallower = w.fail (.badLevel (-1)) := by
  simp [shallower, setLevel, h]

section
variable {w : Writer} (h : 0 ≤ w.level)
include h

theorem level_shallower : 0 ≤ w.shallower.level ∧ w.shallower.level ≤ w.level := by
  by_cases hzero : w.level = 0
  · rw [shallower_of_zero hzero]
    exact ⟨h, Int64.le_refl _⟩
  · have hpos : 0 < w.level := by grind
    rw [shallower_of_pos hpos]
    grind

theorem level_closeBlock : 0 ≤ w.closeBlock.level ∧ w.closeBlock.level ≤ w.level := by
  unfold closeBlock
  split
  · exact ⟨h, Int64.le_refl _⟩
  · rw [level_line]
    exact level_shallower h

theorem level_closeUpTo (n : Nat) : 0 ≤ (closeUpTo n w).level ∧ (closeUpTo n w).level ≤ w.level := by
  induction n generalizing w with
  | zero => exact ⟨h, Int64.le_refl _⟩
  | succ n ih =>
    rw [closeUpTo]
    split
    · obtain ⟨hclosed, hle⟩ := level_closeBlock h
      obtain ⟨hlast, hle'⟩ := ih hclosed
      exact ⟨hlast, Int64.le_trans hle' hle⟩
    · exact ⟨h, Int64.le_refl _⟩

/-- A call that does not go deeper leaves a level that is not negative, at most the one before unless it is set. -/
theorem level_apply {op : Op} (hop : op.rises = false) :
    0 ≤ (w.apply op).level ∧ ((w.apply op).level ≤ w.level ∨ op = .setLevel (w.apply op).level) := by
  have same : ∀ v : Writer, v.level = w.level → 0 ≤ v.level ∧ (v.level ≤ w.level ∨ op = .setLevel v.level) := by
    intro v hv
    exact ⟨hv ▸ h, .inl (hv ▸ Int64.le_refl _)⟩
  cases op with
  | line t => exact same _ (level_line w t)
  | blank => exact same _ (level_blanks w 1)
  | blanks n => exact same _ (level_blanks w n)
  | closeBlock => exact ⟨(level_closeBlock h).1, .inl (level_closeBlock h).2⟩
  | closeAll => exact ⟨(level_closeUpTo h _).1, .inl (level_closeUpTo h _).2⟩
  | shallower => exact ⟨(level_shallower h).1, .inl (level_shallower h).2⟩
  | setLevel n =>
    by_cases hn : n < 0
    · exact same _ (by simp [apply, setLevel, hn, Except.toOption])
    · have hset : (w.apply (.setLevel n)).level = n := by simp [apply, setLevel, hn, Except.toOption]
      rw [hset]
      exact ⟨Int64.not_lt.1 hn, .inr rfl⟩
  | freeze => exact same _ rfl
  | openBlock | deeper => simp [Op.rises] at hop

/-- A call makes the level negative exactly if it wraps around. -/
theorem level_apply_nonneg_iff (op : Op) : 0 ≤ (w.apply op).level ↔ ¬w.Wraps op := by
  cases hop : op.rises with
  | false => simp [Wraps, hop, (level_apply h hop).1]
  | true =>
    rw [level_rises w hop, Wraps, hop]
    grind

end

theorem Wraps.level_apply {w : Writer} {op : Op} (h : w.Wraps op) : (w.apply op).level = Int64.minValue := by
  rw [level_rises w h.1, h.2]
  rfl

/-- A call that asks for a negative level leaves the level and the text as they were, and tells that the settings are
unusable. -/
theorem rejects_below {w : Writer} {op : Op} (h : w.AsksBelow op) :
    (w.apply op).level = w.level ∧ (w.apply op).text = w.text ∧
      ∃ e, LayoutError.errorClass e = .configuration ∧ w.Tells op e := by
  cases op with
  | shallower =>
    have hfail : w.apply .shallower = w.fail (.badLevel (-1)) := shallower_of_zero h
    exact ⟨by rw [hfail]; rfl, by rw [hfail]; rfl, _, rfl, congrArg error hfail⟩
  | closeBlock =>
    have hfail : w.apply .closeBlock = w.fail .unopened := if_pos h
    exact ⟨by rw [hfail]; rfl, by rw [hfail]; rfl, _, rfl, congrArg error hfail⟩
  | setLevel n =>
    have hn : w.setLevel n = .error (.badLevel n) := if_pos h
    have hsame : w.apply (.setLevel n) = w := by rw [apply, hn]; rfl
    exact ⟨by rw [hsame], by rw [hsame], _, rfl, hn⟩
  | line | blank | blanks | openBlock | closeAll | deeper | freeze => exact h.elim

/-! ### The levels of a run -/

/-- Until a call wraps around, no level is negative. -/
theorem levels_nonneg_iff (i : Indent) (ops : List Op) :
    (∀ before, before <+: ops → 0 ≤ (run { indent := i } before).level) ↔
      ∀ before op, before ++ [op] <+: ops → ¬(run { indent := i } before).Wraps op := by
  constructor
  · intro h before op hprefix
    have hbefore := h before ((List.prefix_append before [op]).trans hprefix)
    have hnext := h (before ++ [op]) hprefix
    rw [run_concat] at hnext
    exact (level_apply_nonneg_iff hbefore op).1 hnext
  · intro h before hprefix
    -- The last call is judged at the level that those before it have left.
    induction before using List.reverseRecOn with
    | nil => exact Int64.le_refl 0
    | append_singleton before op ih =>
      have hbefore := ih ((List.prefix_append before [op]).trans hprefix)
      rw [run_concat]
      exact (level_apply_nonneg_iff hbefore op).2 (h before op hprefix)

theorem toInt_succ_of_lt {l : Int64} (h : 0 ≤ l) (hl : l.toInt + 1 < 9223372036854775808) :
    (l + 1).toInt = l.toInt + 1 := by
  have hnonneg : 0 ≤ l.toInt := Int64.le_iff_toInt_le.1 h
  rw [Int64.toInt_add, show (1 : Int64).toInt = 1 from rfl]
  exact Int.bmod_eq_of_le (by omega) (by omega)

/-- A level is at most the largest one set and one more for each call that goes deeper. -/
theorem level_le_rises {i : Indent} {m : Nat} (ops : List Op) (hset : ∀ n, Op.setLevel n ∈ ops → n.toInt ≤ m)
    (hm : m + ops.countP Op.rises < 9223372036854775808) :
    0 ≤ (run { indent := i } ops).level ∧ (run { indent := i } ops).level.toInt ≤ m + ops.countP Op.rises := by
  induction ops using List.reverseRecOn with
  | nil =>
    refine ⟨Int64.le_refl 0, ?_⟩
    show (0 : Int) ≤ m + (0 : Nat)
    omega
  | append_singleton ops op ih =>
    rw [List.countP_append, List.countP_singleton] at hm ⊢
    obtain ⟨hnonneg, hle⟩ := ih (fun n hn => hset n (List.mem_append_left _ hn)) (by omega)
    rw [run_concat]
    cases hop : op.rises with
    | true =>
      rw [hop, if_pos rfl] at hm
      have hnext := toInt_succ_of_lt hnonneg (by omega)
      rw [level_rises _ hop, Int64.le_iff_toInt_le, hnext, if_pos rfl]
      have hzero : 0 ≤ (run { indent := i } ops).level.toInt := Int64.le_iff_toInt_le.1 hnonneg
      exact ⟨by rw [Int64.toInt_zero]; omega, by omega⟩
    | false =>
      obtain ⟨hnext, hlevel⟩ := level_apply hnonneg hop
      refine ⟨hnext, ?_⟩
      rcases hlevel with hlevel | hlevel
      · have := Int64.le_iff_toInt_le.1 hlevel
        omega
      · have := hset _ (List.mem_append_right ops (List.mem_singleton.2 hlevel.symm))
        omega

/-- Calls to a new writer. No level on the way is negative exactly if no call goes deeper at the last level that 64
bits can count; a call that does so wraps around to the least level. That does not happen as long as the levels that
are set, and the number of calls that go deeper, stay below that limit together. A call that asks for a negative level
changes neither the level nor the text, and tells that the settings are unusable. -/
theorem levels_nonneg_until_wrapped (i : Indent) (ops : List Op) :
    let w := run { indent := i } ops
    ((∀ before, before <+: ops → 0 ≤ (run { indent := i } before).level) ↔
      ∀ before op, before ++ [op] <+: ops → ¬(run { indent := i } before).Wraps op) ∧
    (∀ op, w.Wraps op → (w.apply op).level = Int64.minValue) ∧
    (∀ m : Nat, (∀ n, .setLevel n ∈ ops → n.toInt ≤ (m : Int)) → m + ops.countP Op.rises < 9223372036854775808 →
      0 ≤ w.level) ∧
    ∀ op, w.AsksBelow op → (w.apply op).level = w.level ∧ (w.apply op).text = w.text ∧
      ∃ e, LayoutError.errorClass e = .configuration ∧ w.Tells op e := by
  intro w
  refine ⟨levels_nonneg_iff i ops, fun op hop => hop.level_apply, fun m hset hm => ?_, fun op hop => rejects_below hop⟩
  exact (level_le_rises ops hset hm).1

/-- Calls that end at the last level that can be counted. -/
private def summit : List Op := [.setLevel 9223372036854775806, .line (utf8 "a"), .openBlock]

theorem levels_nonneg_until_wrapped_summit :
    (run { indent := {} } summit).Wraps .deeper ∧
    ((run { indent := {} } summit).apply .deeper).level = Int64.minValue ∧
    summit.countP Op.rises = 1 ∧
    0 ≤ (run { indent := {} } summit).level ∧
    (run { indent := {} } (summit ++ [.setLevel 0])).AsksBelow .closeBlock ∧
    ((run { indent := {} } (summit ++ [.setLevel 0])).apply .closeBlock).level = 0 := by
  have hwraps : (run { indent := {} } summit).Wraps .deeper := ⟨rfl, by decide⟩
  have hset : ∀ n, Op.setLevel n ∈ summit → n.toInt ≤ ((9223372036854775806 : Nat) : Int) := by
    intro n hn
    have hlevel : n = 9223372036854775806 := by simpa [summit] using hn
    rw [hlevel]
    decide
  have hbelow : (run { indent := {} } (summit ++ [.setLevel 0])).AsksBelow .closeBlock := by
    show (run { indent := {} } (summit ++ [.setLevel 0])).level = 0
    decide
  obtain ⟨-, hleast, hcounted, -⟩ := levels_nonneg_until_wrapped {} summit
  obtain ⟨-, -, -, hrejected⟩ := levels_nonneg_until_wrapped {} (summit ++ [.setLevel 0])
  refine ⟨hwraps, hleast _ hwraps, rfl, hcounted 9223372036854775806 hset (by decide), hbelow, ?_⟩
  exact (hrejected _ hbelow).1

/-- One level deeper than the last one is below the outermost one, and no error tells of it. -/
theorem deeper_than_last_is_negative :
    let w := run { indent := {} } [.setLevel 9223372036854775807, .deeper]
    w.level < 0 ∧ w.error = none := by decide

end ProtoRecovery.Writer
