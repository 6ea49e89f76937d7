import Mathlib.Data.List.Chain
import ProtoRecovery.Proofs.Layout.Rows

/-! # Balanced rows: blocks that are closed again, and where empty lines may stand -/
namespace ProtoRecovery

/-- Rows that lead from one depth to another. A line stands at the depth of the blocks around it,
those that it closes not counted. -/
inductive Walk : Nat → List Row → Nat → Prop
  | nil (d : Nat) : Walk d [] d
  | empty {d rows e} : Walk d rows e → Walk d (.empty :: rows) e
  | statement {d rows e} (s : Bytes) : Bytes.newline ∉ s → Walk d rows e → Walk d (.line d (s ++ [0x3b]) :: rows) e
  | opening {d rows e} (s : Bytes) : Bytes.newline ∉ s → Walk (d + 1) rows e →
      Walk d (.line d (s ++ [0x20, 0x7b]) :: rows) e
  | closing {d rows e} : Walk d rows e → Walk (d + 1) (Row.closing d :: rows) e

theorem Walk.append {a b c : Nat} {r s : List Row} (hr : Walk a r b) (hs : Walk b s c) : Walk a (r ++ s) c := by
  induction hr with
  | nil => exact hs
  | empty _ ih => exact .empty (ih hs)
  | statement s hn _ ih => exact .statement s hn (ih hs)
  | opening s hn _ ih => exact .opening s hn (ih hs)
  | closing _ ih => exact .closing (ih hs)

/-- After an empty line stands a line that closes nothing. -/
def Row.Follows (a b : Row) : Prop := a = .empty → b ≠ .empty ∧ b.content ≠ utf8 "\x7d"

theorem Row.follows_line {d : Nat} {t : Bytes} {b : Row} : (Row.line d t).Follows b := fun h => by cases h

/-- Rows that come back to their depth and end with a line, and in which empty lines stand well. -/
structure Run (d : Nat) (rows : List Row) : Prop where
  walk : Walk d rows d
  chain : rows.IsChain Row.Follows
  ends : rows.getLast? ≠ some .empty

namespace Run

theorem nil (d : Nat) : Run d [] := ⟨.nil d, .nil, by simp⟩

theorem append {d : Nat} {r s : List Row} (hr : Run d r) (hs : Run d s) : Run d (r ++ s) := by
  refine ⟨hr.walk.append hs.walk, hr.chain.append hs.chain ?_, ?_⟩
  · intro x hx y _ he
    exact absurd (he ▸ hx) hr.ends
  · rw [List.getLast?_append]
    intro h
    rcases Option.or_eq_some_iff.1 h with h | ⟨-, h⟩
    · exact hs.ends h
    · exact hr.ends h

theorem statement (d : Nat) {s : Bytes} (h : Bytes.newline ∉ s) : Run d [.line d (s ++ [0x3b])] :=
  ⟨.statement s h (.nil d), .singleton _, by simp⟩

theorem flatMap {α : Type} {d : Nat} {rows : α → List Row} {xs : List α} (h : ∀ x ∈ xs, Run d (rows x)) :
    Run d (xs.flatMap rows) := by
  induction xs with
  | nil => exact .nil d
  | cons x xs ih =>
    obtain ⟨hx, hxs⟩ := List.forall_mem_cons.1 h
    simpa only [List.flatMap_cons] using hx.append (ih hxs)

/-- A block is balanced when its content is, one level deeper. -/
theorem block (d : Nat) {s : Bytes} (h : Bytes.newline ∉ s) {rows : List Row} (hr : Run (d + 1) rows) :
    Run d (.line d (s ++ [0x20, 0x7b]) :: rows ++ [Row.closing d]) := by
  have hclose : Walk (d + 1) [Row.closing d] d := .closing (.nil d)
  refine ⟨.opening s h (hr.walk.append hclose), ?_, ?_⟩
  · have hlast : ∀ x ∈ rows.getLast?, ∀ y ∈ [Row.closing d].head?, x.Follows y := by
      intro x hx y _ he
      exact absurd (he ▸ hx) hr.ends
    exact (hr.chain.append (.singleton _) hlast).cons fun y _ => Row.follows_line
  · rw [List.cons_append, ← List.cons_append, List.getLast?_concat]
    simp [Row.closing]

/-- An empty line may stand before a block. -/
theorem gap {d : Nat} {t : Bytes} {rows : List Row} (ht : t ≠ utf8 "\x7d") (h : Run d (.line d t :: rows)) :
    Run d (.empty :: .line d t :: rows) := by
  refine ⟨.empty h.walk, h.chain.cons fun y hy _ => ?_, ?_⟩
  · cases hy
    exact ⟨by simp, ht⟩
  · rw [List.getLast?_cons_cons]
    exact h.ends

end Run
end ProtoRecovery
