import Mathlib.Data.List.Perm.Basic
import ProtoRecovery.Text.Bytes

/-! # Byte order: entries in the order of distinct keys are in one order only -/
namespace ProtoRecovery.Bytes

theorem le_antisymm {a b : Bytes} (hab : le a b) (hba : le b a) : a = b := by
  induction a generalizing b with
  | nil =>
    cases b with
    | nil => rfl
    | cons y b => simp [le] at hba
  | cons x a ih =>
    cases b with
    | nil => simp [le] at hab
    | cons y b => grind [le]

/-- Only one order of entries is that of their keys, if no two share a key. -/
theorem eq_of_sorted {α : Type} (key : α → Bytes) {l m : List α} (hl : l.Pairwise fun a b => le (key a) (key b))
    (hm : m.Pairwise fun a b => le (key a) (key b)) (same : l.Perm m)
    (distinct : ∀ a ∈ l, ∀ b ∈ l, key a = key b → a = b) : l = m :=
  same.eq_of_pairwise
    (fun a b ha hb hab hba => distinct a ha b (same.mem_iff.2 hb) (le_antisymm hab hba)) hl hm

end ProtoRecovery.Bytes
