import Mathlib.Data.List.Basic

/-! # Tables: lists of pairs in which a key has one entry -/
namespace ProtoRecovery.Tables
variable {α β : Type} [BEq α] [LawfulBEq α]

theorem lookup_filter_ne (table : List (α × β)) {key other : α} (h : other ≠ key) :
    (table.filter fun entry => entry.1 != key).lookup other = table.lookup other := by
  induction table with
  | nil => rfl
  | cons entry table ih =>
    rw [List.filter_cons]
    split
    · rw [List.lookup_cons, List.lookup_cons, ih]
    · next hkey =>
      have hne : (other == entry.1) = false := beq_eq_false_iff_ne.2 fun he => hkey (bne_iff_ne.2 (he ▸ h))
      rw [List.lookup_cons, hne, ih]

/-- An entry that takes the place of all with its key. -/
theorem lookup_replace [DecidableEq α] (table : List (α × β)) (key : α) (value : β) (other : α) :
    ((key, value) :: table.filter fun entry => entry.1 != key).lookup other =
      if other = key then some value else table.lookup other := by
  rw [List.lookup_cons]
  split
  · next h => rw [if_pos (eq_of_beq h)]
  · next h =>
    have hne : other ≠ key := beq_eq_false_iff_ne.1 h
    rw [if_neg hne, lookup_filter_ne table hne]

/-- Where no two entries share a key, a look-up finds exactly the entries. -/
theorem lookup_eq_some_iff {table : List (α × β)} (distinct : ∀ a ∈ table, ∀ b ∈ table, a.1 = b.1 → a = b) {key : α}
    {value : β} : table.lookup key = some value ↔ (key, value) ∈ table := by
  induction table with
  | nil => simp
  | cons entry table ih =>
    rw [List.lookup_cons]
    split
    · next h =>
      have hkey : key = entry.1 := eq_of_beq h
      constructor
      · intro hvalue
        rw [hkey, ← Option.some.inj hvalue]
        exact List.mem_cons_self
      · intro hmem
        rw [distinct entry List.mem_cons_self _ hmem hkey.symm]
    · next h =>
      have hne : (key, value) ≠ entry := fun e => beq_eq_false_iff_ne.1 h (congrArg Prod.fst e)
      rw [ih fun a ha b hb => distinct a (List.mem_cons_of_mem _ ha) b (List.mem_cons_of_mem _ hb), List.mem_cons,
        or_iff_right hne]

end ProtoRecovery.Tables
