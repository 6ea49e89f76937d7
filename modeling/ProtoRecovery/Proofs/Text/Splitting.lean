import Mathlib.Data.List.Basic
import ProtoRecovery.Text.Bytes

/-! # Splitting and joining: pieces without the separator come back -/
namespace ProtoRecovery.Bytes
variable {sep : UInt8}

theorem split_ne_nil (t : Bytes) : split sep t ≠ [] := by
  cases t with
  | nil => simp [split]
  | cons b t =>
    unfold split
    split
    · simp
    · split <;> simp

theorem split_of_notMem {t : Bytes} (h : sep ∉ t) : split sep t = [t] := by
  induction t with
  | nil => rfl
  | cons b t ih =>
    have hb : b ≠ sep := fun e => h (e ▸ List.mem_cons_self)
    have ht : sep ∉ t := fun m => h (List.mem_cons_of_mem b m)
    simp [split, hb, ih ht]

theorem split_append (a t : Bytes) : split sep (a ++ sep :: t) = split sep a ++ split sep t := by
  induction a with
  | nil => simp [split]
  | cons b a ih =>
    rw [List.cons_append, split, split, ih]
    split
    · rfl
    · cases h : split sep a with
      | nil => exact absurd h (split_ne_nil a)
      | cons piece pieces => rfl

theorem split_append_cons {a : Bytes} (h : sep ∉ a) (t : Bytes) : split sep (a ++ sep :: t) = a :: split sep t := by
  rw [split_append, split_of_notMem h, List.singleton_append]

/-- Lines that end with the separator, followed by more. -/
theorem split_lines {lines : List Bytes} (h : ∀ line ∈ lines, sep ∉ line) (rest : Bytes) :
    split sep (lines.flatMap (· ++ [sep]) ++ rest) = lines ++ split sep rest := by
  induction lines with
  | nil => rfl
  | cons line lines ih =>
    obtain ⟨hline, hlines⟩ := List.forall_mem_cons.1 h
    rw [List.flatMap_cons, List.append_assoc, List.append_assoc, List.singleton_append, split_append_cons hline,
      ih hlines, List.cons_append]

theorem split_text {lines : List Bytes} (h : ∀ line ∈ lines, sep ∉ line) :
    split sep (lines.flatMap (· ++ [sep])) = lines ++ [[]] := by
  simpa [split] using split_lines h []

theorem notMem_of_mem_split {t piece : Bytes} (h : piece ∈ split sep t) : sep ∉ piece := by
  induction t generalizing piece with
  | nil => simp [List.mem_singleton.1 h]
  | cons b t ih =>
    rw [split] at h
    split at h
    · rcases List.mem_cons.1 h with rfl | h
      · simp
      · exact ih h
    · next hb =>
      cases hs : split sep t with
      | nil => exact absurd hs (split_ne_nil t)
      | cons first others =>
        rw [hs] at h ih
        rcases List.mem_cons.1 h with rfl | h
        · simpa [Ne.symm hb] using ih List.mem_cons_self
        · exact ih (List.mem_cons_of_mem first h)

theorem split_join {pieces : List Bytes} (hne : pieces ≠ []) (h : ∀ piece ∈ pieces, sep ∉ piece) :
    split sep (join sep pieces) = pieces := by
  induction pieces with
  | nil => exact absurd rfl hne
  | cons piece pieces ih =>
    obtain ⟨hpiece, hpieces⟩ := List.forall_mem_cons.1 h
    cases pieces with
    | nil => exact split_of_notMem hpiece
    | cons next pieces => rw [join, split_append_cons hpiece, ih (by simp) hpieces]

theorem join_append {pieces more : List Bytes} (hpieces : pieces ≠ []) (hmore : more ≠ []) :
    join sep (pieces ++ more) = join sep pieces ++ sep :: join sep more := by
  induction pieces with
  | nil => exact absurd rfl hpieces
  | cons piece pieces ih =>
    cases pieces with
    | nil =>
      cases more with
      | nil => exact absurd rfl hmore
      | cons next more => rfl
    | cons next pieces =>
      have hjoin : join sep (next :: (pieces ++ more)) = join sep (next :: pieces) ++ sep :: join sep more := ih (by simp)
      rw [List.cons_append, List.cons_append, join, hjoin, join, List.append_assoc, List.cons_append]

theorem join_split (t : Bytes) : join sep (split sep t) = t := by
  induction t with
  | nil => rfl
  | cons b t ih =>
    cases hs : split sep t with
    | nil => exact absurd hs (split_ne_nil t)
    | cons piece pieces =>
      rw [hs] at ih
      rw [split, hs]
      split
      · next hb => rw [join, ih, hb, List.nil_append]
      · cases pieces with
        | nil => exact congrArg (b :: ·) ih
        | cons next pieces => exact congrArg (b :: ·) ih

/-- Pieces that are ended one by one, and pieces that are joined and ended once. -/
theorem flatMap_ended {pieces : List Bytes} (h : pieces ≠ []) : pieces.flatMap (· ++ [sep]) = join sep pieces ++ [sep] := by
  induction pieces with
  | nil => exact absurd rfl h
  | cons piece pieces ih =>
    cases pieces with
    | nil => simp [join]
    | cons next pieces => rw [List.flatMap_cons, ih (by simp), join, List.append_assoc, List.append_assoc,
        List.singleton_append, List.cons_append]

theorem flatMap_split (t : Bytes) : (split sep t).flatMap (· ++ [sep]) = t ++ [sep] := by
  rw [flatMap_ended (split_ne_nil t), join_split]

/-- The pieces of a text come first among those of another exactly if the other is the same text, or goes on
after it with the separator. -/
theorem split_prefix_split_iff {a t : Bytes} : split sep a <+: split sep t ↔ t = a ∨ a ++ [sep] <+: t := by
  constructor
  · rintro ⟨pieces, h⟩
    by_cases hnil : pieces = []
    · rw [hnil, List.append_nil] at h
      exact .inl (by rw [← @join_split sep t, ← h, join_split])
    · refine .inr ⟨join sep pieces, ?_⟩
      rw [← @join_split sep t, ← h, join_append (split_ne_nil a) hnil, join_split, List.append_assoc,
        List.singleton_append]
  · rintro (rfl | ⟨rest, rfl⟩)
    · exact List.prefix_rfl
    · rw [List.append_assoc, List.singleton_append, split_append]
      exact List.prefix_append ..

theorem after?_eq_some {lead t rest : Bytes} : after? lead t = some rest ↔ t = lead ++ rest := by
  induction lead generalizing t with
  | nil => simp [after?]
  | cons a lead ih =>
    cases t with
    | nil => simp [after?]
    | cons b t =>
      rw [after?, List.cons_append, List.cons.injEq, ← ih]
      split
      · next hab => simp [hab]
      · next hab => simp [Ne.symm hab]

theorem startsWith_iff_prefix {lead t : Bytes} : startsWith lead t = true ↔ lead <+: t := by
  simp only [startsWith, Option.isSome_iff_exists, after?_eq_some]
  exact exists_congr fun rest => eq_comm

end ProtoRecovery.Bytes
