import ProtoRecovery.Disk.Path
import ProtoRecovery.Proofs.Text.Splitting

/-! # Cleaning of paths: the shape of a cleaned path, and paths below a base -/
namespace ProtoRecovery.Path
variable {rooted : Bool} {stack : List Bytes} {part t : Bytes} {p q : Path}

/-- Components in order, the last being first: each is a name, those that go up stand before all others,
and at the root there are none of these. -/
structure Tidy (rooted : Bool) (stack : List Bytes) : Prop where
  named : ∀ part ∈ stack, part ≠ [] ∧ part ≠ here ∧ Bytes.slash ∉ part
  ups : stack.Pairwise fun later earlier => later = up → earlier = up
  below : rooted = true → up ∉ stack

theorem Tidy.nil (rooted : Bool) : Tidy rooted [] := ⟨by simp, .nil, by simp⟩

theorem Tidy.tail (h : Tidy rooted (part :: stack)) : Tidy rooted stack where
  named := fun a ha => h.named a (List.mem_cons_of_mem part ha)
  ups := h.ups.of_cons
  below := fun hr hm => h.below hr (List.mem_cons_of_mem part hm)

theorem Tidy.of_append {above : List Bytes} (h : Tidy rooted (above ++ stack)) : Tidy rooted stack := by
  induction above with
  | nil => exact h
  | cons part above ih => exact ih h.tail

private theorem up_named : up ≠ [] ∧ up ≠ here ∧ Bytes.slash ∉ up := by decide

theorem Tidy.step (h : Tidy rooted stack) (hp : Bytes.slash ∉ part) : Tidy rooted (step rooted stack part) := by
  unfold Path.step
  split
  · exact h
  · next hname =>
    have named : part ≠ [] ∧ part ≠ here ∧ Bytes.slash ∉ part := by simpa [hp] using hname
    split
    · cases stack with
      | nil =>
        cases rooted with
        | true => exact h
        | false => exact ⟨by simpa using up_named, List.pairwise_singleton _ _, by simp⟩
      | cons last before =>
        dsimp only
        split
        · next hlast =>
          subst hlast
          refine ⟨List.forall_mem_cons.2 ⟨up_named, h.named⟩, List.pairwise_cons.2 ⟨fun a ha _ => ?_, h.ups⟩, ?_⟩
          · rcases List.mem_cons.1 ha with rfl | ha
            · rfl
            · exact (List.pairwise_cons.1 h.ups).1 a ha rfl
          · exact fun hr => absurd List.mem_cons_self (h.below hr)
        · exact h.tail
    · next hup =>
      refine ⟨List.forall_mem_cons.2 ⟨named, h.named⟩, List.pairwise_cons.2 ⟨fun _ _ e => absurd e hup, h.ups⟩, ?_⟩
      intro hr hm
      rcases List.mem_cons.1 hm with rfl | hm
      · exact hup rfl
      · exact h.below hr hm

theorem Tidy.foldl {parts : List Bytes} (h : Tidy rooted stack) (hp : ∀ part ∈ parts, Bytes.slash ∉ part) :
    Tidy rooted (parts.foldl (Path.step rooted) stack) := by
  induction parts generalizing stack with
  | nil => exact h
  | cons part parts ih =>
    obtain ⟨hpart, hparts⟩ := List.forall_mem_cons.1 hp
    exact ih (h.step hpart) hparts

/-- A component that fits is put on top. -/
theorem Tidy.step_eq (h : Tidy rooted (part :: stack)) : Path.step rooted stack part = part :: stack := by
  obtain ⟨hne, hhere, -⟩ := h.named part List.mem_cons_self
  have hname : ¬ ((decide (part = []) || decide (part = here)) = true) := by simp [hne, hhere]
  unfold Path.step
  rw [if_neg hname]
  split
  · next hup =>
    subst hup
    cases stack with
    | nil =>
      cases rooted with
      | true => exact absurd List.mem_cons_self (h.below rfl)
      | false => rfl
    | cons last before =>
      have hlast : last = up := (List.pairwise_cons.1 h.ups).1 last List.mem_cons_self rfl
      simp [hlast]
  · rfl

/-- Components that fit are put on top of each other. -/
theorem Tidy.foldl_eq {parts : List Bytes} (h : Tidy rooted (parts.reverse ++ stack)) :
    parts.foldl (Path.step rooted) stack = parts.reverse ++ stack := by
  induction parts generalizing stack with
  | nil => rfl
  | cons part parts ih =>
    have h' : Tidy rooted (parts.reverse ++ part :: stack) := by simpa using h
    rw [List.foldl_cons, h'.of_append.step_eq, ih h', List.reverse_cons, List.append_assoc, List.singleton_append]

/-- The paths that cleaning gives. -/
def Cleaned (p : Path) : Prop := Tidy p.rooted p.parts.reverse

theorem clean_cleaned (t : Bytes) : (clean t).Cleaned := by
  have h : Tidy (t.head? == some Bytes.slash)
      ((Bytes.split Bytes.slash t).foldl (Path.step (t.head? == some Bytes.slash)) []) :=
    (Tidy.nil _).foldl fun part hp => Bytes.notMem_of_mem_split hp
  simpa [Cleaned, clean] using h

theorem Cleaned.named (h : p.Cleaned) : ∀ part ∈ p.parts, part ≠ [] ∧ part ≠ here ∧ Bytes.slash ∉ part :=
  fun part hp => Tidy.named h part (List.mem_reverse.2 hp)

/-- A cleaned path that goes up does so at once. -/
theorem Cleaned.head?_eq_up (h : p.Cleaned) : p.parts.head? = some up ↔ up ∈ p.parts := by
  constructor
  · exact List.mem_of_mem_head?
  · intro hm
    have ups : p.parts.Pairwise fun earlier later => later = up → earlier = up := by
      simpa using List.pairwise_reverse.1 (Tidy.ups h)
    cases hp : p.parts with
    | nil => simp [hp] at hm
    | cons first rest =>
      rw [hp] at hm ups
      rcases List.mem_cons.1 hm with rfl | hm
      · rfl
      · rw [List.head?_cons, (List.pairwise_cons.1 ups).1 up hm rfl]

/-- The bytes before the first slash decide whether a path starts at the root. -/
theorem head?_join {parts : List Bytes} (named : ∀ part ∈ parts, part ≠ [] ∧ part ≠ here ∧ Bytes.slash ∉ part) :
    (Bytes.join Bytes.slash parts).head? ≠ some Bytes.slash := by
  cases parts with
  | nil => simp [Bytes.join]
  | cons first rest =>
    obtain ⟨hne, -, hslash⟩ := named first List.mem_cons_self
    obtain ⟨b, first, rfl⟩ := List.exists_cons_of_ne_nil hne
    have hb : b ≠ Bytes.slash := fun e => hslash (e ▸ List.mem_cons_self)
    cases rest <;> simpa [Bytes.join] using hb

/-- The spelling of components is read as them. -/
theorem foldl_split_join {parts : List Bytes} (h : Tidy rooted parts.reverse) :
    (Bytes.split Bytes.slash (Bytes.join Bytes.slash parts)).foldl (Path.step rooted) [] = parts.reverse := by
  cases parts with
  | nil => rfl
  | cons first rest =>
    rw [Bytes.split_join (by simp) fun part hp => (h.named part (List.mem_reverse.2 hp)).2.2,
      Tidy.foldl_eq (by simpa using h), List.append_nil]

/-- A cleaned path is the cleaned form of its spelling. -/
theorem clean_text (h : p.Cleaned) : clean p.text = p := by
  obtain ⟨rooted, parts⟩ := p
  have h : Tidy rooted parts.reverse := h
  cases rooted with
  | true =>
    simp only [text, clean, if_true, List.head?_cons, beq_self_eq_true]
    rw [Bytes.split, if_pos rfl, List.foldl_cons, show step true [] [] = [] from rfl, foldl_split_join h,
      List.reverse_reverse]
  | false =>
    cases parts with
    | nil => rfl
    | cons first rest =>
      have hhead : ((Bytes.join Bytes.slash (first :: rest)).head? == some Bytes.slash) = false :=
        beq_eq_false_iff_ne.2 (head?_join fun part hp => h.named part (List.mem_reverse.2 hp))
      simp only [text, clean, Bool.false_eq_true, if_false, List.isEmpty_cons, hhead]
      rw [foldl_split_join h, List.reverse_reverse]

theorem Cleaned.text_inj (hp : p.Cleaned) (hq : q.Cleaned) : p.text = q.text ↔ p = q :=
  ⟨fun h => by rw [← clean_text hp, h, clean_text hq], congrArg text⟩

/-- A component that goes up above the start is never taken back. -/
theorem up_mem_foldl {parts : List Bytes} (h : up ∈ stack) : up ∈ parts.foldl (Path.step rooted) stack := by
  induction parts generalizing stack with
  | nil => exact h
  | cons part parts ih =>
    refine ih ?_
    unfold Path.step
    split
    · exact h
    · split
      · cases stack with
        | nil => simp at h
        | cons last before =>
          dsimp only
          split
          · exact List.mem_cons_self
          · next hlast => exact (List.mem_cons.1 h).resolve_left fun e => hlast e.symm
      · exact List.mem_cons_of_mem part h

/-- Components that never go up above their start leave alone what stands below them. -/
theorem foldl_step_append (rooted : Bool) (stack : List Bytes) {parts own : List Bytes}
    (h : up ∉ parts.foldl (Path.step false) own) :
    parts.foldl (Path.step rooted) (own ++ stack) = parts.foldl (Path.step false) own ++ stack := by
  induction parts generalizing own with
  | nil => rfl
  | cons part parts ih =>
    rw [List.foldl_cons] at h
    have hown : up ∉ Path.step false own part := fun hm => h (up_mem_foldl hm)
    rw [List.foldl_cons, List.foldl_cons, ← ih h]
    congr 1
    revert hown
    unfold Path.step
    split
    · exact fun _ => rfl
    · split
      · cases own with
        | nil => simp
        | cons last before =>
          rw [List.cons_append]
          dsimp only
          split
          · simp
          · exact fun _ => rfl
      · exact fun _ => rfl

/-- What follows a base is cleaned on top of it. -/
theorem clean_append {base : Bytes} (hbase : base ≠ []) (t : Bytes) : clean (base ++ Bytes.slash :: t) =
    ⟨(clean base).rooted,
      ((Bytes.split Bytes.slash t).foldl (Path.step (clean base).rooted) (clean base).parts.reverse).reverse⟩ := by
  unfold clean
  rw [List.head?_append_of_ne_nil _ hbase, Bytes.split_append]
  simp only [List.foldl_append, List.reverse_reverse]

/-- A path that stays where it starts has its components below those of the base. -/
theorem join_eq (base : Bytes) (relative : (clean t).rooted = false) (stays : up ∉ (clean t).parts) :
    join base t = ⟨(clean base).rooted, (clean base).parts ++ (clean t).parts⟩ := by
  unfold join
  split
  · next hbase =>
    rw [List.isEmpty_iff.1 hbase, show clean [] = ⟨false, []⟩ from rfl, ← relative, List.nil_append]
  · next hbase =>
    have own : (Bytes.split Bytes.slash t).foldl (Path.step false) [] = (clean t).parts.reverse := by
      rw [← relative, clean, List.reverse_reverse]
    have within : up ∉ (Bytes.split Bytes.slash t).foldl (Path.step false) [] := by
      rw [own]
      simpa using stays
    have below := foldl_step_append (clean base).rooted (clean base).parts.reverse within
    rw [List.nil_append, own] at below
    rw [clean_append (by simpa using hbase), below, List.reverse_append, List.reverse_reverse, List.reverse_reverse]

/-- A path stays where it starts unless it is empty, starts at the root, or goes up at once. -/
theorem isLocal_iff : isLocal t = true ↔ t ≠ [] ∧ (clean t).rooted = false ∧ up ∉ (clean t).parts := by
  simp [isLocal, ← (clean_cleaned t).head?_eq_up, and_assoc]

/-- Whether a cleaned path goes up is seen from its spelling. -/
theorem Cleaned.text_goes_up (h : p.Cleaned) (relative : p.rooted = false) :
    p.text = up ∨ utf8 "../" <+: p.text ↔ up ∈ p.parts := by
  have lead : utf8 "../" = up ++ [Bytes.slash] := by decide
  constructor
  · rintro (htext | ⟨rest, htext⟩)
    · rw [← clean_text h, htext]
      decide
    · rw [← clean_text h, ← htext, lead, List.append_assoc, List.singleton_append,
        clean_append (by decide), List.mem_reverse]
      exact up_mem_foldl (by decide)
  · intro hm
    obtain ⟨rest, hparts⟩ := List.head?_eq_some_iff.1 (h.head?_eq_up.2 hm)
    simp only [text, relative, hparts, Bool.false_eq_true, if_false, List.isEmpty_cons]
    cases rest with
    | nil => exact .inl rfl
    | cons next rest => exact .inr ⟨Bytes.join Bytes.slash (next :: rest), by rw [lead, Bytes.join]; simp⟩

end ProtoRecovery.Path
