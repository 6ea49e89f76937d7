import ProtoRecovery.Proofs.Render.Margins
import ProtoRecovery.Sink.Stream

/-! # Recovery: a stream holds the sections that were written, and gives them back -/
namespace ProtoRecovery
open Outline

/-- A text that is to be written under a name. -/
structure Call where
  cancelled : Bool
  name : Bytes
  text : Bytes

/-- Calls of a sink, one after another: the names and texts that it takes, and the state that it ends in. -/
def Sink.perform {σ : Type} (sink : Sink σ) : (calls : List Call) → σ → List (Bytes × Bytes) × σ
  | [], s => ([], s)
  | call :: calls, s =>
    match sink.write call.cancelled call.name call.text s with
    | (none, s) => ((call.name, call.text) :: (sink.perform calls s).1, (sink.perform calls s).2)
    | (some _, s) => sink.perform calls s

namespace Stream

/-- Sections with an empty line between neighbours. -/
def joined (sections : List (Bytes × Bytes)) : Bytes :=
  List.intercalate [Bytes.newline] (sections.map fun x => titled x.1 x.2)

theorem joined_cons (x : Bytes × Bytes) (sections : List (Bytes × Bytes)) :
    joined (x :: sections) = titled x.1 x.2 ++ sections.flatMap fun y => Bytes.newline :: titled y.1 y.2 := by
  rw [joined, List.map_cons, intercalate_cons, List.flatMap_map]

/-- The stream after some sections have been taken. -/
def holding (sections : List (Bytes × Bytes)) (attempts : Nat) : Stream :=
  { content := joined sections, sections := sections.length, attempts }

theorem joined_concat (sections : List (Bytes × Bytes)) (name text : Bytes) (attempts : Nat) :
    joined (sections ++ [(name, text)]) =
      joined sections ++ (holding sections attempts).separator ++ titled name text := by
  cases sections with
  | nil => simp [joined, separator, holding]
  | cons first rest => simp [joined_cons, separator, holding]

/-- A call adds a section to those that the stream holds, or none. -/
theorem write_holding (fails : Nat → Bool) (cancelled : Bool) (name text : Bytes) (sections : List (Bytes × Bytes))
    (attempts : Nat) : (sink fails).write cancelled name text (holding sections attempts) =
      if fails attempts then (some .brokenStream, holding sections (attempts + 1))
      else (none, holding (sections ++ [(name, text)]) (attempts + 1)) := by
  have hholding : holding (sections ++ [(name, text)]) (attempts + 1) =
      { content := joined sections ++ (holding sections attempts).separator ++ titled name text
        sections := sections.length + 1
        attempts := attempts + 1 } := by
    rw [holding, ← joined_concat, List.length_append, List.length_singleton]
  rw [hholding]
  rfl

theorem perform_holding (fails : Nat → Bool) (calls : List Call) (sections : List (Bytes × Bytes)) (attempts : Nat) :
    ((sink fails).perform calls (holding sections attempts)).2 =
      holding (sections ++ ((sink fails).perform calls (holding sections attempts)).1) (attempts + calls.length) := by
  -- What is held grows with each call that succeeds, so it is general in the induction.
  induction calls generalizing sections attempts with
  | nil => simp [Sink.perform]
  | cons call calls ih =>
    rw [Sink.perform, write_holding, List.length_cons, Nat.add_comm calls.length, ← Nat.add_assoc]
    by_cases hfails : fails attempts = true
    · rw [if_pos hfails]
      exact ih sections (attempts + 1)
    · rw [if_neg hfails]
      simpa using ih (sections ++ [(call.name, call.text)]) (attempts + 1)

/-- Lines by the headings before them; those before the first heading stand apart. -/
def gather : (lines : List Bytes) → List Bytes × List (Bytes × List Bytes)
  | [] => ([], [])
  | line :: lines =>
    match Bytes.after? (utf8 "// ") line with
    | some name => ([], (name, (gather lines).1) :: (gather lines).2)
    | none => (line :: (gather lines).1, (gather lines).2)

/-- The names and texts in a content. The last line of a section is the empty one that ends it. -/
def recover (content : Bytes) : List (Bytes × Bytes) :=
  (gather (Bytes.split Bytes.newline content)).2.map fun x => (x.1, x.2.dropLast.flatMap (· ++ [Bytes.newline]))

/-- Lines none of which is a heading, followed by others. -/
theorem gather_append {lines : List Bytes} (h : ∀ line ∈ lines, line.head? ≠ some Bytes.slash) (rest : List Bytes) :
    gather (lines ++ rest) = (lines ++ (gather rest).1, (gather rest).2) := by
  induction lines with
  | nil => rfl
  | cons line lines ih =>
    obtain ⟨hline, hlines⟩ := List.forall_mem_cons.1 h
    have hnone : Bytes.after? (utf8 "// ") line = none := by
      rw [Option.eq_none_iff_forall_ne_some]
      intro name hname
      rw [Bytes.after?_eq_some.1 hname] at hline
      exact hline rfl
    rw [List.cons_append, gather, hnone, ih hlines]
    rfl

theorem gather_heading (name : Bytes) (lines : List Bytes) :
    gather ((utf8 "// " ++ name) :: lines) = ([], (name, (gather lines).1) :: (gather lines).2) := by
  rw [gather, Bytes.after?_eq_some.2 rfl]

/-- What can be told apart in a stream: a name of one line, and a text whose lines are no headings. -/
def Separable (x : Bytes × Bytes) : Prop :=
  Bytes.newline ∉ x.1 ∧ ∃ lines : List Bytes, x.2 = lines.flatMap (· ++ [Bytes.newline]) ∧
    ∀ line ∈ lines, Bytes.newline ∉ line ∧ line.head? ≠ some Bytes.slash

section
variable {x : Bytes × Bytes} {sections : List (Bytes × Bytes)}

/-- The lines of a section up to an empty one are those of its text. -/
theorem Separable.gather_titled (h : Separable x) {rest : Bytes} {others : List (Bytes × List Bytes)}
    (hrest : gather (Bytes.split Bytes.newline rest) = ([[]], others)) :
    gather (Bytes.split Bytes.newline (titled x.1 x.2 ++ rest)) =
      ([], (x.1, Bytes.split Bytes.newline x.2) :: others) := by
  obtain ⟨hname, lines, htext, hlines⟩ := h
  have hunbroken : ∀ line ∈ lines, Bytes.newline ∉ line := fun line hline => (hlines line hline).1
  have hheading : Bytes.newline ∉ utf8 "// " ++ x.1 := by
    simpa using ⟨by decide, hname⟩
  -- After the heading and the lines of the text, the first line of the rest is the empty one.
  rw [titled, List.append_assoc, List.cons_append, Bytes.split_append_cons hheading, gather_heading, htext,
    Bytes.split_text hunbroken, Bytes.split_lines hunbroken, gather_append fun line hline => (hlines line hline).2, hrest]

/-- Sections with an empty line before each. -/
theorem gather_sections (h : ∀ x ∈ sections, Separable x) :
    gather (Bytes.split Bytes.newline (sections.flatMap fun x => Bytes.newline :: titled x.1 x.2)) =
      ([[]], sections.map fun x => (x.1, Bytes.split Bytes.newline x.2)) := by
  induction sections with
  | nil => rfl
  | cons x sections ih =>
    obtain ⟨hx, hsections⟩ := List.forall_mem_cons.1 h
    rw [List.flatMap_cons, List.cons_append, Bytes.split, if_pos rfl, gather, hx.gather_titled (ih hsections)]
    rfl

theorem Separable.text_eq (h : Separable x) :
    (Bytes.split Bytes.newline x.2).dropLast.flatMap (· ++ [Bytes.newline]) = x.2 := by
  obtain ⟨-, lines, htext, hlines⟩ := h
  rw [htext, Bytes.split_text fun line hline => (hlines line hline).1, List.dropLast_concat]

theorem recover_joined (h : ∀ x ∈ sections, Separable x) : recover (joined sections) = sections := by
  cases sections with
  | nil => rfl
  | cons x sections =>
    obtain ⟨hx, hsections⟩ := List.forall_mem_cons.1 h
    have hgather : (gather (Bytes.split Bytes.newline (joined (x :: sections)))).2 =
        (x :: sections).map fun y => (y.1, Bytes.split Bytes.newline y.2) := by
      rw [joined_cons, hx.gather_titled (gather_sections hsections), List.map_cons]
    rw [recover, hgather, List.map_map]
    refine (List.map_congr_left fun y hy => ?_).trans (List.map_id _)
    rw [Function.comp_apply, (h y hy).text_eq]
    rfl

theorem separable_of_rendering (h : Bytes.newline ∉ x.1 ∧ IsRendering x.2) : Separable x := ⟨h.1, h.2.lines⟩

end

/-- A new stream holds, after any calls, the sections of those that succeeded, in their order and with one newline
between them. Where their names break no line and their texts are renderings, they are recovered from the content, and
no other such sections have the same content. -/
theorem stream_recovered (fails : Nat → Bool) (calls : List Call) :
    let sections := ((sink fails).perform calls {}).1
    let content := ((sink fails).perform calls {}).2.content
    content = List.intercalate [Bytes.newline] (sections.map fun x => titled x.1 x.2) ∧
    ((∀ x ∈ sections, Bytes.newline ∉ x.1 ∧ IsRendering x.2) →
      recover content = sections ∧
      ∀ fails' calls',
        let others := ((sink fails').perform calls' {}).1
        (∀ x ∈ others, Bytes.newline ∉ x.1 ∧ IsRendering x.2) →
        others ≠ sections → ((sink fails').perform calls' {}).2.content ≠ content) := by
  have hcontent : ∀ fails calls, ((sink fails).perform calls {}).2.content = joined ((sink fails).perform calls {}).1 := by
    intro fails calls
    have hperform := perform_holding fails calls [] 0
    exact congrArg content hperform
  have hrecover : ∀ {fails calls}, (∀ x ∈ ((sink fails).perform calls {}).1, Bytes.newline ∉ x.1 ∧ IsRendering x.2) →
      recover ((sink fails).perform calls {}).2.content = ((sink fails).perform calls {}).1 := by
    intro fails calls h
    rw [hcontent]
    exact recover_joined fun x hx => separable_of_rendering (h x hx)
  refine ⟨hcontent fails calls, fun h => ⟨hrecover h, fun fails' calls' h' hne heq => hne ?_⟩⟩
  rw [← hrecover h, ← hrecover h', heq]

private def ledger : Schema.File where
  package := some (utf8 "books")
  messages := [some {
    name := some (utf8 "Page")
    fields := [some { name := some (utf8 "x"), number := some 1, typeName := some (utf8 "// y") }] }]

private def ledgerText : Bytes :=
  ["package books;", "", "message Page \x7b", "    // y x = 1;", "\x7d"].flatMap fun line => utf8 line ++ [Bytes.newline]

private def ledgerCalls : List Call :=
  [⟨false, utf8 "a", ledgerText⟩, ⟨true, utf8 "b", ledgerText⟩, ⟨false, utf8 "c", []⟩]

/-- The second of three calls fails, and an indented line looks like a heading. -/
theorem stream_recovered_ledger :
    let fails := fun n => n == 1
    ((sink fails).perform ledgerCalls {}).1 = [(utf8 "a", ledgerText), (utf8 "c", [])] ∧
    recover ((sink fails).perform ledgerCalls {}).2.content = [(utf8 "a", ledgerText), (utf8 "c", [])] ∧
    ((sink fun _ => false).perform ledgerCalls {}).2.content ≠ ((sink fails).perform ledgerCalls {}).2.content := by
  intro fails
  obtain ⟨-, hrecovered⟩ := stream_recovered fails ledgerCalls
  have htaken : ((sink fails).perform ledgerCalls {}).1 = [(utf8 "a", ledgerText), (utf8 "c", [])] := by decide +kernel
  have hall : ((sink fun _ => false).perform ledgerCalls {}).1 =
      [(utf8 "a", ledgerText), (utf8 "b", ledgerText), (utf8 "c", [])] := by decide +kernel
  have hledger : IsRendering ledgerText := ⟨{}, ledger, by decide +kernel, by decide, by decide⟩
  have hnone : IsRendering [] := ⟨{}, {}, by decide +kernel, by decide, by decide⟩
  obtain ⟨hrecover, hother⟩ := hrecovered (by
    rw [htaken]
    simpa using ⟨⟨by decide, hledger⟩, by decide, hnone⟩)
  refine ⟨htaken, hrecover.trans htaken, hother _ _ ?_ ?_⟩
  · rw [hall]
    simpa using ⟨⟨by decide, hledger⟩, ⟨by decide, hledger⟩, by decide, hnone⟩
  · rw [hall, htaken]
    decide +kernel

end Stream
end ProtoRecovery
