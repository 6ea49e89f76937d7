import ProtoRecovery.Proofs.Outline.Rows
import ProtoRecovery.Proofs.Outline.View
import ProtoRecovery.Render

/-! # What a rendering gives: the rows of what a file shows, or its first fault -/
namespace ProtoRecovery
open Outline

/-- The rows a file is rendered as. -/
def renderedRows (o : RenderOptions) (f : Schema.File) : List Row := (shownFile o.toStyle f).rows o.order

/-- The writer after all of a file has been written. -/
def written (o : RenderOptions) (outline : Outline.File) : Writer :=
  Writer.run { indent := o.indent } (outline.script o.order)

theorem render_eq (o : RenderOptions) (f : Schema.File) :
    render o f = match firstFault f with
      | some fault => .error ⟨Schema.textOf f.name, .schema fault⟩
      | none => (written o (shownFile o.toStyle f)).result.mapError fun e => ⟨Schema.textOf f.name, .layout e⟩ := by
  unfold render
  rw [ofFile_eq]
  cases firstFault f with
  | some fault => rfl
  | none =>
    simp only [verdict, written]
    cases (Writer.run { indent := o.indent } ((shownFile o.toStyle f).script o.order)).result <;> rfl

theorem written_cases (o : RenderOptions) (f : Schema.File) :
    written o (shownFile o.toStyle f) =
        { indent := o.indent, written := ((renderedRows o f).flatMap (Row.text o.indent)).reverse } ∨
      (∃ e, (written o (shownFile o.toStyle f)).error = some e) ∧
        ∃ r ∈ renderedRows o f, Row.depthLimit ≤ r.depth := by
  have h := File.lays o.order (shownFile o.toStyle f) { indent := o.indent } rfl rfl
  rcases h with h | h
  · left
    rw [written, h]
    simp [Writer.append, List.reverseAux_eq, renderedRows]
  · exact .inr h

/-- A text that is rendered has no fault and consists of the rows. -/
theorem text_of_render {o : RenderOptions} {f : Schema.File} {t : Bytes} (h : render o f = .ok t) :
    firstFault f = none ∧ t = (renderedRows o f).flatMap (Row.text o.indent) := by
  rw [render_eq] at h
  cases hf : firstFault f with
  | some fault =>
    rw [hf] at h
    cases h
  | none =>
    rw [hf] at h
    rcases written_cases o f with hw | ⟨⟨e, he⟩, -⟩
    · rw [hw] at h
      refine ⟨rfl, ?_⟩
      simpa [Writer.result, Writer.text, Except.mapError, eq_comm] using h
    · simp [Writer.result, he, Except.mapError] at h

end ProtoRecovery
