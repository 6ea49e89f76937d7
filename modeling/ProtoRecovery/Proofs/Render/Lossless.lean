import ProtoRecovery.Proofs.Outline.Indentation
import ProtoRecovery.Proofs.Render.Text

/-! # A rendered text determines what its file shows -/
namespace ProtoRecovery
open Outline Outline.Token Schema

private theorem isWordByte_of_dotted {b : UInt8} (h : (isNameByte b || b == Bytes.dot) = true) :
    isWordByte b = true := by
  simp only [Bool.or_eq_true, beq_iff_eq] at h
  rcases h with h | rfl
  · simp [isWordByte, h]
  · rfl

/-- Identifiers, and references in full, scan as words. -/
theorem identifiers_give_words {style : Style} (h : style.typeNames = .qualified) :
    Naming.Gives .identifiers style words where
  name t ht := by
    simp only [Naming.identifiers, Bool.and_eq_true, List.all_eq_true] at ht
    refine ⟨by simpa using ht.1, fun b hb => ?_⟩
    simp [isWordByte, ht.2 b hb]
  keyword := isWord_scalar
  reference t hne ht := by
    rw [h]
    exact ⟨hne, fun b hb => isWordByte_of_dotted (List.all_eq_true.1 ht b hb)⟩
  package t ht := fun b hb => isWordByte_of_dotted (List.all_eq_true.1 ht b hb)

theorem spelling_renderedRows {o : RenderOptions} (ho : o.typeNames = .qualified) {f : Schema.File}
    (hn : f.named .identifiers = true) (hf : firstFault f = none) :
    Spelling (renderedRows o f) (clauseTokens ((shownFile o.toStyle f).clauses o.order)) :=
  File.spelling o.order (shownFile_named (identifiers_give_words ho) hn hf)

theorem shownFile_eq_of_render {o : RenderOptions} (ho : o.typeNames = .qualified) {f g : Schema.File} {t : Bytes}
    (hf : f.named .identifiers = true) (hg : g.named .identifiers = true)
    (rf : render o f = .ok t) (rg : render o g = .ok t) : shownFile o.toStyle f = shownFile o.toStyle g := by
  obtain ⟨ff, tf⟩ := text_of_render rf
  obtain ⟨fg, tg⟩ := text_of_render rg
  have hsf := spelling_renderedRows ho hf ff
  have hsg := spelling_renderedRows ho hg fg
  exact eq_of_clauseTokens (hsf.tokens_eq hsg (tf.symm.trans tg))

/-- Two files with identifiers for names that are rendered as one text, references in full, agree in
all that is shown of them. -/
theorem render_determines_shown {o : RenderOptions} (ho : o.typeNames = .qualified) {f g : Schema.File} {t : Bytes}
    (hf : f.named .identifiers = true) (hg : g.named .identifiers = true)
    (rf : render o f = .ok t) (rg : render o g = .ok t) :
    heading f = heading g ∧ imports o.toStyle f = imports o.toStyle g ∧ f.package = g.package ∧
      f.services.reduceOption.map (textOf ·.name) = g.services.reduceOption.map (textOf ·.name) ∧
      f.enums.reduceOption.map ofEnum = g.enums.reduceOption.map ofEnum ∧
      shownMessages o.toStyle (textOf f.dialect) f.messages =
        shownMessages o.toStyle (textOf g.dialect) g.messages := by
  have h := shownFile_eq_of_render ho hf hg rf rg
  simpa only [shownFile, Outline.File.mk.injEq] using h

private def sparse : Schema.File where
  package := some (utf8 "shop.v1")
  dialect := some proto3
  messages := [none, some {
    name := some (utf8 "Order")
    oneofs := [some { name := some (utf8 "pay") }]
    fields := [
      some { name := some (utf8 "card"), number := some 1, type := some 9, oneofIndex := some 0 }, none,
      some { name := some (utf8 "id"), number := some 2, label := some 1, typeName := some (utf8 ".shop.v1.Id") },
      some { name := some (utf8 "cash"), number := some 3, type := some 8, oneofIndex := some 0 }]
    nested := [some { name := some (utf8 "Line") }] }]

private def dense : Schema.File where
  package := some (utf8 "shop.v1")
  dialect := some proto3
  messages := [some {
    name := some (utf8 "Order")
    oneofs := [none, some { name := some (utf8 "pay") }]
    fields := [
      some { name := some (utf8 "card"), number := some 1, type := some 9, oneofIndex := some 1 },
      some { name := some (utf8 "cash"), number := some 3, type := some 8, oneofIndex := some 1 },
      some { name := some (utf8 "id"), number := some 2, type := some 11, typeName := some (utf8 ".shop.v1.Id") }]
    nested := [some { name := some (utf8 "Line") }] }]

private def orderText : Bytes := [
  "syntax = \"proto3\";", "",
  "package shop.v1;", "",
  "message Order \x7b",
  "    oneof pay \x7b",
  "        string card = 1;",
  "        bool cash = 3;",
  "    \x7d",
  "    .shop.v1.Id id = 2;", "",
  "    message Line \x7b",
  "    \x7d",
  "\x7d"].flatMap fun line => utf8 line ++ [Bytes.newline]

theorem render_determines_shown_sparse_dense :
    sparse.named .identifiers = true ∧ dense.named .identifiers = true ∧
      render { typeNames := .qualified } sparse = .ok orderText ∧
      render { typeNames := .qualified } dense = .ok orderText ∧
      heading sparse = heading dense ∧ sparse.package = dense.package ∧
      shownMessages { typeNames := .qualified } proto3 sparse.messages =
        shownMessages { typeNames := .qualified } proto3 dense.messages := by
  have hs : sparse.named .identifiers = true := by decide
  have hd : dense.named .identifiers = true := by decide
  have rs : render { typeNames := .qualified } sparse = .ok orderText := by decide +kernel
  have rd : render { typeNames := .qualified } dense = .ok orderText := by decide +kernel
  obtain ⟨hheading, -, hpackage, -, -, hmessages⟩ := render_determines_shown rfl hs hd rs rd
  exact ⟨hs, hd, rs, rd, hheading, hpackage, hmessages⟩

end ProtoRecovery
