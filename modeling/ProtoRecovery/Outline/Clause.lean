import ProtoRecovery.Outline.Token

/-! # Clauses: source text as statements and blocks -/
namespace ProtoRecovery.Outline

inductive Operand | none | text (t : Bytes) | equalsWord (w : Bytes) | equalsText (t : Bytes)
  deriving DecidableEq, Repr

/-- A statement ends with a semicolon; a block holds further clauses between braces. -/
inductive Clause
  | statement (words : List Bytes) (operand : Operand)
  | block (words : List Bytes) (body : List Clause)
  deriving Repr, Inhabited

/-- A block that is being read: the words before it and the clauses before it, the last first. -/
structure Frame where
  words : List Bytes
  before : List Clause
  deriving Repr

inductive Progress | words | equals | operand (value : Operand) deriving DecidableEq, Repr

/-- What has been read: the blocks that are open, the innermost first; the clauses of the innermost
one and the words of the statement at hand, both with the last first. -/
structure ClauseReader where
  frames : List Frame := []
  clauses : List Clause := []
  words : List Bytes := []
  progress : Progress := .words
  deriving Repr

namespace ClauseReader

def finish (r : ClauseReader) (operand : Operand) : ClauseReader :=
  { r with clauses := .statement r.words.reverse operand :: r.clauses, words := [], progress := .words }

def step (r : ClauseReader) (t : Token) : Option ClauseReader :=
  match r.progress, t with
  | .words, .word w => some { r with words := w :: r.words }
  | .words, .text t => some { r with progress := .operand (.text t) }
  | .words, .equals => some { r with progress := .equals }
  | .words, .semicolon => some (r.finish .none)
  | .words, .opening =>
    some { frames := ⟨r.words, r.clauses⟩ :: r.frames, clauses := [], words := [], progress := .words }
  | .words, .closing =>
    match r.words, r.frames with
    | [], frame :: frames =>
      some { frames, words := [], progress := .words
             clauses := .block frame.words.reverse r.clauses.reverse :: frame.before }
    | _, _ => none
  | .equals, .word w => some { r with progress := .operand (.equalsWord w) }
  | .equals, .text t => some { r with progress := .operand (.equalsText t) }
  | .operand value, .semicolon => some (r.finish value)
  | _, _ => none

def result? (r : ClauseReader) : Option (List Clause) :=
  match r.frames, r.words, r.progress with
  | [], [], .words => some r.clauses.reverse
  | _, _, _ => none

end ClauseReader

def clauses? (t : Bytes) : Option (List Clause) := do
  let tokens ← Token.scan t
  let reader ← tokens.foldlM ClauseReader.step {}
  reader.result?

end ProtoRecovery.Outline
