import ProtoRecovery.Layout.Indent

/-! # The line writer: indented lines and blocks, sticky errors, freezing -/
namespace ProtoRecovery

/-- Text written so far. The first error is kept, and from then on, as after freezing, no text is
added; the level moves freely all the while, in wrapping 64-bit arithmetic. -/
structure Writer where
  indent : Indent
  /-- The bytes written, the last one first. -/
  written : Bytes := []
  level : Int64 := 0
  frozen : Bool := false
  error : Option LayoutError := none
  deriving DecidableEq, Repr

namespace Writer

def text (w : Writer) : Bytes := w.written.reverse

def length (w : Writer) : Nat := w.written.length

def append (w : Writer) (t : Bytes) : Writer := { w with written := t.reverseAux w.written }

@[simp] theorem text_append (w : Writer) (t : Bytes) : (w.append t).text = w.text ++ t := by
  simp [text, append, List.reverseAux_eq]

@[simp] theorem length_eq (w : Writer) : w.length = w.text.length := by simp [length, text]

def fail (w : Writer) (e : LayoutError) : Writer := { w with error := w.error.or (some e) }

def writable (w : Writer) : Bool := !w.frozen && w.error.isNone

/-- What an attempt to write does to a writer that is not writable. -/
def refuse (w : Writer) : Writer := if w.frozen then w.fail .frozen else w

/-- The indentation of a line at the current level: width times level characters, none when the
product is not positive. -/
def padding (w : Writer) : Bytes :=
  (List.replicate (w.indent.width * w.level).toNatClampNeg (Utf8.encode w.indent.char)).flatten

/-- The lines of a text as they are written: each one indented and ended. A text is split only where it stands
deeper than the outermost level and breaks the line. -/
def laidOut (w : Writer) (t : Bytes) : Bytes :=
  if w.level = 0 then t ++ [Bytes.newline]
  else if Bytes.newline ∈ t then
    (Bytes.split Bytes.newline t).flatMap fun piece => w.padding ++ piece ++ [Bytes.newline]
  else w.padding ++ t ++ [Bytes.newline]

def line (w : Writer) (t : Bytes) : Writer :=
  if w.writable then w.append (w.laidOut t) else w.refuse

def blanks (w : Writer) (n : Int64) : Writer :=
  if n ≤ 0 then w
  else if w.writable then w.append (List.replicate n.toNatClampNeg Bytes.newline)
  else w.refuse

def blank (w : Writer) : Writer := w.blanks 1

def setLevel (w : Writer) (n : Int64) : Except LayoutError Writer :=
  if n < 0 then .error (.badLevel n) else .ok { w with level := n }

def deeper (w : Writer) : Writer := { w with level := w.level + 1 }

def shallower (w : Writer) : Writer :=
  match w.setLevel (w.level - 1) with
  | .ok w' => w'
  | .error e => w.fail e

def openBlock (w : Writer) : Writer := (w.line (utf8 "\x7b")).deeper

def closeBlock (w : Writer) : Writer :=
  if w.level = 0 then w.fail .unopened else w.shallower.line (utf8 "\x7d")

/-- Closes at most `n` blocks, as long as one is open and there is no error. -/
def closeUpTo : (n : Nat) → Writer → Writer
  | 0, w => w
  | n + 1, w => if 0 < w.level && w.error.isNone then closeUpTo n w.closeBlock else w

def closeAll (w : Writer) : Writer := closeUpTo w.level.toNatClampNeg w

/-- Ends the writing. The text and the first error are the writer's own. -/
def freeze (w : Writer) : Writer := { w with frozen := true }

inductive Op
  | line (text : Bytes) | blank | blanks (n : Int64) | openBlock | closeBlock | closeAll
  | deeper | shallower | setLevel (n : Int64) | freeze
  deriving DecidableEq, Repr

def apply (w : Writer) : Op → Writer
  | .line t => w.line t
  | .blank => w.blank
  | .blanks n => w.blanks n
  | .openBlock => w.openBlock
  | .closeBlock => w.closeBlock
  | .closeAll => w.closeAll
  | .deeper => w.deeper
  | .shallower => w.shallower
  | .setLevel n => (w.setLevel n).toOption.getD w
  | .freeze => w.freeze

def run (w : Writer) (ops : List Op) : Writer := ops.foldl apply w

def result (w : Writer) : Except LayoutError Bytes :=
  match w.error with
  | none => .ok w.text
  | some e => .error e

end Writer
end ProtoRecovery
