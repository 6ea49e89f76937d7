import ProtoRecovery.Outline.Token
import ProtoRecovery.Text.Decimal

/-! # Positions: where in a text something stands -/
namespace ProtoRecovery.Outline

/-- A line and a column, both counted from one. Columns count bytes. -/
structure Position where
  line : Nat := 1
  column : Nat := 1
  deriving DecidableEq, Repr

namespace Position

/-- The position after one more byte. A tab leads to the next column after a multiple of eight. -/
def advance (p : Position) (b : UInt8) : Position :=
  if b = Bytes.newline then { line := p.line + 1 }
  else if b = 0x09 then { p with column := (p.column - 1) / 8 * 8 + 9 }
  else { p with column := p.column + 1 }

def after (t : Bytes) : Position := t.foldl advance {}

def text (p : Position) : Bytes := Text.decimal p.line ++ utf8 ":" ++ Text.decimal p.column

end Position

/-- The tokens of a text as far as they can be read, each with the text from it on; `fuel` bounds
their number together with the gaps. -/
def spots : (fuel : Nat) → Bytes → List (Token × Bytes)
  | fuel + 1, b :: r =>
    if Token.isGap b then spots fuel r
    else match Token.read b r with
      | none => []
      | some (token, rest) => (token, b :: r) :: spots fuel rest
  | _, _ => []

def importSpot? (path : Bytes) : List (Token × Bytes) → Option Bytes
  | (.word _, _) :: (.text t, spot) :: others =>
    if t = path then some spot else importSpot? path others
  | _ :: others => importSpot? path others
  | [] => none

def importPosition (t path : Bytes) : Position :=
  match importSpot? path (spots t.length t) with
  | some spot => .after (t.take (t.length - spot.length))
  | none => {}

end ProtoRecovery.Outline
