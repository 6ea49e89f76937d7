import ProtoRecovery.Text.Quoted

/-! # Tokens of source text -/
namespace ProtoRecovery.Outline

inductive Token
  | word (w : Bytes) | text (t : Bytes) | equals | semicolon | opening | closing
  deriving DecidableEq, Repr

namespace Token

def isGap (b : UInt8) : Bool := b = 0x20 || (0x09 ≤ b && b ≤ 0x0d)

/-- What can indent a line: gaps, and blank characters beyond ASCII, with which no token starts. -/
def isMargin (b : UInt8) : Bool := isGap b || 0x80 ≤ b

def mark? (b : UInt8) : Option Token :=
  match b with
  | 0x3d => some equals
  | 0x3b => some semicolon
  | 0x7b => some opening
  | 0x7d => some closing
  | _ => none

def isNameByte (b : UInt8) : Bool :=
  (0x30 ≤ b && b ≤ 0x39) || (0x41 ≤ b && b ≤ 0x5a) || b = 0x5f || (0x61 ≤ b && b ≤ 0x7a)

/-- Names may be dotted, and numbers may have a sign. -/
def isWordByte (b : UInt8) : Bool := isNameByte b || b = Bytes.dot || b = 0x2d

/-- The token that starts with a byte, and what follows it, unless it is a broken quoted text or a
byte that starts no token. -/
def read (b : UInt8) (r : Bytes) : Option (Token × Bytes) :=
  if b = Text.doubleQuote then (Text.unquoteBody r).map fun (t, rest) => (text t, rest)
  else match mark? b with
    | some mark => some (mark, r)
    | none =>
      if isWordByte b then some (word (b :: r.takeWhile isWordByte), r.dropWhile isWordByte) else none

/-- The tokens of a text; `fuel` bounds their number together with the gaps. -/
def scanIn : (fuel : Nat) → Bytes → Option (List Token)
  | _, [] => some []
  | 0, _ :: _ => none
  | fuel + 1, b :: r =>
    if isGap b then scanIn fuel r
    else match read b r with
      | none => none
      | some (token, rest) => (scanIn fuel rest).map (token :: ·)

def scan (t : Bytes) : Option (List Token) := scanIn t.length t

end Token
end ProtoRecovery.Outline
