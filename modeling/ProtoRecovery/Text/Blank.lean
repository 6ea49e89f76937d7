import ProtoRecovery.Text.Utf8

/-! # Blank characters and blank texts -/
namespace ProtoRecovery.Text

/-- The characters with the Unicode property of being white space. -/
def isBlank (c : Char) : Bool :=
  let n := c.toNat
  (0x09 ≤ n && n ≤ 0x0d) || n == 0x20 || n == 0x85 || n == 0xa0 || n == 0x1680 ||
    (0x2000 ≤ n && n ≤ 0x200a) || n == 0x2028 || n == 0x2029 || n == 0x202f || n == 0x205f ||
    n == 0x3000

/-- A text of blank characters only; a stray byte is not blank. -/
def isBlankText (t : Bytes) : Bool := (Utf8.runes t).all fun
  | .char c => isBlank c
  | .stray _ => false

end ProtoRecovery.Text
