import ProtoRecovery.Text.Printable
import ProtoRecovery.Text.Decimal
import ProtoRecovery.Text.Utf8

/-! # Quoted texts: escaping between quotes and reading it back -/
namespace ProtoRecovery.Text

def backslash : UInt8 := 0x5c
def doubleQuote : UInt8 := 0x22

def escapeLetter? (c : Char) : Option UInt8 :=
  match c.toNat with
  | 0x07 => some 0x61
  | 0x08 => some 0x62
  | 0x0c => some 0x66
  | 0x0a => some 0x6e
  | 0x0d => some 0x72
  | 0x09 => some 0x74
  | 0x0b => some 0x76
  | _ => none

/-- One character between `quote` marks: a printable one stands for itself, a control character
is written by its letter or as two hexadecimal digits, any other by its code point. -/
def escapeChar (quote c : Char) : Bytes :=
  if c = quote || c = '\\' then backslash :: Utf8.encode c
  else if isPrintable c then Utf8.encode c
  else match escapeLetter? c with
    | some letter => [backslash, letter]
    | none =>
      let n := c.toNat
      if n < 0x20 || n = 0x7f then backslash :: 0x78 :: hex 2 n
      else if n < 0x10000 then backslash :: 0x75 :: hex 4 n
      else backslash :: 0x55 :: hex 8 n

/-- One rune between double quotes; a stray byte is written as two hexadecimal digits. -/
def escapeRune : Rune → Bytes
  | .char c => escapeChar '"' c
  | .stray b => backslash :: 0x78 :: hex 2 b.toNat

def quote (t : Bytes) : Bytes :=
  doubleQuote :: ((Utf8.runes t).flatMap escapeRune ++ [doubleQuote])

def charOfCode? (code : Int32) : Option Char :=
  if code < 0 then none
  else if code.toNatClampNeg.isValidChar then some (Char.ofNat code.toNatClampNeg) else none

/-- A code point between single quotes; a number that is none stands as the replacement character. -/
def quoteCode (code : Int32) : Bytes :=
  0x27 :: (escapeChar '\'' ((charOfCode? code).getD '\uFFFD') ++ [0x27])

def letterValue? : UInt8 → Option UInt8
  | 0x61 => some 0x07
  | 0x62 => some 0x08
  | 0x66 => some 0x0c
  | 0x6e => some 0x0a
  | 0x72 => some 0x0d
  | 0x74 => some 0x09
  | 0x76 => some 0x0b
  | 0x5c => some 0x5c
  | 0x22 => some 0x22
  | 0x27 => some 0x27
  | _ => none

def encodeCode? (n : Nat) : Option Bytes :=
  if n.isValidChar then some (Utf8.encode (Char.ofNat n)) else none

/-- Reads the inside of a double-quoted text up to its closing quote; gives the text and the rest. -/
def unquoteBody : Bytes → Option (Bytes × Bytes)
  | [] => none
  | 0x22 :: r => some ([], r)
  | 0x5c :: 0x78 :: a :: b :: r => do
    let n ← readHex [a, b]
    let (t, rest) ← unquoteBody r
    pure (UInt8.ofNat n :: t, rest)
  | 0x5c :: 0x75 :: a :: b :: c :: d :: r => do
    let piece ← (readHex [a, b, c, d]).bind encodeCode?
    let (t, rest) ← unquoteBody r
    pure (piece ++ t, rest)
  | 0x5c :: 0x55 :: a :: b :: c :: d :: e :: f :: g :: h :: r => do
    let piece ← (readHex [a, b, c, d, e, f, g, h]).bind encodeCode?
    let (t, rest) ← unquoteBody r
    pure (piece ++ t, rest)
  | 0x5c :: a :: r => do
    let value ← letterValue? a
    let (t, rest) ← unquoteBody r
    pure (value :: t, rest)
  | a :: r => do
    let (t, rest) ← unquoteBody r
    pure (a :: t, rest)

end ProtoRecovery.Text
