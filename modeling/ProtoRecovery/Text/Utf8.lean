import ProtoRecovery.Text.Bytes

/-! # Reading bytes as UTF-8, one code point or one stray byte at a time -/
namespace ProtoRecovery

/-- What a reader meets in a byte string: a well-formed code point, or a byte that starts none. -/
inductive Rune | char (c : Char) | stray (b : UInt8) deriving DecidableEq, Repr

namespace Utf8

def encode (c : Char) : Bytes := String.utf8EncodeChar c

def isTail (b : UInt8) : Bool := 0x80 ≤ b && b ≤ 0xbf

def payload (b : UInt8) : Nat := b.toNat % 64

/-- The well-formed sequence at the front, as its code point and its length. Overlong forms,
surrogates and values beyond the last code point are not well formed. -/
def lead : Bytes → Option (Char × Nat)
  | [] => none
  | a :: r =>
    if a < 0x80 then some (Char.ofNat a.toNat, 1)
    else if 0xc2 ≤ a && a ≤ 0xdf then
      match r with
      | b :: _ =>
        if isTail b then some (Char.ofNat ((a.toNat - 0xc0) * 64 + payload b), 2) else none
      | _ => none
    else if 0xe0 ≤ a && a ≤ 0xef then
      match r with
      | b :: c :: _ =>
        let low : UInt8 := if a = 0xe0 then 0xa0 else 0x80
        let high : UInt8 := if a = 0xed then 0x9f else 0xbf
        if low ≤ b && b ≤ high && isTail c then
          some (Char.ofNat (((a.toNat - 0xe0) * 64 + payload b) * 64 + payload c), 3)
        else none
      | _ => none
    else if 0xf0 ≤ a && a ≤ 0xf4 then
      match r with
      | b :: c :: d :: _ =>
        let low : UInt8 := if a = 0xf0 then 0x90 else 0x80
        let high : UInt8 := if a = 0xf4 then 0x8f else 0xbf
        if low ≤ b && b ≤ high && isTail c && isTail d then
          some (Char.ofNat ((((a.toNat - 0xf0) * 64 + payload b) * 64 + payload c) * 64 + payload d), 4)
        else none
      | _ => none
    else none

/-- The runes of a text whose first `skip` bytes are already consumed. -/
def runesFrom : (skip : Nat) → Bytes → List Rune
  | _, [] => []
  | skip + 1, _ :: r => runesFrom skip r
  | 0, a :: r =>
    match lead (a :: r) with
    | some (c, n) => .char c :: runesFrom (n - 1) r
    | none => .stray a :: runesFrom 0 r

def runes (t : Bytes) : List Rune := runesFrom 0 t

end Utf8
end ProtoRecovery
