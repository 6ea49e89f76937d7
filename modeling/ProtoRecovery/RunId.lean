import ProtoRecovery.Text.Decimal

/-! # Names of runs, and the context that carries them -/
namespace ProtoRecovery

/-- What travels along with a piece of work: the name of its run, and values of other kinds. -/
inductive Context
  | background
  | withRun (parent : Context) (run : Bytes)
  | withValue (parent : Context)
  deriving DecidableEq, Repr

def Context.run? : Context → Option Bytes
  | background => none
  | withRun _ run => some run
  | withValue parent => parent.run?

namespace RunId

def hyphen : UInt8 := 0x2d

/-- A name from random bits: 32 hexadecimal digits in five groups. The 13th digit is 4, and the
17th is one of 8, 9, a and b, which marks the name as a random one. -/
def ofBits (bits : Nat) : Bytes :=
  let digits := Text.hex 30 (bits / 4)
  digits.take 8 ++ hyphen :: (digits.drop 8).take 4 ++
    hyphen :: 0x34 :: (digits.drop 12).take 3 ++
    hyphen :: Text.hexDigit (8 + bits % 4) :: (digits.drop 15).take 3 ++ hyphen :: digits.drop 18

def isLowerHex (b : UInt8) : Bool := (0x30 ≤ b && b ≤ 0x39) || (0x61 ≤ b && b ≤ 0x66)

def isRandom (t : Bytes) : Bool :=
  match Bytes.split hyphen t with
  | [a, b, c, d, e] =>
    [a, b, c, d, e].all (·.all isLowerHex) &&
      [a, b, c, d, e].map List.length == [8, 4, 4, 4, 12] &&
      c.head? == some 0x34 && (d.head?.any fun x => [0x38, 0x39, 0x61, 0x62].contains x)
  | _ => false

def derive (parent : Context) (bits : Nat) : Context × Bytes := (.withRun parent (ofBits bits), ofBits bits)

end RunId
end ProtoRecovery
