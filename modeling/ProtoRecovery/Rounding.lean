/-! # Rounding to 53 binary digits

Numbers are kept as a whole number times a power of two. Every operation gives the number nearest
to the exact result; of two that are equally near, the even one. -/
namespace ProtoRecovery

/-- The number `digits * 2 ^ exponent`. -/
structure Rounded where
  digits : Nat
  exponent : Int
  deriving DecidableEq, Repr

namespace Rounded

def precision : Nat := 53

/-- The whole number nearest to a quotient; a tie goes to the even one. -/
def roundDiv (p q : Nat) : Nat :=
  let n := p / q
  let double := 2 * (p % q)
  if q < double || (double = q && n % 2 = 1) then n + 1 else n

/-- A quotient times a power of two, rounded to so many binary digits after the point. -/
def roundAt (p q : Nat) (places : Int) : Nat :=
  roundDiv (p <<< places.toNat) (q <<< (-places).toNat)

def nearest (p q : Nat) (exponent : Int) : Rounded :=
  let places : Int := precision - ((p.log2 : Int) - q.log2)
  let places := if (p <<< places.toNat) / (q <<< (-places).toNat) < 1 <<< precision then places else places - 1
  ⟨roundAt p q places, exponent - places⟩

def ofNat (n : Nat) : Rounded := nearest n 1 0

def mul (x y : Rounded) : Rounded := nearest (x.digits * y.digits) 1 (x.exponent + y.exponent)

def div (x y : Rounded) : Rounded := nearest x.digits y.digits (x.exponent - y.exponent)

def floor (x : Rounded) : Nat := (x.digits <<< x.exponent.toNat) >>> (-x.exponent).toNat

end Rounded
end ProtoRecovery
