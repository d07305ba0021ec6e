/-! Finite binary64 numbers without a sign, kept as exact integers: 53 significant bits, exponents
from `-1074` to `971`. Each operation rounds the exact quotient once, to nearest with ties to even,
and has no answer where the result is too large. -/
namespace Marginalia

/-- The number `significand * 2 ^ exponent`. -/
structure Binary64 where
  significand : Nat
  exponent : Int
deriving DecidableEq, Repr, Inhabited

namespace Binary64

/-- The greatest `e` with `b ^ e ≤ n / d`, for positive `n` and `d` and a base from 2 to 16. -/
def floorLog (b n d : Nat) : Int :=
  let e : Int := (Nat.toDigits b n).length - (Nat.toDigits b d).length
  if n * b.pow (-e).toNat < d * b.pow e.toNat then e - 1 else e

def roundHalfEven (n d : Nat) : Nat :=
  if 2 * (n % d) > d ∨ 2 * (n % d) = d ∧ n / d % 2 = 1 then n / d + 1 else n / d

def zero : Binary64 := ⟨0, -1074⟩

/-- The number nearest to `n / d`. -/
def nearest? (n d : Nat) : Option Binary64 :=
  if n = 0 then some zero
  else
    let e := max (floorLog 2 n d - 52) (-1074)
    let m := roundHalfEven (n * Nat.pow 2 (-e).toNat) (d * Nat.pow 2 e.toNat)
    let x : Binary64 := if m = Nat.pow 2 53 then ⟨Nat.pow 2 52, e + 1⟩ else ⟨m, e⟩
    if x.exponent ≤ 971 then some x else none

def numerator (x : Binary64) : Nat := x.significand * Nat.pow 2 x.exponent.toNat

def denominator (x : Binary64) : Nat := Nat.pow 2 (-x.exponent).toNat

def mul? (x y : Binary64) : Option Binary64 :=
  nearest? (x.numerator * y.numerator) (x.denominator * y.denominator)

def div? (x y : Binary64) : Option Binary64 :=
  nearest? (x.numerator * y.denominator) (x.denominator * y.numerator)

def powerOfTen? (places : Nat) : Option Binary64 := nearest? (Nat.pow 10 places) 1

/-- Divide by `10 ^ 308` as often as told, or until nothing is left. -/
def sink? : Nat → Binary64 → Option Binary64
  | 0, x => some x
  | steps + 1, x =>
    if x = zero then some zero
    else ((powerOfTen? 308).bind x.div?).bind (sink? steps)

/-- Multiply by a power of ten, at most 308 places in one step. Every power and every step is
rounded, so the last digit may differ from that of the exact product. -/
def scale? (x : Binary64) (places : Int) : Option Binary64 :=
  if places ≥ 0 then
    if places ≤ 308 then (powerOfTen? places.toNat).bind x.mul?
    else if x = zero then some zero
    else none
  else
    let steps := (places.natAbs - 1) / 308
    (sink? steps x).bind fun y => (powerOfTen? (places.natAbs - 308 * steps)).bind y.div?

end Binary64

end Marginalia
