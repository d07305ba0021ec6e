import Marginalia.Binary64

/-! The shortest decimal text that reads back as the same binary64 number. A decimal reads back
when it lies between the midpoints to the two neighbours; the midpoints themselves do when the
significand is even. -/
namespace Marginalia.Binary64

/-- The midpoints below and above a number, in quarters of its last place. -/
def lowQuarters (x : Binary64) : Nat :=
  if x.significand = Nat.pow 2 52 ∧ x.exponent > -1074 then 4 * x.significand - 1
  else 4 * x.significand - 2

def highQuarters (x : Binary64) : Nat := 4 * x.significand + 2

/-- Compare `d * 10 ^ k` with a count of quarters of the last place. -/
def compareDecimal (x : Binary64) (d : Nat) (k : Int) (quarters : Nat) : Ordering :=
  compare (d * Nat.pow 10 k.toNat * Nat.pow 2 (2 - x.exponent).toNat)
    (quarters * Nat.pow 2 (x.exponent - 2).toNat * Nat.pow 10 (-k).toNat)

def readsBack (x : Binary64) (d : Nat) (k : Int) : Bool :=
  match x.compareDecimal d k x.lowQuarters, x.compareDecimal d k x.highQuarters with
  | .gt, .lt => true
  | .eq, _ => x.significand % 2 = 0
  | _, .eq => x.significand % 2 = 0
  | _, _ => false

/-- The best decimal with unit `10 ^ k`: of the two around the number, the one that reads back, and
of two such the nearer; a tie goes to the even one. -/
def onGrid? (x : Binary64) (k : Int) : Option Nat :=
  let n := x.numerator * Nat.pow 10 (-k).toNat
  let d := x.denominator * Nat.pow 10 k.toNat
  let low := n / d
  match x.readsBack low k, x.readsBack (low + 1) k with
  | true, true => some (roundHalfEven n d)
  | true, false => some low
  | false, true => some (low + 1)
  | false, false => none

/-- The digits, without zeros at the end, and the power of ten of the first of them. -/
def shortest (x : Binary64) : List Char × Int :=
  let top := floorLog 10 x.numerator x.denominator
  let found := (List.range 17).findSome? fun (i : Nat) =>
    (x.onGrid? (top - i)).map fun d => (d, top - i)
  match found with
  | none => (['0'], 0)
  | some (d, k) =>
    let digits := Nat.toDigits 10 d
    ((digits.reverse.dropWhile (· = '0')).reverse, k + digits.length - 1)

/-- Numbers from `1e-5` to below `1e16` are written out and have a fraction; others are one digit, a
fraction if more digits follow, and a signed exponent. -/
def toText (x : Binary64) : String :=
  if x.significand = 0 then "0.0"
  else
    let (digits, top) := x.shortest
    if top < -5 ∨ 15 < top then
      let fraction := match digits.drop 1 with
        | [] => []
        | more => '.' :: more
      let sign := if top < 0 then '-' else '+'
      String.ofList (digits.take 1 ++ fraction ++ 'e' :: sign :: Nat.toDigits 10 top.natAbs)
    else if top < 0 then
      String.ofList ('0' :: '.' :: (List.replicate (top.natAbs - 1) '0' ++ digits))
    else
      let whole := top.toNat + 1
      let fraction := match digits.drop whole with
        | [] => ['0']
        | more => more
      String.ofList
        (digits.take whole ++ List.replicate (whole - digits.length) '0' ++ '.' :: fraction)

end Marginalia.Binary64
