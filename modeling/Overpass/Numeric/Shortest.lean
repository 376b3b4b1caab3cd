import Overpass.Numeric.Rounding

/-!
# The shortest decimal that reads back

A printed number has as few digits as reading it back allows. For each digit count the number has
two neighbours on the decimal grid of that count; the first grid on which one of them reads back
decides the digits, and of two neighbours that read back the nearer one is taken.

## Main Definitions

* `Tie`: what to do when the two neighbours are equally near
* `Binary64.shortest`: the shortest decimal of a finite number

## Design Notes

A candidate counts only if rounding it gives the number again, so that reading back holds by
construction. Seventeen digits are enough for every number, and the exact decimal stands behind them
only to make the definition total.
-/

namespace Overpass

/-- Which of two equally near neighbours is taken. -/
inductive Tie where
  | up
  | even
deriving DecidableEq

namespace Binary64

/-- The power of ten just above the absolute value: `10 ^ (k - 1) ≤ |x| < 10 ^ k`. -/
def decimalOrder (x : Binary64) : Int :=
  if x.denominator ≤ x.numerator then digitCount (x.numerator / x.denominator)
  else 1 - (digitCount ((x.denominator - 1) / x.numerator) : Int)

/-- The absolute value counted in units of `10 ^ unit`, as a numerator and a denominator. -/
def inUnits (x : Binary64) (unit : Int) : Nat × Nat :=
  (x.numerator * Nat.pow 10 (-unit).toNat, x.denominator * Nat.pow 10 unit.toNat)

/-- Whether rounding the decimal gives the absolute value again. -/
def readsBack (x : Binary64) (d : Decimal) : Bool := ofDecimal false d == x.absolute

/-- The decimal on the grid of multiples of `10 ^ unit` that reads back, if the grid has one. -/
def shortestOn (tie : Tie) (x : Binary64) (unit : Int) : Option Decimal :=
  let (num, den) := x.inUnits unit
  let below : Decimal := Decimal.trimmed ⟨num / den, unit⟩
  let above : Decimal := Decimal.trimmed ⟨num / den + 1, unit⟩
  match x.readsBack below, x.readsBack above with
  | false, false => none
  | true, false => some below
  | false, true => some above
  | true, true =>
    let rest := num % den
    if 2 * rest < den then some below
    else if den < 2 * rest then some above
    else
      match tie with
      | .up => some above
      | .even => if num / den % 2 = 0 then some below else some above

/-- The decimal that is the absolute value itself. -/
def exactDecimal (x : Binary64) : Decimal :=
  if 0 ≤ x.exponent then ⟨x.numerator, 0⟩
  else ⟨x.significand * Nat.pow 5 (-x.exponent).toNat, x.exponent⟩

/-- The shortest decimal that reads back as the absolute value of a finite number. -/
def shortest (tie : Tie) (x : Binary64) : Decimal :=
  if x.magnitude = 0 then ⟨0, 0⟩
  else
    let order := x.decimalOrder
    ((List.range 17).findSome? fun i => x.shortestOn tie (order - (i + 1 : Nat))).getD
      x.exactDecimal

end Binary64

end Overpass
