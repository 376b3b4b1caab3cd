import Overpass.Numeric.Binary64

/-!
# Rounding fractions and decimals to the nearest number

Every arithmetic result of the library is an exact fraction rounded once to the nearest `Binary64`,
a tie going to the even neighbour, a fraction past the largest finite number becoming infinite.

## Main Definitions

* `roundHalfEven`: the integer nearest to a quotient
* `Binary64.ofRatio`: the number nearest to a fraction
* `Decimal`: a coefficient scaled by a power of ten
* `Binary64.ofDecimal`: the number nearest to a decimal
* `Binary64.mul`, `Binary64.div`: product and quotient of finite numbers
-/

namespace Overpass

/-- The integer nearest to `num / den`, the even one when two are equally near. -/
def roundHalfEven (num den : Nat) : Nat :=
  let quotient := num / den
  let rest := num % den
  if 2 * rest < den then quotient
  else if den < 2 * rest then quotient + 1
  else if quotient % 2 = 0 then quotient
  else quotient + 1

/-- The largest `k` with `2 ^ k ≤ num / den`, for a positive fraction. -/
def binaryOrder (num den : Nat) : Int :=
  let guess : Int := (num.log2 : Int) - den.log2
  if den * Nat.pow 2 guess.toNat ≤ num * Nat.pow 2 (-guess).toNat then guess else guess - 1

/-- Number of decimal digits of a natural number; zero has one. -/
def digitCount (n : Nat) : Nat := (Nat.toDigits 10 n).length

/-- A decimal: an integer coefficient scaled by a power of ten. -/
structure Decimal where
  coefficient : Nat
  exponent : Int
deriving DecidableEq

namespace Decimal

/-- The digits of the coefficient, most significant first. -/
def digits (d : Decimal) : List Char := Nat.toDigits 10 d.coefficient

/-- The same value with the final zeros of the coefficient moved into the exponent. -/
def trimmed (d : Decimal) : Decimal :=
  let zeros := (d.digits.reverse.takeWhile (· == '0')).length
  ⟨d.coefficient / Nat.pow 10 zeros, d.exponent + zeros⟩

/-- A positive decimal lies below ten to this power, and not below the next smaller one. -/
def order (d : Decimal) : Int := (digitCount d.coefficient : Int) + d.exponent

/-- Numerator of the decimal as a fraction. -/
def numerator (d : Decimal) : Nat := d.coefficient * Nat.pow 10 d.exponent.toNat

/-- Denominator of the decimal as a fraction. -/
def denominator (d : Decimal) : Nat := Nat.pow 10 (-d.exponent).toNat

end Decimal

namespace Binary64

/-- The number nearest to `num / den`. The spacing of the numbers near the fraction is a power of
two, at least `2 ^ (-1074)`, and the magnitude counts numbers in steps of that spacing. -/
def ofRatio (negative : Bool) (num den : Nat) : Binary64 :=
  if num = 0 then zero negative
  else
    let spacing : Int := max (binaryOrder num den - 52) (-1074)
    let steps :=
      roundHalfEven (num * Nat.pow 2 (-spacing).toNat) (den * Nat.pow 2 spacing.toNat)
    ofMagnitude negative ((spacing + 1074).toNat * Nat.pow 2 52 + steps)

/-- The number nearest to a decimal. Decimals of an order beyond the range of the numbers are
decided by that order alone, so that no power of ten is computed for them. -/
def ofDecimal (negative : Bool) (d : Decimal) : Binary64 :=
  if d.coefficient = 0 then zero negative
  else if 310 < d.order then infinity negative
  else if d.order < -330 then zero negative
  else ofRatio negative d.numerator d.denominator

/-- The number nearest to a natural number. -/
def ofNat (n : Nat) : Binary64 := ofRatio false n 1

/-- The number nearest to the product of two finite numbers. -/
def mul (x y : Binary64) : Binary64 :=
  ofRatio (x.negative != y.negative) (x.numerator * y.numerator) (x.denominator * y.denominator)

/-- The number nearest to the quotient of a finite number by a finite number other than zero. -/
def div (x y : Binary64) : Binary64 :=
  ofRatio (x.negative != y.negative) (x.numerator * y.denominator) (x.denominator * y.numerator)

end Binary64

end Overpass
