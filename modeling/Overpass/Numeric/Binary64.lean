/-!
# Binary floating-point numbers of 64 bits

Coordinates are binary floating-point numbers. This module models them by their bit pattern, kept as
a sign and the remaining 63 bits read as a natural number. The order of the finite numbers of one
sign is the order of those naturals, so comparison needs no arithmetic on exponents.

## Main Definitions

* `Binary64`: a sign and a magnitude of 63 bits; `=` on it is identity of bit patterns
* `Binary64.Equal`: numeric equality, for which zero has no sign and nothing equals a NaN
* `Binary64.significand`, `Binary64.exponent`: the finite number is `significand * 2 ^ exponent`

## Design Notes

`<` and `≤` are false as soon as one side is a NaN. Bit identity (`=`) and numeric equality
(`Equal`) are kept apart everywhere in the library: definitions are merged by the latter, and
printed texts determine the former. Powers of natural numbers are written `Nat.pow`, here and in the
modules that follow: unlike `^`, it reads the same whatever algebra is in scope.
-/

namespace Overpass

/-- A binary floating-point number of 64 bits: its sign and its other 63 bits. -/
structure Binary64 where
  negative : Bool
  magnitude : Nat
  magnitude_lt : magnitude < Nat.pow 2 63
deriving DecidableEq

namespace Binary64

/-- The magnitude of the infinities: all exponent bits set, no fraction bit. -/
def infiniteMagnitude : Nat := 2047 * Nat.pow 2 52

/-- The number with the given sign and magnitude; magnitudes past the largest finite one are
infinite. -/
def ofMagnitude (negative : Bool) (magnitude : Nat) : Binary64 where
  negative := negative
  magnitude := min magnitude infiniteMagnitude
  magnitude_lt := Nat.lt_of_le_of_lt (Nat.min_le_right _ _) (by decide)

/-- Zero of the given sign. -/
def zero (negative : Bool) : Binary64 := ofMagnitude negative 0

/-- Infinity of the given sign. -/
def infinity (negative : Bool) : Binary64 := ofMagnitude negative infiniteMagnitude

/-- The largest finite number. -/
def largest : Binary64 := ofMagnitude false (infiniteMagnitude - 1)

/-- One of the bit patterns that stand for no number. -/
def nan : Binary64 where
  negative := false
  magnitude := infiniteMagnitude + Nat.pow 2 51
  magnitude_lt := by decide

/-- Whether the bit pattern stands for no number. -/
def isNaN (x : Binary64) : Bool := infiniteMagnitude < x.magnitude

/-- Whether the bit pattern stands for a number other than an infinity. -/
def isFinite (x : Binary64) : Bool := x.magnitude < infiniteMagnitude

/-- Position of a number on the line: the magnitude with the sign put before it. -/
def rank (x : Binary64) : Int := if x.negative then -(x.magnitude : Int) else x.magnitude

instance : LT Binary64 where
  lt x y := x.isNaN = false ∧ y.isNaN = false ∧ x.rank < y.rank

instance : LE Binary64 where
  le x y := x.isNaN = false ∧ y.isNaN = false ∧ x.rank ≤ y.rank

/-- Numeric equality: the two zeros are equal, and a NaN equals nothing. -/
def Equal (x y : Binary64) : Prop := x.isNaN = false ∧ y.isNaN = false ∧ x.rank = y.rank

instance (x y : Binary64) : Decidable (x < y) :=
  inferInstanceAs (Decidable (x.isNaN = false ∧ y.isNaN = false ∧ x.rank < y.rank))

instance (x y : Binary64) : Decidable (x ≤ y) :=
  inferInstanceAs (Decidable (x.isNaN = false ∧ y.isNaN = false ∧ x.rank ≤ y.rank))

instance (x y : Binary64) : Decidable (x.Equal y) :=
  inferInstanceAs (Decidable (x.isNaN = false ∧ y.isNaN = false ∧ x.rank = y.rank))

/-- The smaller of two numbers, the first one when neither is smaller. -/
def least (x y : Binary64) : Binary64 := if y < x then y else x

/-- The larger of two numbers, the first one when neither is larger. -/
def greatest (x y : Binary64) : Binary64 := if x < y then y else x

/-- The exponent field of the bit pattern. -/
def exponentField (x : Binary64) : Nat := x.magnitude / Nat.pow 2 52

/-- The fraction field of the bit pattern. -/
def fractionField (x : Binary64) : Nat := x.magnitude % Nat.pow 2 52

/-- The integer significand: the fraction, with the leading bit that all but the smallest numbers
have. -/
def significand (x : Binary64) : Nat :=
  if x.exponentField = 0 then x.fractionField else Nat.pow 2 52 + x.fractionField

/-- The power of two that scales the integer significand. -/
def exponent (x : Binary64) : Int := (max x.exponentField 1 : Nat) - 1075

/-- Numerator of the absolute value as a fraction. -/
def numerator (x : Binary64) : Nat := x.significand * Nat.pow 2 x.exponent.toNat

/-- Denominator of the absolute value as a fraction. -/
def denominator (x : Binary64) : Nat := Nat.pow 2 (-x.exponent).toNat

/-- The number with the opposite sign. -/
def negate (x : Binary64) : Binary64 := { x with negative := !x.negative }

/-- The number with its sign dropped. -/
def absolute (x : Binary64) : Binary64 := { x with negative := false }

end Binary64

end Overpass
