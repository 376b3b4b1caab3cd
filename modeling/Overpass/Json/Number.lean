import Overpass.Numeric.Numeral

/-!
# Numbers of documents

A number of a document is read in two rounded steps: its leading digits as one integer of 64 bits,
and the scaling of that integer by a power of ten.

## Main Definitions

* `Json.Literal`: the parts of a number literal
* `Json.Literal.split`: the literal at the start of a text
* `Json.Literal.value?`: the number that a literal denotes

## Design Notes

Digits of the whole part past the 64 bits count as powers of ten; fraction digits from the first one
past the 64 bits on are dropped. For literals of at most fifteen digits and moderate exponents both
steps are exact up to one rounding, so the result is the nearest number there.
-/

namespace Overpass.Json

/-- The parts of a number literal: sign, whole digits, fraction digits, and the power of ten. -/
structure Literal where
  negative : Bool
  whole : List Char
  fraction : List Char
  power : Int
deriving DecidableEq

namespace Literal

/-- The fraction digits after a point, of which there must be one if there is a point. -/
def splitFraction : List Char → Option (List Char × List Char)
  | '.' :: rest =>
    let digits := rest.takeWhile Char.isDigit
    if digits.isEmpty then none else some (digits, rest.dropWhile Char.isDigit)
  | rest => some ([], rest)

/-- The power of ten after an exponent mark, which needs a digit if there is a mark. -/
def splitPower : List Char → Option (Int × List Char)
  | mark :: rest =>
    if mark == 'e' || mark == 'E' then
      let (negative, body) := Numeral.splitSign rest
      let digits := body.takeWhile Char.isDigit
      let size : Int := Numeral.digitsValue digits
      if digits.isEmpty then none
      else some (if negative then -size else size, body.dropWhile Char.isDigit)
    else some (0, mark :: rest)
  | [] => some (0, [])

/-- The whole digits: a zero alone, or digits that start with another one. -/
def splitWhole : List Char → Option (List Char × List Char)
  | '0' :: rest => some (['0'], rest)
  | rest =>
    let digits := rest.takeWhile Char.isDigit
    if digits.isEmpty then none else some (digits, rest.dropWhile Char.isDigit)

/-- A leading minus sign, if there is one, and the rest. -/
def splitMinus : List Char → Bool × List Char
  | '-' :: rest => (true, rest)
  | rest => (false, rest)

/-- The literal at the start of a text, and the rest of the text. -/
def split (cs : List Char) : Option (Literal × List Char) := do
  let (negative, unsigned) := splitMinus cs
  let (whole, afterWhole) ← splitWhole unsigned
  let (fraction, afterFraction) ← splitFraction afterWhole
  let (power, rest) ← splitPower afterFraction
  return (⟨negative, whole, fraction, power⟩, rest)

/-- Appends digits to an integer while it stays within 64 bits; also the digits left over. -/
def gather (significand : Nat) : List Char → Nat × List Char
  | [] => (significand, [])
  | digit :: rest =>
    let longer := 10 * significand + (digit.toNat - '0'.toNat)
    if longer < UInt64.size then gather longer rest else (significand, digit :: rest)

/-- Ten to a power that is in range. -/
def tenTo (power : Nat) : Binary64 := .ofDecimal false ⟨1, power⟩

/-- An integer scaled by a power of ten, both rounded on their own. Results past the largest number
are refused; powers below the range are applied in two steps. -/
def scale (significand : Nat) (power : Int) : Option Binary64 :=
  let base := Binary64.ofNat significand
  if 308 < power then if significand = 0 then some base else none
  else if 0 ≤ power then
    let product := base.mul (tenTo power.toNat)
    if product.isFinite then some product else none
  else if -308 ≤ power then some (base.div (tenTo (-power).toNat))
  else if -616 ≤ power then
    some ((base.div (tenTo 308)).div (tenTo (-power - 308).toNat))
  else some (.zero false)

/-- The number that a literal denotes; nothing if it is out of range. -/
def value? (literal : Literal) : Option Binary64 :=
  let (leading, dropped) := gather 0 literal.whole
  let (significand, unread) := gather leading literal.fraction
  let kept := literal.fraction.length - unread.length
  let power : Int := literal.power + dropped.length - kept
  (scale significand power).map fun x => if literal.negative then x.negate else x

end Literal

end Overpass.Json
