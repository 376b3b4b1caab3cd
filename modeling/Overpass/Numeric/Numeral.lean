import Overpass.Numeric.Rounding

/-!
# Reading numerals

A numeral is an optional sign followed by digits with an optional decimal point and an optional
power of ten, or by one of the words for infinity and NaN in any case. It is read as the number
nearest to its exact value.

## Main Definitions

* `NumeralError`: why a text is not a numeral
* `Binary64.ofNumeral`: the number that a text denotes
-/

namespace Overpass

/-- Why a text is not a numeral. -/
inductive NumeralError where
  | empty
  | malformed
deriving DecidableEq

/-- The wording of a refused numeral. -/
def NumeralError.message : NumeralError → String
  | .empty => "cannot parse float from empty string"
  | .malformed => "invalid float literal"

namespace Numeral

/-- The value of a list of decimal digits. -/
def digitsValue (digits : List Char) : Nat := Nat.ofDigitChars 10 digits 0

/-- A leading sign and the rest; without a sign the numeral is positive. -/
def splitSign : List Char → Bool × List Char
  | '-' :: rest => (true, rest)
  | '+' :: rest => (false, rest)
  | rest => (false, rest)

/-- The digits after a leading decimal point, if there is one, and the rest. -/
def splitFraction : List Char → List Char × List Char
  | '.' :: rest => (rest.takeWhile Char.isDigit, rest.dropWhile Char.isDigit)
  | rest => ([], rest)

/-- The power of ten that ends a numeral: none written is zero, and a mark needs at least one
digit. -/
def powerOfTen : List Char → Option Int
  | [] => some 0
  | mark :: rest =>
    let (negative, digits) := splitSign rest
    if (mark == 'e' || mark == 'E') && !digits.isEmpty && digits.all Char.isDigit then
      let size : Int := digitsValue digits
      some (if negative then -size else size)
    else none

/-- The decimal that unsigned digits, point and power of ten denote. -/
def decimal (cs : List Char) : Option Decimal :=
  let whole := cs.takeWhile Char.isDigit
  let (fraction, rest) := splitFraction (cs.dropWhile Char.isDigit)
  if whole.isEmpty && fraction.isEmpty then none
  else
    (powerOfTen rest).map fun power =>
      ⟨digitsValue (whole ++ fraction), power - fraction.length⟩

/-- Whether the text is one of the words for infinity, in any case. -/
def isInfinityWord (cs : List Char) : Bool :=
  let word := cs.map Char.toLower
  word == ['i', 'n', 'f'] || word == ['i', 'n', 'f', 'i', 'n', 'i', 't', 'y']

/-- Whether the text is the word for a NaN, in any case. -/
def isNaNWord (cs : List Char) : Bool := cs.map Char.toLower == ['n', 'a', 'n']

end Numeral

/-- The number that a numeral denotes, rounded to nearest. -/
def Binary64.ofNumeral (cs : List Char) : Except NumeralError Binary64 :=
  if cs.isEmpty then .error .empty
  else
    let (negative, body) := Numeral.splitSign cs
    if Numeral.isInfinityWord body then .ok (.infinity negative)
    else if Numeral.isNaNWord body then .ok .nan
    else
      match Numeral.decimal body with
      | some d => .ok (.ofDecimal negative d)
      | none => .error .malformed

end Overpass
