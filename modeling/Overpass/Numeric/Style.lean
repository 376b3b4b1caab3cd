import Overpass.Numeric.Shortest

/-!
# Number styles

A finite number is printed from its shortest decimal. What remains to choose is when an exponent is
written, whether a whole number keeps a `.0`, and which way a tie between two shortest decimals
goes.

## Main Definitions

* `NumberStyle`: these choices
* `Binary64.text`: a number written in a style
* `NumberStyle.plain`, `NumberStyle.scientific`, `NumberStyle.document`: the styles of the library
* `Binary64.degrees`: the plain text, always with a decimal point
-/

namespace Overpass

/-- The choices left open by the shortest decimal of a number. -/
structure NumberStyle where
  /-- Which of two equally near shortest decimals is written. -/
  tie : Tie
  /-- Whether a number `d.ddd * 10 ^ k` is written without an exponent. -/
  positional : Int → Bool
  /-- Whether a whole number written without an exponent ends in `.0`. -/
  wholePoint : Bool
  /-- Whether a positive exponent carries a plus sign. -/
  exponentPlus : Bool

namespace NumberStyle

/-- Never an exponent, and a point only where there is a fraction. -/
def plain : NumberStyle := ⟨.up, fun _ => true, false, false⟩

/-- An exponent below `10 ^ (-4)` and from `10 ^ 16` on, and a point in every positional text. -/
def scientific : NumberStyle := ⟨.up, fun k => -4 ≤ k ∧ k ≤ 15, true, false⟩

/-- An exponent below `10 ^ (-5)` and from `10 ^ 16` on, signed both ways, and ties to even. -/
def document : NumberStyle := ⟨.even, fun k => -5 ≤ k ∧ k ≤ 15, true, true⟩

/-- Digits written with the decimal point `point` places after the first digit's left edge. -/
def positionalText (style : NumberStyle) (digits : List Char) (point : Int) : List Char :=
  if point ≤ 0 then '0' :: '.' :: (List.replicate (-point).toNat '0' ++ digits)
  else if (digits.length : Int) ≤ point then
    digits ++ List.replicate (point.toNat - digits.length) '0' ++
      (if style.wholePoint then ['.', '0'] else [])
  else digits.take point.toNat ++ '.' :: digits.drop point.toNat

/-- Digits written with a point after the first one and a power of ten. -/
def exponentText (style : NumberStyle) (digits : List Char) (order : Int) : List Char :=
  let lead :=
    match digits with
    | [] => []
    | [d] => [d]
    | d :: rest => d :: '.' :: rest
  let sign := if order < 0 then ['-'] else if style.exponentPlus then ['+'] else []
  lead ++ 'e' :: sign ++ Nat.toDigits 10 order.natAbs

/-- A decimal written in a style; zero is written as the digit `0`. -/
def decimalText (style : NumberStyle) (d : Decimal) : List Char :=
  let order := d.order - 1
  if d.coefficient = 0 then style.positionalText ['0'] 1
  else if style.positional order then style.positionalText d.digits d.order
  else style.exponentText d.digits order

end NumberStyle

namespace Binary64

/-- A number written in a style. A NaN is written without its sign. -/
def text (style : NumberStyle) (x : Binary64) : List Char :=
  let sign := if x.negative then ['-'] else []
  if x.isNaN then ['N', 'a', 'N']
  else if x.isFinite then sign ++ style.decimalText (x.shortest style.tie)
  else sign ++ ['i', 'n', 'f']

/-- The shortest plain text, with `.0` appended when it has no decimal point. -/
def degrees (x : Binary64) : List Char :=
  let plain := x.text .plain
  if '.' ∈ plain then plain else plain ++ ['.', '0']

end Binary64

end Overpass
