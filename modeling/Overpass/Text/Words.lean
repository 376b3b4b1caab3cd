/-!
# Blanks, words and keywords

What callers write is read with some latitude. Blank characters are those with the Unicode property
White_Space: they separate coordinates and are dropped around tokens, numerals and markers. Keywords
are read in any case. A text matches a keyword of ASCII letters if its lower-case form is the
keyword; the only character beyond ASCII whose lower-case form is an ASCII letter is the Kelvin
sign.

## Main Definitions

* `Text.isBlank`: whether a character is blank
* `Text.trim`: a text without the blanks around it
* `Text.words`: the maximal runs of characters that are no separators
* `Text.matchesKeyword`: whether a text is a keyword in some case
-/

namespace Overpass.Text

/-! ## Blanks -/

/-- Whether a character has the Unicode property White_Space. -/
def isBlank (c : Char) : Bool :=
  let n := c.toNat
  (0x09 ≤ n && n ≤ 0x0D) || n == 0x20 || n == 0x85 || n == 0xA0 || n == 0x1680 ||
    (0x2000 ≤ n && n ≤ 0x200A) || n == 0x2028 || n == 0x2029 || n == 0x202F || n == 0x205F ||
    n == 0x3000

/-- A text without the blanks at its start. -/
def trimStart (cs : List Char) : List Char := cs.dropWhile isBlank

/-- A text without the characters at its end that satisfy the predicate. -/
def dropEndWhile (p : Char → Bool) (cs : List Char) : List Char :=
  (cs.reverse.dropWhile p).reverse

/-- A text without the blanks at its end. -/
def trimEnd (cs : List Char) : List Char := dropEndWhile isBlank cs

/-- A text without the blanks at its start and end. -/
def trim (cs : List Char) : List Char := trimEnd (trimStart cs)

/-- The maximal nonempty runs of characters that are no separators, in order. -/
def words (separates : Char → Bool) (cs : List Char) : List (List Char) :=
  (cs.splitOnP separates).filter fun word => !word.isEmpty

/-! ## Keywords -/

/-- The lower-case form of a character, exact for the characters whose form is in ASCII. -/
def foldCase (c : Char) : Char := if c = '\u212a' then 'k' else c.toLower

/-- Whether the lower-case form of a text is the given lower-case keyword. -/
def matchesKeyword (text keyword : String) : Bool :=
  text.toList.map foldCase == keyword.toList

end Overpass.Text
