import Overpass.SetName.Digest
import Overpass.Text.Pattern

/-!
# Set names

Every line of a program binds a named set. Names given by the caller, names generated for unnamed
queries and names generated for regions come from three disjoint classes, so that a caller can never
collide with a generated name.

## Main Definitions

* `SetName`: the name of a set
* `SetName.namePattern`, `SetName.generatedPattern`: the syntax, and the generated forms within it
* `SetName.ofText?`: a caller's name, unless it is ill formed or reserved
* `SetName.numbered`: the generated name with a given number
* `SetName.ofKey`: the generated name of a region with a given key text
-/

namespace Overpass

/-- The name of a set. -/
structure SetName where
  text : String
deriving DecidableEq

namespace SetName

/-- Whether a character may start a set name. -/
def isStart (c : Char) : Bool := c.isAlpha || c == '_'

/-- Whether a character may stand inside a set name. -/
def isPart (c : Char) : Bool := c.isAlphanum || c == '_'

/-- An ASCII letter or underscore, followed by ASCII letters, digits and underscores. -/
def namePattern : Text.Pattern := .append (.one isStart) (.many isPart)

/-- Whether a character is a lower-case hexadecimal digit. -/
def isHexDigit (c : Char) : Bool := c.isDigit || ('a' ≤ c && c ≤ 'f')

/-- The generated forms: `_s` and a number, or `_a` and sixteen hexadecimal digits. -/
def generatedPattern : Text.Pattern :=
  .append (.one (· == '_')) (.either
    (.append (.one (· == 's')) (.atLeastOne Char.isDigit))
    (.append (.one (· == 'a')) (.exactly 16 isHexDigit)))

/-- The name that a caller gives, unless it is ill formed or of a generated form. -/
def ofText? (text : String) : Option SetName :=
  if namePattern.accepts text.toList && !generatedPattern.accepts text.toList then some ⟨text⟩
  else none

/-- The generated name with the given number. -/
def numbered (n : Nat) : SetName := ⟨String.ofList ('_' :: 's' :: Nat.toDigits 10 n)⟩

/-- The generated name of a region with the given key text. -/
def ofKey (key : String) : SetName :=
  ⟨String.ofList ('_' :: 'a' :: Digest.hex (Digest.ofText key))⟩

end SetName

end Overpass
