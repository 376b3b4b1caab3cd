import Overpass.Json.Value
import Overpass.Numeric.Style

/-!
# Printing structured values

Values are printed on several lines, each level indented by two spaces. Empty arrays and objects
stay on one line, and numbers that are not finite are printed as null.

## Main Definitions

* `Json.quote`: a text between quotes
* `Json.pretty`: a value on indented lines
-/

namespace Overpass.Json

/-- The two hexadecimal digits of a control character. -/
def controlDigits (c : Char) : List Char :=
  [Nat.digitChar (c.toNat / 16), Nat.digitChar (c.toNat % 16)]

/-- A character between quotes: quote, backslash and control characters are escaped. -/
def escape (c : Char) : List Char :=
  if c = '"' ∨ c = '\\' then ['\\', c]
  else if c = '\x08' then ['\\', 'b']
  else if c = '\x0c' then ['\\', 'f']
  else if c = '\n' then ['\\', 'n']
  else if c = '\r' then ['\\', 'r']
  else if c = '\t' then ['\\', 't']
  else if c.toNat < 0x20 then '\\' :: 'u' :: '0' :: '0' :: controlDigits c
  else [c]

/-- A text between quotes. -/
def quote (text : String) : String :=
  "\"" ++ String.ofList (text.toList.flatMap escape) ++ "\""

/-- A number, or null if it is not finite. -/
def numberText (x : Binary64) : String :=
  if x.isFinite then String.ofList (x.text .document) else "null"

/-- A line end and the indentation of a level. -/
def lineStart (level : Nat) : String := String.ofList ('\n' :: List.replicate (2 * level) ' ')

mutual

/-- A value whose lines after the first are indented by the given level. -/
def pretty (level : Nat) : Json → String
  | null => "null"
  | bool true => "true"
  | bool false => "false"
  | number x => numberText x
  | string text => quote text
  | array [] => "[]"
  | array (item :: items) =>
    "[" ++ lineStart (level + 1) ++ pretty (level + 1) item ++ prettyItems (level + 1) items ++
      lineStart level ++ "]"
  | object [] => "\x7b\x7d"
  | object ((name, value) :: members) =>
    "\x7b" ++ lineStart (level + 1) ++ quote name ++ ": " ++ pretty (level + 1) value ++
      prettyMembers (level + 1) members ++ lineStart level ++ "\x7d"

/-- The items of an array after the first one. -/
def prettyItems (level : Nat) : List Json → String
  | [] => ""
  | item :: items => "," ++ lineStart level ++ pretty level item ++ prettyItems level items

/-- The members of an object after the first one. -/
def prettyMembers (level : Nat) : Members → String
  | [] => ""
  | (name, value) :: members =>
    "," ++ lineStart level ++ quote name ++ ": " ++ pretty level value ++
      prettyMembers level members

end

/-- A value printed on indented lines. -/
def text (value : Json) : String := value.pretty 0

end Overpass.Json
