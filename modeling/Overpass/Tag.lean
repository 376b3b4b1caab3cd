import Overpass.Query.Error
import Overpass.Text.Words
import Overpass.Text.Pattern

/-!
# Tags

A tag asks for a key, with or without a value. Callers write a tag as a token `key` or `key=value`,
or as a pair of a key and an optional value.

## Main Definitions

* `Tag`: a key and an optional value
* `Tag.tokenPattern`: the syntax of tokens
* `Tag.ofToken?`, `Tag.ofPair?`: the tag that a token or a pair denotes
* `Tag.render`: the bracketed form of a tag

## Design Notes

A token is trimmed around its key and its value. A pair keeps its texts as they are.
-/

namespace Overpass

/-- A key that elements must have, with a value if only one value will do. -/
structure Tag where
  key : String
  value : Option String
deriving DecidableEq

namespace Tag

/-- A key: it holds no equals sign and does not end in a blank. -/
def keyPattern : Text.Pattern :=
  .append (.many (· != '=')) (.one fun c => c != '=' && !Text.isBlank c)

/-- What a token is without the blanks around it: a key and, where an equals sign follows, a value
that holds none. Both are marked. -/
def tokenPattern : Text.Pattern :=
  .append (.group keyPattern) (.append (.many Text.isBlank)
    (.optional (.append (.one (· == '='))
      (.append (.many Text.isBlank) (.group (.atLeastOne (· != '=')))))))

/-- The tag that a token denotes, without the blanks around its key and its value. -/
def ofToken? (token : String) : Option Tag :=
  match tokenPattern.groups? (Text.trim token.toList) with
  | some (key :: values) =>
    some ⟨String.ofList (Text.trim key),
      values.head?.map fun value => String.ofList (Text.trim value)⟩
  | _ => none

/-- The tag that a pair denotes, its texts kept as they are. The key must not be blank, and a value
must not be empty. -/
def ofPair? (key : String) (value : Option String) : Option Tag :=
  if (Text.trim key.toList).isEmpty || value == some "" then none else some ⟨key, value⟩

/-- Reads a token. -/
def parse (token : String) : Except QueryError Tag :=
  match ofToken? token with
  | some tag => .ok tag
  | none => .error (.tagSyntax token)

/-- The token that spells a key and an optional value. -/
def tokenText (key : String) : Option String → String
  | some value => key ++ "=" ++ value
  | none => key

/-- Reads a pair. -/
def ofPair (pair : String × Option String) : Except QueryError Tag :=
  match ofPair? pair.1 pair.2 with
  | some tag => .ok tag
  | none => .error (.tagSyntax (tokenText pair.1 pair.2))

/-- A text in which a character is replaced wherever it stands. -/
def replace (c : Char) (replacement text : List Char) : List Char :=
  text.flatMap fun d => if d = c then replacement else [d]

/-- A key or value inside its quotes: every backslash is doubled, and then every quote gets a
backslash before it. -/
def escape (text : List Char) : List Char :=
  replace '"' ['\\', '"'] (replace '\\' ['\\', '\\'] text)

/-- A key or value between quotes. -/
def quote (text : String) : String := "\"" ++ String.ofList (escape text.toList) ++ "\""

/-- The bracketed form of a tag. -/
def render (tag : Tag) : String :=
  match tag.value with
  | some value => "[" ++ quote tag.key ++ "=" ++ quote value ++ "]"
  | none => "[" ++ quote tag.key ++ "]"

end Tag

end Overpass
