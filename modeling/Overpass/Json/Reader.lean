import Overpass.Json.Number
import Overpass.Json.Value

/-!
# Reading structured values

A text is cut into tokens, and the tokens are read with a stack of the arrays and objects that are
still open. The syntax is the strict one: no comments, no trailing commas, no leading zeros, no
control characters in texts, no unpaired surrogates, and at most 127 arrays and objects inside each
other.

## Main Definitions

* `Json.Token`: a token
* `Json.tokens?`: the tokens of a text
* `Json.Reader.value`, `Json.Reader.afterValue`: the two states between tokens
* `Json.ofText?`: the value that a text denotes
-/

namespace Overpass.Json

/-- A token of a structured text. -/
inductive Token where
  | openArray
  | closeArray
  | openObject
  | closeObject
  | comma
  | colon
  | text (value : String)
  /-- A number, a truth value or null. -/
  | scalar (value : Json)

/-! ## Tokens -/

/-- The value of a hexadecimal digit. -/
def hexDigit? (c : Char) : Option Nat :=
  if c.isDigit then some (c.toNat - '0'.toNat)
  else if 'a' ≤ c ∧ c ≤ 'f' then some (c.toNat - 'a'.toNat + 10)
  else if 'A' ≤ c ∧ c ≤ 'F' then some (c.toNat - 'A'.toNat + 10)
  else none

/-- The value of four hexadecimal digits. -/
def codeUnit? (a b c d : Char) : Option Nat := do
  let a ← hexDigit? a
  let b ← hexDigit? b
  let c ← hexDigit? c
  let d ← hexDigit? d
  return ((a * 16 + b) * 16 + c) * 16 + d

/-- The character that a letter after a backslash stands for. -/
def escaped? : Char → Option Char
  | '"' => some '"'
  | '\\' => some '\\'
  | '/' => some '/'
  | 'b' => some '\x08'
  | 'f' => some '\x0c'
  | 'n' => some '\n'
  | 'r' => some '\r'
  | 't' => some '\t'
  | _ => none

/-- Whether a code unit is the first half of a surrogate pair. -/
def isHighSurrogate (unit : Nat) : Bool := 0xD800 ≤ unit && unit < 0xDC00

/-- Whether a code unit is the second half of a surrogate pair. -/
def isLowSurrogate (unit : Nat) : Bool := 0xDC00 ≤ unit && unit < 0xE000

/-- The characters up to the closing quote, and the rest after it. -/
def readText : List Char → Option (List Char × List Char)
  | [] => none
  | '"' :: rest => some ([], rest)
  | '\\' :: 'u' :: a :: b :: c :: d :: rest =>
    match codeUnit? a b c d with
    | none => none
    | some unit =>
      if isHighSurrogate unit then
        match rest with
        | '\\' :: 'u' :: e :: f :: g :: h :: others =>
          match codeUnit? e f g h with
          | none => none
          | some low =>
            if isLowSurrogate low then
              let c := Char.ofNat (0x10000 + (unit - 0xD800) * 0x400 + (low - 0xDC00))
              (readText others).map fun (text, after) => (c :: text, after)
            else none
        | _ => none
      else if isLowSurrogate unit then none
      else (readText rest).map fun (text, after) => (Char.ofNat unit :: text, after)
  | '\\' :: letter :: rest =>
    match escaped? letter with
    | none => none
    | some c => (readText rest).map fun (text, after) => (c :: text, after)
  | c :: rest =>
    if c.toNat < 0x20 then none
    else (readText rest).map fun (text, after) => (c :: text, after)

/-- The token at the start of a text, and the rest after it. -/
def readToken : List Char → Option (Token × List Char)
  | '[' :: rest => some (.openArray, rest)
  | ']' :: rest => some (.closeArray, rest)
  | '\x7b' :: rest => some (.openObject, rest)
  | '\x7d' :: rest => some (.closeObject, rest)
  | ',' :: rest => some (.comma, rest)
  | ':' :: rest => some (.colon, rest)
  | '"' :: rest => (readText rest).map fun (text, after) => (.text (String.ofList text), after)
  | 't' :: 'r' :: 'u' :: 'e' :: rest => some (.scalar (.bool true), rest)
  | 'f' :: 'a' :: 'l' :: 's' :: 'e' :: rest => some (.scalar (.bool false), rest)
  | 'n' :: 'u' :: 'l' :: 'l' :: rest => some (.scalar .null, rest)
  | cs => do
    let (literal, rest) ← Literal.split cs
    let value ← literal.value?
    return (.scalar (.number value), rest)

/-- Whether a character may stand between tokens. -/
def isFiller (c : Char) : Bool := c == ' ' || c == '\t' || c == '\n' || c == '\r'

/-- At most `fuel` tokens of a text. -/
def tokensWithin : Nat → List Char → Option (List Token)
  | 0, cs => if (cs.dropWhile isFiller).isEmpty then some [] else none
  | fuel + 1, cs =>
    match cs.dropWhile isFiller with
    | [] => some []
    | c :: rest => do
      let (token, after) ← readToken (c :: rest)
      let others ← tokensWithin fuel after
      return token :: others

/-- The tokens of a text, of which there are at most as many as characters. -/
def tokens? (cs : List Char) : Option (List Token) := tokensWithin cs.length cs

/-! ## Values -/

/-- An array or object that is still open, with what it holds so far in reverse order. An object
waits for the value of a member. -/
inductive Frame where
  | array (items : List Json)
  | object (members : Members) (name : String)

/-- How many arrays and objects may be open at once. -/
def depthLimit : Nat := 127

namespace Reader

mutual

/-- Reads tokens where a value is due. -/
def value : List Token → List Frame → Option Json
  | .text s :: rest, stack => afterValue rest (.string s) stack
  | .scalar v :: rest, stack => afterValue rest v stack
  | .openArray :: rest, stack =>
    if stack.length < depthLimit then
      match rest with
      | .closeArray :: others => afterValue others (.array []) stack
      | others => value others (.array [] :: stack)
    else none
  | .openObject :: rest, stack =>
    if stack.length < depthLimit then
      match rest with
      | .closeObject :: others => afterValue others (.object []) stack
      | .text name :: .colon :: others => value others (.object [] name :: stack)
      | _ => none
    else none
  | _, _ => none

/-- Reads tokens after a value: it joins the innermost open array or object, or is the result. -/
def afterValue : List Token → Json → List Frame → Option Json
  | [], v, [] => some v
  | .comma :: rest, v, .array items :: stack => value rest (.array (v :: items) :: stack)
  | .closeArray :: rest, v, .array items :: stack =>
    afterValue rest (.array (v :: items).reverse) stack
  | .comma :: .text next :: .colon :: rest, v, .object members name :: stack =>
    value rest (.object ((name, v) :: members) next :: stack)
  | .closeObject :: rest, v, .object members name :: stack =>
    afterValue rest (.object ((name, v) :: members).reverse) stack
  | _, _, _ => none

end

end Reader

/-- The value that a text denotes; nothing if it is malformed. -/
def ofText? (text : String) : Option Json := do
  let tokens ← tokens? text.toList
  Reader.value tokens []

end Overpass.Json
