/-!
# Patterns

A pattern describes texts and marks parts of them. It is matched from the left. A repetition takes
as many characters as it can, an option is taken if it can be, and of two alternatives the first one
is tried first; where the rest of the pattern does not fit what is left then, they give back what
they took, the last choice first.

## Main Definitions

* `Text.Pattern`: patterns of characters of a class, repetitions, options, alternatives and marked
  groups
* `Text.Pattern.run`: the first way to match a beginning of a text that can be continued
* `Text.Pattern.groups?`: the marked parts of a text that matches as a whole
* `Text.Pattern.accepts`: whether a text matches as a whole

## Design Notes

What is to become of the rest of a text is handed to `run` as a function. Choices are undone where
that function refuses what they leave to it.
-/

namespace Overpass.Text

/-- A pattern of texts. -/
inductive Pattern where
  /-- One character of a class. -/
  | one (p : Char → Bool)
  /-- Any number of characters of a class. -/
  | many (p : Char → Bool)
  /-- A pattern with another one after it. -/
  | append (first second : Pattern)
  /-- A pattern, or nothing. -/
  | optional (inner : Pattern)
  /-- One of two patterns. -/
  | either (first second : Pattern)
  /-- A pattern whose text is marked. -/
  | group (inner : Pattern)

namespace Pattern

/-- One character of a class, and any number of further ones. -/
def atLeastOne (p : Char → Bool) : Pattern := append (one p) (many p)

/-- Nothing: a repetition that takes no character. -/
def nothing : Pattern := many fun _ => false

/-- As many characters of a class as asked for. -/
def exactly : Nat → (Char → Bool) → Pattern
  | 0, _ => nothing
  | count + 1, p => append (one p) (exactly count p)

variable {α : Type}

/-- Takes characters of a class, as many as the function for the rest allows. -/
def runMany (p : Char → Bool) (next : List Char → Option α) : List Char → Option α
  | [] => next []
  | c :: rest => if p c then (runMany p next rest).or (next (c :: rest)) else next (c :: rest)

/-- The first way to match a beginning of a text with whose groups and rest the function has a
result, and that result. -/
def run : Pattern → (List (List Char) → List Char → Option α) → List Char → Option α
  | one _, _, [] => none
  | one p, next, c :: rest => if p c then next [] rest else none
  | many p, next, text => runMany p (next []) text
  | append first second, next, text =>
    first.run (fun groups => second.run fun groups' => next (groups ++ groups')) text
  | optional inner, next, text => (inner.run next text).or (next [] text)
  | either first second, next, text => (first.run next text).or (second.run next text)
  | group inner, next, text =>
    inner.run (fun groups rest => next (text.take (text.length - rest.length) :: groups) rest) text

/-- The texts of the groups of a pattern that the whole text matches, those of groups that take no
part left out. -/
def groups? (pattern : Pattern) (text : List Char) : Option (List (List Char)) :=
  pattern.run (fun groups rest => if rest.isEmpty then some groups else none) text

/-- Whether a pattern matches the whole text. -/
def accepts (pattern : Pattern) (text : List Char) : Bool := (pattern.groups? text).isSome

end Pattern

end Overpass.Text
