import Overpass.Region
import Overpass.Tag.Filter

/-!
# Definitions of sets

A program consists of definitions that each bind a named set: areas, which hold the elements of a
region, selections, which pick elements by tags from an area or another set, and operations on sets.

## Main Definitions

* `Area`, `Selection`, `Operation`: the three sorts of definitions
* `Definition`: a definition of any sort
* `Definition.references`: the names that a definition refers to
* `Definition.line`: the program line of a definition

## Design Notes

An operation is either a binary one with two operands or a recursion with one, so no operation lacks
an operand that its operator reads. Definitions are compared by `Equal`, which compares coordinates
numerically; operations hold none and are compared by `=`.
-/

namespace Overpass

/-! ## Areas -/

/-- The elements of a kind in a region; the set has the name of the region. -/
structure Area where
  kind : ElementKind
  region : Region
deriving DecidableEq

namespace Area

/-- The name that the area binds. -/
def name (area : Area) : SetName := area.region.name

/-- Equality of areas with coordinates compared numerically. -/
def Equal (a b : Area) : Prop := a.kind = b.kind ∧ a.region.Equal b.region

instance (a b : Area) : Decidable (a.Equal b) :=
  inferInstanceAs (Decidable (a.kind = b.kind ∧ a.region.Equal b.region))

/-- The program line of the area. -/
def line (area : Area) : String :=
  area.kind.keyword ++ area.region.text ++ "->." ++ area.name.text ++ ";"

end Area

/-! ## Selections -/

/-- Where a selection looks for elements. -/
inductive Scope where
  /-- In a set that is bound earlier. -/
  | named (name : SetName)
  /-- In a region that is printed inside the line of the selection. -/
  | inline (region : Region)
deriving DecidableEq

namespace Scope

/-- Equality of scopes with coordinates compared numerically. -/
def Equal : Scope → Scope → Prop
  | named x, named y => x = y
  | inline a, inline b => a.Equal b
  | _, _ => False

instance decidableEqual : (s t : Scope) → Decidable (s.Equal t)
  | named x, named y => inferInstanceAs (Decidable (x = y))
  | inline a, inline b => inferInstanceAs (Decidable (a.Equal b))
  | named _, inline _ => isFalse id
  | inline _, named _ => isFalse id

/-- The names that the scope refers to. -/
def references : Scope → List SetName
  | named name => [name]
  | inline _ => []

/-- The scope as it is printed after the kind of its selection. -/
def text : Scope → String
  | named name => "." ++ name.text
  | inline region => region.text

end Scope

/-- The elements of a kind with some tags in a scope. -/
structure Selection where
  name : SetName
  kind : ElementKind
  scope : Scope
  tags : TagFilter
deriving DecidableEq

namespace Selection

/-- Equality of selections with coordinates compared numerically. -/
def Equal (a b : Selection) : Prop :=
  a.name = b.name ∧ a.kind = b.kind ∧ a.scope.Equal b.scope ∧ a.tags = b.tags

instance (a b : Selection) : Decidable (a.Equal b) :=
  inferInstanceAs (Decidable (a.name = b.name ∧ a.kind = b.kind ∧ a.scope.Equal b.scope ∧
    a.tags = b.tags))

/-- The program line of the selection. -/
def line (selection : Selection) : String :=
  selection.kind.keyword ++ selection.scope.text ++ selection.tags.render ++ "->." ++
    selection.name.text ++ ";"

end Selection

/-! ## Operations -/

/-- A combination of two sets. -/
inductive BinaryOperator where
  /-- The elements of either set. -/
  | union
  /-- The elements of the left set that are not in the right one. -/
  | difference
  /-- The elements of a kind that are in both sets. -/
  | intersection (kind : ElementKind)
deriving DecidableEq

/-- How an operation obtains its set from sets that are bound earlier. -/
inductive Formula where
  | binary (operator : BinaryOperator) (left right : SetName)
  | recurse (direction : Direction) (source : SetName)
deriving DecidableEq

namespace Formula

/-- The first operand. -/
def left : Formula → SetName
  | binary _ left _ => left
  | recurse _ source => source

/-- The second operand, if the operator reads one. -/
def right? : Formula → Option SetName
  | binary _ _ right => some right
  | recurse _ _ => none

/-- The names of the operands in order. -/
def references : Formula → List SetName
  | binary _ left right => [left, right]
  | recurse _ source => [source]

/-- The formula as it is printed. -/
def text : Formula → String
  | binary .union left right => "(." ++ left.text ++ ";." ++ right.text ++ ";)"
  | binary .difference left right => "(." ++ left.text ++ "; - ." ++ right.text ++ ";)"
  | binary (.intersection kind) left right =>
    kind.keyword ++ "." ++ left.text ++ "." ++ right.text
  | recurse direction source => "(." ++ source.text ++ "; " ++ direction.marker ++ ";)"

end Formula

/-- The set that a formula gives, with a name. -/
structure Operation where
  name : SetName
  formula : Formula
deriving DecidableEq

/-- The program line of the operation. -/
def Operation.line (operation : Operation) : String :=
  operation.formula.text ++ "->." ++ operation.name.text ++ ";"

/-! ## Definitions of any sort -/

/-- A definition of any sort. -/
inductive Definition where
  | area (area : Area)
  | selection (selection : Selection)
  | operation (operation : Operation)
deriving DecidableEq

namespace Definition

/-- The name that the definition binds. -/
def name : Definition → SetName
  | area a => a.name
  | selection s => s.name
  | operation o => o.name

/-- The names that the definition refers to, in the order in which they are looked up. -/
def references : Definition → List SetName
  | area _ => []
  | selection s => s.scope.references
  | operation o => o.formula.references

/-- The program line of the definition. -/
def line : Definition → String
  | area a => a.line
  | selection s => s.line
  | operation o => o.line

end Definition

end Overpass
