import Overpass.Program.Kind
import Overpass.Program.Merge
import Overpass.SetName.Supply
import Overpass.Text.Words

/-!
# Queries and their algebra

A query is a named set together with the program that defines it. Queries are combined by union,
difference and intersection and followed by recursion; every combination gives a new query over the
merged programs of its operands.

## Main Definitions

* `Query`: a root name and the program that defines it
* `Query.combine`, `Query.follow`: an operation bound to a given name
* `Query.unionAs` and its companions: an operation bound to a caller's name
* `Query.union` and its companions: an operation bound to a generated name

## Design Notes

An operation takes its name before anything else is checked, so a generated name is used up even by
an operation that is refused. A recursion marker is read before the name is taken.
-/

namespace Overpass

/-- The direction that a marker text names; blanks around the marker do not count. -/
def Direction.parse (text : String) : Except QueryError Direction :=
  let marker := String.ofList (Text.trim text.toList)
  match Direction.ofMarker? marker with
  | some direction => .ok direction
  | none => .error (.unknownMarker marker)

/-- A named set and the program that defines it. -/
structure Query where
  root : SetName
  program : Program
deriving DecidableEq

namespace Query

/-- Equality of queries: equal roots, and programs that are equal as dictionaries. -/
def Equal (a b : Query) : Prop := a.root = b.root ∧ a.program.Equal b.program

instance (a b : Query) : Decidable (a.Equal b) :=
  inferInstanceAs (Decidable (a.root = b.root ∧ a.program.Equal b.program))

/-- The kind of the elements in the set, where it is known. -/
def kind (query : Query) : Option ElementKind := query.program.kindOf query.root

/-! ## Operations with a given name -/

/-- Refuses intersections of operands that are not known to be of the kind of the intersection. -/
def checkOperands (operator : BinaryOperator) (a b : Query) : Except QueryError Unit :=
  match operator with
  | .union | .difference => .ok ()
  | .intersection kind =>
    if a.kind = some kind ∧ b.kind = some kind then .ok ()
    else .error (.kindMismatch kind a.kind b.kind)

/-- Combines two queries under the given name. -/
def combine (operator : BinaryOperator) (a b : Query) (name : SetName) :
    Except QueryError Query := do
  checkOperands operator a b
  let merged ← a.program.merge b.program
  let program ← merged.insert (.operation ⟨name, .binary operator a.root b.root⟩)
  return ⟨name, program⟩

/-- Follows the elements of a query in a direction, under the given name. -/
def follow (direction : Direction) (query : Query) (name : SetName) : Except QueryError Query := do
  let program ← query.program.insert (.operation ⟨name, .recurse direction query.root⟩)
  return ⟨name, program⟩

/-! ## Operations with a caller's name -/

/-- Combines two queries under a caller's name. -/
def combineAs (operator : BinaryOperator) (a b : Query) (text : String) :
    Except QueryError Query := do
  let name ← SetName.parse text
  combine operator a b name

/-- Elements of either query, under a caller's name. -/
def unionAs (a b : Query) (text : String) : Except QueryError Query := combineAs .union a b text

/-- Elements of the first query that are not in the second, under a caller's name. -/
def differenceAs (a b : Query) (text : String) : Except QueryError Query :=
  combineAs .difference a b text

/-- Elements of a kind in both queries, under a caller's name. -/
def intersectAs (a b : Query) (kind : ElementKind) (text : String) : Except QueryError Query :=
  combineAs (.intersection kind) a b text

/-- Related elements in a direction, under a caller's name. -/
def recurseAs (query : Query) (direction : Direction) (text : String) :
    Except QueryError Query := do
  let name ← SetName.parse text
  follow direction query name

/-! ## Operations with a generated name -/

/-- Combines two queries under a generated name. -/
def combineFresh (operator : BinaryOperator) (a b : Query) : Fresh Query := do
  let name ← Fresh.name
  Fresh.lift (combine operator a b name)

/-- Elements of either query. -/
def union (a b : Query) : Fresh Query := combineFresh .union a b

/-- Elements of the first query that are not in the second. -/
def difference (a b : Query) : Fresh Query := combineFresh .difference a b

/-- Elements of a kind in both queries, which must be of that kind already. -/
def intersect (a b : Query) (kind : ElementKind) : Fresh Query :=
  combineFresh (.intersection kind) a b

/-- Related elements in a direction. -/
def recurse (query : Query) (direction : Direction) : Fresh Query := do
  let name ← Fresh.name
  Fresh.lift (follow direction query name)

/-- Related elements in the direction that a marker names. -/
def recurseMarker (query : Query) (marker : String) : Fresh Query := do
  let direction ← Fresh.lift (Direction.parse marker)
  query.recurse direction

/-- Elements of any of the queries, united from the left. -/
def unionAll (query : Query) (others : List Query) : Fresh Query := others.foldlM union query

/-- Elements of the first query that are in none of the others, subtracted from the left. -/
def differenceAll (query : Query) (others : List Query) : Fresh Query :=
  others.foldlM difference query

/-- A negation on its own has no meaning: there is nothing to subtract from. -/
def negate (_ : Query) : Except QueryError Query := .error .unaryNegation

end Query

end Overpass
