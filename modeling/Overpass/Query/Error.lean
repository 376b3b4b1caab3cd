import Overpass.Element
import Overpass.Region.Error
import Overpass.SetName

/-!
# Refused queries

## Main Definitions

* `QueryError`: why a query cannot be built or printed
* `QueryError.message`: the wording of the refusal
-/

namespace Overpass

/-- Why a query cannot be built or printed. -/
inductive QueryError where
  /-- A tag token is neither a key nor a key with a value. -/
  | tagSyntax (token : String)
  /-- A selection was finished without a place to look in. -/
  | placeMissing
  /-- An operand of an intersection is not known to be of the kind of the intersection. -/
  | kindMismatch (expected : ElementKind) (left right : Option ElementKind)
  /-- A negation without a query to subtract from. -/
  | unaryNegation
  /-- A recursion marker that is none of the known ones. -/
  | unknownMarker (marker : String)
  /-- A line refers to a set that no earlier line binds. -/
  | unboundReference (name : SetName) (line : Nat)
  /-- A name is bound to two different definitions. -/
  | nameConflict (name : SetName)
  /-- A caller's name that is ill formed or reserved. -/
  | invalidName (text : String)
  /-- A region that is refused. -/
  | region (cause : RegionError)
  /-- A query whose root is printed too late to scope a selection. -/
  | operationAsScope (name : SetName)
deriving DecidableEq

namespace QueryError

/-- The kind of an operand as a message shows it; unknown kinds are mixed. -/
def kindLabel : Option ElementKind → String
  | some kind => kind.keyword
  | none => "mixed"

/-- The wording of a refusal. -/
def message : QueryError → String
  | tagSyntax token =>
    "Tag syntax error: " ++ Text.quoted token ++ " is not of the form key or key=value"
  | placeMissing => "No area given: use a bbox, coordinates, a shape or another statement"
  | kindMismatch expected left right =>
    "Kind mismatch: cannot intersect " ++ kindLabel left ++ " with " ++ kindLabel right ++ " as " ++
      expected.keyword
  | unaryNegation =>
    "Standalone negative statement: subtract from another statement instead (e.g. st1 - st2)"
  | unknownMarker marker => "Operator " ++ Text.quoted marker ++ " is not supported"
  | unboundReference name line =>
    "Dangling reference: ." ++ name.text ++ " is used before it is defined (line " ++ line.repr ++
      ")"
  | nameConflict name =>
    "Name conflict: ." ++ name.text ++ " is already bound to a different entry"
  | invalidName text =>
    "Invalid name " ++ Text.quoted text ++ ": not a set name, or reserved for generated names"
  | region cause => "Invalid area: " ++ cause.message
  | operationAsScope name =>
    "Statement ." ++ name.text ++ " is an operation result and cannot scope another statement"

end QueryError

end Overpass
