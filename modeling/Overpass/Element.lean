import Overpass.Text.Words

/-!
# Element kinds and recursion directions

Elements are nodes, ways and relations. A selection picks elements of one of these kinds or of all
three at once, and a recursion leads from a set to its members or to the elements that hold it.

## Main Definitions

* `ElementKind`: the kind of elements that a selection picks
* `Direction`: the direction of a recursion
-/

namespace Overpass

/-- The kind of elements that a selection picks. -/
inductive ElementKind where
  | node
  | way
  | relation
  /-- Nodes, ways and relations at once. -/
  | any
deriving DecidableEq

namespace ElementKind

/-- The keyword of the query language. -/
def keyword : ElementKind → String
  | node => "node"
  | way => "way"
  | relation => "rel"
  | any => "nwr"

/-- The unabbreviated name, used where a query's structure is dumped. -/
def longName : ElementKind → String
  | node => "node"
  | way => "way"
  | relation => "relation"
  | any => "nodewayrelation"

/-- The kind that a keyword or one of its short and long forms names, in any case. -/
def ofKeyword? (text : String) : Option ElementKind :=
  let isOneOf (keywords : List String) : Bool := keywords.any (Text.matchesKeyword text)
  if isOneOf ["node", "n"] then some node
  else if isOneOf ["way", "w"] then some way
  else if isOneOf ["rel", "relation", "r"] then some relation
  else if isOneOf ["nwr"] then some any
  else none

/-- The kind that covers two kinds: the common one, or all kinds as soon as they differ. -/
def widen (k l : ElementKind) : ElementKind := if k = l then k else any

end ElementKind

/-- The direction of a recursion. -/
inductive Direction where
  /-- Members of ways and relations. -/
  | down
  /-- Members, and members of members. -/
  | downRecursive
  /-- Ways and relations that hold the elements. -/
  | up
  /-- Holders, and holders of holders. -/
  | upRecursive
deriving DecidableEq

namespace Direction

/-- The marker of the query language. -/
def marker : Direction → String
  | down => ">"
  | downRecursive => ">>"
  | up => "<"
  | upRecursive => "<<"

/-- The name of the direction in words. -/
def name : Direction → String
  | down => "Down"
  | downRecursive => "DownRecursive"
  | up => "Up"
  | upRecursive => "UpRecursive"

/-- The direction with the given marker. -/
def ofMarker? : String → Option Direction
  | ">" => some down
  | ">>" => some downRecursive
  | "<" => some up
  | "<<" => some upRecursive
  | _ => none

end Direction

end Overpass
