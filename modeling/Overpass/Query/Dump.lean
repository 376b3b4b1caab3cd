import Overpass.Json.Printer
import Overpass.Query

/-!
# Dumps of queries

For inspection a query is dumped as a structured value: its root, and the three lists of its program
as objects whose members are named by the sets they bind.

## Main Definitions

* `Query.dump`: the structured value of a query
* `Query.dumpText`: the same as indented text
-/

namespace Overpass

/-- The name of a set as a value. -/
def SetName.dump (name : SetName) : Json := .string name.text

/-- A box as an object of its four sides. -/
def Bbox.dump (b : Bbox) : Json :=
  .object [("south", .number b.south), ("west", .number b.west), ("north", .number b.north),
    ("east", .number b.east)]

/-- A point as a pair. -/
def Point.dump (p : Point) : Json := .array [.number p.lat, .number p.lon]

/-- A region with both of its forms. -/
def Region.dump (region : Region) : Json :=
  .object [("name", region.name.dump), ("bbox", region.bbox.dump),
    ("poly", .array (region.outline.map Point.dump)), ("out", .string region.encoding.keyword)]

/-- An area. -/
def Area.dump (area : Area) : Json :=
  .object [("kind", .string area.kind.longName), ("handle", area.region.dump)]

/-- The scope of a selection, as an object whose one member names its sort. -/
def Scope.dump : Scope → Json
  | named name => .object [("Named", name.dump)]
  | inline region => .object [("Direct", region.dump)]

/-- A tag; an absent value is null. -/
def Tag.dump (tag : Tag) : Json :=
  .object [("key", .string tag.key), ("value", tag.value.elim .null .string)]

/-- A selection. -/
def Selection.dump (selection : Selection) : Json :=
  .object [("id", selection.name.dump), ("kind", .string selection.kind.longName),
    ("area", selection.scope.dump), ("tags", .array (selection.tags.tags.map Tag.dump))]

/-- The operator of a formula: a word, or an object whose member holds the operator's parameter. -/
def Formula.dumpOperator : Formula → Json
  | binary .union _ _ => .string "Union"
  | binary .difference _ _ => .string "Difference"
  | binary (.intersection kind) _ _ => .object [("Intersect", .string kind.longName)]
  | recurse direction _ => .object [("Recurse", .string direction.name)]

/-- An operation; an operand that its operator does not read is null. -/
def Operation.dump (operation : Operation) : Json :=
  .object [("id", operation.name.dump), ("op", operation.formula.dumpOperator),
    ("left", operation.formula.left.dump),
    ("right", operation.formula.right?.elim .null SetName.dump)]

/-- The three lists of a program. -/
def Program.dump (program : Program) : Json :=
  .object [
    ("named_areas", .object (program.areas.map fun area => (area.name.text, area.dump))),
    ("statements",
      .object (program.selections.map fun selection => (selection.name.text, selection.dump))),
    ("operations",
      .object (program.operations.map fun operation => (operation.name.text, operation.dump)))]

namespace Query

/-- The structured value of a query. -/
def dump (query : Query) : Json :=
  .object [("root", query.root.dump), ("environment", query.program.dump)]

/-- The dump of a query as indented text. -/
def dumpText (query : Query) : String := query.dump.text

end Query

end Overpass
