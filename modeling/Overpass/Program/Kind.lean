import Overpass.Program

/-!
# Kinds of named sets

An area and a selection hold elements of their own kind. The kind of an operation follows from its
operands where that is possible: a recursion may lead to any kind, and a union of different kinds
mixes them.

## Main Definitions

* `Program.kindWithin`: the kind of a named set, found in a limited number of steps
* `Program.kindOf`: the kind of a named set

## Design Notes

The search follows names and not structure, so it carries a number of steps that it may still take
and tells running out of them from not knowing the kind.
-/

namespace Overpass.Program

/-- The kind of a union whose left operand is of a known kind: the common kind of both operands,
unknown where they differ. -/
def unionKind (left : ElementKind) (right : Option ElementKind) : Option ElementKind :=
  if right = some left then some left else none

/-- The kind of a named set, found by following at most `fuel` references. The outer option is empty
when that is not enough, the inner one when the set may mix kinds or the name is not bound. -/
def kindWithin (program : Program) : Nat → SetName → Option (Option ElementKind)
  | 0, _ => none
  | fuel + 1, name =>
    match program.area? name, program.selection? name, program.operation? name with
    | some area, _, _ => some (some area.kind)
    | none, some selection, _ => some (some selection.kind)
    | none, none, none => some none
    | none, none, some operation =>
      match operation.formula with
      | .binary .union left right =>
        match program.kindWithin fuel left with
        | some (some kind) => (program.kindWithin fuel right).map (unionKind kind)
        | unknown => unknown
      | .binary .difference left _ => program.kindWithin fuel left
      | .binary (.intersection kind) _ _ => some (some kind)
      | .recurse _ _ => some none

/-- The kind of the elements in a named set; nothing when the set may mix kinds or is not bound. An
operand is bound to an earlier operation or to a selection, so following one reference more than
there are operations reaches a selection. -/
def kindOf (program : Program) (name : SetName) : Option ElementKind :=
  (program.kindWithin (program.operations.length + 1) name).join

end Overpass.Program
