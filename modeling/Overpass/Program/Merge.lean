import Overpass.Program
import Overpass.Query.Error

/-!
# Growing and merging programs

Programs grow by inserting definitions and by merging. A definition whose name is free is put at the
end of its list; one whose name is bound already is accepted only if the definition that is there
agrees with it, which then stays in its place.

## Main Definitions

* `Definition.Agrees`: whether a definition can stand for another one of its name
* `Program.append`, `Program.absorb`: the two outcomes of an insertion that is accepted
* `Program.insert`: adding a definition
* `Program.merge`: the definitions of two programs

## Design Notes

Areas are the same area when their regions are equal, whatever their kinds. When the kinds of two
such areas differ, the one that stays widens to all kinds, whichever of the two came first.
-/

namespace Overpass

/-- Whether a definition can stand for another one: both are of the same sort and equal, where areas
are compared by their regions alone. -/
def Definition.Agrees : Definition → Definition → Prop
  | area a, area b => a.region.Equal b.region
  | selection s, selection t => s.Equal t
  | operation o, operation p => o = p
  | _, _ => False

instance Definition.decidableAgrees : (d e : Definition) → Decidable (d.Agrees e)
  | area a, area b => inferInstanceAs (Decidable (a.region.Equal b.region))
  | selection s, selection t => inferInstanceAs (Decidable (s.Equal t))
  | operation o, operation p => inferInstanceAs (Decidable (o = p))
  | area _, selection _ | area _, operation _ | selection _, area _ | selection _, operation _
  | operation _, area _ | operation _, selection _ => isFalse id

namespace Program

/-- The areas with the kind of one of them widened to cover a further kind. -/
def widenArea (areas : List Area) (name : SetName) (kind : ElementKind) : List Area :=
  areas.map fun area =>
    if area.name = name then { area with kind := area.kind.widen kind } else area

/-- The program with a definition put at the end of its list. -/
def append (program : Program) : Definition → Program
  | .area a => { program with areas := program.areas ++ [a] }
  | .selection s => { program with selections := program.selections ++ [s] }
  | .operation o => { program with operations := program.operations ++ [o] }

/-- The program whose definition of a name also stands for a further one: an area widens, everything
else stays as it is. -/
def absorb (program : Program) : Definition → Program
  | .area a => { program with areas := widenArea program.areas a.name a.kind }
  | .selection _ | .operation _ => program

/-- Adds a definition. If its name is bound, the definition that is there must agree with it. -/
def insert (program : Program) (definition : Definition) : Except QueryError Program :=
  match program.definition? definition.name with
  | none => .ok (program.append definition)
  | some current =>
    if current.Agrees definition then .ok (program.absorb definition)
    else .error (.nameConflict definition.name)

/-- The definitions of two programs: those of the first in their order, then what the second
adds. -/
def merge (p q : Program) : Except QueryError Program := q.definitions.foldlM insert p

end Program

end Overpass
