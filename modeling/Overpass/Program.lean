import Overpass.Definition

/-!
# Programs

A program holds definitions: areas, selections and operations, each sort in the order in which it is
printed. A name is bound at most once in all three lists together.

## Main Definitions

* `Program`: the three lists of definitions
* `Program.definitions`: all definitions in the order in which they are printed
* `Program.definition?`: the definition of a name, whatever its sort
* `Program.area?`, `Program.selection?`, `Program.operation?`: the definition of a name, of one sort
* `Program.binding?`: the sort of the definition of a name
* `Program.Equal`: equality of programs as dictionaries
-/

namespace Overpass

/-- The definitions of a program, each sort in the order in which it is printed. -/
structure Program where
  areas : List Area
  selections : List Selection
  operations : List Operation
deriving DecidableEq

/-- The sort of definition that a name is bound to. -/
inductive Binding where
  | area
  | selection
  | operation
deriving DecidableEq

namespace Program

/-- The program without definitions. -/
def empty : Program := ⟨[], [], []⟩

/-- All definitions in the order in which they are printed. -/
def definitions (program : Program) : List Definition :=
  program.areas.map .area ++ program.selections.map .selection ++
    program.operations.map .operation

/-- The definition that a name is bound to. -/
def definition? (program : Program) (name : SetName) : Option Definition :=
  program.definitions.find? fun definition => definition.name == name

/-- Number of definitions. -/
def size (program : Program) : Nat :=
  program.areas.length + program.selections.length + program.operations.length

/-- The area that a name is bound to. -/
def area? (program : Program) (name : SetName) : Option Area :=
  program.areas.find? fun area => area.name == name

/-- The selection that a name is bound to. -/
def selection? (program : Program) (name : SetName) : Option Selection :=
  program.selections.find? fun selection => selection.name == name

/-- The operation that a name is bound to. -/
def operation? (program : Program) (name : SetName) : Option Operation :=
  program.operations.find? fun operation => operation.name == name

/-- The sort of definition that a name is bound to. -/
def binding? (program : Program) (name : SetName) : Option Binding :=
  if (program.area? name).isSome then some .area
  else if (program.selection? name).isSome then some .selection
  else if (program.operation? name).isSome then some .operation
  else none

/-- Whether a name is bound. -/
def binds (program : Program) (name : SetName) : Bool := (program.binding? name).isSome

/-- Equality of programs as three dictionaries: order does not count, and coordinates are compared
numerically. -/
def Equal (p q : Program) : Prop :=
  (p.areas.length = q.areas.length ∧ ∀ a ∈ p.areas, ∃ b ∈ q.areas, a.Equal b) ∧
  (p.selections.length = q.selections.length ∧
    ∀ a ∈ p.selections, ∃ b ∈ q.selections, a.Equal b) ∧
  (p.operations.length = q.operations.length ∧ ∀ a ∈ p.operations, a ∈ q.operations)

instance (p q : Program) : Decidable (p.Equal q) := by
  unfold Equal
  infer_instance

end Program

end Overpass
