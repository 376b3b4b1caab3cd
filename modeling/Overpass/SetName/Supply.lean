import Overpass.Query.Error

/-!
# Given and generated names

A query is named by its caller or takes the next generated name from a supply. A name that was taken
is never given back: a computation that is refused later has still used it up.

## Main Definitions

* `SetName.parse`: the name that a caller gives
* `NameSupply`: how far the generated names have been taken
* `NameSupply.name`: the next generated name
* `Fresh`: computations that take generated names and may be refused
* `Fresh.name`: takes the next name

## Design Notes

Generated names are numbered by words of 64 bits, so after that many names the numbers start over.
The supply itself counts on, which keeps track of how many names were taken.
-/

namespace Overpass

/-- The name that a caller gives. -/
def SetName.parse (text : String) : Except QueryError SetName :=
  match SetName.ofText? text with
  | some name => .ok name
  | none => .error (.invalidName text)

/-- How far the generated names have been taken. -/
structure NameSupply where
  next : Nat
deriving DecidableEq

namespace NameSupply

/-- The supply that no name was taken from. -/
def initial : NameSupply := ⟨1⟩

/-- The next generated name; its number is a word of 64 bits. -/
def name (supply : NameSupply) : SetName := SetName.numbered (supply.next % UInt64.size)

/-- The supply after its next name was taken. -/
def advance (supply : NameSupply) : NameSupply := ⟨supply.next + 1⟩

end NameSupply

/-- A computation that takes generated names and may be refused. A refusal leaves the supply as it
was when the refusal happened. -/
abbrev Fresh (α : Type) : Type := ExceptT QueryError (StateM NameSupply) α

namespace Fresh

/-- Runs a computation on a supply. -/
def runOn {α : Type} (computation : Fresh α) (supply : NameSupply) :
    Except QueryError α × NameSupply :=
  (ExceptT.run computation).run supply

/-- Takes the next generated name. -/
def name : Fresh SetName := fun supply => (.ok supply.name, supply.advance)

/-- A result that takes no name. -/
def lift {α : Type} (result : Except QueryError α) : Fresh α := fun supply => (result, supply)

/-! ### Runs -/

variable {α β : Type} {supply rest : NameSupply}

/-- A computation followed by another one: the second is run on what the first leaves of the supply,
unless the first is refused. -/
theorem runOn_bind (first : Fresh α) (next : α → Fresh β) (supply : NameSupply) :
    (first >>= next).runOn supply =
      match first.runOn supply with
      | (.ok a, middle) => (next a).runOn middle
      | (.error cause, middle) => (.error cause, middle) := by
  show (ExceptT.bindCont next (first.runOn supply).1).run (first.runOn supply).2 = _
  rcases first.runOn supply with ⟨result, middle⟩
  cases result <;> rfl

/-- A computation followed by another one succeeds where both succeed. -/
theorem runOn_bind_eq_ok_iff {first : Fresh α} {next : α → Fresh β} {b : β} :
    (first >>= next).runOn supply = (.ok b, rest) ↔
      ∃ a middle, first.runOn supply = (.ok a, middle) ∧
        (next a).runOn middle = (.ok b, rest) := by
  rw [runOn_bind]
  rcases first.runOn supply with ⟨result, middle⟩
  cases result with
  | error cause => simp
  | ok a =>
      constructor
      · exact fun h => ⟨a, middle, rfl, h⟩
      · rintro ⟨_, _, heq, h⟩
        cases heq
        exact h

theorem runOn_lift (result : Except QueryError α) :
    (lift result).runOn supply = (result, supply) := rfl

end Fresh

end Overpass
