import Overpass.Numeric.Binary64

/-!
# Structured values

Documents and dumps are trees of null, truth values, numbers, texts, arrays and objects.

## Main Definitions

* `Json`: such a tree
* `Json.member?`: the value of an object's member

## Design Notes

Members keep their order and may repeat a name; the last member of a name is the one that counts.
-/

namespace Overpass

/-- A tree of null, truth values, numbers, texts, arrays and objects. -/
inductive Json where
  | null
  | bool (value : Bool)
  | number (value : Binary64)
  | string (value : String)
  | array (items : List Json)
  | object (members : List (String × Json))

namespace Json

/-- The members of an object. -/
abbrev Members : Type := List (String × Json)

/-- The value of the last member with the given name. -/
def member? (members : Members) (name : String) : Option Json :=
  (members.reverse.find? fun entry => entry.1 == name).map Prod.snd

/-- A member's value is smaller than its object. -/
theorem sizeOf_lt_of_member? {members : Members} {name : String} {value : Json}
    (h : member? members name = some value) : sizeOf value < sizeOf (object members) := by
  obtain ⟨entry, found, rfl⟩ := Option.map_eq_some_iff.1 h
  have mem : entry ∈ members := List.mem_reverse.1 (List.mem_of_find?_eq_some found)
  have inner : sizeOf entry < sizeOf members := List.sizeOf_lt_of_mem mem
  have outer : sizeOf entry.2 < sizeOf entry := by
    cases entry
    simp only [Prod.mk.sizeOf_spec]
    omega
  simp only [object.sizeOf_spec]
  omega

/-- An item is smaller than its array. -/
theorem sizeOf_lt_of_item {items : List Json} {item : Json} (h : item ∈ items) :
    sizeOf item < sizeOf (array items) := by
  have inner : sizeOf item < sizeOf items := List.sizeOf_lt_of_mem h
  simp only [array.sizeOf_spec]
  omega

end Json

end Overpass
