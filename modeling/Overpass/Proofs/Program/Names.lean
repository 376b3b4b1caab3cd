import Mathlib.Data.List.Nodup
import Overpass.Program.Merge

/-!
# Bound names and lookups

A program is three lists, but most of what is proved about it only asks which names it binds, in
which order, and what a name is bound to. This module fixes that view: names sort by sort, names of
the whole program, lookups as membership, and signatures, which are all that is left of a definition
when only the graph of references counts. Everything that follows reads programs through it.

## Main Definitions

* `Definition.binding`: the sort of a definition
* `Program.namesOf`: the names of one sort, in the order of their definitions
* `Program.names`: all names that are bound
* `Definition.signature`: name, sort and references of a definition
* `Program.signatures`: the signatures of all definitions

## Main Statements

* `Program.definition?_eq_some_iff`: where no name is bound twice, looking a name up is membership
* `Program.namesOf_append`, `Program.mem_definitions_append`: what appending a definition adds
-/

namespace Overpass

/-- The sort of a definition, which is also the list of a program that it stands in. -/
def Definition.binding : Definition → Binding
  | area _ => .area
  | selection _ => .selection
  | operation _ => .operation

/-- What a definition is in the graph of references: its name, its sort, and the names that it
refers to. -/
structure Signature where
  name : SetName
  binding : Binding
  references : List SetName

/-- The signature of a definition. It leaves out kinds, regions and tags. -/
def Definition.signature (d : Definition) : Signature := ⟨d.name, d.binding, d.references⟩

namespace Program

variable {p : Program} {d e : Definition} {n : SetName} {b : Binding}

/-- The names that definitions of one sort bind, in order. -/
def namesOf (p : Program) : Binding → List SetName
  | .area => p.areas.map Area.name
  | .selection => p.selections.map Selection.name
  | .operation => p.operations.map Operation.name

/-- The names that are bound, in the order of the definitions, which is that of the lines of a
script. -/
def names (p : Program) : List SetName := p.definitions.map Definition.name

/-- The signatures of the definitions, in the order of the definitions. -/
def signatures (p : Program) : List Signature := p.definitions.map Definition.signature

/-- A signature of a program is that of some definition in it. The list of signatures is a view of
the definitions that leaves out what a merge may change. -/
theorem mem_signatures {x : Signature} :
    x ∈ p.signatures ↔ ∃ d ∈ p.definitions, d.signature = x := List.mem_map

theorem signature_mem_signatures (hd : d ∈ p.definitions) : d.signature ∈ p.signatures :=
  List.mem_map_of_mem hd

/-- The names of a program are listed by sort, in the order in which a script binds them: those of
areas first, then those of selections, then those of operations. -/
theorem names_eq (p : Program) :
    p.names = p.namesOf .area ++ p.namesOf .selection ++ p.namesOf .operation := by
  simp [names, definitions, namesOf, Function.comp_def, Definition.name]

/-- A name is bound by a program if a definition of some sort binds it. Nothing is said here of how
often: that no name is bound twice is part of being well-formed. -/
theorem mem_names : n ∈ p.names ↔ ∃ b, n ∈ p.namesOf b := by
  rw [names_eq, List.mem_append, List.mem_append]
  constructor
  · rintro ((h | h) | h)
    exacts [⟨_, h⟩, ⟨_, h⟩, ⟨_, h⟩]
  · rintro ⟨b, h⟩
    cases b with
    | area => exact Or.inl (Or.inl h)
    | selection => exact Or.inl (Or.inr h)
    | operation => exact Or.inr h

theorem mem_names_of_mem_namesOf (h : n ∈ p.namesOf b) : n ∈ p.names := mem_names.mpr ⟨b, h⟩

/-- No name is bound twice: neither within one sort nor by definitions of two sorts. -/
theorem names_nodup_iff :
    p.names.Nodup ↔ (∀ b, (p.namesOf b).Nodup) ∧
      ∀ b c n, n ∈ p.namesOf b → n ∈ p.namesOf c → b = c := by
  rw [names_eq, List.nodup_append', List.nodup_append', List.disjoint_append_left]
  constructor
  · rintro ⟨⟨harea, hselection, hfirst⟩, hoperation, hsecond, hthird⟩
    refine ⟨fun b => by cases b <;> assumption, fun b c n hb hc => ?_⟩
    cases b <;> cases c <;> first | rfl | exfalso
    exacts [hfirst hb hc, hsecond hb hc, hfirst hc hb, hthird hb hc, hsecond hc hb, hthird hc hb]
  · rintro ⟨hnodup, hone⟩
    have hdisjoint : ∀ {b c}, b ≠ c → List.Disjoint (p.namesOf b) (p.namesOf c) :=
      fun hne n hb hc => hne (hone _ _ n hb hc)
    exact ⟨⟨hnodup _, hnodup _, hdisjoint (by decide)⟩, hnodup _, hdisjoint (by decide),
      hdisjoint (by decide)⟩

/-- The size of a program counts its definitions. It is what bounds the search for a kind, and what
the number of lines of a script is counted from. -/
theorem length_definitions (p : Program) : p.definitions.length = p.size := by
  rw [definitions, List.length_append, List.length_append, List.length_map, List.length_map,
    List.length_map, size]

/-! ### Definitions of one sort -/

@[simp] theorem area_mem_definitions {a : Area} : .area a ∈ p.definitions ↔ a ∈ p.areas := by
  simp [definitions]

@[simp] theorem selection_mem_definitions {s : Selection} :
    .selection s ∈ p.definitions ↔ s ∈ p.selections := by
  simp [definitions]

@[simp] theorem operation_mem_definitions {o : Operation} :
    .operation o ∈ p.definitions ↔ o ∈ p.operations := by
  simp [definitions]

/-- A name is bound by a sort if there is a definition of that sort and name. So the three lists of
a program, which are kept apart, can be reasoned about as one list of definitions. -/
theorem mem_namesOf : n ∈ p.namesOf b ↔ ∃ d ∈ p.definitions, d.binding = b ∧ d.name = n := by
  constructor
  · intro h
    cases b <;> obtain ⟨x, hx, rfl⟩ := List.mem_map.mp h
    · exact ⟨.area x, area_mem_definitions.mpr hx, rfl, rfl⟩
    · exact ⟨.selection x, selection_mem_definitions.mpr hx, rfl, rfl⟩
    · exact ⟨.operation x, operation_mem_definitions.mpr hx, rfl, rfl⟩
  · rintro ⟨d, hd, rfl, rfl⟩
    cases d with
    | area a => exact List.mem_map_of_mem (area_mem_definitions.mp hd)
    | selection s => exact List.mem_map_of_mem (selection_mem_definitions.mp hd)
    | operation o => exact List.mem_map_of_mem (operation_mem_definitions.mp hd)

/-- Which sort binds a name can be told from the signatures alone. So whatever keeps the signatures
keeps the names, as the widening of areas does. -/
theorem mem_namesOf_iff_signatures :
    n ∈ p.namesOf b ↔ ∃ x ∈ p.signatures, x.binding = b ∧ x.name = n := by
  simp only [mem_namesOf, mem_signatures]
  constructor
  · rintro ⟨d, hd, rfl, rfl⟩
    exact ⟨d.signature, ⟨d, hd, rfl⟩, rfl, rfl⟩
  · rintro ⟨_, ⟨d, hd, rfl⟩, rfl, rfl⟩
    exact ⟨d, hd, rfl, rfl⟩

theorem name_mem_namesOf (hd : d ∈ p.definitions) : d.name ∈ p.namesOf d.binding :=
  mem_namesOf.mpr ⟨d, hd, rfl, rfl⟩

theorem name_mem_names (hd : d ∈ p.definitions) : d.name ∈ p.names := List.mem_map_of_mem hd

/-! ### Lookups -/

theorem definition?_eq_none_iff : p.definition? n = none ↔ n ∉ p.names := by
  simp [definition?, names]

/-- What a lookup finds is a definition of the name that was asked for. This needs no condition on
the program: of several definitions of one name the first is found. -/
theorem mem_of_definition?_eq_some (h : p.definition? n = some d) :
    d ∈ p.definitions ∧ d.name = n :=
  ⟨List.mem_of_find?_eq_some h, by simpa using List.find?_some h⟩

/-- Where no name is bound twice, two definitions of one name are the same definition. -/
theorem eq_of_name_eq (hp : p.names.Nodup) (hd : d ∈ p.definitions) (he : e ∈ p.definitions)
    (hname : d.name = e.name) : d = e :=
  List.inj_on_of_nodup_map hp hd he hname

/-- In a list of differently named items, looking a name up is membership. -/
theorem find?_eq_some_iff_of_nodup {α : Type} {name : α → SetName} {items : List α}
    (hitems : (items.map name).Nodup) {x : α} :
    (items.find? fun y => name y == n) = some x ↔ x ∈ items ∧ name x = n := by
  constructor
  · exact fun h => ⟨List.mem_of_find?_eq_some h, by simpa using List.find?_some h⟩
  · rintro ⟨hx, rfl⟩
    cases hfind : items.find? fun y => name y == name x with
    | none => simpa using List.find?_eq_none.mp hfind x hx
    | some y =>
        have hname : name y = name x := by simpa using List.find?_some hfind
        rw [List.inj_on_of_nodup_map hitems (List.mem_of_find?_eq_some hfind) hx hname]

/-- Where no name is bound twice, looking a name up is membership: the definition that is found is
the only one of its name. The claim fails without the condition, since a lookup finds the first one
only. -/
theorem definition?_eq_some_iff (hp : p.names.Nodup) :
    p.definition? n = some d ↔ d ∈ p.definitions ∧ d.name = n :=
  find?_eq_some_iff_of_nodup hp

/-- Looking an area up is membership too, where no name is bound twice. The same holds of selections
and of operations, each of which is looked up in a list of its own. -/
theorem area?_eq_some_iff (hp : p.names.Nodup) {a : Area} :
    p.area? n = some a ↔ a ∈ p.areas ∧ a.name = n :=
  find?_eq_some_iff_of_nodup ((names_nodup_iff.mp hp).1 .area)

theorem selection?_eq_some_iff (hp : p.names.Nodup) {s : Selection} :
    p.selection? n = some s ↔ s ∈ p.selections ∧ s.name = n :=
  find?_eq_some_iff_of_nodup ((names_nodup_iff.mp hp).1 .selection)

theorem operation?_eq_some_iff (hp : p.names.Nodup) {o : Operation} :
    p.operation? n = some o ↔ o ∈ p.operations ∧ o.name = n :=
  find?_eq_some_iff_of_nodup ((names_nodup_iff.mp hp).1 .operation)

/-- An area is found exactly under the names that are bound as areas. Unlike what is found, whether
something is found does not depend on names being bound once. -/
theorem isSome_area?_iff : (p.area? n).isSome = true ↔ n ∈ p.namesOf .area := by
  simp [area?, namesOf]

theorem isSome_selection?_iff : (p.selection? n).isSome = true ↔ n ∈ p.namesOf .selection := by
  simp [selection?, namesOf]

theorem isSome_operation?_iff : (p.operation? n).isSome = true ↔ n ∈ p.namesOf .operation := by
  simp [operation?, namesOf]

theorem binds_iff : p.binds n = true ↔ n ∈ p.names := by
  rw [names_eq, List.mem_append, List.mem_append, ← isSome_area?_iff, ← isSome_selection?_iff,
    ← isSome_operation?_iff]
  unfold binds binding?
  split_ifs <;> simp_all

/-- Where no name is bound twice, the sort that a name is bound to is the one whose names it is
among. -/
theorem binding?_eq_some_iff (hp : p.names.Nodup) : p.binding? n = some b ↔ n ∈ p.namesOf b := by
  have hone := (names_nodup_iff.mp hp).2
  have harea := isSome_area?_iff (p := p) (n := n)
  have hselection := isSome_selection?_iff (p := p) (n := n)
  have hoperation := isSome_operation?_iff (p := p) (n := n)
  unfold binding?
  split_ifs with h₁ h₂ h₃
  · exact ⟨fun h => Option.some.inj h ▸ harea.mp h₁,
      fun h => congrArg some (hone _ _ n (harea.mp h₁) h)⟩
  · exact ⟨fun h => Option.some.inj h ▸ hselection.mp h₂,
      fun h => congrArg some (hone _ _ n (hselection.mp h₂) h)⟩
  · exact ⟨fun h => Option.some.inj h ▸ hoperation.mp h₃,
      fun h => congrArg some (hone _ _ n (hoperation.mp h₃) h)⟩
  · cases b <;> simp_all

/-! ### Appending a definition -/

/-- A definition that is appended adds its name at the end of the names of its sort, and leaves the
other two lists of names as they are. -/
theorem namesOf_append (p : Program) (d : Definition) (b : Binding) :
    (p.append d).namesOf b = p.namesOf b ++ if d.binding = b then [d.name] else [] := by
  cases d <;> cases b <;> simp [append, namesOf, Definition.binding, Definition.name]

theorem mem_namesOf_append :
    n ∈ (p.append d).namesOf b ↔ n ∈ p.namesOf b ∨ d.binding = b ∧ n = d.name := by
  rw [namesOf_append, List.mem_append]
  split_ifs with h <;> simp [h]

theorem mem_definitions_append : e ∈ (p.append d).definitions ↔ e ∈ p.definitions ∨ e = d := by
  cases d <;> simp only [append, definitions, List.map_append, List.mem_append, List.map_cons,
    List.map_nil, List.mem_singleton] <;> tauto

/-- A definition that is appended adds its signature and takes none away. Invariants that speak of
signatures alone are extended by way of this lemma. -/
theorem mem_signatures_append {x : Signature} :
    x ∈ (p.append d).signatures ↔ x ∈ p.signatures ∨ x = d.signature := by
  simp only [mem_signatures, mem_definitions_append]
  grind

theorem mem_names_append : n ∈ (p.append d).names ↔ n ∈ p.names ∨ n = d.name := by
  simp only [names, List.mem_map, mem_definitions_append]
  grind

end Program

end Overpass
