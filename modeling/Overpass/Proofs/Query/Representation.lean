import Overpass.Proofs.Query.Formed

/-!
# The representation invariant of programs

A program stands for three dictionaries that share one space of names. This module spells out what
well-formedness means for somebody who reads a program through its lookups and positions: every
definition is found under its own name and under no other, a name has one definition, and references
lead to definitions of the right sort that stand before. Every program that a caller can obtain has
this form, be it of a query or merged from several.

## Main Definitions

* `Program.Representation`: the invariant, clause by clause

## Main Statements

* `Program.Representation.of_wellFormed`: well-formed programs satisfy it
* `Program.Reachable.representation`: so do all programs that a caller can obtain
-/

namespace Overpass

/-- The operands of a formula are what it refers to: the left one, and the right one if there is
one. -/
theorem Formula.mem_references_iff {formula : Formula} {n : SetName} :
    n ∈ formula.references ↔ n = formula.left ∨ formula.right? = some n := by
  cases formula with
  | binary operator l r => simp [references, left, right?, eq_comm]
  | recurse direction source => simp [references, left, right?]

theorem Formula.right?_eq_none_iff {formula : Formula} :
    formula.right? = none ↔ ∃ direction source, formula = .recurse direction source := by
  cases formula <;> simp [right?]

namespace Program

/-- The invariant of programs as dictionaries, read through lookups and positions. -/
structure Representation (p : Program) : Prop where
  /-- Areas are found under their own names, and nothing else is found as an area. -/
  area?_iff : ∀ n a, p.area? n = some a ↔ a ∈ p.areas ∧ a.name = n
  /-- Selections are found under their own names, and nothing else is found as a selection. -/
  selection?_iff : ∀ n s, p.selection? n = some s ↔ s ∈ p.selections ∧ s.name = n
  /-- Operations are found under their own names, and nothing else is found as an operation. -/
  operation?_iff : ∀ n o, p.operation? n = some o ↔ o ∈ p.operations ∧ o.name = n
  /-- No name is bound twice, be it by definitions of one sort or of two. -/
  nodup : p.names.Nodup
  /-- The operations without a second operand are the recursions. -/
  right?_eq_none_iff : ∀ o ∈ p.operations,
    o.formula.right? = none ↔ ∃ direction source, o.formula = .recurse direction source
  /-- The scope of a selection is an area or a selection that stands before it. -/
  scope_bound : ∀ (i : ℕ) (s : Selection) (n : SetName),
    p.selections[i]? = some s → s.scope = .named n →
    p.binding? n = some .area ∨
      p.binding? n = some .selection ∧ ∃ j < i, ∃ t, p.selections[j]? = some t ∧ t.name = n
  /-- An operand is a selection or an operation that stands before the one that reads it. -/
  operand_bound : ∀ (i : ℕ) (o : Operation) (n : SetName), p.operations[i]? = some o →
    n = o.formula.left ∨ o.formula.right? = some n →
    p.binding? n = some .selection ∨
      p.binding? n = some .operation ∧ ∃ j < i, ∃ r, p.operations[j]? = some r ∧ r.name = n

variable {p : Program}

/-- A name of an earlier item of one list is bound to the sort of that list. -/
theorem WellFormed.binding?_of_earlier (h : p.WellFormed) {α : Type} {name : α → SetName}
    {items : List α} {b : Binding} (hitems : p.namesOf b = items.map name) {i : ℕ} {n : SetName}
    (hearlier : ∃ j < i, ∃ x, items[j]? = some x ∧ name x = n) : p.binding? n = some b := by
  obtain ⟨j, -, x, hx, rfl⟩ := hearlier
  rw [binding?_eq_some_iff h.nodup, hitems]
  exact List.mem_map_of_mem (List.mem_of_getElem? hx)

/-- A well-formed program satisfies the invariant: the chains of references are read off at a
position, and the sort of what is found there is the only one that its name is bound to. -/
theorem Representation.of_wellFormed (h : p.WellFormed) : p.Representation where
  area?_iff _ _ := area?_eq_some_iff h.nodup
  selection?_iff _ _ := selection?_eq_some_iff h.nodup
  operation?_iff _ _ := operation?_eq_some_iff h.nodup
  nodup := h.nodup
  right?_eq_none_iff _ _ := Formula.right?_eq_none_iff
  scope_bound := by
    intro i s n hs hscope
    have hn : n ∈ s.scope.references := by simp [hscope, Scope.references]
    rcases h.selections.exists_earlier hs hn with harea | hearlier
    · exact Or.inl ((binding?_eq_some_iff h.nodup).mpr harea)
    · exact Or.inr ⟨h.binding?_of_earlier (b := .selection) rfl hearlier, hearlier⟩
  operand_bound := by
    intro i o n ho hoperand
    rcases h.operations.exists_earlier ho (Formula.mem_references_iff.mpr hoperand) with
      hselection | hearlier
    · exact Or.inl ((binding?_eq_some_iff h.nodup).mpr hselection)
    · exact Or.inr ⟨h.binding?_of_earlier (b := .operation) rfl hearlier, hearlier⟩

/-- **Every program that a caller can obtain satisfies the representation invariant**: the empty
one, those of queries, and those that are merged from such programs, however deeply. -/
theorem Reachable.representation (h : p.Reachable) : p.Representation :=
  .of_wellFormed h.wellFormed

/-- The program of a query merged with the program of one of its operands. -/
theorem representation_park : Park.both.program.Representation :=
  Reachable.representation
    (.merge (.ofQuery ⟨_, Park.built_both⟩) (.ofQuery ⟨_, Park.built_ways⟩) rfl)

end Program

end Overpass
