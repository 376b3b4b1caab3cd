import Overpass.Program.Kind
import Overpass.Proofs.Program.Join

/-!
# Kinds without counting steps

The kind of a named set is found by following names, and the search carries a number of steps that
it may still take. In a well-formed program it never runs out of them: an operation refers to
selections and to operations that stand before it, so its position bounds the steps. The kinds of a
program then satisfy plain equations, one for each sort of definition, and the steps are not
mentioned again.

The equations never lead from a selection or an operation to an area, so the kinds of areas, which
are all that a merge changes, do not matter to them. A program that has the selections and
operations of another one gives them the same kinds.

## Main Definitions

* `BinaryOperator.kind`, `Formula.kind`: the kind of an operation in terms of those of its operands
* `Program.LooksUp`: whether a name is looked up as an operation with a given formula
* `Program.KeepsKinds`: whether a program has the selections and operations of another one

## Main Statements

* `Program.kindOf_selection`, `Program.WellFormed.kindOf_operation`: the equations of kinds
* `Program.KeepsKinds.kindOf_eq`: selections and operations that are kept keep their kinds
* `Program.keepsKinds_join_left`, `Program.Compatible.keepsKinds_join_right`: a join keeps the kinds
  of both sides
-/

namespace Overpass

/-- The kind of a combination: a union has the common kind of its operands, a difference that of the
first, and an intersection its own. -/
def BinaryOperator.kind : BinaryOperator → Option ElementKind → Option ElementKind →
    Option ElementKind
  | union, left, right => if left = right then left else none
  | difference, left, _ => left
  | intersection kind, _, _ => some kind

/-- The kind of what a formula gives, where the kinds of names are known. A recursion may lead to
any kind. -/
def Formula.kind (kinds : SetName → Option ElementKind) : Formula → Option ElementKind
  | binary operator left right => operator.kind (kinds left) (kinds right)
  | recurse _ _ => none

/-- The kind of a formula depends on the kinds of its references and on nothing else in a
program. -/
theorem Formula.kind_congr {kinds kinds' : SetName → Option ElementKind} {formula : Formula}
    (h : ∀ n ∈ formula.references, kinds n = kinds' n) :
    formula.kind kinds = formula.kind kinds' := by
  cases formula with
  | binary operator left right =>
      have hleft : kinds left = kinds' left := h left List.mem_cons_self
      have hright : kinds right = kinds' right :=
        h right (List.mem_cons_of_mem left List.mem_cons_self)
      rw [kind, kind, hleft, hright]
  | recurse direction source => rfl

namespace Program

variable {p q r : Program} {n : SetName} {b : Binding}

/-! ### One step of the search -/

/-- Whether a name is looked up as an operation with a given formula, so that neither an area nor a
selection of the name is found before. -/
structure LooksUp (p : Program) (n : SetName) (formula : Formula) : Prop where
  area : p.area? n = none
  selection : p.selection? n = none
  operation : ∃ name, p.operation? n = some ⟨name, formula⟩

/-- The kind of an area is its own. It is looked up first, before selections and operations, as are
the kinds of selections before those of operations. -/
theorem kindWithin_of_area? {a : Area} (harea : p.area? n = some a) (fuel : ℕ) :
    p.kindWithin (fuel + 1) n = some (some a.kind) := by
  simp only [kindWithin, harea]

theorem kindWithin_of_selection? {s : Selection} (harea : p.area? n = none)
    (hselection : p.selection? n = some s) (fuel : ℕ) :
    p.kindWithin (fuel + 1) n = some (some s.kind) := by
  simp only [kindWithin, harea, hselection]

/-- A name that is not bound has no kind, and the search says so at once: it ends, with the answer
that there is none. -/
theorem kindWithin_of_unbound (harea : p.area? n = none) (hselection : p.selection? n = none)
    (hoperation : p.operation? n = none) (fuel : ℕ) : p.kindWithin (fuel + 1) n = some none := by
  simp only [kindWithin, harea, hselection, hoperation]

namespace LooksUp

variable {left right source : SetName} {shared : ElementKind} {direction : Direction}

/-- The kind of the right operand is looked for only if that of the left one is known. -/
theorem kindWithin_union (h : p.LooksUp n (.binary .union left right)) (fuel : ℕ) :
    p.kindWithin (fuel + 1) n = (p.kindWithin fuel left).bind fun found =>
      found.elim (some none) fun first => (p.kindWithin fuel right).map (unionKind first) := by
  obtain ⟨name, hoperation⟩ := h.operation
  simp only [kindWithin, h.area, h.selection, hoperation]
  rcases p.kindWithin fuel left with _ | _ | first <;> rfl

/-- The kind of a difference is that of its left operand. The right one is not even looked at, since
taking elements away leaves only elements of the left one. -/
theorem kindWithin_difference (h : p.LooksUp n (.binary .difference left right)) (fuel : ℕ) :
    p.kindWithin (fuel + 1) n = p.kindWithin fuel left := by
  obtain ⟨name, hoperation⟩ := h.operation
  simp only [kindWithin, h.area, h.selection, hoperation]

/-- The kind of an intersection is the one that it was built for. Its operands need not be searched:
they were checked when it was built. -/
theorem kindWithin_intersection (h : p.LooksUp n (.binary (.intersection shared) left right))
    (fuel : ℕ) : p.kindWithin (fuel + 1) n = some (some shared) := by
  obtain ⟨name, hoperation⟩ := h.operation
  simp only [kindWithin, h.area, h.selection, hoperation]

/-- A recursion has no known kind, whatever it starts from. This is what keeps intersections from
being built over recursions. -/
theorem kindWithin_recurse (h : p.LooksUp n (.recurse direction source)) (fuel : ℕ) :
    p.kindWithin (fuel + 1) n = some none := by
  obtain ⟨name, hoperation⟩ := h.operation
  simp only [kindWithin, h.area, h.selection, hoperation]

end LooksUp

/-! ### The equations of kinds -/

/-- A name that is bound as something else is not found among the areas, where no name is bound
twice. -/
theorem area?_eq_none (hp : p.names.Nodup) (hn : n ∈ p.namesOf b) (hb : b ≠ .area) :
    p.area? n = none := by
  cases harea : p.area? n with
  | none => rfl
  | some a =>
      have hbound : n ∈ p.namesOf .area := isSome_area?_iff.mp (by rw [harea]; rfl)
      exact absurd ((names_nodup_iff.mp hp).2 _ _ n hn hbound) hb

theorem selection?_eq_none (hp : p.names.Nodup) (hn : n ∈ p.namesOf b) (hb : b ≠ .selection) :
    p.selection? n = none := by
  cases hselection : p.selection? n with
  | none => rfl
  | some s =>
      have hbound : n ∈ p.namesOf .selection := isSome_selection?_iff.mp (by rw [hselection]; rfl)
      exact absurd ((names_nodup_iff.mp hp).2 _ _ n hn hbound) hb

/-- Where no name is bound twice, the names that are looked up as operations are those of the
operations. -/
theorem looksUp_iff (hp : p.names.Nodup) {formula : Formula} :
    p.LooksUp n formula ↔ ⟨n, formula⟩ ∈ p.operations := by
  constructor
  · intro h
    obtain ⟨name, hoperation⟩ := h.operation
    obtain ⟨hmem, hname⟩ := (operation?_eq_some_iff hp).mp hoperation
    obtain rfl : name = n := hname
    exact hmem
  · intro h
    have hname : n ∈ p.namesOf .operation := List.mem_map_of_mem h
    exact ⟨area?_eq_none hp hname (by decide), selection?_eq_none hp hname (by decide), n,
      (operation?_eq_some_iff hp).mpr ⟨h, rfl⟩⟩

/-- The kind of a selection is found in one step, whatever its scope: the kind of the scope does not
matter for what is selected from it. -/
theorem kindWithin_selection (hp : p.names.Nodup) {s : Selection} (hs : s ∈ p.selections)
    (fuel : ℕ) : p.kindWithin (fuel + 1) s.name = some (some s.kind) := by
  have hname : s.name ∈ p.namesOf .selection := List.mem_map_of_mem hs
  exact kindWithin_of_selection? (area?_eq_none hp hname (by decide))
    ((selection?_eq_some_iff hp).mpr ⟨hs, rfl⟩) fuel

/-- The kind of an operation takes one step more than those of its operands. -/
theorem kindWithin_operation (hp : p.names.Nodup) {o : Operation} (ho : o ∈ p.operations)
    {fuel : ℕ} {kinds : SetName → Option ElementKind}
    (h : ∀ n ∈ o.formula.references, p.kindWithin fuel n = some (kinds n)) :
    p.kindWithin (fuel + 1) o.name = some (o.formula.kind kinds) := by
  obtain ⟨name, formula⟩ := o
  have hname : p.LooksUp name formula := (looksUp_iff hp).mpr ho
  cases formula with
  | recurse direction source => exact hname.kindWithin_recurse fuel
  | binary operator left right =>
      have hleft : p.kindWithin fuel left = some (kinds left) := h left List.mem_cons_self
      have hright : p.kindWithin fuel right = some (kinds right) :=
        h right (List.mem_cons_of_mem left List.mem_cons_self)
      cases operator with
      | difference => exact (hname.kindWithin_difference fuel).trans hleft
      | intersection kind => exact hname.kindWithin_intersection fuel
      | union =>
          simp only [Formula.kind, BinaryOperator.kind, hname.kindWithin_union, hleft, hright]
          cases kinds left with
          | none => simp
          | some kind => simp [unionKind, eq_comm]

/-- So the kind of a selection is known in every program that binds it once. -/
theorem kindOf_selection (hp : p.names.Nodup) {s : Selection} (hs : s ∈ p.selections) :
    p.kindOf s.name = some s.kind := by
  rw [kindOf, kindWithin_selection hp hs]
  rfl

/-- **The search for a kind does not run out of steps.** One step for each operation up to this one,
and one for a selection, are enough; what is found is what the kinds of the operands determine. -/
theorem WellFormed.kindWithin_eq (h : p.WellFormed) {i : ℕ} {o : Operation}
    (ho : p.operations[i]? = some o) {fuel : ℕ} (hfuel : i + 2 ≤ fuel) :
    p.kindWithin fuel o.name = some (o.formula.kind p.kindOf) := by
  induction i using Nat.strong_induction_on generalizing o fuel with
  | _ i ih =>
      obtain ⟨fuel, rfl⟩ : ∃ left, fuel = left + 2 := ⟨fuel - 2, by omega⟩
      refine kindWithin_operation h.nodup (List.mem_of_getElem? ho) fun n hn => ?_
      rcases h.operations.exists_earlier ho hn with hselection | ⟨j, hj, o', ho', rfl⟩
      · obtain ⟨s, hs, rfl⟩ := List.mem_map.mp hselection
        rw [kindWithin_selection h.nodup hs, kindOf_selection h.nodup hs]
      · -- The earlier operation is reached with the steps that are left, and so it is from outside.
        have hi : i < p.operations.length := (List.getElem?_eq_some_iff.mp ho).1
        have houtside : p.kindOf o'.name = o'.formula.kind p.kindOf := by
          rw [kindOf, ih j hj ho' (by omega)]
          rfl
        rw [ih j hj ho' (by omega), houtside]

/-- The kind of an operation follows from those of its operands. The search is limited, and what has
to be shown is that the limit, which is the same for the operation and for its operands, is never
met. -/
theorem WellFormed.kindOf_operation (h : p.WellFormed) {o : Operation} (ho : o ∈ p.operations) :
    p.kindOf o.name = o.formula.kind p.kindOf := by
  obtain ⟨i, hi⟩ := List.mem_iff_getElem?.mp ho
  have hlt : i < p.operations.length := (List.getElem?_eq_some_iff.mp hi).1
  rw [kindOf, h.kindWithin_eq hi (by omega)]
  rfl

/-! ### Kinds that are kept -/

/-- Whether a program has the selections and operations of another one, as far as kinds depend on
them. -/
structure KeepsKinds (p q : Program) : Prop where
  selections : ∀ s ∈ p.selections, ∃ t ∈ q.selections, t.name = s.name ∧ t.kind = s.kind
  operations : ∀ o ∈ p.operations, o ∈ q.operations

theorem KeepsKinds.refl (p : Program) : p.KeepsKinds p :=
  ⟨fun s hs => ⟨s, hs, rfl, rfl⟩, fun _ ho => ho⟩

/-- What keeps kinds in two steps keeps them. So the kinds in a program can be followed through all
merges that it goes through. -/
theorem KeepsKinds.trans (hpq : p.KeepsKinds q) (hqr : q.KeepsKinds r) : p.KeepsKinds r where
  selections := by
    intro s hs
    obtain ⟨t, ht, hname, hkind⟩ := hpq.selections s hs
    obtain ⟨u, hu, hname', hkind'⟩ := hqr.selections t ht
    exact ⟨u, hu, hname'.trans hname, hkind'.trans hkind⟩
  operations := fun o ho => hqr.operations o (hpq.operations o ho)

/-- Appending a definition keeps the kinds of all selections and operations that were there. -/
theorem keepsKinds_append (p : Program) (d : Definition) : p.KeepsKinds (p.append d) := by
  cases d with
  | area a => exact ⟨fun t ht => ⟨t, ht, rfl, rfl⟩, fun _ ho => ho⟩
  | selection s =>
      exact ⟨fun t ht => ⟨t, List.mem_append_left _ ht, rfl, rfl⟩, fun _ ho => ho⟩
  | operation o =>
      exact ⟨fun t ht => ⟨t, ht, rfl, rfl⟩, fun _ ho => List.mem_append_left _ ho⟩

/-- A merge keeps the kinds on its left side. Areas are left out of this on purpose: they are
widened. -/
theorem keepsKinds_join_left (p q : Program) : p.KeepsKinds (p.join q) :=
  ⟨fun s hs => ⟨s, List.mem_append_left _ hs, rfl, rfl⟩, fun _ ho => List.mem_append_left _ ho⟩

/-- A merge keeps the kinds on its right side too, although it may drop the copies of the right
side: the copies that are kept agree with them, in their kinds as in all else. -/
theorem Compatible.keepsKinds_join_right (h : p.Compatible q) : q.KeepsKinds (p.join q) where
  selections := by
    intro t ht
    obtain ⟨s, hs, hname, hkind, -⟩ := h.exists_selection_join ht
    exact ⟨s, hs, hname, hkind⟩
  operations := fun _ ho => h.operation_mem_join ho

/-- **Selections and operations that are kept keep their kinds.** Selections do by assumption, and
an operation does as soon as its operands do. -/
theorem KeepsKinds.kindOf_eq (h : p.KeepsKinds q) (hp : p.WellFormed) (hq : q.WellFormed)
    (hn : n ∈ p.namesOf .selection ∨ n ∈ p.namesOf .operation) : q.kindOf n = p.kindOf n := by
  have hselections : ∀ m ∈ p.namesOf .selection, q.kindOf m = p.kindOf m := by
    intro m hm
    obtain ⟨s, hs, rfl⟩ := List.mem_map.mp hm
    obtain ⟨t, ht, hname, hkind⟩ := h.selections s hs
    rw [kindOf_selection hp.nodup hs, ← hname, kindOf_selection hq.nodup ht, hkind]
  rcases hn with hn | hn
  · exact hselections n hn
  · obtain ⟨o, ho, rfl⟩ := List.mem_map.mp hn
    refine hp.operations.induction hselections (fun o ho hoperands => ?_) o ho
    rw [hp.kindOf_operation ho, hq.kindOf_operation (h.operations o ho)]
    exact Formula.kind_congr hoperands

end Program

end Overpass
