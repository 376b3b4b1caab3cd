import Mathlib.Logic.Relation
import Overpass.Proofs.Program.Kind

/-!
# Searching for a kind without counting steps

The search for the kind of a named set carries a number of steps that it may still take. This module
says what is searched for without it: there is one rule for each way in which a search ends, and a
kind is found if it follows from these rules. With enough steps the limited search finds the same,
and no more, so it runs out of any number of steps exactly where the search without a limit goes on
forever.

It does so where references lead back to their own name: from an operand that is always looked at to
the operation itself. In a well-formed program it never does, and more steps than there are
operations are enough for every name, bound or not.

## Main Definitions

* `Program.FindsKind`: what a search finds whose steps are not limited
* `Program.GoesOn`: whether a search goes on from one name to another in any case

## Main Statements

* `Program.findsKind_iff`: what is found without a limit is what is found within some number of
  steps
* `Program.FindsKind.unique`: a search finds one kind at most
* `Program.FindsKind.not_transGen_goesOn`: a search that comes back to its own name finds nothing
* `Program.WellFormed.kindWithin_eq_kindOf`: how many steps are enough
-/

namespace Overpass.Program

variable {p : Program} {m n : SetName} {kind other : Option ElementKind} {fuel : ℕ}

/-- What the search for the kind of a named set finds when its steps are not limited. There is one
rule for each way in which it ends; where it goes on forever, it finds nothing, not even that the
kind is not known. -/
inductive FindsKind (p : Program) : SetName → Option ElementKind → Prop
  | area {n : SetName} {a : Area} (harea : p.area? n = some a) : FindsKind p n (some a.kind)
  | selection {n : SetName} {s : Selection} (harea : p.area? n = none)
      (hselection : p.selection? n = some s) : FindsKind p n (some s.kind)
  | unbound {n : SetName} (harea : p.area? n = none) (hselection : p.selection? n = none)
      (hoperation : p.operation? n = none) : FindsKind p n none
  | union {n left right : SetName} {first : ElementKind} {second : Option ElementKind}
      (hn : p.LooksUp n (.binary .union left right)) (hleft : FindsKind p left (some first))
      (hright : FindsKind p right second) : FindsKind p n (unionKind first second)
  /-- The right operand is not looked at if the kind of the left one is not known. -/
  | mixed {n left right : SetName} (hn : p.LooksUp n (.binary .union left right))
      (hleft : FindsKind p left none) : FindsKind p n none
  | difference {n left right : SetName} {found : Option ElementKind}
      (hn : p.LooksUp n (.binary .difference left right)) (hleft : FindsKind p left found) :
      FindsKind p n found
  | intersection {n left right : SetName} {shared : ElementKind}
      (hn : p.LooksUp n (.binary (.intersection shared) left right)) : FindsKind p n (some shared)
  | recurse {n source : SetName} {direction : Direction}
      (hn : p.LooksUp n (.recurse direction source)) : FindsKind p n none

/-- What a name can be looked up as: an area, a selection, nothing at all, or an operation, in this
order. The rules of the search without a limit have one case for each. -/
theorem lookup_cases (p : Program) (n : SetName) :
    (∃ a, p.area? n = some a) ∨ (∃ s, p.area? n = none ∧ p.selection? n = some s) ∨
      (p.area? n = none ∧ p.selection? n = none ∧ p.operation? n = none) ∨
      ∃ formula, p.LooksUp n formula := by
  cases harea : p.area? n with
  | some a => exact Or.inl ⟨a, rfl⟩
  | none =>
      cases hselection : p.selection? n with
      | some s => exact Or.inr (Or.inl ⟨s, rfl, rfl⟩)
      | none =>
          cases hoperation : p.operation? n with
          | none => exact Or.inr (Or.inr (Or.inl ⟨rfl, rfl, rfl⟩))
          | some o =>
              exact Or.inr (Or.inr (Or.inr ⟨o.formula, harea, hselection, o.name, hoperation⟩))

/-! ### The limited search -/

/-- What is found within a number of steps is found without a limit. By induction on the number of
steps. -/
theorem findsKind_of_kindWithin (h : p.kindWithin fuel n = some kind) : p.FindsKind n kind := by
  induction fuel generalizing n kind with
  | zero => cases h
  | succ fuel ih =>
      rcases p.lookup_cases n with ⟨a, harea⟩ | ⟨s, harea, hselection⟩ |
        ⟨harea, hselection, hoperation⟩ | ⟨formula, hn⟩
      · rw [kindWithin_of_area? harea] at h
        cases h
        exact .area harea
      · rw [kindWithin_of_selection? harea hselection] at h
        cases h
        exact .selection harea hselection
      · rw [kindWithin_of_unbound harea hselection hoperation] at h
        cases h
        exact .unbound harea hselection hoperation
      · cases formula with
        | recurse direction source =>
            rw [hn.kindWithin_recurse] at h
            cases h
            exact .recurse hn
        | binary operator left right =>
            cases operator with
            | union =>
                rw [hn.kindWithin_union, Option.bind_eq_some_iff] at h
                obtain ⟨_ | first, hleft, h⟩ := h
                · cases h
                  exact .mixed hn (ih hleft)
                · obtain ⟨second, hright, rfl⟩ := Option.map_eq_some_iff.mp h
                  exact .union hn (ih hleft) (ih hright)
            | difference =>
                rw [hn.kindWithin_difference] at h
                exact .difference hn (ih h)
            | intersection shared =>
                rw [hn.kindWithin_intersection] at h
                cases h
                exact .intersection hn

/-- What holds one step after each number from some number on holds from some number on. -/
theorem exists_forall_le_of_succ {motive : ℕ → Prop} (least : ℕ)
    (h : ∀ fuel, least ≤ fuel → motive (fuel + 1)) :
    ∃ least, ∀ fuel, least ≤ fuel → motive fuel := by
  refine ⟨least + 1, fun fuel hfuel => ?_⟩
  obtain ⟨before, rfl⟩ : ∃ before, fuel = before + 1 := ⟨fuel - 1, by omega⟩
  exact h before (Nat.le_of_succ_le_succ hfuel)

/-- What is found without a limit is found within any number of steps that is large enough. By
induction on how it is found, an operation needing one step more than its operands. -/
theorem FindsKind.exists_forall_le (h : p.FindsKind n kind) :
    ∃ least, ∀ fuel, least ≤ fuel → p.kindWithin fuel n = some kind := by
  induction h with
  | area harea => exact exists_forall_le_of_succ 0 fun fuel _ => kindWithin_of_area? harea fuel
  | selection harea hselection =>
      exact exists_forall_le_of_succ 0 fun fuel _ => kindWithin_of_selection? harea hselection fuel
  | unbound harea hselection hoperation =>
      exact exists_forall_le_of_succ 0 fun fuel _ =>
        kindWithin_of_unbound harea hselection hoperation fuel
  | union hn _ _ ihleft ihright =>
      obtain ⟨l, hleft⟩ := ihleft
      obtain ⟨r, hright⟩ := ihright
      refine exists_forall_le_of_succ (max l r) fun fuel hfuel => ?_
      obtain ⟨hl, hr⟩ := Nat.max_le.mp hfuel
      rw [hn.kindWithin_union, hleft fuel hl, hright fuel hr]
      rfl
  | mixed hn _ ih =>
      obtain ⟨l, hleft⟩ := ih
      refine exists_forall_le_of_succ l fun fuel hfuel => ?_
      rw [hn.kindWithin_union, hleft fuel hfuel]
      rfl
  | difference hn _ ih =>
      obtain ⟨l, hleft⟩ := ih
      refine exists_forall_le_of_succ l fun fuel hfuel => ?_
      rw [hn.kindWithin_difference, hleft fuel hfuel]
  | intersection hn =>
      exact exists_forall_le_of_succ 0 fun fuel _ => hn.kindWithin_intersection fuel
  | recurse hn => exact exists_forall_le_of_succ 0 fun fuel _ => hn.kindWithin_recurse fuel

/-- **What is found without a limit is what is found within some number of steps.** So the limit
decides only whether something is found, and never what. -/
theorem findsKind_iff : p.FindsKind n kind ↔ ∃ fuel, p.kindWithin fuel n = some kind := by
  constructor
  · intro h
    obtain ⟨least, hleast⟩ := h.exists_forall_le
    exact ⟨least, hleast least le_rfl⟩
  · rintro ⟨fuel, h⟩
    exact findsKind_of_kindWithin h

/-- A search finds one kind at most: two runs of it are compared at the larger of their numbers of
steps. -/
theorem FindsKind.unique (h : p.FindsKind n kind) (hother : p.FindsKind n other) :
    kind = other := by
  obtain ⟨l, hkind⟩ := h.exists_forall_le
  obtain ⟨r, hother⟩ := hother.exists_forall_le
  have heq := hkind (max l r) (Nat.le_max_left l r)
  rw [hother (max l r) (Nat.le_max_right l r)] at heq
  exact (Option.some.inj heq).symm

/-! ### Searches that do not end -/

/-- Whether the search goes on from one name to another in any case: from a union or difference to
its left operand. -/
def GoesOn (p : Program) (n m : SetName) : Prop :=
  ∃ right, p.LooksUp n (.binary .union m right) ∨ p.LooksUp n (.binary .difference m right)

/-- A search that goes round in a circle runs out of any number of steps. -/
theorem kindWithin_eq_none_of_transGen (h : Relation.TransGen p.GoesOn n n) (fuel : ℕ) :
    p.kindWithin fuel n = none := by
  induction fuel generalizing n with
  | zero => rfl
  | succ fuel ih =>
      obtain ⟨m, hstep, hback⟩ := Relation.TransGen.head'_iff.mp h
      -- The next name lies on the same circle.
      have hnext : p.kindWithin fuel m = none := ih (Relation.TransGen.tail' hback hstep)
      obtain ⟨right, hn | hn⟩ := hstep
      · rw [hn.kindWithin_union, hnext, Option.bind_none]
      · rw [hn.kindWithin_difference, hnext]

/-- **A search that comes back to its own name finds nothing.** So being acyclic is not only enough
for the search to end, but needed where the search goes. -/
theorem FindsKind.not_transGen_goesOn (h : p.FindsKind n kind) :
    ¬ Relation.TransGen p.GoesOn n n := by
  intro hcycle
  obtain ⟨fuel, hfuel⟩ := findsKind_iff.mp h
  rw [kindWithin_eq_none_of_transGen hcycle] at hfuel
  cases hfuel

/-! ### Well-formed programs -/

/-- **More steps than there are operations are enough for every name**, bound or not. Operations
refer to operations before them, so a search makes at most one step for each. -/
theorem WellFormed.kindWithin_eq_kindOf (h : p.WellFormed) (n : SetName)
    (hfuel : p.operations.length < fuel) : p.kindWithin fuel n = some (p.kindOf n) := by
  obtain ⟨before, rfl⟩ : ∃ before, fuel = before + 1 := ⟨fuel - 1, by omega⟩
  rw [kindOf]
  rcases p.lookup_cases n with ⟨a, harea⟩ | ⟨s, harea, hselection⟩ |
    ⟨harea, hselection, hoperation⟩ | ⟨formula, hn⟩
  · rw [kindWithin_of_area? harea, kindWithin_of_area? harea, Option.join_some]
  · rw [kindWithin_of_selection? harea hselection, kindWithin_of_selection? harea hselection,
      Option.join_some]
  · rw [kindWithin_of_unbound harea hselection hoperation,
      kindWithin_of_unbound harea hselection hoperation, Option.join_some]
  · obtain ⟨i, hi⟩ := List.mem_iff_getElem?.mp ((looksUp_iff h.nodup).mp hn)
    have hlt : i < p.operations.length := (List.getElem?_eq_some_iff.mp hi).1
    have hname : ∀ fuel, i + 2 ≤ fuel → p.kindWithin fuel n = some (formula.kind p.kindOf) :=
      fun _ => h.kindWithin_eq hi
    rw [hname _ (by omega), hname _ (by omega), Option.join_some]

end Overpass.Program
