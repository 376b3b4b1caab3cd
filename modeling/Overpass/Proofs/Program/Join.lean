import Overpass.Proofs.Program.Compatible

/-!
# Joins of several programs

Three programs can be joined in two groupings, which widen areas in a different order. Both come to
the same: a name keeps the first of its definitions, and the kind of an area covers the kinds of all
areas of its name. This needs that the last two programs are compatible. Otherwise they could bind a
name to a selection and to an area, and the first program would be widened by the area in one
grouping and not in the other.

## Main Statements

* `Program.definition?_join`: what a name is bound to in a join
* `Program.Compatible.exists_selection_join`, `Program.Compatible.operation_mem_join`: what becomes
  of the right side of a join
* `Program.join_assoc`: joins are associative
-/

namespace Overpass

/-- Widening is associative, since it gives the common kind of two equal kinds and the widest one
otherwise. -/
theorem ElementKind.widen_assoc (k l m : ElementKind) :
    (k.widen l).widen m = k.widen (l.widen m) := by
  cases k <;> cases l <;> cases m <;> rfl

/-- Widening by two definitions of a name that agree is widening by the one, itself widened by the
other. -/
theorem Area.widenBy_widenBy (a : Area) {d? e? : Option Definition}
    (h : ∀ d e, d? = some d → e? = some e → d.Agrees e) :
    (a.widenBy d?).widenBy e? = a.widenBy (d?.elim e? fun d => some (d.widenBy e?)) := by
  cases d? with
  | none => rfl
  | some d =>
      cases e? with
      | none => rw [Option.elim_some, Definition.widenBy_none, Area.widenBy_none]
      | some e =>
          rcases Definition.agrees_iff.mp (h d e rfl rfl) with
            ⟨b, c, rfl, rfl, -⟩ | ⟨s, t, rfl, rfl, -⟩ | ⟨o, rfl, rfl⟩
          · simp only [Option.elim_some, Definition.widenBy, Area.widenBy,
              ElementKind.widen_assoc]
          · rfl
          · rfl

/-- A scope that is equal to a set is that set. Only inline regions are compared by their numbers,
and so can be equal without being the same. -/
theorem Scope.Equal.eq_named {s : Scope} {n : SetName} (h : s.Equal (.named n)) :
    s = .named n := by
  cases s with
  | named m => exact congrArg Scope.named h
  | inline region => cases h

namespace Definition

variable {d : Definition}

/-- Only areas agree with an area, and do so by their regions. -/
theorem agrees_area_iff {b : Area} :
    d.Agrees (area b) ↔ ∃ a, d = area a ∧ a.region.Equal b.region := by
  cases d <;> simp [Agrees]

theorem agrees_selection_iff {t : Selection} :
    d.Agrees (selection t) ↔ ∃ s, d = selection s ∧ s.Equal t := by
  cases d <;> simp [Agrees]

theorem agrees_operation_iff {o : Operation} : d.Agrees (operation o) ↔ d = operation o := by
  cases d <;> simp [Agrees]

end Definition

namespace Program

variable {p q r : Program}

/-- A name that the first program binds keeps its definition, widened by that of the second. A name
that is new keeps the definition that the second program gives it. -/
theorem definition?_join (hp : p.names.Nodup) (hq : q.names.Nodup) (n : SetName) :
    (p.join q).definition? n =
      (p.definition? n).elim (q.definition? n) fun d => some (d.widenBy (q.definition? n)) := by
  have hjoin := nodup_names_join hp hq
  cases hpfind : p.definition? n with
  | some d =>
      obtain ⟨hd, rfl⟩ := mem_of_definition?_eq_some hpfind
      exact (definition?_eq_some_iff hjoin).mpr
        ⟨mem_definitions_join.mpr (Or.inl ⟨d, hd, rfl⟩), d.name_widenBy _⟩
  | none =>
      have hnew := definition?_eq_none_iff.mp hpfind
      cases hqfind : q.definition? n with
      | some d =>
          obtain ⟨hd, rfl⟩ := mem_of_definition?_eq_some hqfind
          exact (definition?_eq_some_iff hjoin).mpr ⟨mem_definitions_join_of_notMem hd hnew, rfl⟩
      | none =>
          refine definition?_eq_none_iff.mpr fun hn => ?_
          exact (mem_names_join.mp hn).elim hnew (definition?_eq_none_iff.mp hqfind)

/-- What is new to a join of two programs is what is new to the second of them and to the first. -/
theorem filter_notMem_names_join {α : Type} (name : α → SetName) (items : List α) :
    (items.filter fun x => name x ∉ (p.join q).names) =
      (items.filter fun x => name x ∉ q.names).filter fun x => name x ∉ p.names := by
  rw [List.filter_filter]
  refine List.filter_congr fun x _ => ?_
  simp only [mem_names_join, not_or, Bool.decide_and]

/-- The areas of a join: those of the left side at their places, widened where the right side has
them too, and then the new ones of the right side in their order. -/
theorem areas_join (p q : Program) : (p.join q).areas =
    p.areas.map (fun a => a.widenBy (q.definition? a.name)) ++
      q.areas.filter fun a => a.name ∉ p.names := rfl

/-- The selections of a join: those of the left side, and then the new ones of the right side in
their order. -/
theorem selections_join (p q : Program) : (p.join q).selections =
    p.selections ++ q.selections.filter fun s => s.name ∉ p.names := rfl

/-- The operations of a join are put together as its selections are. An operation refers to names
only, and so there is nothing in it that could be widened. -/
theorem operations_join (p q : Program) : (p.join q).operations =
    p.operations ++ q.operations.filter fun o => o.name ∉ p.names := rfl

/-- A selection of the right side stands in a join, or one of the left side that equals it. -/
theorem Compatible.exists_selection_join (h : p.Compatible q) {t : Selection}
    (ht : t ∈ q.selections) :
    ∃ s ∈ (p.join q).selections, s.name = t.name ∧ s.kind = t.kind ∧
      ∀ n, t.scope = .named n → s.scope = .named n := by
  rw [selections_join]
  by_cases hnew : t.name ∈ p.names
  · obtain ⟨d, hd, hagrees⟩ := (h _ (selection_mem_definitions.mpr ht)).exists_agrees hnew
    obtain ⟨s, rfl, hname, hkind, hscope, -⟩ := Definition.agrees_selection_iff.mp hagrees
    refine ⟨s, List.mem_append_left _ (selection_mem_definitions.mp hd), hname, hkind, ?_⟩
    intro n hn
    exact Scope.Equal.eq_named (hn ▸ hscope)
  · exact ⟨t, List.mem_append_right _ (List.mem_filter.mpr ⟨ht, by simpa using hnew⟩), rfl, rfl,
      fun _ hn => hn⟩

/-- An operation of the right side stands in a join as it is, even if it was taken from the left:
operations agree only if they are the same. -/
theorem Compatible.operation_mem_join (h : p.Compatible q) {o : Operation}
    (ho : o ∈ q.operations) : o ∈ (p.join q).operations := by
  rw [operations_join]
  by_cases hnew : o.name ∈ p.names
  · obtain ⟨d, hd, hagrees⟩ := (h _ (operation_mem_definitions.mpr ho)).exists_agrees hnew
    obtain rfl := Definition.agrees_operation_iff.mp hagrees
    exact List.mem_append_left _ (operation_mem_definitions.mp hd)
  · exact List.mem_append_right _ (List.mem_filter.mpr ⟨ho, by simpa using hnew⟩)

/-- Where both sides bring one area, these are one in the join if and only if they have the same
name. -/
theorem Compatible.length_areas_join_eq_one_iff (h : p.Compatible q) {a b : Area}
    (hp : p.areas = [a]) (hq : q.areas = [b]) :
    (p.join q).areas.length = 1 ↔ a.name = b.name := by
  have hbound : b.name ∈ p.names ↔ a.name = b.name := by
    constructor
    -- The name of an area that is accepted is bound to an area, and there is only one.
    · intro hmem
      have hb : .area b ∈ q.definitions := by simp [hq]
      obtain ⟨d, hd, hagrees⟩ := (h _ hb).exists_agrees hmem
      obtain ⟨c, rfl, hregion⟩ := Definition.agrees_area_iff.mp hagrees
      rw [area_mem_definitions, hp, List.mem_singleton] at hd
      rw [← hd]
      exact hregion.1
    · intro hname
      have ha : .area a ∈ p.definitions := by simp [hp]
      rw [← hname]
      exact name_mem_names ha
  rw [areas_join, hp, hq, ← hbound]
  by_cases hmem : b.name ∈ p.names <;> simp [hmem]

/-- **Joins are associative**, in the order of definitions and in the kinds of areas as well.
Definitions are traced through both groupings: each comes from the first program that binds its
name, widened by all that come later. -/
theorem join_assoc (hq : q.names.Nodup) (hr : r.names.Nodup) (hqr : q.Compatible r) :
    (p.join q).join r = p.join (q.join r) := by
  have hwiden : ∀ a : Area, (a.widenBy (q.definition? a.name)).widenBy (r.definition? a.name) =
      a.widenBy ((q.join r).definition? a.name) := by
    intro a
    rw [definition?_join hq hr]
    refine a.widenBy_widenBy fun d e hd he => ?_
    obtain ⟨hd, hname⟩ := mem_of_definition?_eq_some hd
    obtain ⟨he, hname'⟩ := mem_of_definition?_eq_some he
    exact (compatible_iff hq).mp hqr d hd e he (hname.trans hname'.symm)
  have hareas : ((p.join q).join r).areas = (p.join (q.join r)).areas := by
    simp only [areas_join, List.map_append, List.map_map, List.filter_append, List.filter_map,
      Function.comp_def, Area.name_widenBy, hwiden, filter_notMem_names_join, List.append_assoc]
  have hselections : ((p.join q).join r).selections = (p.join (q.join r)).selections := by
    simp only [selections_join, List.filter_append, filter_notMem_names_join, List.append_assoc]
  have hoperations : ((p.join q).join r).operations = (p.join (q.join r)).operations := by
    simp only [operations_join, List.filter_append, filter_notMem_names_join, List.append_assoc]
  exact (mk.injEq ..).mpr ⟨hareas, hselections, hoperations⟩

end Program

end Overpass
