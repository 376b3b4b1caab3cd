import Overpass.Proofs.Program.WellFormed
import Overpass.Proofs.Region.Equal

/-!
# Compatible programs

A merge tests the definitions of the second program against the first one and keeps those of the
first. What is kept depends on the order of the two programs, but whether the merge succeeds does
not: compatibility says that definitions of common names agree, and agreement is symmetric. Since it
also ignores the kinds of areas, which are all that a join changes, a join is compatible with
whatever both of its sides are compatible with; and since agreement is transitive as well, with
nothing else.

## Main Definitions

* `Program.ClashesAt`: whether two programs bind a name to definitions that cannot both stand

## Main Statements

* `Program.compatible_iff`: compatible programs agree on all common names
* `Program.Compatible.symm`: compatibility is symmetric
* `Program.Compatible.join_left`, `Program.Compatible.append_left`: compatibility of grown programs
* `Program.compatible_join_left_iff`, `Program.compatible_join_right_iff`: compatibility of joins
* `Program.compatible_iff_forall_not_clashesAt`: programs are compatible unless they clash at a name
* `Program.exists_first_clash`: a merge that is refused reports the first clash
-/

namespace Overpass

namespace Definition

variable {d e f : Definition}

/-- Agreement is symmetric, although only the definition that comes later is tested against the one
that is there. -/
theorem Agrees.symm (h : d.Agrees e) : e.Agrees d := by
  rcases agrees_iff.mp h with ⟨a, b, rfl, rfl, hregion⟩ | ⟨s, t, rfl, rfl, heq⟩ | ⟨o, rfl, rfl⟩
  · exact Region.Equal.symm hregion
  · exact Selection.Equal.symm heq
  · exact h

/-- Agreement is transitive. With symmetry, this is what makes it irrelevant which of several copies
of a definition the others are compared with. -/
theorem Agrees.trans (hde : d.Agrees e) (hef : e.Agrees f) : d.Agrees f := by
  rcases agrees_iff.mp hde with ⟨a, b, rfl, rfl, hregion⟩ | ⟨s, t, rfl, rfl, heq⟩ | ⟨o, rfl, rfl⟩
  · rcases agrees_iff.mp hef with ⟨_, c, ⟨⟩, rfl, hregion'⟩ | ⟨_, _, ⟨⟩, _⟩ | ⟨_, ⟨⟩, _⟩
    exact Region.Equal.trans hregion hregion'
  · rcases agrees_iff.mp hef with ⟨_, _, ⟨⟩, _⟩ | ⟨_, u, ⟨⟩, rfl, heq'⟩ | ⟨_, ⟨⟩, _⟩
    exact Selection.Equal.trans heq heq'
  · exact hef

theorem Agrees.binding_eq (h : d.Agrees e) : d.binding = e.binding :=
  congrArg Signature.binding h.signature_eq

/-- The kind of an area does not count for agreement. So an area that was widened by an earlier
merge accepts exactly what it accepted before. -/
theorem agrees_widenBy_iff {found : Option Definition} :
    (d.widenBy found).Agrees e ↔ d.Agrees e := by
  cases d with
  | area a => cases e <;> simp [widenBy, Agrees]
  | selection s => rfl
  | operation o => rfl

end Definition

namespace Program

variable {p q r : Program} {d : Definition} {n : SetName}

/-- Programs are compatible if and only if their definitions of common names agree. This puts
lookups aside: what counts is which definitions there are, as long as no name is bound twice. -/
theorem compatible_iff (hp : p.names.Nodup) :
    p.Compatible q ↔
      ∀ d ∈ p.definitions, ∀ e ∈ q.definitions, d.name = e.name → d.Agrees e := by
  simp only [Compatible, Accepts, definition?_eq_some_iff hp]
  constructor
  · exact fun h d hd e he hname => h e he d ⟨hd, hname⟩
  · rintro h e he d ⟨hd, hname⟩
    exact h d hd e he hname

/-- Compatibility is symmetric where no names are bound twice: both sides are asked the same
questions about the names that they share. -/
theorem Compatible.symm (h : p.Compatible q) (hp : p.names.Nodup) (hq : q.names.Nodup) :
    q.Compatible p := by
  rw [compatible_iff hq]
  intro e he d hd hname
  exact ((compatible_iff hp).mp h d hd e he hname.symm).symm

/-- A join is compatible with what both of its sides are compatible with. Nothing else is asked of
the join, because widened areas agree with the same areas as before. -/
theorem Compatible.join_left (hpr : p.Compatible r) (hqr : q.Compatible r) (hp : p.names.Nodup)
    (hq : q.names.Nodup) : (p.join q).Compatible r := by
  rw [compatible_iff (nodup_names_join hp hq)]
  intro d hd e he hname
  rcases mem_definitions_join.mp hd with ⟨c, hc, rfl⟩ | ⟨hd, -⟩
  · rw [Definition.name_widenBy] at hname
    exact Definition.agrees_widenBy_iff.mpr ((compatible_iff hp).mp hpr c hc e he hname)
  · exact (compatible_iff hq).mp hqr d hd e he hname

/-- If a join of compatible programs is compatible with a third one, so is its left side: it was
only widened. -/
theorem Compatible.of_join_left (h : (p.join q).Compatible r) (hp : p.names.Nodup)
    (hq : q.names.Nodup) : p.Compatible r := by
  rw [compatible_iff hp]
  intro d hd e he hname
  have hwide : d.widenBy (q.definition? d.name) ∈ (p.join q).definitions :=
    mem_definitions_join.mpr (Or.inl ⟨d, hd, rfl⟩)
  have hagrees := (compatible_iff (nodup_names_join hp hq)).mp h _ hwide e he
    (by rwa [Definition.name_widenBy])
  exact Definition.agrees_widenBy_iff.mp hagrees

/-- If a join of compatible programs is compatible with a third one, so is its right side: what the
join left out of it agrees with a definition of the left side, and through that with the third. -/
theorem Compatible.of_join_right (hpq : p.Compatible q) (h : (p.join q).Compatible r)
    (hp : p.names.Nodup) (hq : q.names.Nodup) : q.Compatible r := by
  rw [compatible_iff hq]
  intro d hd e he hname
  by_cases hnew : d.name ∈ p.names
  · obtain ⟨c, hc, hcd⟩ := (hpq d hd).exists_agrees hnew
    have hname' : c.name = d.name := congrArg Signature.name hcd.signature_eq
    have hce := (compatible_iff hp).mp (h.of_join_left hp hq) c hc e he (hname'.trans hname)
    exact hcd.symm.trans hce
  · exact (compatible_iff (nodup_names_join hp hq)).mp h d
      (mem_definitions_join_of_notMem hd hnew) e he hname

/-- A join of compatible programs is compatible with a third one if and only if both sides are.
Widening does not interfere, since agreement does not look at the kinds of areas. -/
theorem compatible_join_left_iff (hpq : p.Compatible q) (hp : p.names.Nodup) (hq : q.names.Nodup) :
    (p.join q).Compatible r ↔ p.Compatible r ∧ q.Compatible r :=
  ⟨fun h => ⟨h.of_join_left hp hq, hpq.of_join_right h hp hq⟩,
    fun h => h.1.join_left h.2 hp hq⟩

/-- What is compatible with a join is compatible with both sides. With its mirror image this is the
heart of associativity: the two ways to merge three programs ask the same pairs of them to be
compatible. -/
theorem compatible_join_right_iff (hqr : q.Compatible r) (hp : p.names.Nodup) (hq : q.names.Nodup)
    (hr : r.names.Nodup) : p.Compatible (q.join r) ↔ p.Compatible q ∧ p.Compatible r := by
  have hcomm : ∀ {s t : Program}, s.names.Nodup → t.names.Nodup →
      (s.Compatible t ↔ t.Compatible s) :=
    fun hs ht => ⟨fun h => h.symm hs ht, fun h => h.symm ht hs⟩
  rw [hcomm hp (nodup_names_join hq hr), compatible_join_left_iff hqr hq hr, hcomm hq hp,
    hcomm hr hp]

/-- A program that grew by a definition is compatible with what it was compatible with, if the new
definition agrees with those of its name. -/
theorem Compatible.append_left (h : p.Compatible r) (hp : p.names.Nodup) (hfree : d.name ∉ p.names)
    (hd : ∀ e ∈ r.definitions, d.name = e.name → d.Agrees e) : (p.append d).Compatible r := by
  rw [compatible_iff (nodup_names_append hp hfree)]
  intro c hc e he hname
  rcases mem_definitions_append.mp hc with hc | rfl
  · exact (compatible_iff hp).mp h c hc e he hname
  · exact hd e he hname

/-! ### Clashes -/

/-- Two programs clash at a name that both bind: to definitions of different sorts, or to unequal
definitions of one sort, where areas are compared by their regions and not by their kinds. -/
def ClashesAt (p q : Program) (n : SetName) : Prop :=
  (∃ b c, p.binding? n = some b ∧ q.binding? n = some c ∧ b ≠ c) ∨
  (∃ a b, p.area? n = some a ∧ q.area? n = some b ∧ ¬ a.region.Equal b.region) ∨
  (∃ s t, p.selection? n = some s ∧ q.selection? n = some t ∧ ¬ s.Equal t) ∨
  ∃ o r, p.operation? n = some o ∧ q.operation? n = some r ∧ o ≠ r

/-- A clash is a pair of definitions of the name that do not agree. Lookups are gone from this
description, so it does not depend on the order of definitions. -/
theorem clashesAt_iff (hp : p.names.Nodup) (hq : q.names.Nodup) :
    p.ClashesAt q n ↔
      ∃ d ∈ p.definitions, ∃ e ∈ q.definitions, d.name = n ∧ e.name = n ∧ ¬ d.Agrees e := by
  simp only [ClashesAt, binding?_eq_some_iff hp, binding?_eq_some_iff hq, area?_eq_some_iff hp,
    area?_eq_some_iff hq, selection?_eq_some_iff hp, selection?_eq_some_iff hq,
    operation?_eq_some_iff hp, operation?_eq_some_iff hq]
  constructor
  · rintro (⟨b, c, hb, hc, hne⟩ | ⟨a, b, ⟨ha, hna⟩, ⟨hb, hnb⟩, hne⟩ |
      ⟨s, t, ⟨hs, hns⟩, ⟨ht, hnt⟩, hne⟩ | ⟨o, r, ⟨ho, hno⟩, ⟨hr, hnr⟩, hne⟩)
    · obtain ⟨d, hd, rfl, hname⟩ := mem_namesOf.mp hb
      obtain ⟨e, he, rfl, hname'⟩ := mem_namesOf.mp hc
      exact ⟨d, hd, e, he, hname, hname', fun hagrees => hne hagrees.binding_eq⟩
    · exact ⟨.area a, area_mem_definitions.mpr ha, .area b, area_mem_definitions.mpr hb, hna, hnb,
        hne⟩
    · exact ⟨.selection s, selection_mem_definitions.mpr hs, .selection t,
        selection_mem_definitions.mpr ht, hns, hnt, hne⟩
    · exact ⟨.operation o, operation_mem_definitions.mpr ho, .operation r,
        operation_mem_definitions.mpr hr, hno, hnr, hne⟩
  · rintro ⟨d, hd, e, he, rfl, hname, hagrees⟩
    by_cases hbinding : d.binding = e.binding
    -- Definitions of one sort: what does not agree is unequal.
    · cases d with
      | area a =>
          cases e with
          | area b =>
              exact Or.inr (Or.inl ⟨a, b, ⟨area_mem_definitions.mp hd, rfl⟩,
                ⟨area_mem_definitions.mp he, hname⟩, hagrees⟩)
          | selection t => cases hbinding
          | operation r => cases hbinding
      | selection s =>
          cases e with
          | area b => cases hbinding
          | selection t =>
              exact Or.inr (Or.inr (Or.inl ⟨s, t, ⟨selection_mem_definitions.mp hd, rfl⟩,
                ⟨selection_mem_definitions.mp he, hname⟩, hagrees⟩))
          | operation r => cases hbinding
      | operation o =>
          cases e with
          | area b => cases hbinding
          | selection t => cases hbinding
          | operation r =>
              exact Or.inr (Or.inr (Or.inr ⟨o, r, ⟨operation_mem_definitions.mp hd, rfl⟩,
                ⟨operation_mem_definitions.mp he, hname⟩, hagrees⟩))
    · refine Or.inl ⟨d.binding, e.binding, name_mem_namesOf hd, ?_, hbinding⟩
      rw [← hname]
      exact name_mem_namesOf he

/-- Programs are compatible if and only if they clash nowhere. The left side of this is tested by a
merge definition by definition, the right side is what a caller sees. -/
theorem compatible_iff_forall_not_clashesAt (hp : p.names.Nodup) (hq : q.names.Nodup) :
    p.Compatible q ↔ ∀ n, ¬ p.ClashesAt q n := by
  simp only [compatible_iff hp, clashesAt_iff hp hq]
  constructor
  · rintro h n ⟨d, hd, e, he, rfl, hname, hagrees⟩
    exact hagrees (h d hd e he hname.symm)
  · intro h d hd e he hname
    by_contra hagrees
    exact h d.name ⟨d, hd, e, he, rfl, hname.symm, hagrees⟩

/-- A definition of the second program is accepted if and only if there is no clash at its name. -/
theorem accepts_iff_not_clashesAt (hp : p.names.Nodup) (hq : q.names.Nodup)
    (hd : d ∈ q.definitions) : p.Accepts d ↔ ¬ p.ClashesAt q d.name := by
  simp only [Accepts, definition?_eq_some_iff hp, clashesAt_iff hp hq]
  constructor
  · rintro h ⟨c, hc, e, he, hname, hname', hagrees⟩
    obtain rfl := eq_of_name_eq hq he hd hname'
    exact hagrees (h c ⟨hc, hname⟩)
  · rintro h c ⟨hc, hname⟩
    by_contra hagrees
    exact h ⟨c, hc, d, hd, hname, rfl, hagrees⟩

/-- A merge that is refused reports the first name of the second program at which they clash. All
names before it in the order of the second program were accepted. -/
theorem exists_first_clash (hp : p.names.Nodup) (hq : q.names.Nodup) (h : ¬ p.Compatible q) :
    ∃ before n after, q.names = before ++ n :: after ∧ (∀ m ∈ before, ¬ p.ClashesAt q m) ∧
      p.ClashesAt q n ∧ p.merge q = .error (.nameConflict n) := by
  have haccepts : ∀ d ∈ q.definitions, p.Accepts d ↔ ¬ p.ClashesAt q d.name :=
    fun d hd => accepts_iff_not_clashesAt hp hq hd
  rw [merge_eq p hq]
  cases hfind : q.definitions.find? fun d => ¬ p.Accepts d with
  | none => exact absurd (by simpa [Compatible] using hfind) h
  | some d =>
      obtain ⟨hrefused, before, after, hsplit, hbefore⟩ := List.find?_eq_some_iff_append.mp hfind
      have hd : d ∈ q.definitions := List.mem_of_find?_eq_some hfind
      refine ⟨before.map Definition.name, d.name, after.map Definition.name, ?_, ?_, ?_, rfl⟩
      · rw [names, hsplit, List.map_append, List.map_cons]
      · intro m hm
        obtain ⟨e, he, rfl⟩ := List.mem_map.mp hm
        have hmem : e ∈ q.definitions := hsplit ▸ List.mem_append_left _ he
        exact (haccepts e hmem).mp (by simpa using hbefore e he)
      · by_contra hclash
        simp [(haccepts d hd).mpr hclash] at hrefused

/-- A merge that is refused reports a name at which the programs clash. There is always one, and it
is the first in the order of the right side (`exists_first_clash`). -/
theorem exists_merge_eq_error (hp : p.names.Nodup) (hq : q.names.Nodup) (h : ¬ p.Compatible q) :
    ∃ n, p.merge q = .error (.nameConflict n) ∧ p.ClashesAt q n := by
  obtain ⟨-, n, -, -, -, hclash, hmerge⟩ := exists_first_clash hp hq h
  exact ⟨n, hmerge, hclash⟩

end Program

end Overpass
