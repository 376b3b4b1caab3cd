import Mathlib.Data.Set.Insert
import Overpass.Proofs.Program.Join
import Overpass.Proofs.Query.Formed

/-!
# The kinds of areas

The line of an area has a kind although nobody asks for one. It is the kind of the selections that
look into the area: their common one, or all kinds as soon as two of them differ. It is not computed
from the selections, though. Each selection brings its area along, of its own kind, and the kind is
widened pairwise wherever two areas of one name meet. That this comes to the same, in whatever order
selections are built and merged, rests on two things: widening is a join of kinds, and areas travel
together with the selections that look into them.

## Main Definitions

* `ElementKind.IsCoverOf`: the kind that covers a set of kinds
* `Program.kindsIn`: the kinds of the selections that look directly into a set
* `Program.AreasCover`: whether all areas have the kinds that cover those of their selections

## Main Statements

* `ElementKind.IsCoverOf.widen`: widening covers the kinds on both sides
* `Program.kindsIn_join`: a join has the selections of both sides
* `Program.AreasCover.join`, `Program.AreasCover.append_selection`: how the invariant is kept
* `Program.Reachable.area_kind`: the invariant of all programs that a caller can obtain
-/

namespace Overpass

/-! ### Covering kinds -/

namespace ElementKind

variable {k l m : ElementKind} {kinds kinds' : Set ElementKind}

/-- The kind that covers a set of kinds: their common kind if they agree, and all kinds as soon as
two of them differ or one of them stands for all kinds. -/
structure IsCoverOf (k : ElementKind) (kinds : Set ElementKind) : Prop where
  nonempty : kinds.Nonempty
  common : ∀ l, (∀ m ∈ kinds, m = l) → k = l
  mixed : ∀ l ∈ kinds, ∀ m ∈ kinds, l ≠ m ∨ l = .any → k = .any

/-- A kind covers itself. This is the cover that an area starts with. -/
theorem isCoverOf_singleton (k : ElementKind) : k.IsCoverOf {k} where
  nonempty := Set.singleton_nonempty k
  common := fun _ h => h k rfl
  mixed := by
    rintro l rfl m rfl (hne | hany)
    · exact absurd rfl hne
    · exact hany

/-- Unless a cover stands for all kinds, it is each of the kinds that it covers. -/
theorem IsCoverOf.eq_of_mem (h : k.IsCoverOf kinds) (hk : k ≠ .any) (hl : l ∈ kinds) : k = l := by
  refine h.common l fun m hm => ?_
  by_contra hne
  exact hk (h.mixed m hm l hl (Or.inl hne))

/-- Widening gives all kinds unless the two kinds are one, which does not itself stand for all
kinds. -/
theorem eq_of_widen_ne_any (h : k.widen l ≠ .any) : k = l ∧ k ≠ .any := by
  unfold widen at h
  split_ifs at h with heq
  · exact ⟨heq, h⟩
  · exact absurd rfl h

/-- Widening one cover by another covers the kinds on both sides. That a cover is determined by what
it covers is what makes widening pair by pair come to the same as looking at all kinds at once. -/
theorem IsCoverOf.widen (hk : k.IsCoverOf kinds) (hl : l.IsCoverOf kinds') :
    (k.widen l).IsCoverOf (kinds ∪ kinds') where
  nonempty := hk.nonempty.inl
  common := by
    intro m h
    have hkm : k = m := hk.common m fun i hi => h i (Or.inl hi)
    have hlm : l = m := hl.common m fun i hi => h i (Or.inr hi)
    rw [hkm, hlm, ElementKind.widen, if_pos rfl]
  mixed := by
    intro i hi j hj hmixed
    by_contra hne
    -- Both covers are then the same single kind, so all kinds on both sides are that kind.
    obtain ⟨rfl, hany⟩ := eq_of_widen_ne_any hne
    have hall : ∀ m ∈ kinds ∪ kinds', k = m := fun m hm =>
      hm.elim (hk.eq_of_mem hany) (hl.eq_of_mem hany)
    rcases hmixed with hij | hi'
    · exact hij ((hall i hi).symm.trans (hall j hj))
    · exact hany ((hall i hi).trans hi')

/-- A set of kinds has one cover at most, whatever the order in which its kinds came together. So
the kind of an area says nothing about the history of its program. -/
theorem IsCoverOf.unique (hk : k.IsCoverOf kinds) (hl : l.IsCoverOf kinds) : k = l := by
  by_cases hany : k = .any
  · by_contra hne
    have hl' : l ≠ .any := fun h => hne (hany.trans h.symm)
    exact hne (hk.common l fun m hm => (hl.eq_of_mem hl' hm).symm)
  · exact (hl.common k fun m hm => (hk.eq_of_mem hany hm).symm).symm

end ElementKind

namespace Program

variable {p q : Program} {d : Definition} {s : Selection} {n : SetName}

/-! ### Selections that look into a set -/

/-- The kinds of the selections that look directly into a set. Selections that look into such a
selection do not count. -/
def kindsIn (p : Program) (n : SetName) : Set ElementKind :=
  {k | ∃ s ∈ p.selections, s.scope = .named n ∧ s.kind = k}

/-- No selection looks into a set that is not bound. So an area that only one side of a merge has is
covered by the selections of that side. -/
theorem kindsIn_eq_empty (hp : p.WellFormed) (hn : n ∉ p.names) : p.kindsIn n = ∅ := by
  refine Set.eq_empty_of_forall_notMem ?_
  rintro k ⟨s, hs, hscope, -⟩
  have hreference : n ∈ (Definition.selection s).references := by
    simp [Definition.references, hscope, Scope.references]
  exact hn (hp.closed (signature_mem_signatures (selection_mem_definitions.mpr hs)) hreference)

/-- A kind is found in a set if some selection of that kind looks into it. -/
theorem mem_kindsIn {k : ElementKind} :
    k ∈ p.kindsIn n ↔ ∃ s ∈ p.selections, s.scope = .named n ∧ s.kind = k := Iff.rfl

theorem kindsIn_append_selection (hscope : s.scope ≠ .named n) :
    (p.append (.selection s)).kindsIn n = p.kindsIn n := by
  ext k
  simp only [mem_kindsIn, append, List.mem_append, List.mem_singleton]
  constructor
  · rintro ⟨t, ht | rfl, hnamed, hkind⟩
    · exact ⟨t, ht, hnamed, hkind⟩
    · exact absurd hnamed hscope
  · rintro ⟨t, ht, h⟩
    exact ⟨t, Or.inl ht, h⟩

/-- A join has the selections of both sides: what it leaves out of the right side equals a selection
of the left side, which looks into the same set and is of the same kind. -/
theorem kindsIn_join (h : p.Compatible q) (n : SetName) :
    (p.join q).kindsIn n = p.kindsIn n ∪ q.kindsIn n := by
  ext k
  simp only [Set.mem_union, mem_kindsIn]
  constructor
  · rintro ⟨s, hs, hnamed⟩
    rw [selections_join, List.mem_append, List.mem_filter] at hs
    rcases hs with hs | ⟨hs, -⟩
    · exact Or.inl ⟨s, hs, hnamed⟩
    · exact Or.inr ⟨s, hs, hnamed⟩
  · rintro (⟨s, hs, hnamed⟩ | ⟨t, ht, hscope, rfl⟩)
    · exact ⟨s, List.mem_append_left _ hs, hnamed⟩
    · obtain ⟨s, hs, -, hkind, hscope'⟩ := h.exists_selection_join ht
      exact ⟨s, hs, hscope' n hscope, hkind⟩

/-! ### The invariant -/

/-- Whether every area has the kind that covers the kinds of the selections that look into it. -/
def AreasCover (p : Program) : Prop := ∀ a ∈ p.areas, a.kind.IsCoverOf (p.kindsIn a.name)

theorem areasCover_of_areas_eq_nil (h : p.areas = []) : p.AreasCover := by
  intro a ha
  rw [h] at ha
  cases ha

/-- A region that is brought in by a selection has the kind of that selection. -/
theorem areasCover_shared (kind : ElementKind) (tags : TagFilter) (region : Region)
    (name : SetName) :
    ((Program.empty.append (.area ⟨kind, region⟩)).append
      (.selection ⟨name, kind, .named region.name, tags⟩)).AreasCover := by
  intro a ha
  obtain rfl := List.mem_singleton.mp ha
  convert ElementKind.isCoverOf_singleton kind
  ext k
  simp [mem_kindsIn, append, empty, Area.name, eq_comm]

/-- A selection that looks into a set other than an area changes no area, nor what is found in
one. -/
theorem AreasCover.append_selection (h : p.AreasCover)
    (hscope : ∀ n ∈ p.namesOf .area, s.scope ≠ .named n) :
    (p.append (.selection s)).AreasCover := by
  intro a ha
  rw [kindsIn_append_selection (hscope a.name (name_mem_namesOf (area_mem_definitions.mpr ha)))]
  exact h a ha

theorem AreasCover.append_operation (h : p.AreasCover) (o : Operation) :
    (p.append (.operation o)).AreasCover := h

/-- An area of the left side covers, once it is widened, what looks into it on both sides. If the
right side does not have it, nothing looks into it there. -/
theorem AreasCover.widenBy (hp : p.AreasCover) (hq : q.AreasCover) (hpnodup : p.names.Nodup)
    (hqformed : q.WellFormed) (hcompatible : p.Compatible q) {a : Area} (ha : a ∈ p.areas) :
    (a.widenBy (q.definition? a.name)).kind.IsCoverOf (p.kindsIn a.name ∪ q.kindsIn a.name) := by
  cases hfind : q.definition? a.name with
  | none =>
      -- Nothing on the right side can look into an area that it does not bind.
      rw [kindsIn_eq_empty hqformed (definition?_eq_none_iff.mp hfind), Set.union_empty]
      exact hp a ha
  | some d =>
      obtain ⟨hd, hname⟩ := mem_of_definition?_eq_some hfind
      have hagrees := (compatible_iff hpnodup).mp hcompatible _ (area_mem_definitions.mpr ha) d hd
        hname.symm
      obtain ⟨b, rfl, -⟩ := Definition.agrees_area_iff.mp hagrees.symm
      have hb : b.kind.IsCoverOf (q.kindsIn b.name) := hq b (area_mem_definitions.mp hd)
      rw [show b.name = a.name from hname] at hb
      exact (hp a ha).widen hb

/-- Joining keeps the invariant: the areas that both sides have are widened by one another, and the
selections in them are those of both sides. -/
theorem AreasCover.join (hp : p.AreasCover) (hq : q.AreasCover) (hpformed : p.WellFormed)
    (hqformed : q.WellFormed) (hcompatible : p.Compatible q) : (p.join q).AreasCover := by
  intro a ha
  rw [areas_join, List.mem_append, List.mem_map, List.mem_filter, decide_eq_true_eq] at ha
  rw [kindsIn_join hcompatible]
  rcases ha with ⟨b, hb, rfl⟩ | ⟨ha, hnew⟩
  · rw [Area.name_widenBy]
    exact hp.widenBy hq hpformed.nodup hqformed hcompatible hb
  · rw [kindsIn_eq_empty hpformed hnew, Set.empty_union]
    exact hq a ha

end Program

open Program

/-- The areas in all programs that a caller can obtain cover the selections that look into them. -/
theorem Program.Reachable.areasCover {p : Program} (h : p.Reachable) : p.AreasCover :=
  h.invariant (areasCover_of_areas_eq_nil rfl) areasCover_shared
    AreasCover.append_selection (fun o hp => hp.append_operation o) AreasCover.join

/-- **The kind of an area is that of the selections that look into it.** There is such a selection;
the kind of the area is their common kind, or all kinds as soon as two of them differ or one of them
stands for all kinds; and nothing else has a part in it: in any other program that a caller can
obtain, an area that is looked into by selections of the same kinds is of the same kind. -/
theorem Program.Reachable.area_kind {p : Program} (hp : p.Reachable) {a : Area}
    (ha : a ∈ p.areas) :
    a.kind.IsCoverOf (p.kindsIn a.name) ∧
      ∀ q : Program, q.Reachable → ∀ b ∈ q.areas, q.kindsIn b.name = p.kindsIn a.name →
        b.kind = a.kind := by
  refine ⟨hp.areasCover a ha, fun q hq b hb hkinds => ?_⟩
  have hcover := hq.areasCover b hb
  rw [hkinds] at hcover
  exact hcover.unique (hp.areasCover a ha)

/-- The park is of all kinds once its nodes and its ways are united. -/
theorem Program.area_kind_park :
    ElementKind.any.IsCoverOf (Park.both.program.kindsIn ⟨"park"⟩) ∧
      ∀ q : Program, q.Reachable → ∀ b ∈ q.areas,
        q.kindsIn b.name = Park.both.program.kindsIn ⟨"park"⟩ → b.kind = .any :=
  Reachable.area_kind (p := Park.both.program) (a := ⟨.any, Park.region⟩)
    (.ofQuery ⟨_, Park.built_both⟩) (List.mem_singleton.mpr rfl)

end Overpass
