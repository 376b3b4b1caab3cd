import Overpass.Proofs.Program.Join
import Overpass.Proofs.Query.Formed

/-!
# Merging the programs that callers obtain

A merge inserts the definitions of the second program one by one, area by area, then selection by
selection, then operation by operation, and each insertion looks at all that was merged before. This
module says what comes of it in terms of the two programs alone: which name is reported if they
clash, and which definitions stand in which order if they do not. Merging is also associative with
the empty program as its unit, so a caller may merge any number of programs in any grouping.

## Main Definitions

* `Area.sharedWith`: an area as it stands in a merge, of a wider kind if the other program has it
* `Program.MergeOutcome`: the outcome of a merge, in terms of the names at which the programs clash

## Main Statements

* `Program.Reachable.mergeOutcome`: the outcome of every merge of programs that a caller can obtain
* `Program.Reachable.merge_assoc`: such merges are associative, and the empty program is their unit
-/

namespace Overpass

/-- An area as it stands in a merge with another program. If that one has the area as well, of
another kind, then the area covers all kinds. -/
def Area.sharedWith (other : Program) (a : Area) : Area :=
  match other.area? a.name with
  | some b => if a.kind = b.kind then a else { a with kind := .any }
  | none => a

namespace Program

variable {p q r s : Program}

/-! ### The outcome of a merge -/

/-- The outcome of a merge, in terms of the names at which the programs clash. Nothing in it refers
to how the merge is computed. -/
structure MergeOutcome (p q : Program) (result : Except QueryError Program) : Prop where
  /-- It is refused if and only if there are any. -/
  refused_iff : (∃ cause, result = .error cause) ↔ ∃ n, p.ClashesAt q n
  /-- The first of them is reported, in the order of the second program: areas, selections, then
  operations. -/
  reported : ∀ cause, result = .error cause → ∃ before n after,
    q.namesOf .area ++ q.namesOf .selection ++ q.namesOf .operation = before ++ n :: after ∧
    (∀ m ∈ before, ¬ p.ClashesAt q m) ∧ p.ClashesAt q n ∧ cause = .nameConflict n
  /-- Otherwise each list of the first program, its areas shared with the second, is followed by
  what the second binds and the first does not. -/
  merged : (∀ n, ¬ p.ClashesAt q n) → result = .ok
    { areas := p.areas.map (Area.sharedWith q) ++ q.areas.filter fun a => !p.binds a.name
      selections := p.selections ++ q.selections.filter fun s => !p.binds s.name
      operations := p.operations ++ q.operations.filter fun o => !p.binds o.name }

/-- Widening an area by what the other program binds its name to is sharing it. -/
theorem widenBy_definition?_eq (hq : q.names.Nodup) (a : Area) :
    a.widenBy (q.definition? a.name) = a.sharedWith q := by
  cases harea : q.area? a.name with
  | some b =>
      obtain ⟨hb, hname⟩ := (area?_eq_some_iff hq).mp harea
      have hfind : q.definition? a.name = some (.area b) :=
        (definition?_eq_some_iff hq).mpr ⟨area_mem_definitions.mpr hb, hname⟩
      simp only [hfind, Area.widenBy, Area.sharedWith, harea, ElementKind.widen]
      split_ifs <;> rfl
  | none =>
      have hnone : ∀ b, q.definition? a.name ≠ some (.area b) := by
        intro b hfind
        obtain ⟨hb, hname⟩ := mem_of_definition?_eq_some hfind
        have hsome := (area?_eq_some_iff hq).mpr ⟨area_mem_definitions.mp hb, hname⟩
        rw [harea] at hsome
        cases hsome
      simp only [Area.sharedWith, harea]
      unfold Area.widenBy
      split
      · exact absurd ‹_› (hnone _)
      · rfl

theorem filter_notMem_names {α : Type} (p : Program) (name : α → SetName) (items : List α) :
    (items.filter fun x => name x ∉ p.names) = items.filter fun x => !p.binds (name x) := by
  refine List.filter_congr fun x _ => ?_
  rw [Bool.eq_iff_iff]
  simp [← binds_iff]

/-- The lists of a join, in terms of what each program binds: shared areas are widened, and of the
right side only what is new is taken, in its order. -/
theorem join_eq (p : Program) (hq : q.names.Nodup) : p.join q =
    { areas := p.areas.map (Area.sharedWith q) ++ q.areas.filter fun a => !p.binds a.name
      selections := p.selections ++ q.selections.filter fun s => !p.binds s.name
      operations := p.operations ++ q.operations.filter fun o => !p.binds o.name } := by
  simp only [join, widenBy_definition?_eq hq, filter_notMem_names]

/-- What becomes of a merge, for any two programs that bind no name twice. -/
theorem mergeOutcome_of_nodup (hp : p.names.Nodup) (hq : q.names.Nodup) :
    MergeOutcome p q (p.merge q) := by
  have hclash := compatible_iff_forall_not_clashesAt hp hq
  by_cases hcompatible : p.Compatible q
  · have hmerge : p.merge q = .ok (p.join q) := (merge_eq_ok_iff p hq).mpr ⟨hcompatible, rfl⟩
    refine ⟨⟨?_, fun ⟨n, hn⟩ => absurd hn (hclash.mp hcompatible n)⟩, ?_, fun _ => ?_⟩
    · rintro ⟨cause, herror⟩
      rw [hmerge] at herror
      cases herror
    · intro cause herror
      rw [hmerge] at herror
      cases herror
    · rw [hmerge, join_eq p hq]
  · obtain ⟨before, n, after, hsplit, hbefore, hn, hmerge⟩ := exists_first_clash hp hq hcompatible
    refine ⟨⟨fun _ => ⟨n, hn⟩, fun _ => ⟨_, hmerge⟩⟩, ?_, fun h => absurd hn (h n)⟩
    intro cause herror
    rw [hmerge] at herror
    exact ⟨before, n, after, by rw [← names_eq, hsplit], hbefore, hn,
      (Except.error.inj herror).symm⟩

/-- **The outcome of a merge.** Of two programs that a caller can obtain, the second is refused for
the first of its names at which they clash; and if there is none, the merge is the first program,
with the areas that the second shares widened to all kinds where kinds differ, followed in each list
by what is new in the second. -/
theorem Reachable.mergeOutcome (hp : p.Reachable) (hq : q.Reachable) :
    MergeOutcome p q (p.merge q) :=
  mergeOutcome_of_nodup hp.wellFormed.nodup hq.wellFormed.nodup

/-- The ways of the park bring in the park that the nodes have, and it is widened; but they cannot
be called what the union of both is called. -/
theorem mergeOutcome_park :
    MergeOutcome Park.nodes.program Park.ways.program
      (.ok ⟨[⟨.any, Park.region⟩], Park.both.program.selections, []⟩) ∧
    MergeOutcome Park.both.program (Park.select .way ⟨"both"⟩).program
      (.error (.nameConflict ⟨"both"⟩)) := by
  have hselect : Built (.inRegion .way .empty Park.region) (Park.select .way ⟨"both"⟩) := by
    have hbuild : (Draft.build ⟨.way, .ok .empty, some (.ok ⟨"both"⟩), some (.region Park.region)⟩
        .natural).runOn .initial = (.ok (Park.select .way ⟨"both"⟩), .initial) := rfl
    exact .inRegion rfl rfl rfl hbuild
  exact ⟨Reachable.mergeOutcome (.ofQuery ⟨_, Park.built_nodes⟩) (.ofQuery ⟨_, Park.built_ways⟩),
    Reachable.mergeOutcome (.ofQuery ⟨_, Park.built_both⟩) (.ofQuery ⟨_, hselect⟩)⟩

/-! ### Merges of several programs -/

/-- **Both groupings of three programs can be merged or neither**, and come to the same: each pair
of the three has to be compatible. -/
theorem merge_merge_eq_ok_iff (hp : p.names.Nodup) (hq : q.names.Nodup) (hr : r.names.Nodup) :
    (p.merge q >>= fun merged => merged.merge r) = .ok s ↔
      (q.merge r >>= fun merged => p.merge merged) = .ok s := by
  have hleft : (p.merge q >>= fun merged => merged.merge r) = .ok s ↔
      p.Compatible q ∧ (p.join q).Compatible r ∧ s = (p.join q).join r := by
    simp only [bind_eq_ok_iff, merge_eq_ok_iff _ hq, merge_eq_ok_iff _ hr]
    exact ⟨fun ⟨_, ⟨hpq, hmerged⟩, h⟩ => ⟨hpq, hmerged ▸ h⟩, fun ⟨hpq, h⟩ => ⟨_, ⟨hpq, rfl⟩, h⟩⟩
  have hright : (q.merge r >>= fun merged => p.merge merged) = .ok s ↔
      q.Compatible r ∧ p.Compatible (q.join r) ∧ s = p.join (q.join r) := by
    have hqr := nodup_names_join hq hr
    simp only [bind_eq_ok_iff, merge_eq_ok_iff _ hr]
    constructor
    · rintro ⟨_, ⟨hcompatible, rfl⟩, h⟩
      exact ⟨hcompatible, (merge_eq_ok_iff p hqr).mp h⟩
    · rintro ⟨hcompatible, h⟩
      exact ⟨_, ⟨hcompatible, rfl⟩, (merge_eq_ok_iff p hqr).mpr h⟩
  rw [hleft, hright]
  constructor
  · rintro ⟨hpq, hjoin, rfl⟩
    obtain ⟨hpr, hqr⟩ := (compatible_join_left_iff hpq hp hq).mp hjoin
    exact ⟨hqr, (compatible_join_right_iff hqr hp hq hr).mpr ⟨hpq, hpr⟩, join_assoc hq hr hqr⟩
  · rintro ⟨hqr, hjoin, rfl⟩
    obtain ⟨hpq, hpr⟩ := (compatible_join_right_iff hqr hp hq hr).mp hjoin
    exact ⟨hpq, (compatible_join_left_iff hpq hp hq).mpr ⟨hpr, hqr⟩, (join_assoc hq hr hqr).symm⟩

theorem merge_empty (p : Program) : p.merge empty = .ok p := rfl

/-- The empty program is a unit on the left only where no name is bound twice: a merge passes over
repetitions. -/
theorem empty_merge (hp : p.names.Nodup) : empty.merge p = .ok p := by
  refine (merge_eq_ok_iff empty hp).mpr ⟨fun d _ => accepts_of_notMem_names List.not_mem_nil, ?_⟩
  simp [join, empty, names, definitions]

/-- **Merging is associative, and the empty program is its unit.** Both ways to merge three programs
succeed or fail together, and if they succeed they give the very same program, orders and kinds
included. -/
theorem Reachable.merge_assoc (hp : p.Reachable) (hq : q.Reachable) (hr : r.Reachable) :
    (∀ s, (do (← p.merge q).merge r) = .ok s ↔ (do p.merge (← q.merge r)) = .ok s) ∧
      Program.empty.merge p = .ok p ∧ p.merge .empty = .ok p :=
  ⟨fun _ => merge_merge_eq_ok_iff hp.wellFormed.nodup hq.wellFormed.nodup hr.wellFormed.nodup,
    empty_merge hp.wellFormed.nodup, merge_empty p⟩

/-- The nodes of the park, its ways, and the union of both, which has them and widens the park. -/
theorem merge_assoc_park :
    (do Park.nodes.program.merge (← Park.ways.program.merge Park.both.program)) =
      .ok Park.both.program := by
  refine ((Reachable.merge_assoc (.ofQuery ⟨_, Park.built_nodes⟩) (.ofQuery ⟨_, Park.built_ways⟩)
    (.ofQuery ⟨_, Park.built_both⟩)).1 _).mp ?_
  rfl

end Program

end Overpass
