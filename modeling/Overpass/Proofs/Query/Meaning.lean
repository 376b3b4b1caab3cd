import Overpass.Proofs.Query.Formed
import Overpass.Proofs.Query.Interpretation

/-!
# Programs mean what was built

Running the script of a query binds its root to the set that the caller's expression stands for, for
every interpreter of its lines. Expressions are trees and programs are not: merging keeps one
definition of a name for all operands that share it, and an area that is shared by selections of
different kinds is widened to all kinds.

What carries the proof is that being a model of a program, with areas possibly widened, is inherited
by every program that was merged into it. So a statement about all models of a query's own program
holds in whatever larger program the query ends up in.

## Main Definitions

* `Interpretation.Holds`: whether a definition is satisfied, an area perhaps with a wider kind
* `Interpretation.Models`: whether all definitions of a program are

## Main Statements

* `Interpretation.Models.of_join_left`, `Interpretation.Models.of_join_right`: models of a join are
  models of both sides
* `Formed.eq_denote`: in every model the root of a query is bound to what was built
* `Built.run_root_eq_denote`: in particular when its script is run, also after merging
-/

namespace Overpass

open Program

/-! ### Kinds that cover others -/

/-- Whether elements of one kind are among those of another: of the same kind, or of the one that
stands for all kinds. -/
def ElementKind.Covers (wide narrow : ElementKind) : Prop := wide = narrow ∨ wide = .any

/-- What an area is widened to covers the kind that it had. So elements may be added to the set of
an area, and are never taken from it. -/
theorem ElementKind.covers_widen_left (k l : ElementKind) : (k.widen l).Covers k := by
  unfold widen
  split_ifs
  exacts [Or.inl rfl, Or.inr rfl]

theorem ElementKind.covers_widen_right (k l : ElementKind) : (k.widen l).Covers l := by
  unfold widen
  split_ifs with h
  exacts [Or.inl h, Or.inr rfl]

/-- Covering is transitive, since only the kind that stands for all kinds covers another one. -/
theorem ElementKind.Covers.trans {k l m : ElementKind} (h₁ : k.Covers l) (h₂ : l.Covers m) :
    k.Covers m := by
  rcases h₁ with rfl | rfl
  · exact h₂
  · exact Or.inr rfl

theorem Area.covers_widenBy (a : Area) (found : Option Definition) :
    (a.widenBy found).kind.Covers a.kind := by
  unfold widenBy
  split
  · exact ElementKind.covers_widen_left _ _
  · exact Or.inl rfl

namespace Interpretation

variable {ε : Type*} {I : Interpretation ε} {ρ : SetName → Set ε} {p q : Program}
variable {d : Definition}

/-- The elements of a kind are among those of every kind that covers it. -/
theorem ofKind_subset_of_covers {wide narrow : ElementKind} (h : wide.Covers narrow) :
    I.ofKind narrow ⊆ I.ofKind wide := by
  rcases h with rfl | rfl
  · exact Set.Subset.rfl
  · exact I.ofKind_subset_any narrow

/-! ### Models -/

variable (I ρ)

/-- Whether a definition is satisfied. An area may have been widened by what it was merged with. -/
def Holds : Definition → Prop
  | .area a => ∃ kind : ElementKind, kind.Covers a.kind ∧
      ρ a.name = I.ofKind kind ∩ I.inRegion a.region
  | .selection s => ρ s.name = I.define ρ (.selection s)
  | .operation o => ρ o.name = I.define ρ (.operation o)

/-- Whether all definitions of a program are satisfied by given sets. The order of the definitions
is forgotten here. -/
def Models (p : Program) : Prop := ∀ d ∈ p.definitions, I.Holds ρ d

variable {I ρ}

/-- A definition that binds what it says is satisfied, an area with its own kind. -/
theorem Holds.of_eq_define (h : ρ d.name = I.define ρ d) : I.Holds ρ d := by
  cases d with
  | area a => exact ⟨a.kind, Or.inl rfl, h⟩
  | selection s => exact h
  | operation o => exact h

/-- Executing a well-formed program gives a model of it, whatever was bound before. -/
theorem models_execute (hp : p.WellFormed) (ρ : SetName → Set ε) :
    I.Models (I.execute p.definitions ρ) p := fun _ hd =>
  .of_eq_define <|
    execute_eq_define hp.chained hp.nodup (fun _ hn => absurd hn List.not_mem_nil) hd ρ

/-- A model of an extended program is a model of what was extended, and satisfies the new
definition. -/
theorem Models.of_append (h : I.Models ρ (p.append d)) : I.Models ρ p ∧ I.Holds ρ d :=
  ⟨fun _ he => h _ (mem_definitions_append.mpr (Or.inl he)),
    h d (mem_definitions_append.mpr (Or.inr rfl))⟩

/-- A widened area holds only if the area it was widened from does: the kind that it is satisfied
with covers both. -/
theorem Holds.of_widenBy {a : Area} {found : Option Definition}
    (h : I.Holds ρ (.area (a.widenBy found))) : I.Holds ρ (.area a) := by
  obtain ⟨kind, hcovers, heq⟩ := h
  rw [Area.name_widenBy, Area.region_widenBy] at heq
  exact ⟨kind, hcovers.trans (a.covers_widenBy found), heq⟩

/-- A model of a join is a model of its left side, whose definitions stand in the join, with areas
perhaps widened. Nothing is asked of the right side here. -/
theorem Models.of_join_left (h : I.Models ρ (p.join q)) : I.Models ρ p := by
  intro d hd
  cases d with
  | area a =>
      exact (h _ (widenBy_mem_definitions_join hd q)).of_widenBy
  | selection s =>
      refine h _ ?_
      rw [selection_mem_definitions] at hd ⊢
      exact List.mem_append_left _ hd
  | operation o =>
      refine h _ ?_
      rw [operation_mem_definitions] at hd ⊢
      exact List.mem_append_left _ hd

/-- Equal selections bind the same set. Inline regions in them may differ in the signs of zeros,
which an interpretation does not see. -/
theorem define_selection_congr {s t : Selection} (h : s.Equal t) :
    I.define ρ (.selection s) = I.define ρ (.selection t) := by
  obtain ⟨-, hkind, hscope, htags⟩ := h
  have hset : I.inScope ρ s.scope = I.inScope ρ t.scope := by
    rcases s with ⟨_, _, _ | region, _⟩ <;> rcases t with ⟨_, _, _ | region', _⟩
    · exact congrArg ρ hscope
    · cases hscope
    · cases hscope
    · exact I.inRegion_congr hscope
  simp only [define, hkind, hset, htags]

/-- A model of a join is a model of its right side: a definition of the right side that was not
taken over is one for which an agreeing definition stands on the left. -/
theorem Models.of_join_right (h : I.Models ρ (p.join q)) (hcompatible : p.Compatible q)
    (hq : q.names.Nodup) : I.Models ρ q := by
  intro d hd
  by_cases hname : d.name ∈ p.names
  · obtain ⟨current, hcurrent, hagrees⟩ := (hcompatible d hd).exists_agrees hname
    rcases Definition.agrees_iff.mp hagrees with
      ⟨a, b, rfl, rfl, hregion⟩ | ⟨s, t, rfl, rfl, heq⟩ | ⟨o, rfl, rfl⟩
    · -- The area that stayed was widened to cover the kind of the one that was left out.
      have hnames : b.name = a.name := hregion.1.symm
      have hlookup : q.definition? a.name = some (.area b) :=
        (definition?_eq_some_iff hq).mpr ⟨hd, hnames⟩
      obtain ⟨kind, hcovers, heq⟩ := h _ (widenBy_mem_definitions_join hcurrent q)
      rw [hlookup] at hcovers heq
      refine ⟨kind, hcovers.trans (ElementKind.covers_widen_right a.kind b.kind), ?_⟩
      rw [hnames, ← I.inRegion_congr hregion]
      exact heq
    · have hs : ρ s.name = I.define ρ (.selection s) := h.of_join_left _ hcurrent
      have hnames : s.name = t.name := heq.1
      show ρ t.name = I.define ρ (.selection t)
      rw [← define_selection_congr heq, ← hs, hnames]
    · exact h.of_join_left _ hcurrent
  · exact h d (mem_definitions_join_of_notMem hd hname)

end Interpretation

/-! ### Queries -/

section

variable {ε : Type*} {I : Interpretation ε} {ρ : SetName → Set ε} {e : Expression}
variable {p : Program} {q : Query}

/-- **In every model of its program the root of a query is bound to what was built.** -/
theorem Formed.eq_denote (h : Formed e q) (hρ : I.Models ρ q.program) : ρ q.root = I.denote e := by
  induction h with
  | @shared kind tags region name hfree =>
      obtain ⟨hareas, hselection⟩ := hρ.of_append
      obtain ⟨wide, hcovers, harea⟩ := hareas.of_append.2
      -- The area may be wider than the kind of the selection, which picks its own kind from it.
      have hkinds : I.ofKind kind ∩ I.ofKind wide = I.ofKind kind :=
        Set.inter_eq_left.mpr (Interpretation.ofKind_subset_of_covers hcovers)
      calc ρ name
          = I.ofKind kind ∩ ρ region.name ∩ I.having tags := hselection
        _ = I.ofKind kind ∩ (I.ofKind wide ∩ I.inRegion region) ∩ I.having tags := by
            rw [show ρ region.name = _ from harea]
        _ = I.ofKind kind ∩ I.inRegion region ∩ I.having tags := by
            rw [← Set.inter_assoc, hkinds]
  | inline => exact hρ.of_append.2
  | @within kind tags e source name hsource hroot hfree ih =>
      obtain ⟨hprogram, hselection⟩ := hρ.of_append
      show ρ name = I.ofKind kind ∩ I.denote e ∩ I.having tags
      rw [← ih hprogram]
      exact hselection
  | @binary operator e f a b name ha hb hkinds hcompatible hfree iha ihb =>
      obtain ⟨hjoin, hoperation⟩ := hρ.of_append
      show ρ name = I.binary operator (I.denote e) (I.denote f)
      rw [← iha hjoin.of_join_left, ← ihb (hjoin.of_join_right hcompatible hb.wellFormed.nodup)]
      exact hoperation
  | @recurse direction e source name hsource hfree ih =>
      obtain ⟨hprogram, hoperation⟩ := hρ.of_append
      show ρ name = I.follow direction (I.denote e)
      rw [← ih hprogram]
      exact hoperation

/-- A query keeps its meaning in a well-formed program all of whose models are models of it. -/
theorem Formed.execute_eq_denote (h : Formed e q) (hp : p.WellFormed)
    (hmodels : ∀ ρ, I.Models ρ p → I.Models ρ q.program) (ρ : SetName → Set ε) :
    I.execute p.definitions ρ q.root = I.denote e :=
  h.eq_denote (hmodels _ (Interpretation.models_execute hp ρ))

/-- **Running the script of a query binds its root to what was built**, in whatever way lines are
interpreted, and with whatever header and footer. So does running the script of any program that it
was merged into, on either side. In particular both operands of a combination keep their meanings in
the script of the combined query, whose own root is bound to the combination of the two. All names
that are printed are to be valid, as those are that callers come by (`Call.namesValid`). -/
theorem Built.run_root_eq_denote (h : Built e q) (R : Interpreter I) (settings : Settings) :
    (q.program.NamesValid → ∃ lines, q.lines settings = .ok lines ∧
      ∀ ρ, R.run lines ρ q.root = I.denote e) ∧
    (∀ other merged : Program, other.Reachable → merged.NamesValid →
      q.program.merge other = .ok merged ∨ other.merge q.program = .ok merged →
      ∃ lines, (Query.mk q.root merged).lines settings = .ok lines ∧
        ∀ ρ, R.run lines ρ q.root = I.denote e) ∧
    ∀ (operator : BinaryOperator) (f : Expression) (b c : Query) (name : SetName), Built f b →
      c.program.NamesValid → Query.combine operator q b name = .ok c →
      ∃ lines, c.lines settings = .ok lines ∧ ∀ ρ, R.run lines ρ q.root = I.denote e ∧
        R.run lines ρ b.root = I.denote f ∧
        R.run lines ρ c.root = I.binary operator (I.denote e) (I.denote f) := by
  have hq := h.formed
  refine ⟨fun hnames => ?_, ?_, ?_⟩
  · obtain ⟨lines, hlines, hrun⟩ := R.run_lines hq.wellFormed hq.root_mem_names hnames settings
    refine ⟨lines, hlines, fun ρ => ?_⟩
    rw [hrun]
    exact hq.execute_eq_denote hq.wellFormed (fun _ hρ => hρ) ρ
  · intro other merged hother hnames hmerge
    have hw := hother.wellFormed
    -- On either side of the merge, models of the merged program are models of the query's own.
    obtain ⟨hmerged, hroot, hmodels⟩ : merged.WellFormed ∧ q.root ∈ merged.names ∧
        ∀ ρ, I.Models ρ merged → I.Models ρ q.program := by
      rcases hmerge with hmerge | hmerge
      · obtain ⟨hcompatible, rfl⟩ := (merge_eq_ok_iff _ hw.nodup).mp hmerge
        exact ⟨hq.wellFormed.join hw hcompatible, mem_names_join.mpr (Or.inl hq.root_mem_names),
          fun _ hρ => hρ.of_join_left⟩
      · obtain ⟨hcompatible, rfl⟩ := (merge_eq_ok_iff _ hq.wellFormed.nodup).mp hmerge
        exact ⟨hw.join hq.wellFormed hcompatible, mem_names_join.mpr (Or.inr hq.root_mem_names),
          fun _ hρ => hρ.of_join_right hcompatible hq.wellFormed.nodup⟩
    obtain ⟨lines, hlines, hrun⟩ :=
      R.run_lines (show (Query.mk q.root merged).program.WellFormed from hmerged) hroot hnames
        settings
    refine ⟨lines, hlines, fun ρ => ?_⟩
    rw [hrun]
    exact hq.execute_eq_denote hmerged hmodels ρ
  · intro operator f b c name hb hnames hcombine
    have hb := hb.formed
    have hc := hq.combine hb hcombine
    have hw := hc.wellFormed
    obtain ⟨lines, hlines, hrun⟩ := R.run_lines hw hc.root_mem_names hnames settings
    obtain ⟨-, hcompatible, -, rfl⟩ := hq.eq_extend_of_combine hb hcombine
    refine ⟨lines, hlines, fun ρ => ?_⟩
    rw [hrun]
    refine ⟨?_, ?_, hc.execute_eq_denote hw (fun _ hρ => hρ) ρ⟩
    · exact hq.execute_eq_denote hw (fun _ hρ => hρ.of_append.1.of_join_left) ρ
    · exact hb.execute_eq_denote hw
        (fun _ hρ => hρ.of_append.1.of_join_right hcompatible hb.wellFormed.nodup) ρ

/-- A map of untagged elements, each of a kind and at a point, none a member of another. Outlines
enclose nothing on it. -/
def Park.map : Interpretation (ElementKind × Point) where
  ofKind kind := {x | kind = .any ∨ x.1 = kind}
  ofKind_subset_any _ _ _ := Or.inl rfl
  inExtent
    | .box b => {x | b.south ≤ x.2.lat ∧ x.2.lat ≤ b.north ∧ b.west ≤ x.2.lon ∧ x.2.lon ≤ b.east}
    | .outline _ => ∅
  inExtent_shown := by
    rintro (b | _)
    · simp only [Extent.shown, Bbox.shown, Binary64.shown_le_iff, Binary64.le_shown_iff]
    · rfl
  inExtent_congr := by
    rintro (b | _) (c | _) h
    · obtain ⟨⟨_, _, hsouth⟩, ⟨_, _, hwest⟩, ⟨_, _, hnorth⟩, _, _, heast⟩ := h
      ext x
      simp_all [LE.le]
    · cases h
    · cases h
    · rfl
  having filter := {_x | filter.tags = []}
  having_empty := Set.eq_univ_of_forall fun _ => rfl
  follow _ set := set

/-- The script of the union in the park, with header and footer, binds the nodes, the ways and their
union for one who reads its lines. -/
theorem run_root_eq_denote_park :
    Park.both.program.NamesValid ∧
    ∃ lines, Park.both.lines ⟨some .json, none, some .body, false⟩ = .ok lines ∧
      Park.map.reader.run lines (fun _ => ∅) ⟨"nodes"⟩ =
        Park.map.denote (.inRegion .node .empty Park.region) ∧
      Park.map.reader.run lines (fun _ => ∅) ⟨"ways"⟩ =
        Park.map.denote (.inRegion .way .empty Park.region) := by
  have hnames : Park.both.program.NamesValid := by decide
  obtain ⟨lines, hlines, hrun⟩ :=
    (Built.run_root_eq_denote Park.built_nodes Park.map.reader
      ⟨some .json, none, some .body, false⟩).2.2 .union _ _ Park.both ⟨"both"⟩ Park.built_ways
      hnames rfl
  obtain ⟨hnodes, hways, -⟩ := hrun fun _ => ∅
  exact ⟨hnames, lines, hlines, hnodes, hways⟩

end

end Overpass
