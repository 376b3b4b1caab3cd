import Overpass.Proofs.Query.Conflict
import Overpass.Proofs.Query.Minimal
import Overpass.Proofs.SetName.Valid

/-!
# Queries and what is derived from them

A query brings along what it was made from, so a union of a query with one that was derived from it
meets every definition of the first one twice. The two are never in conflict, except for a region
with a NaN: a caller may bring in such a region, nothing checks it, and since it is not equal to
itself, the definition that holds it does not agree with itself. A query that defines no such region
unites with itself and with all that is derived from it, and the definitions that both share stand
in the union once. A query that defines one unites with neither.

## Main Definitions

* `Program.Keeps`: whether a program still has the definitions of another one
* `Query.DerivedFrom`: whether a query was made from another one by any number of calls
* `Query.NoNaN`: whether no region that a query defines holds a NaN
* `Query.Shares`: what becomes of the shared definitions in a union

## Main Statements

* `Query.DerivedFrom.keeps`: what is derived from a query keeps its definitions
* `Run.forall_names`: where the names that a run binds come from
* `Run.unites_derived_iff`: when a query unites with itself and with what is derived from it
-/

namespace Overpass

open Program

/-! ### Keeping definitions -/

/-- Whether every definition of a program has one in another program that agrees with it. A
definition that does not agree with itself only needs one of its name. -/
def Program.Keeps (p q : Program) : Prop :=
  ∀ d ∈ p.definitions, ∃ e ∈ q.definitions, e.name = d.name ∧ (d.Agrees d → e.Agrees d)

namespace Program

variable {p q r : Program} {d : Definition}

theorem Keeps.refl (p : Program) : p.Keeps p := fun d hd => ⟨d, hd, rfl, id⟩

/-- What keeps a program in two steps keeps it. -/
theorem Keeps.trans (hpq : p.Keeps q) (hqr : q.Keeps r) : p.Keeps r := by
  intro d hd
  obtain ⟨e, he, hname, hagrees⟩ := hpq d hd
  obtain ⟨f, hf, hname', hagrees'⟩ := hqr e he
  refine ⟨f, hf, hname'.trans hname, fun hself => ?_⟩
  have hed := hagrees hself
  exact (hagrees' (hed.trans hed.symm)).trans hed

theorem keeps_append (p : Program) (d : Definition) : p.Keeps (p.append d) :=
  fun e he => ⟨e, mem_definitions_append.mpr (Or.inl he), rfl, id⟩

/-- A join widens the definitions of its left side, and keeps all else about them. -/
theorem keeps_join_left (p q : Program) : p.Keeps (p.join q) := by
  intro d hd
  refine ⟨d.widenBy (q.definition? d.name), mem_definitions_join.mpr (Or.inl ⟨d, hd, rfl⟩),
    Definition.name_widenBy _ _, Definition.agrees_widenBy_iff.mpr⟩

/-- What a join leaves out of its right side agrees with a definition of the left side. So it is
kept in the sense that matters to merging, if not always bit for bit. -/
theorem Compatible.keeps_join_right (h : p.Compatible q) : q.Keeps (p.join q) := by
  intro d hd
  by_cases hnew : d.name ∈ p.names
  · obtain ⟨c, hc, hcd⟩ := (h d hd).exists_agrees hnew
    have hname : c.name = d.name := congrArg Signature.name hcd.signature_eq
    refine ⟨c.widenBy (q.definition? c.name), mem_definitions_join.mpr (Or.inl ⟨c, hc, rfl⟩), ?_,
      fun _ => Definition.agrees_widenBy_iff.mpr hcd⟩
    rw [Definition.name_widenBy, hname]
  · exact ⟨d, mem_definitions_join_of_notMem hd hnew, rfl, id⟩

theorem Keeps.names_subset (h : p.Keeps q) : p.names ⊆ q.names := by
  intro n hn
  obtain ⟨d, hd, rfl⟩ := List.mem_map.mp hn
  obtain ⟨e, he, hname, -⟩ := h d hd
  rw [← hname]
  exact name_mem_names he

/-- **A program is compatible with what keeps its definitions if and only if each of them agrees
with itself.** -/
theorem Keeps.compatible_iff (h : p.Keeps q) (hp : p.names.Nodup) (hq : q.names.Nodup) :
    p.Compatible q ↔ ∀ d ∈ p.definitions, d.Agrees d := by
  rw [Program.compatible_iff hp]
  constructor
  · intro hcompatible d hd
    obtain ⟨e, he, hname, -⟩ := h d hd
    have hagrees := hcompatible d hd e he hname.symm
    exact hagrees.trans hagrees.symm
  · intro hself d hd e he hname
    obtain ⟨f, hf, hname', hagrees⟩ := h d hd
    obtain rfl := eq_of_name_eq hq he hf (hname.symm.trans hname'.symm)
    exact (hagrees (hself d hd)).symm

end Program

/-! ### Derived queries -/

/-- What a task makes keeps the definitions of its operands. Those of the right side may be
represented by copies from the left, which agree with them. -/
theorem Task.keeps {task : Task} {name : SetName} {o q : Query}
    (hoperands : ∀ o ∈ task.operands, ∃ e, Formed e o) (ho : o ∈ task.operands)
    (h : task.perform name = .ok q) : o.program.Keeps q.program := by
  cases task with
  | select kind tags place resolver =>
      cases place with
      | query source =>
          obtain rfl := List.mem_singleton.mp ho
          obtain ⟨e, he⟩ := hoperands o ho
          obtain ⟨-, -, rfl⟩ := he.eq_extend_of_finish h
          exact keeps_append _ _
      | _ => exact absurd ho List.not_mem_nil
  | combine operator a b =>
      obtain ⟨e, he⟩ := hoperands a List.mem_cons_self
      obtain ⟨f, hf⟩ := hoperands b (List.mem_cons_of_mem a List.mem_cons_self)
      obtain ⟨-, hcompatible, -, rfl⟩ := he.eq_extend_of_combine hf h
      rcases List.mem_pair.mp ho with rfl | rfl
      · exact (keeps_join_left _ _).trans (keeps_append _ _)
      · exact hcompatible.keeps_join_right.trans (keeps_append _ _)
  | recurse direction source =>
      obtain rfl := List.mem_singleton.mp ho
      obtain ⟨e, he⟩ := hoperands o ho
      obtain ⟨-, rfl⟩ := he.eq_extend_of_follow h
      exact keeps_append _ _

variable {supply rest : NameSupply} {q s t : Query}

/-- **What a call makes keeps the definitions of its operands**, also when it is a fold over several
queries. -/
theorem Call.keeps {call : Call} (hoperands : ∀ o ∈ call.operands, ∃ e, Formed e o)
    (h : call.run.runOn supply = (.ok q, rest)) :
    ∀ o ∈ call.operands, o.program.Keeps q.program :=
  Call.of_operands (R := fun o q => o.program.Keeps q.program) (fun _ => Keeps.refl _)
    (fun _ _ _ => Keeps.trans) (fun _ _ _ ho hperform _ hmem => Task.keeps ho hmem hperform)
    hoperands h

/-- Whether a query was made from another one: it is that query itself, or what a call made of
operands one of which was made from it. -/
inductive Query.DerivedFrom (s : Query) : Query → Prop
  | self : DerivedFrom s s
  | call {t q : Query} {call : Call} {supply rest : NameSupply} :
      DerivedFrom s t → t ∈ call.operands → (∀ o ∈ call.operands, o.Reachable) →
      call.run.runOn supply = (.ok q, rest) → DerivedFrom s q

/-- **What is derived from a query keeps its definitions**, through any number of calls and whatever
else goes into them. -/
theorem Query.DerivedFrom.keeps (h : s.DerivedFrom t) : s.program.Keeps t.program := by
  induction h with
  | self => exact Keeps.refl _
  | call _ hmem hoperands hrun ih =>
      exact ih.trans (Call.keeps (fun o ho => (hoperands o ho).exists_formed) hrun _ hmem)

/-! ### The names of a run -/

/-- Every name that a run binds comes from somewhere: from the queries that it starts with, from the
regions that come in, from the callers or from the supply. -/
theorem Run.forall_names {P : SetName → Prop} {first last : Session} {events : List Event}
    (hrun : Run first events last)
    (hbuilt : ∀ q ∈ first.built, (∃ e, Formed e q) ∧ ∀ n ∈ q.program.names, P n)
    (hregion : ∀ r ∈ Event.regions events, P r.name)
    (hgiven : ∀ text name, SetName.parse text = .ok name → P name)
    (hgenerated : ∀ name, first.supply.Gives last.supply name → P name) :
    ∀ q ∈ last.built, (∃ e, Formed e q) ∧ ∀ n ∈ q.program.names, P n := by
  induction hrun with
  | nil => exact hbuilt
  | @cons first last call events hoperands hrest ih =>
      refine ih (fun q hq => ?_) (fun r hr => hregion r (Event.mem_regions_cons.mpr (Or.inr hr)))
        fun name hname => hgenerated name (hname.mono (call.next_le _) (Nat.le_refl _))
      rcases Session.mem_built_after.mp hq with hresult | hq
      · have hformed : ∀ o ∈ call.operands, ∃ e, Formed e o :=
          fun o ho => (hbuilt o (hoperands o ho)).1
        refine ⟨Call.exists_formed hformed hresult, Call.forall_names hformed
          (fun o ho => (hbuilt o (hoperands o ho)).2)
          (fun r hr => hregion r (Event.mem_regions_cons.mpr (Or.inl hr))) hgiven ?_ hresult⟩
        exact fun name hname => hgenerated name (hname.mono (Nat.le_refl _) hrest.next_le)
      · exact hbuilt q hq

/-- The name that is generated next is bound by no query of a run that generated fewer names than
there are numbers for them, unless a region has it. -/
theorem Run.name_notMem_names {supply : NameSupply} {events : List Event} {session : Session}
    (hrun : Run ⟨[], supply⟩ events session)
    (hround : session.supply.next < supply.next + UInt64.size)
    (hregion : ∀ r ∈ Event.regions events, r.name ≠ session.supply.name) :
    ∀ q ∈ session.built, (∃ e, Formed e q) ∧ session.supply.name ∉ q.program.names := by
  intro q hq
  obtain ⟨hformed, hnames⟩ := hrun.forall_names (P := (· ≠ session.supply.name))
    (fun _ hmem => absurd hmem List.not_mem_nil) hregion
    (fun text name hparse heq => SetName.parse_ne_ok_numbered text _ (heq ▸ hparse))
    (fun name hgives heq => NameSupply.not_gives_name hround (heq ▸ hgives)) q hq
  exact ⟨hformed, fun hmem => hnames _ hmem rfl⟩

/-! ### Unions with derived queries -/

/-- A definition agrees with itself if and only if it holds no NaN. Copies of a definition are
compared number by number, and a NaN is not equal to itself. -/
theorem Definition.agrees_self_iff {d : Definition} :
    d.Agrees d ↔ ∀ region ∈ d.regions, ∀ x ∈ region.coordinates, x.isNaN = false := by
  cases d with
  | area a => simp [Agrees, regions, Region.equal_self_iff]
  | selection s =>
      cases hscope : s.scope <;>
        simp [Agrees, Selection.Equal, regions, hscope, Scope.Equal, Scope.regions,
          Region.equal_self_iff]
  | operation o => simp [Agrees, regions]

/-- Whether no region that a query defines holds a NaN, in either of its forms. -/
def Query.NoNaN (q : Query) : Prop :=
  ∀ d ∈ q.program.definitions, ∀ region ∈ d.regions, ∀ x ∈ region.coordinates, x.isNaN = false

/-- What becomes of the definitions of a query in a union with one that was derived from it. -/
structure Query.Shares (s t q : Query) : Prop where
  /-- No name is bound twice. -/
  nodup : q.program.names.Nodup
  /-- The union binds the names that the derived query binds, and its own. -/
  perm : q.program.names.Perm (q.root :: t.program.names)
  /-- Every shared definition has one in the union that agrees with it. -/
  agrees : ∀ d ∈ s.program.definitions, ∃ e ∈ q.program.definitions, e.Agrees d

/-- Whether the union of two queries succeeds, in which the definitions of `s` are shared. -/
def Query.Unites (s t : Query) (supply : NameSupply) (a b : Query) : Prop :=
  ∃ q, (Query.union a b).runOn supply = (.ok q, supply.advance) ∧ s.Shares t q

theorem Query.noNaN_iff : q.NoNaN ↔ ∀ d ∈ q.program.definitions, d.Agrees d := by
  simp only [NoNaN, Definition.agrees_self_iff]

/-- A union of two queries succeeds if they are compatible and its name is free. What it shares then
stands in it once. -/
theorem Query.unites_iff {e f g : Expression} {a b : Query} (ha : Formed e a) (hb : Formed f b)
    (ht : Formed g t) (hcompatible : a.program.Compatible b.program ↔ s.NoNaN)
    (hkeeps : s.program.Keeps a.program)
    (hnames : ∀ n, n ∈ (a.program.join b.program).names ↔ n ∈ t.program.names)
    (hfree : supply.name ∉ t.program.names) : s.Unites t supply a b ↔ s.NoNaN := by
  constructor
  · rintro ⟨q, hunion, -⟩
    exact hcompatible.mp (ha.eq_extend_of_combine hb (congrArg Prod.fst hunion)).2.1
  · intro hnan
    have hjoined := hcompatible.mpr hnan
    have hunbound : supply.name ∉ (a.program.join b.program).names :=
      fun hmem => hfree ((hnames _).mp hmem)
    have hextensible : (a.program.join b.program).Extensible
        (.operation ⟨supply.name, .binary .union a.root b.root⟩) :=
      ha.extensible_binary hb ha.wellFormed hb.wellFormed hjoined hunbound
    have hcombine : Query.combine .union a b supply.name = _ := ha.combine_eq hb rfl hjoined _
    rw [if_neg hunbound] at hcombine
    refine ⟨_, Prod.ext hcombine rfl, hextensible.wellFormed_extend.nodup, ?_, fun d hd => ?_⟩
    · have hperm := hextensible.perm_names hnames
      rwa [ht.wellFormed.nodup.dedup] at hperm
    · obtain ⟨c, hc, -, hagrees⟩ := hkeeps.trans (keeps_join_left _ b.program) d hd
      exact ⟨c, mem_definitions_append.mpr (Or.inl hc), hagrees (noNaN_iff.mp hnan d hd)⟩

/-- **A query unites with itself and with all that is derived from it, unless it defines a region
with a NaN.** Here both are built in a run from the start that generated fewer names than there are
numbers for them, and in which no region has the name that is generated for the union. Regions come
in as callers give them: a resolver gives none with a NaN, but nothing checks those that are given
to a selection as they are. -/
theorem Run.unites_derived_iff {events : List Event} {session : Session}
    (hrun : Run ⟨[], supply⟩ events session)
    (hround : session.supply.next < supply.next + UInt64.size)
    (hregion : ∀ r ∈ Event.regions events, r.name ≠ session.supply.name)
    (hs : s ∈ session.built) (ht : t ∈ session.built) (hderived : s.DerivedFrom t) :
    (s.Unites s session.supply s s ↔ s.NoNaN) ∧
      (s.Unites t session.supply s t ↔ s.NoNaN) ∧
      (s.Unites t session.supply t s ↔ s.NoNaN) := by
  have hnames := hrun.name_notMem_names hround hregion
  obtain ⟨⟨e, he⟩, hfrees⟩ := hnames s hs
  obtain ⟨⟨f, hf⟩, hfreet⟩ := hnames t ht
  have hkeeps := hderived.keeps
  have hsubset := hkeeps.names_subset
  have hself : s.program.Compatible s.program ↔ s.NoNaN := by
    rw [(Keeps.refl _).compatible_iff he.wellFormed.nodup he.wellFormed.nodup, Query.noNaN_iff]
  have hst : s.program.Compatible t.program ↔ s.NoNaN := by
    rw [hkeeps.compatible_iff he.wellFormed.nodup hf.wellFormed.nodup, Query.noNaN_iff]
  have hts : t.program.Compatible s.program ↔ s.NoNaN := by
    rw [← hst]
    exact ⟨fun h => h.symm hf.wellFormed.nodup he.wellFormed.nodup,
      fun h => h.symm he.wellFormed.nodup hf.wellFormed.nodup⟩
  refine ⟨Query.unites_iff he he he hself (Keeps.refl _) (fun n => ?_) hfrees,
    Query.unites_iff he hf hf hst (Keeps.refl _) (fun n => ?_) hfreet,
    Query.unites_iff hf he hf hts hkeeps (fun n => ?_) hfreet⟩
  · rw [mem_names_join, or_self]
  · rw [mem_names_join]
    exact ⟨fun h => h.elim (hsubset ·) id, Or.inr⟩
  · rw [mem_names_join]
    exact ⟨fun h => h.elim id (hsubset ·), Or.inl⟩

namespace Park

/-- The union of the nodes and the ways of the park is derived from the nodes, one of its two
operands. -/
theorem derivedFrom_united : nodes.DerivedFrom united := by
  have hways : (select .way ⟨"_s1"⟩).Reachable := by
    have hbuild : (Draft.build ⟨.way, .ok .empty, none, some (.region region)⟩ .natural).runOn
        .initial = (.ok (select .way ⟨"_s1"⟩), NameSupply.initial.advance) := rfl
    exact ⟨_, .inRegion rfl rfl rfl hbuild⟩
  have hoperands : ∀ o ∈ unite.operands, o.Reachable :=
    List.forall_mem_cons.mpr ⟨⟨_, built_nodes⟩, List.forall_mem_singleton.mpr hways⟩
  have hunite : unite.run.runOn ⟨2⟩ = (.ok united, ⟨3⟩) := rfl
  exact .call .self List.mem_cons_self hoperands hunite

end Park

/-- The nodes of the park unite with themselves, and with their union with the ways. -/
theorem Run.unites_derived_park :
    Run Park.first Park.events (Park.fourth.after Park.subtract) ∧
      Park.nodes.DerivedFrom Park.united ∧ Park.nodes.NoNaN ∧
      Park.nodes.Unites Park.nodes ⟨4⟩ Park.nodes Park.nodes ∧
      Park.nodes.Unites Park.united ⟨4⟩ Park.nodes Park.united ∧
      Park.nodes.Unites Park.united ⟨4⟩ Park.united Park.nodes := by
  have hregion : ∀ r ∈ Event.regions Park.events,
      r.name ≠ (Park.fourth.after Park.subtract).supply.name := by decide
  have hnan : Park.nodes.NoNaN := by unfold Query.NoNaN; decide
  obtain ⟨hself, hleft, hright⟩ := Park.run_events.unites_derived_iff (by decide) hregion
    (s := Park.nodes) (t := Park.united) (by decide) (by decide) Park.derivedFrom_united
  exact ⟨Park.run_events, Park.derivedFrom_united, hnan, hself.mpr hnan, hleft.mpr hnan,
    hright.mpr hnan⟩

namespace Plaza

/-- A plaza whose southern side is no number. -/
def region : Region :=
  ⟨⟨"plaza"⟩, ⟨.nan, .zero false, .zero false, .zero false⟩, [], .bbox⟩

def selectNodes : Call :=
  .select .node (.filter .empty) (some "a") (some (.region region)) .natural

/-- The nodes of the plaza. -/
def nodes : Query where
  root := ⟨"a"⟩
  program := ⟨[⟨.node, region⟩], [⟨⟨"a"⟩, .node, .named ⟨"plaza"⟩, .empty⟩], []⟩

def first : Session := ⟨[], .initial⟩

end Plaza

/-- The nodes of a plaza with a NaN do not even unite with themselves. -/
theorem Run.not_unites_plaza :
    Run Plaza.first [⟨Plaza.selectNodes, Plaza.first.outcome Plaza.selectNodes⟩]
        (Plaza.first.after Plaza.selectNodes) ∧
      Plaza.nodes ∈ (Plaza.first.after Plaza.selectNodes).built ∧
      Plaza.nodes.DerivedFrom Plaza.nodes ∧
      (Query.union Plaza.nodes Plaza.nodes).runOn (Plaza.first.after Plaza.selectNodes).supply =
        (.error (.nameConflict ⟨"plaza"⟩), ⟨2⟩) :=
  ⟨.cons (by decide) .nil, by decide, .self, rfl⟩

end Overpass
