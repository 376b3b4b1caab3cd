import Mathlib.Data.List.Dedup
import Mathlib.Logic.Relation
import Overpass.Proofs.Query.Call
import Overpass.Proofs.Query.Order

/-!
# No definition is superfluous

The program of a query consists of what its root depends on and of nothing else, although programs
are carried over and merged as a whole. Every definition was the root of an operand when it came in,
and each later call refers to the roots of its operands; so the root leads to every definition. In
the other direction references never leave the program.

A new definition is therefore never one that is there already: it refers to the roots of its
operands, which nothing in their programs does. The insertion that finds its own definition in place
and adds nothing does not occur, and a call adds one definition to those of its operands.

## Main Definitions

* `Program.Leads`: whether references lead from one name to another
* `Query.Minimal`: a query whose program is what its root depends on, and whose root comes last
* `Query.Inserts`: the insertions of new definitions by which queries are built

## Main Statements

* `Grown.leads`: the root of a query leads to all of its names
* `Query.Inserts.not_absorbs`: new definitions are never absorbed
* `Task.perm_names`: a task adds its root to the names of its operands
* `Query.nothing_superfluous`: all of this for the queries that a caller can obtain
-/

namespace Overpass

open Program

/-! ### Following references -/

namespace Program

variable {p q : Program} {d : Definition} {m n : SetName}

/-- Whether the definition of one name refers to another, as its scope or as an operand. -/
def Refers (p : Program) (m n : SetName) : Prop :=
  ∃ d ∈ p.definitions, d.name = m ∧ n ∈ d.references

/-- Whether references lead from one name to another, in any number of steps. Every name leads to
itself. -/
def Leads (p : Program) : SetName → SetName → Prop := Relation.ReflTransGen p.Refers

/-- What a name refers to can be told from the signatures. -/
theorem refers_iff_signatures :
    p.Refers m n ↔ ∃ x ∈ p.signatures, x.name = m ∧ n ∈ x.references := by
  simp only [Refers, mem_signatures]
  constructor
  · rintro ⟨d, hd, hname, hn⟩
    exact ⟨d.signature, ⟨d, hd, rfl⟩, hname, hn⟩
  · rintro ⟨_, ⟨d, hd, rfl⟩, hname, hn⟩
    exact ⟨d, hd, hname, hn⟩

theorem Leads.mono (h : p.Leads m n) (hsub : ∀ x ∈ p.signatures, x ∈ q.signatures) :
    q.Leads m n := by
  refine Relation.ReflTransGen.mono (fun i j hij => ?_) m n h
  obtain ⟨x, hx, hname, hj⟩ := refers_iff_signatures.mp hij
  exact refers_iff_signatures.mpr ⟨x, hsub x hx, hname, hj⟩

/-- References do not lead out of a well-formed program, however long their chain is. -/
theorem WellFormed.mem_names_of_leads (h : p.WellFormed) (hm : m ∈ p.names) (hmn : p.Leads m n) :
    n ∈ p.names := by
  induction hmn with
  | refl => exact hm
  | tail _ hstep _ =>
      obtain ⟨x, hx, -, hn⟩ := refers_iff_signatures.mp hstep
      exact h.closed hx hn

/-- If every name of a program is led to by what a new definition refers to, the new definition
leads to all of them, and to itself. -/
theorem leads_extend (h : ∀ n ∈ p.names, ∃ m ∈ d.references, p.Leads m n) :
    ∀ n ∈ (p.extend d).program.names, (p.extend d).program.Leads (p.extend d).root n := by
  intro n hn
  rcases mem_names_append.mp hn with hn | rfl
  · obtain ⟨m, hm, hmn⟩ := h n hn
    have hstep : (p.extend d).program.Refers (p.extend d).root m :=
      ⟨d, mem_definitions_append.mpr (Or.inr rfl), rfl, hm⟩
    exact (hmn.mono (signatures_subset_append p d)).head hstep
  · exact .refl

end Program

/-- The root of a query leads to all of its names: a call refers to the roots of its operands, which
lead to all names of theirs. -/
theorem Grown.leads {q : Query} (h : Grown q) :
    ∀ n ∈ q.program.names, q.program.Leads q.root n := by
  induction h with
  | source _ => exact leads_extend fun n hn => absurd hn List.not_mem_nil
  | @unary q d hq hreferences ih =>
      refine leads_extend fun n hn => ⟨q.root, ?_, ih n hn⟩
      rw [hreferences]
      exact List.mem_singleton.mpr rfl
  | @binary a b d ha hb hcompatible hreferences iha ihb =>
      refine leads_extend fun n hn => ?_
      rw [hreferences]
      rcases mem_names_join.mp hn with hn | hn
      · exact ⟨a.root, List.mem_pair.mpr (Or.inl rfl),
          (iha n hn).mono hcompatible.signatures_subset_left⟩
      · exact ⟨b.root, List.mem_pair.mpr (Or.inr rfl),
          (ihb n hn).mono hcompatible.signatures_subset_right⟩

/-! ### The last definition -/

/-- Only selections come before a selection, so a query that is rooted at one has no operations. -/
theorem Formed.operations_eq_nil {e : Expression} {q : Query} (h : Formed e q)
    (hroot : q.root ∈ q.program.namesOf .selection) : q.program.operations = [] := by
  induction h with
  | shared | inline => rfl
  | within _ hsourceroot _ ih => exact ih hsourceroot
  -- The name of an operation was free, so no selection before it has that name.
  | @binary _ _ _ a b name _ _ _ _ hfree =>
      have hselection : name ∈ (a.program.join b.program).namesOf .selection := hroot
      exact absurd (mem_names_of_mem_namesOf hselection) hfree
  | @recurse _ _ source name _ hfree =>
      have hselection : name ∈ source.program.namesOf .selection := hroot
      exact absurd (mem_names_of_mem_namesOf hselection) hfree

/-- The root of an extension is the last name of its sort, and so it is printed after all others of
its sort. -/
theorem Program.getLast?_namesOf_extend (p : Program) (d : Definition) :
    ((p.extend d).program.namesOf d.binding).getLast? = some (p.extend d).root := by
  rw [extend, namesOf_append, if_pos rfl, List.getLast?_concat]

/-- What it means that nothing in a query is superfluous: its root needs all of it, nothing is there
twice, and the root comes last. -/
structure Query.Minimal (q : Query) : Prop where
  /-- No name is bound twice. -/
  nodup : q.program.names.Nodup
  /-- The names that are bound are those that the root leads to. -/
  mem_names_iff : ∀ n, n ∈ q.program.names ↔ q.program.Leads q.root n
  /-- The root is the last operation, or the last selection if there are no operations. -/
  root_last :
    (q.program.namesOf .operation).getLast? = some q.root ∨
      q.program.operations = [] ∧ (q.program.namesOf .selection).getLast? = some q.root

/-- A built query has nothing in it but what its root leads to, and binds each name once. -/
theorem Formed.minimal {e : Expression} {q : Query} (h : Formed e q) : q.Minimal where
  nodup := h.wellFormed.nodup
  mem_names_iff n := ⟨h.grown.leads n, h.wellFormed.mem_names_of_leads h.root_mem_names⟩
  root_last := by
    have hnil := h.operations_eq_nil
    cases h with
    | shared | inline | within =>
        exact Or.inr ⟨hnil (root_extend_mem _ (.selection _)),
          getLast?_namesOf_extend _ (.selection _)⟩
    | binary | recurse => exact Or.inl (getLast?_namesOf_extend _ (.operation _))

/-! ### New definitions -/

/-- The insertions by which queries are built: the program that grows, and the definition that is
new. -/
inductive Query.Inserts : Program → Definition → Prop
  /-- A selection, inserted into what its place brings along. -/
  | selection {place : Place} {resolver : Resolver} {kind : ElementKind} {tags : TagFilter}
      {name : SetName} {program : Program} {scope : Scope} :
      (∀ source, place = .query source → source.Reachable) →
      place.resolve resolver kind = .ok (program, scope) →
      Inserts program (.selection ⟨name, kind, scope, tags⟩)
  /-- A union, difference or intersection, inserted into the merged programs of its operands. -/
  | binary {operator : BinaryOperator} {a b : Query} {name : SetName} {merged : Program} :
      a.Reachable → b.Reachable → a.program.merge b.program = .ok merged →
      Inserts merged (.operation ⟨name, .binary operator a.root b.root⟩)
  /-- A recursion, inserted into the program of its operand. -/
  | recurse {direction : Direction} {a : Query} {name : SetName} :
      a.Reachable → Inserts a.program (.operation ⟨name, .recurse direction a.root⟩)

/-- A new definition is never absorbed, in all three places in which a call inserts one. -/
theorem Query.Inserts.not_absorbs {p : Program} {d : Definition} (h : Query.Inserts p d) :
    ¬ p.Absorbs d := by
  cases h with
  | selection hplace hresolve =>
      exact Formed.not_absorbs_resolve (fun source hsource => (hplace source hsource).exists_formed)
        hresolve _ _
  | @binary operator a b name merged ha hb hmerge =>
      obtain ⟨e, he⟩ := ha.exists_formed
      obtain ⟨f, hf⟩ := hb.exists_formed
      obtain ⟨hcompatible, rfl⟩ := (merge_eq_ok_iff _ hf.wellFormed.nodup).mp hmerge
      exact he.not_absorbs_binary hf hcompatible operator name
  | recurse ha =>
      obtain ⟨e, he⟩ := ha.exists_formed
      exact he.not_absorbs_recurse _ _

/-- The names of an extension are those of the program before and one more. Names that the operands
share are counted once. -/
theorem Program.Extensible.perm_names {p : Program} {d : Definition} (h : p.Extensible d)
    {others : List SetName} (hothers : ∀ n, n ∈ p.names ↔ n ∈ others) :
    (p.extend d).program.names.Perm ((p.extend d).root :: others.dedup) := by
  have hroot : d.name ∉ others := fun hmem => h.free ((hothers _).mpr hmem)
  have hcons : (d.name :: others.dedup).Nodup :=
    List.nodup_cons.mpr ⟨by rwa [List.mem_dedup], List.nodup_dedup others⟩
  refine (List.perm_ext_iff_of_nodup h.wellFormed_extend.nodup hcons).mpr fun n => ?_
  rw [List.mem_cons, List.mem_dedup, ← hothers, or_comm]
  exact mem_names_append

/-- **A task adds its root to the names of its operands**, unless it brings in a region. -/
theorem Task.perm_names {task : Task} {name : SetName} {q : Query}
    (hoperands : ∀ o ∈ task.operands, ∃ e, Formed e o) (hregion : task.region? = none)
    (h : task.perform name = .ok q) :
    q.program.names.Perm (q.root :: (task.operands.flatMap fun o => o.program.names).dedup) := by
  cases task with
  | select kind tags place resolver =>
      obtain ⟨⟨program, scope⟩, hresolve, -⟩ := bind_eq_ok_iff.mp h
      rcases Place.eq_of_resolve_eq_ok hresolve with ⟨source, rfl, -⟩ | ⟨region, hsome, -⟩
      · obtain ⟨e, he⟩ := hoperands source List.mem_cons_self
        obtain ⟨hroot, hfree, rfl⟩ := he.eq_extend_of_finish h
        refine (Formed.extensible_within he.wellFormed hroot hfree).perm_names fun n => ?_
        simp [operands]
      · rw [region?, hsome] at hregion
        cases hregion
  | combine operator a b =>
      obtain ⟨e, he⟩ := hoperands a List.mem_cons_self
      obtain ⟨f, hf⟩ := hoperands b (List.mem_cons_of_mem a List.mem_cons_self)
      obtain ⟨-, hcompatible, hfree, rfl⟩ := he.eq_extend_of_combine hf h
      refine (Formed.extensible_binary he hf he.wellFormed hf.wellFormed hcompatible
        hfree).perm_names fun n => ?_
      simp [operands, mem_names_join]
  | recurse direction source =>
      obtain ⟨e, he⟩ := hoperands source List.mem_cons_self
      obtain ⟨hfree, rfl⟩ := he.eq_extend_of_follow h
      refine (he.extensible_recurse he.wellFormed hfree).perm_names fun n => ?_
      simp [operands]

/-! ### Queries that a caller can obtain -/

/-- **Nothing in a query is superfluous.** The definitions of a query that a caller can obtain are
those that its root leads to, and its root comes last. So a call that brings in no region adds one
definition to those of its operands, and no new definition is ever absorbed. A fold over several
queries is a sequence of such calls. -/
theorem Query.nothing_superfluous :
    (∀ q : Query, q.Reachable → q.Minimal) ∧
    (∀ (call : Call) (supply rest : NameSupply) (q : Query), (∀ o ∈ call.operands, o.Reachable) →
      (∀ operator first others, call ≠ .combineAll operator first others) →
      call.region? = none → call.run.runOn supply = (.ok q, rest) →
      q.program.names.Perm
        (q.root :: (call.operands.flatMap fun o => o.program.names).dedup)) ∧
    ∀ (p : Program) (d : Definition), Query.Inserts p d → ¬ p.Absorbs d := by
  refine ⟨?_, ?_, fun p d h => h.not_absorbs⟩
  · intro q hq
    obtain ⟨e, he⟩ := hq.exists_formed
    exact he.minimal
  · intro call supply rest q hoperands hfold hregion h
    cases htask : call.task? with
    | none =>
        obtain ⟨operator, first, others, rfl⟩ := Call.eq_combineAll_of_task?_eq_none htask
        exact absurd rfl (hfold operator first others)
    | some checked =>
        cases checked with
        | error cause =>
            rw [Call.runOn_of_error htask] at h
            cases h
        | ok task =>
            obtain ⟨hsame, hsameregion⟩ := Call.operands_and_region?_of_task htask
            rw [Call.runOn_of_task htask] at h
            obtain ⟨name, hname⟩ := Task.exists_perform_of_runOn h
            rw [← hsame]
            refine Task.perm_names ?_ (hsameregion.trans hregion) hname
            rw [hsame]
            exact fun o ho => (hoperands o ho).exists_formed

theorem Query.nothing_superfluous_park :
    Park.both.Minimal ∧
    Park.both.program.names.Perm
      (⟨"both"⟩ :: (Park.nodes.program.names ++ Park.ways.program.names).dedup) ∧
    ¬ Park.both.program.Absorbs (.operation ⟨⟨"both"⟩, .recurse .down ⟨"both"⟩⟩) := by
  have hoperands : ∀ o ∈ [Park.nodes, Park.ways], o.Reachable := by
    intro o ho
    rcases List.mem_pair.mp ho with rfl | rfl
    exacts [⟨_, Park.built_nodes⟩, ⟨_, Park.built_ways⟩]
  exact ⟨Query.nothing_superfluous.1 _ ⟨_, Park.built_both⟩,
    Query.nothing_superfluous.2.1 (.combineAs .union Park.nodes Park.ways "both") .initial .initial
      Park.both hoperands (fun _ _ _ h => nomatch h) rfl rfl,
    Query.nothing_superfluous.2.2 _ _ (.recurse ⟨_, Park.built_both⟩)⟩

end Overpass
