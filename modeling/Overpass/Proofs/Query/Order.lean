import Overpass.Proofs.Query.Lines
import Overpass.Proofs.Region.Equal

/-!
# Equal queries print equally

Queries are compared as dictionaries, for which the order of definitions does not count, but are
printed in that order. Still, equal queries are printed alike: the order in which the program of a
query lists its definitions can be recovered from the root and from what the definitions refer to.
The root's definition says whether one query was followed or two were joined, and where their roots
are; so the calls can be replayed, and each of them orders its result in one way only.

## Main Definitions

* `Grown`: queries by the calls that made them, where only references count
* `Program.Alike`: whether two programs give common names the same signatures

## Main Statements

* `Grown.namesOf_eq`: two grown queries with one root in alike programs list the same names in the
  same order
* `Query.Equal.eq`: without negative zeros, queries that are equal are the same
* `Query.Equal.exists_lines`: and so are their scripts
-/

namespace Overpass

open Program

/-! ### Replaying the calls -/

/-- Queries by the calls that made them. A definition without references starts a query, so that an
area counts as a query of its own; one with a single reference follows the query of that root, and
one with two references joins the queries of both roots. -/
inductive Grown : Query → Prop
  | source {d : Definition} (hreferences : d.references = []) : Grown (Program.empty.extend d)
  | unary {q : Query} {d : Definition} (hq : Grown q) (hreferences : d.references = [q.root]) :
      Grown (q.program.extend d)
  | binary {a b : Query} {d : Definition} (ha : Grown a) (hb : Grown b)
      (hcompatible : a.program.Compatible b.program)
      (hreferences : d.references = [a.root, b.root]) : Grown ((a.program.join b.program).extend d)

/-- Built queries are grown. An area that a selection brings along counts as a query of its own,
which the selection follows. -/
theorem Formed.grown {e : Expression} {q : Query} (h : Formed e q) : Grown q := by
  induction h with
  | @shared kind tags region name hfree =>
      have harea : Grown (Program.empty.extend (.area ⟨kind, region⟩)) := .source rfl
      exact .unary harea rfl
  | inline => exact .source rfl
  | within _ _ _ ih => exact .unary ih rfl
  | binary _ _ _ hcompatible _ iha ihb => exact .binary iha ihb hcompatible rfl
  | recurse _ _ ih => exact .unary ih rfl

namespace Program

variable {p p' q q' : Program} {d d' : Definition}

/-- Whether two programs give the names that both bind the same signatures. So parts of one program
are alike. -/
def Alike (p q : Program) : Prop :=
  ∀ x ∈ p.signatures, ∀ y ∈ q.signatures, x.name = y.name → x = y

/-- Parts of alike programs are alike, where only their signatures count. -/
theorem Alike.mono (h : p'.Alike q') (hp : ∀ x ∈ p.signatures, x ∈ p'.signatures)
    (hq : ∀ x ∈ q.signatures, x ∈ q'.signatures) : p.Alike q :=
  fun x hx y hy => h x (hp x hx) y (hq y hy)

theorem signatures_subset_append (p : Program) (d : Definition) :
    ∀ x ∈ p.signatures, x ∈ (p.append d).signatures :=
  fun _ hx => mem_signatures_append.mpr (Or.inl hx)

/-- In alike programs, definitions of one name that were appended last have the same signature. -/
theorem Alike.signature_eq (h : (p.extend d).program.Alike (q.extend d').program)
    (hroot : (p.extend d).root = (q.extend d').root) : d.signature = d'.signature :=
  h _ (mem_signatures_append.mpr (Or.inr rfl)) _ (mem_signatures_append.mpr (Or.inr rfl)) hroot

/-- So they refer to the same names, in the same order. This is how the last calls of two grown
queries are compared. -/
theorem Alike.references_eq (h : (p.extend d).program.Alike (q.extend d').program)
    (hroot : (p.extend d).root = (q.extend d').root) {ns ns' : List SetName}
    (hd : d.references = ns) (hd' : d'.references = ns') : ns = ns' := by
  rw [← hd, ← hd']
  exact congrArg Signature.references (h.signature_eq hroot)

/-- Appending definitions of one signature to programs of the same names keeps the names the
same. -/
theorem namesOf_append_congr (hsignature : d.signature = d'.signature)
    (h : ∀ b, p.namesOf b = q.namesOf b) (b : Binding) :
    (p.append d).namesOf b = (q.append d').namesOf b := by
  have hname : d.name = d'.name := congrArg Signature.name hsignature
  have hbinding : d.binding = d'.binding := congrArg Signature.binding hsignature
  rw [namesOf_append, namesOf_append, h, hname, hbinding]

/-- The names of a join depend on the names of its sides, and on nothing else. -/
theorem namesOf_join_congr (hp : ∀ b, p.namesOf b = p'.namesOf b)
    (hq : ∀ b, q.namesOf b = q'.namesOf b) (b : Binding) :
    (p.join q).namesOf b = (p'.join q').namesOf b := by
  have hnames : p.names = p'.names := by rw [names_eq, names_eq, hp, hp, hp]
  rw [namesOf_join, namesOf_join, hp, hq, hnames]

end Program

/-- **Calls can be replayed.** By induction on the calls that made the first query: the
definitions of the common root have the same references, so the last call that made the second query
was of the same form, and its operands have the same roots as those of the first. -/
theorem Grown.namesOf_eq {s t : Query} (hs : Grown s) (ht : Grown t) (hroot : s.root = t.root)
    (halike : s.program.Alike t.program) (b : Binding) :
    s.program.namesOf b = t.program.namesOf b := by
  induction hs generalizing t b with
  | @source d hd =>
      -- The other two forms are excluded by the number of references.
      cases ht with
      | source => exact namesOf_append_congr (halike.signature_eq hroot) (fun _ => rfl) b
      | unary _ hd' => simpa using halike.references_eq hroot hd hd'
      | binary _ _ _ hd' => simpa using halike.references_eq hroot hd hd'
  | @unary q d hq hd ih =>
      cases ht with
      | source hd' => simpa using halike.references_eq hroot hd hd'
      | @unary q' d' hq' hd' =>
          have hroots : q.root = q'.root :=
            List.singleton_inj.mp (halike.references_eq hroot hd hd')
          have hoperands : q.program.Alike q'.program :=
            halike.mono (signatures_subset_append _ _) (signatures_subset_append _ _)
          exact namesOf_append_congr (halike.signature_eq hroot) (ih hq' hroots hoperands) b
      | binary _ _ _ hd' => simpa using halike.references_eq hroot hd hd'
  | @binary a₁ a₂ d h₁ h₂ hcompatible hd ih₁ ih₂ =>
      cases ht with
      | source hd' => simpa using halike.references_eq hroot hd hd'
      | unary _ hd' => simpa using halike.references_eq hroot hd hd'
      | @binary a₁' a₂' d' h₁' h₂' hcompatible' hd' =>
          obtain ⟨hroot₁, hroot₂⟩ : a₁.root = a₁'.root ∧ a₂.root = a₂'.root := by
            simpa using halike.references_eq hroot hd hd'
          have hjoin : (a₁.program.join a₂.program).Alike (a₁'.program.join a₂'.program) :=
            halike.mono (signatures_subset_append _ _) (signatures_subset_append _ _)
          have hleft : a₁.program.Alike a₁'.program :=
            hjoin.mono hcompatible.signatures_subset_left hcompatible'.signatures_subset_left
          have hright : a₂.program.Alike a₂'.program :=
            hjoin.mono hcompatible.signatures_subset_right hcompatible'.signatures_subset_right
          -- A join lists the names of its left side first, and filters those of its right side by
          -- them, so its order is determined by the orders of both sides.
          have hnames := namesOf_join_congr (ih₁ h₁' hroot₁ hleft) (ih₂ h₂' hroot₂ hright)
          exact namesOf_append_congr (halike.signature_eq hroot) hnames b

/-! ### From dictionaries to lists -/

/-- Items of one list that are all found in another one, under the same names in the same order,
make up that other list. -/
theorem eq_of_map_eq_of_subset {α β : Type*} {name : α → β} {xs ys : List α}
    (hmap : xs.map name = ys.map name) (hnodup : (ys.map name).Nodup) (hsub : xs ⊆ ys) :
    xs = ys := by
  have hlength : xs.length = ys.length := by simpa using congrArg List.length hmap
  refine List.ext_getElem hlength fun i hx hy => ?_
  refine List.inj_on_of_nodup_map hnodup (hsub (List.getElem_mem hx)) (List.getElem_mem hy) ?_
  have hget : (xs.map name)[i]? = (ys.map name)[i]? := by rw [hmap]
  rw [List.getElem?_map, List.getElem?_map, List.getElem?_eq_getElem hx,
    List.getElem?_eq_getElem hy] at hget
  exact Option.some.inj hget

namespace Program

variable {p q : Program}

/-- Whether no coordinate of a region in a program is a negative zero. Negative zeros are equal to
zeros, and are printed otherwise. -/
def NoNegativeZero (p : Program) : Prop := ∀ d ∈ p.definitions, d.NoNegativeZero

instance (p : Program) : Decidable p.NoNegativeZero :=
  inferInstanceAs (Decidable (∀ d ∈ p.definitions, _))

/-- Without negative zeros, every definition of a program is a definition of any equal one. -/
theorem Equal.subset (h : p.Equal q) (hp : p.NoNegativeZero) (hq : q.NoNegativeZero) :
    p.definitions ⊆ q.definitions := by
  obtain ⟨⟨-, hareas⟩, ⟨-, hselections⟩, -, hoperations⟩ := h
  intro d hd
  cases d with
  | area a =>
      obtain ⟨b, hb, heq⟩ := hareas a (area_mem_definitions.mp hd)
      have hb := area_mem_definitions.mpr hb
      rw [heq.eq (hp _ hd) (hq _ hb)]
      exact hb
  | selection s =>
      obtain ⟨t, ht, heq⟩ := hselections s (selection_mem_definitions.mp hd)
      have ht := selection_mem_definitions.mpr ht
      rw [heq.eq (hp _ hd) (hq _ ht)]
      exact ht
  | operation o =>
      exact operation_mem_definitions.mpr (hoperations o (operation_mem_definitions.mp hd))

/-- A program is alike to one that has all of its definitions, since no name is bound twice
there. -/
theorem alike_of_subset (hsub : p.definitions ⊆ q.definitions) (hq : q.names.Nodup) :
    p.Alike q := by
  intro x hx y hy hname
  obtain ⟨d, hd, rfl⟩ := mem_signatures.mp hx
  obtain ⟨e, he, rfl⟩ := mem_signatures.mp hy
  rw [eq_of_name_eq hq (hsub hd) he hname]

/-- A program that has all definitions of another one, and in the same order, is that one. -/
theorem eq_of_namesOf_eq (hsub : p.definitions ⊆ q.definitions) (hq : q.names.Nodup)
    (hnames : ∀ b, p.namesOf b = q.namesOf b) : p = q := by
  have hnodup := (names_nodup_iff.mp hq).1
  have hareas : p.areas = q.areas := by
    refine eq_of_map_eq_of_subset (hnames .area) (hnodup .area) fun a ha => ?_
    exact area_mem_definitions.mp (hsub (area_mem_definitions.mpr ha))
  have hselections : p.selections = q.selections := by
    refine eq_of_map_eq_of_subset (hnames .selection) (hnodup .selection) fun s hs => ?_
    exact selection_mem_definitions.mp (hsub (selection_mem_definitions.mpr hs))
  have hoperations : p.operations = q.operations := by
    refine eq_of_map_eq_of_subset (hnames .operation) (hnodup .operation) fun o ho => ?_
    exact operation_mem_definitions.mp (hsub (operation_mem_definitions.mpr ho))
  obtain ⟨pareas, pselections, poperations⟩ := p
  obtain ⟨qareas, qselections, qoperations⟩ := q
  rw [show pareas = qareas from hareas, show pselections = qselections from hselections,
    show poperations = qoperations from hoperations]

end Program

namespace Query

variable {s t : Query}

/-- **Equality of queries is identity**, but for negative zeros. Queries that are equal as
dictionaries list the same names in the same order, by the replay of their calls, and so they are
the same lists. -/
theorem Equal.eq (h : s.Equal t) (hs : s.Reachable) (ht : t.Reachable)
    (hszero : s.program.NoNegativeZero) (htzero : t.program.NoNegativeZero) : s = t := by
  obtain ⟨hroot, hprogram⟩ := h
  obtain ⟨e, he⟩ := hs.exists_formed
  obtain ⟨f, hf⟩ := ht.exists_formed
  have hnodup := hf.wellFormed.nodup
  have hsub := hprogram.subset hszero htzero
  have hnames := he.grown.namesOf_eq hf.grown hroot (alike_of_subset hsub hnodup)
  obtain ⟨sroot, sprogram⟩ := s
  obtain ⟨troot, tprogram⟩ := t
  rw [show sroot = troot from hroot,
    show sprogram = tprogram from eq_of_namesOf_eq hsub hnodup hnames]

/-- **Equal queries print equally**, line by line and whatever header and footer are asked for. -/
theorem Equal.exists_lines (h : s.Equal t) (hs : s.Reachable) (ht : t.Reachable)
    (hszero : s.program.NoNegativeZero) (htzero : t.program.NoNegativeZero)
    (settings : Settings) :
    ∃ lines, s.lines settings = .ok lines ∧ t.lines settings = .ok lines := by
  obtain ⟨e, he⟩ := hs.exists_formed
  have hlines := lines_eq_of_formed he settings
  refine ⟨_, hlines, ?_⟩
  rw [← h.eq hs ht hszero htzero]
  exact hlines

theorem exists_lines_park :
    ∃ lines, Park.both.lines ⟨some .xml, none, some .ids, false⟩ = .ok lines ∧
      Park.both.lines ⟨some .xml, none, some .ids, false⟩ = .ok lines :=
  Equal.exists_lines (by decide) ⟨_, Park.built_both⟩ ⟨_, Park.built_both⟩ (by decide) (by decide) _

end Query

end Overpass
