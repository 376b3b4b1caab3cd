import Overpass.Proofs.Query.Meaning
import Overpass.Proofs.Query.Kind
import Overpass.Proofs.Query.Outcome

/-!
# Kinds are sound

The kind of a query is computed from its program without looking at any element. This module relates
it to what the printed script binds: under every interpretation, the root of a query of a known kind
is bound to elements of that kind. So an intersection that is accepted, because both of its operands
are known to be of its kind, never selects from elements of other kinds.

Nothing is assumed of recursions, which may lead to any elements and to other ones each time. So an
execution of lines is a relation here: a line that selects binds some elements of the kind that it
shows, a line that combines binds what its operator says, and a recursion binds anything. The runs
of interpreters are among the executions.

## Main Definitions

* `Interpretation.MayBind`: the sets that a statement may bind, as far as kinds are concerned
* `Interpretation.MayStep`: what a line may make of the bound sets
* `Interpretation.Executes`: the executions of lines one after another
* `Program.Checked`: whether the operands of all intersections are known to be of their kind

## Main Statements

* `Interpreter.executes_run`: running the lines of definitions, headers and footers is executing
  them
* `Interpretation.Executes.mayBind`: after the lines of a chain of definitions each has bound a set
  that it may bind, given the sets that are bound in the end
* `Program.WellFormed.subset_ofKind`: names of a known kind are bound to elements of that kind
* `Formed.checked`: the operands of all intersections in a built query are of their kind
* `Query.Reachable.subset_ofKind_of_kind`: both facts for the scripts of queries that a caller can
  obtain
-/

namespace Overpass

/-! ### Executions with arbitrary recursions -/

namespace Interpretation

variable {ε : Type*} (I : Interpretation ε)

/-- The sets that a statement may bind, given the sets that names are bound to. A selection selects
only elements of its kind, from wherever and with whatever tags, and a recursion may lead to any
elements. -/
def MayBind (ρ : SetName → Set ε) : Statement → Set ε → Prop
  | .select kind _ _ _, set => set ⊆ I.ofKind kind
  | .operation ⟨_, .binary operator left right⟩, set => set = I.binary operator (ρ left) (ρ right)
  | .operation ⟨_, .recurse _ _⟩, _ => True

/-- What a line may make of the sets that names are bound to. A line that makes a statement binds a
set that the statement may bind, settings and outputs bind nothing, and of other lines nothing is
known. -/
def MayStep (line : String) (ρ ρ' : SetName → Set ε) : Prop :=
  (∀ statement, Line.statement? line = some statement →
    ∃ set, I.MayBind ρ statement set ∧ ρ' = Function.update ρ statement.name set) ∧
  (Line.IsFrame line → ρ' = ρ)

/-- The executions of lines in order: each does what it may. There are as many executions as there
are choices for what selections and recursions bind. -/
inductive Executes : List String → (SetName → Set ε) → (SetName → Set ε) → Prop
  | nil {ρ : SetName → Set ε} : Executes [] ρ ρ
  | cons {line : String} {lines : List String} {ρ ρ' ρ'' : SetName → Set ε} :
      I.MayStep line ρ ρ' → Executes lines ρ' ρ'' → Executes (line :: lines) ρ ρ''

variable {I} {ρ ρ' : SetName → Set ε} {ds : List Definition} {d : Definition} {n : SetName}
variable {lines : List String} {line : String}

/-- What a statement may bind depends on the sets that it refers to, and on nothing else. -/
theorem mayBind_congr {statement : Statement} (h : ∀ n ∈ statement.references, ρ n = ρ' n)
    (set : Set ε) : I.MayBind ρ statement set ↔ I.MayBind ρ' statement set := by
  cases statement with
  | select kind source tags name => rfl
  | operation o =>
      obtain ⟨name, formula⟩ := o
      cases formula with
      | binary operator left right =>
          have hleft : ρ left = ρ' left := h left (List.mem_pair.mpr (Or.inl rfl))
          have hright : ρ right = ρ' right := h right (List.mem_pair.mpr (Or.inr rfl))
          simp only [MayBind, hleft, hright]
      | recurse direction source => rfl

/-- What an interpretation says that a definition binds is among what its statement may bind. -/
theorem mayBind_define (ρ : SetName → Set ε) (d : Definition) :
    I.MayBind ρ d.statement (I.define ρ d) := by
  cases d with
  | area a => exact Set.inter_subset_left
  | selection s =>
      intro x hx
      exact hx.1.1
  | operation o =>
      obtain ⟨name, formula⟩ := o
      cases formula with
      | binary operator left right => rfl
      | recurse direction source => trivial

/-- The line of a definition binds a set that its statement may bind, to its name. That is all that
is known of the line, and all that is needed of it. -/
theorem mayStep_line_iff (h : d.IsReadable) :
    I.MayStep d.line ρ ρ' ↔
      ∃ set, I.MayBind ρ d.statement set ∧ ρ' = Function.update ρ d.name set := by
  have hread := Definition.statement?_line h
  constructor
  · rintro ⟨hstatement, -⟩
    simpa only [Definition.name_statement] using hstatement d.statement hread
  · intro hset
    refine ⟨fun statement hstatement => ?_, fun hframe => ?_⟩
    · obtain rfl := Option.some.inj (hread.symm.trans hstatement)
      simpa only [Definition.name_statement] using hset
    -- What makes a statement is neither a header nor a footer.
    · rw [hframe.statement?_eq_none] at hread
      cases hread

/-- Settings and outputs bind nothing, and may always be executed. -/
theorem mayStep_frame_iff (h : Line.IsFrame line) : I.MayStep line ρ ρ' ↔ ρ' = ρ := by
  rw [MayStep, h.statement?_eq_none]
  simp [h]

namespace Executes

/-- An execution of two parts executes the first one, and then the second one from there. -/
theorem of_append {others : List String} (h : I.Executes (lines ++ others) ρ ρ') :
    ∃ between, I.Executes lines ρ between ∧ I.Executes others between ρ' := by
  induction lines generalizing ρ with
  | nil => exact ⟨ρ, .nil, h⟩
  | cons line lines ih =>
      cases h with
      | cons hline hlines =>
          obtain ⟨between, hfirst, hothers⟩ := ih hlines
          exact ⟨between, .cons hline hfirst, hothers⟩

theorem eq_of_frame (h : I.Executes lines ρ ρ') (hframe : ∀ line ∈ lines, Line.IsFrame line) :
    ρ' = ρ := by
  induction h with
  | nil => rfl
  | cons hline _ ih =>
      obtain ⟨hfirst, hrest⟩ := List.forall_mem_cons.mp hframe
      rw [ih hrest, (mayStep_frame_iff hfirst).mp hline]

/-- Executing the line of a definition and then others is executing the others after the definition
has bound a set that it may bind. -/
theorem of_cons_line (hd : d.IsReadable) (h : I.Executes (d.line :: lines) ρ ρ') :
    ∃ set, I.MayBind ρ d.statement set ∧
      I.Executes lines (Function.update ρ d.name set) ρ' := by
  cases h with
  | cons hline hlines =>
      obtain ⟨set, hset, rfl⟩ := (mayStep_line_iff hd).mp hline
      exact ⟨set, hset, hlines⟩

section Lines

variable (hreadable : ∀ d ∈ ds, d.IsReadable)
include hreadable

/-- The lines of definitions change no set but those that they bind, in whatever way they are
executed. -/
theorem eq_of_notMem (h : I.Executes (ds.map Definition.line) ρ ρ')
    (hn : n ∉ ds.map Definition.name) : ρ' n = ρ n := by
  induction ds generalizing ρ with
  | nil =>
      cases h
      rfl
  | cons d ds ih =>
      obtain ⟨hd, hds⟩ := List.forall_mem_cons.mp hreadable
      rw [List.map_cons, List.mem_cons, not_or] at hn
      obtain ⟨set, -, hrest⟩ := of_cons_line hd h
      rw [ih hds hrest hn.2, Function.update_of_ne hn.1]

/-- **In the end every line of a chain of definitions has bound a set that it may bind**, given what
is bound in the end: the sets that it refers to were bound for good when its turn came, and so was
its own when later ones had theirs. -/
theorem mayBind {known : List SetName} (h : I.Executes (ds.map Definition.line) ρ ρ')
    (hchain : Chained Definition.name Definition.references known ds)
    (hnodup : (ds.map Definition.name).Nodup) (hknown : ∀ n ∈ known, n ∉ ds.map Definition.name)
    (hd : d ∈ ds) : I.MayBind ρ' d.statement (ρ' d.name) := by
  induction ds generalizing known ρ with
  | nil => cases hd
  | cons e ds ih =>
      obtain ⟨hreferences, hchain⟩ := hchain
      obtain ⟨he, hds⟩ := List.forall_mem_cons.mp hreadable
      obtain ⟨set, hset, hrest⟩ := of_cons_line he h
      rw [List.map_cons, List.nodup_cons] at hnodup
      rcases List.mem_cons.mp hd with rfl | hd
      · have hsame : ∀ n ∈ d.statement.references, ρ n = ρ' n := by
          intro n hn
          rw [d.references_statement] at hn
          exact (eq_of_notMem hreadable h (hknown n (hreferences n hn))).symm
        rw [eq_of_notMem hds hrest hnodup.1, Function.update_self]
        exact (mayBind_congr hsame set).mp hset
      · refine ih hds hrest hchain hnodup.2 ?_ hd
        intro n hn
        rcases List.mem_cons.mp hn with rfl | hn
        · exact hnodup.1
        · exact fun hmem => hknown n hn (List.mem_cons_of_mem _ hmem)

end Lines

end Executes

/-- A combination of sets of elements of known kinds holds elements of the kind that follows. The
right side of a difference is not asked for anything. -/
theorem binary_subset_ofKind {operator : BinaryOperator} {left right : Option ElementKind}
    {x y : Set ε} (hx : ∀ k, left = some k → x ⊆ I.ofKind k)
    (hy : ∀ k, right = some k → y ⊆ I.ofKind k) {k : ElementKind}
    (hk : operator.kind left right = some k) : I.binary operator x y ⊆ I.ofKind k := by
  cases operator with
  | union =>
      rw [BinaryOperator.kind] at hk
      split_ifs at hk with heq
      exact Set.union_subset (hx k hk) (hy k (heq ▸ hk))
  | difference =>
      intro e he
      exact hx k hk he.1
  | intersection kind =>
      obtain rfl : kind = k := Option.some.inj hk
      intro e he
      exact he.1.1

end Interpretation

/-- **The runs of interpreters are executions**, of definitions that can be read and of headers and
footers: an interpreter binds what the interpretation says, which is among what may be bound. -/
theorem Interpreter.executes_run {ε : Type*} {I : Interpretation ε} (R : Interpreter I)
    {lines : List String}
    (h : ∀ line ∈ lines, Line.IsFrame line ∨ ∃ d : Definition, d.IsReadable ∧ d.line = line)
    (ρ : SetName → Set ε) : I.Executes lines ρ (R.run lines ρ) := by
  induction lines generalizing ρ with
  | nil => exact .nil
  | cons line lines ih =>
      obtain ⟨hline, hlines⟩ := List.forall_mem_cons.mp h
      refine .cons ?_ (ih hlines _)
      rcases hline with hframe | ⟨d, hd, rfl⟩
      · exact (Interpretation.mayStep_frame_iff hframe).mpr (R.step_frame line ρ hframe)
      · exact (Interpretation.mayStep_line_iff hd).mpr
          ⟨_, Interpretation.mayBind_define ρ d, R.step_line hd ρ⟩

namespace Program

variable {p q : Program} {n : SetName} {ε : Type*} {I : Interpretation ε} {ρ ρ' : SetName → Set ε}

theorem kindOf_area (hp : p.names.Nodup) {a : Area} (ha : a ∈ p.areas) :
    p.kindOf a.name = some a.kind := by
  rw [kindOf, kindWithin_of_area? ((area?_eq_some_iff hp).mpr ⟨ha, rfl⟩)]
  rfl

/-- **Names of a known kind are bound to elements of that kind.** The kinds of areas and selections
are their own, and those of operations follow from the operands, which are bound before. -/
theorem WellFormed.subset_ofKind (h : p.WellFormed) (hnames : p.NamesValid)
    (hexecutes : I.Executes (p.definitions.map Definition.line) ρ ρ')
    (hn : n ∈ p.names) {k : ElementKind} (hk : p.kindOf n = some k) : ρ' n ⊆ I.ofKind k := by
  have hbinds : ∀ d ∈ p.definitions, I.MayBind ρ' d.statement (ρ' d.name) := by
    intro d hd
    exact hexecutes.mayBind (fun d hd => h.isReadable hnames hd) h.chained h.nodup
      (fun n hn => absurd hn List.not_mem_nil) hd
  obtain ⟨d, hd, rfl⟩ := List.mem_map.mp hn
  suffices hall : ∀ d ∈ p.definitions, ∀ k, p.kindOf d.name = some k → ρ' d.name ⊆ I.ofKind k from
    hall d hd k hk
  refine h.chained.induction (motive := fun n => ∀ k, p.kindOf n = some k → ρ' n ⊆ I.ofKind k)
    (fun n hn => absurd hn List.not_mem_nil) ?_
  intro d hd hreferences k hk
  have hbound := hbinds d hd
  cases d with
  | area a =>
      obtain rfl : a.kind = k :=
        Option.some.inj ((kindOf_area h.nodup (area_mem_definitions.mp hd)).symm.trans hk)
      exact hbound
  | selection s =>
      obtain rfl : s.kind = k :=
        Option.some.inj ((kindOf_selection h.nodup (selection_mem_definitions.mp hd)).symm.trans hk)
      exact hbound
  | operation o =>
      have hkind := (h.kindOf_operation (operation_mem_definitions.mp hd)).symm.trans hk
      obtain ⟨name, formula⟩ := o
      cases formula with
      | recurse direction source => cases hkind
      | binary operator left right =>
          rw [show ρ' (Definition.operation ⟨name, .binary operator left right⟩).name =
            I.binary operator (ρ' left) (ρ' right) from hbound]
          have hleft := hreferences left (List.mem_pair.mpr (Or.inl rfl))
          have hright := hreferences right (List.mem_pair.mpr (Or.inr rfl))
          exact Interpretation.binary_subset_ofKind hleft hright hkind

/-! ### The operands of intersections -/

/-- Whether the operands of an operation are of its kind, if it is an intersection. -/
def OperandsFit (kinds : SetName → Option ElementKind) (o : Operation) : Prop :=
  ∀ kind left right, o.formula = .binary (.intersection kind) left right →
    kinds left = some kind ∧ kinds right = some kind

/-- Whether the operands of all intersections are known to be of their kind. An intersection is
accepted on this condition, and keeps it in whatever it is merged with. -/
def Checked (p : Program) : Prop := ∀ o ∈ p.operations, OperandsFit p.kindOf o

theorem checked_of_operations_eq_nil (h : p.operations = []) : p.Checked := by
  intro o ho
  rw [h] at ho
  cases ho

/-- The operands of an operation that is kept keep their kinds, so an intersection that was checked
stays checked. -/
theorem Checked.operandsFit (h : p.Checked) (hkeeps : p.KeepsKinds q) (hp : p.WellFormed)
    (hq : q.WellFormed) {o : Operation} (ho : o ∈ p.operations) : OperandsFit q.kindOf o := by
  intro kind left right hformula
  have hsupports := hp.supports (operation_mem_definitions.mpr ho)
  have hkept : ∀ n ∈ o.formula.references, q.kindOf n = p.kindOf n :=
    fun n hn => hkeeps.kindOf_eq hp hq (hsupports n hn)
  rw [hformula] at hkept
  rw [hkept left (List.mem_pair.mpr (Or.inl rfl)), hkept right (List.mem_pair.mpr (Or.inr rfl))]
  exact h o ho kind left right hformula

/-- A definition that is no operation leaves the operands of all operations as they are. -/
theorem Checked.of_operations_eq (h : p.Checked) (hkeeps : p.KeepsKinds q) (hp : p.WellFormed)
    (hq : q.WellFormed) (heq : q.operations = p.operations) : q.Checked := by
  intro o ho
  rw [heq] at ho
  exact h.operandsFit hkeeps hp hq ho

end Program

open Program

/-- **The operands of all intersections in a built query are of their kind.** They were when the
intersection was accepted, and whatever a query is merged with keeps the kinds in it. -/
theorem Formed.checked {e : Expression} {q : Query} (h : Formed e q) : q.program.Checked := by
  induction h with
  | shared | inline => exact checked_of_operations_eq_nil rfl
  | @within kind tags e source name hsource hroot hfree ih =>
      have hq : Formed (.within kind tags e) _ := .within hsource hroot hfree
      exact ih.of_operations_eq (keepsKinds_extend _ _) hsource.wellFormed hq.wellFormed rfl
  | @recurse direction e source name hsource hfree ih =>
      have hq : Formed (.recurse direction e) _ := .recurse hsource hfree
      intro o ho
      rcases List.mem_append.mp ho with ho | ho
      · exact ih.operandsFit (keepsKinds_extend _ _) hsource.wellFormed hq.wellFormed ho
      · rw [List.mem_singleton.mp ho]
        rintro kind left right ⟨⟩
  | @binary operator e f a b name ha hb hkinds hcompatible hfree iha ihb =>
      have hq := (Formed.binary ha hb hkinds hcompatible hfree).wellFormed
      have hjoin := keepsKinds_extend (a.program.join b.program)
        (.operation ⟨name, .binary operator a.root b.root⟩)
      have hleft := (keepsKinds_join_left a.program b.program).trans hjoin
      have hright := hcompatible.keepsKinds_join_right.trans hjoin
      intro o ho
      rcases List.mem_append.mp ho with ho | ho
      · rw [operations_join, List.mem_append, List.mem_filter] at ho
        rcases ho with ho | ⟨ho, -⟩
        · exact iha.operandsFit hleft ha.wellFormed hq ho
        · exact ihb.operandsFit hright hb.wellFormed hq ho
      -- The new operation was accepted because of the kinds that its operands had before.
      · rw [List.mem_singleton.mp ho]
        rintro kind left right ⟨⟩
        rw [ha.kindOf_root hleft hq, hb.kindOf_root hright hq]
        exact Query.checkOperands_eq_ok_iff.mp hkinds kind rfl

/-- **Kinds are sound.** However the script of a query is executed, with whatever header and footer,
the root of a query of a known kind is bound to elements of that kind, and so are both operands of
every intersection in its program. The runs of all interpreters are among these executions. All
names are to be valid, as those are that callers come by (`Call.namesValid`). -/
theorem Query.Reachable.subset_ofKind_of_kind {q : Query} (hq : q.Reachable)
    (hnames : q.program.NamesValid) {ε : Type*} (I : Interpretation ε) (settings : Settings) :
    ∃ lines, q.lines settings = .ok lines ∧
      (∀ (R : Interpreter I) (ρ : SetName → Set ε), I.Executes lines ρ (R.run lines ρ)) ∧
      ∀ ρ ρ' : SetName → Set ε, I.Executes lines ρ ρ' →
        (∀ kind, q.kind = some kind → ρ' q.root ⊆ I.ofKind kind) ∧
        ∀ o ∈ q.program.operations, ∀ kind left right,
          o.formula = .binary (.intersection kind) left right →
          ρ' left ⊆ I.ofKind kind ∧ ρ' right ⊆ I.ofKind kind := by
  obtain ⟨e, he⟩ := hq.exists_formed
  have hw := he.wellFormed
  refine ⟨_, lines_eq_of_formed he settings, fun R => R.executes_run fun line hline => ?_,
    fun ρ ρ' h => ?_⟩
  · rcases mem_lines_iff.mp hline with hline | ⟨d, hd, rfl⟩ | hline
    · exact Or.inl (Settings.isFrame_header hline)
    · exact Or.inr ⟨d, hw.isReadable hnames hd, rfl⟩
    · exact Or.inl (Settings.isFrame_footer hline)
  -- Header and footer bind nothing, so all that counts is what the definitions bind.
  · obtain ⟨before, hbefore, hfooter⟩ := h.of_append
    obtain ⟨start, hheader, hexecutes⟩ := hbefore.of_append
    obtain rfl := hheader.eq_of_frame fun _ => Settings.isFrame_header
    obtain rfl := hfooter.eq_of_frame fun _ => Settings.isFrame_footer
    constructor
    · intro kind hkind
      exact hw.subset_ofKind hnames hexecutes he.root_mem_names hkind
    · intro o ho kind left right hformula
      have hbound : ∀ n ∈ o.formula.references, n ∈ q.program.names := fun n hn =>
        (hw.supports (operation_mem_definitions.mpr ho)).mem_names hn
      rw [hformula] at hbound
      obtain ⟨hleft, hright⟩ := he.checked o ho kind left right hformula
      exact ⟨hw.subset_ofKind hnames hexecutes (hbound left (List.mem_pair.mpr (Or.inl rfl))) hleft,
        hw.subset_ofKind hnames hexecutes (hbound right (List.mem_pair.mpr (Or.inr rfl))) hright⟩

/-- The nodes that are among the nodes of the park. -/
def Park.common : Query where
  root := ⟨"common"⟩
  program := { Park.nodes.program with
    operations := [⟨⟨"common"⟩, .binary (.intersection .node) ⟨"nodes"⟩ ⟨"nodes"⟩⟩] }

/-- One who reads the script of the common nodes of the park binds nodes, chosen from nodes. -/
theorem Query.subset_ofKind_of_kind_park :
    Park.common.Reachable ∧ Park.common.program.NamesValid ∧
    ∃ lines, Park.common.lines ⟨some .json, none, some .body, false⟩ = .ok lines ∧
      Park.map.reader.run lines (fun _ => ∅) ⟨"common"⟩ ⊆ Park.map.ofKind .node ∧
      Park.map.reader.run lines (fun _ => ∅) ⟨"nodes"⟩ ⊆ Park.map.ofKind .node := by
  have hcombine : Query.combineAs (.intersection .node) Park.nodes Park.nodes "common" =
      .ok Park.common := rfl
  have hreachable : Park.common.Reachable :=
    ⟨_, .combineAs Park.built_nodes Park.built_nodes hcombine⟩
  have hnames : Park.common.program.NamesValid := by decide
  obtain ⟨lines, hlines, hruns, hsound⟩ :=
    hreachable.subset_ofKind_of_kind hnames Park.map ⟨some .json, none, some .body, false⟩
  obtain ⟨hroot, hoperands⟩ := hsound _ _ (hruns Park.map.reader fun _ => ∅)
  exact ⟨hreachable, hnames, lines, hlines, hroot .node rfl,
    (hoperands _ List.mem_cons_self .node ⟨"nodes"⟩ ⟨"nodes"⟩ rfl).1⟩

end Overpass
