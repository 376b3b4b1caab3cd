import Mathlib.Data.Set.Basic
import Overpass.Proofs.Query.Lines
import Overpass.Proofs.Region.Shown

/-!
# What programs, scripts and expressions mean

An interpretation says what the forms of the query language stand for: which elements are of a kind,
which lie in a printed region, which have some tags, and where a recursion leads. Under an
interpretation a program is executed definition by definition, each binding a set of elements to its
name, while an expression is evaluated by recursion over what the caller built.

What is executed in the end is not a program but its script, by somebody else. An interpreter is
whatever changes the bound sets line by line, from the characters of a line alone, and acts on the
forms of the language as the interpretation says. That it does so is all that is known of it. Since
the lines of a query make the statements of its definitions, every interpreter comes to the sets
that executing the definitions comes to.

## Main Definitions

* `Interpretation`: the meaning of the forms of the query language
* `Interpretation.define`: the set that a definition binds, given the sets bound so far
* `Interpretation.execute`: the sets that are bound after definitions have been executed in order
* `Interpretation.denote`: the set that an expression stands for
* `Interpretation.value?`: the set that a statement binds, as far as it can be read
* `Interpreter`, `Interpreter.run`: what executes lines
* `Interpretation.reader`: an interpreter for any interpretation

## Main Statements

* `Interpretation.execute_eq_define`: after a chain of definitions every definition is satisfied
* `Interpretation.value?_statement`: the statement of a definition binds what the definition does
* `Interpreter.run_lines`: running a script is executing its program

## Design Notes

Of a region an interpretation sees the numbers that are printed, and sees them as numbers: it may
not depend on the sign of a zero, on the bit pattern of what is no number, on the form that is not
printed, or on the name of the region. No tags ask for nothing, since a selection without tags from
a region is printed like an area.
-/

namespace Overpass

/-- The meaning of the forms of the query language, as sets of elements. Nothing is fixed about
elements, regions and tags but what the printed forms leave open to be fixed. -/
structure Interpretation (ε : Type*) where
  /-- The elements of a kind. -/
  ofKind : ElementKind → Set ε
  /-- Elements of a kind are elements of any kind. -/
  ofKind_subset_any : ∀ kind, ofKind kind ⊆ ofKind .any
  /-- The elements in a printed region. -/
  inExtent : Extent → Set ε
  /-- Only what is shown of the numbers counts. -/
  inExtent_shown : ∀ x, inExtent x.shown = inExtent x
  /-- Only the values of the printed numbers count. -/
  inExtent_congr : ∀ x y, x.Equal y → inExtent x = inExtent y
  /-- The elements that have some tags. -/
  having : TagFilter → Set ε
  /-- The tags of an empty filter are had by every element. -/
  having_empty : having .empty = Set.univ
  /-- The elements that a recursion leads to. -/
  follow : Direction → Set ε → Set ε

namespace Interpretation

variable {ε : Type*} (I : Interpretation ε)

/-- The elements in a region, which are those in the form that is printed of it. -/
def inRegion (region : Region) : Set ε := I.inExtent region.extent

/-- Equal regions hold the same elements: they show the same numbers, if not always the same
text. -/
theorem inRegion_congr {a b : Region} (h : a.Equal b) : I.inRegion a = I.inRegion b :=
  I.inExtent_congr _ _ h.extent

/-- The combination of two sets, by the operations on sets. An intersection selects elements of its
kind besides. -/
def binary : BinaryOperator → Set ε → Set ε → Set ε
  | .union, x, y => x ∪ y
  | .difference, x, y => x \ y
  | .intersection kind, x, y => I.ofKind kind ∩ x ∩ y

/-- The set that a formula gives, given the sets that names are bound to. -/
def formula (ρ : SetName → Set ε) : Formula → Set ε
  | .binary operator left right => I.binary operator (ρ left) (ρ right)
  | .recurse direction source => I.follow direction (ρ source)

/-- The elements in a scope, given the sets that names are bound to. -/
def inScope (ρ : SetName → Set ε) : Scope → Set ε
  | .named name => ρ name
  | .inline region => I.inRegion region

/-- The set that a definition binds, given the sets that names are bound to. An area is taken with
the kind that it has in the program, which may be wider than that of a selection in it. -/
def define (ρ : SetName → Set ε) : Definition → Set ε
  | .area a => I.ofKind a.kind ∩ I.inRegion a.region
  | .selection s => I.ofKind s.kind ∩ I.inScope ρ s.scope ∩ I.having s.tags
  | .operation o => I.formula ρ o.formula

/-- The sets that names are bound to after definitions have been executed in order, starting from
whatever was bound before. -/
def execute (ds : List Definition) (ρ : SetName → Set ε) : SetName → Set ε :=
  ds.foldl (fun ρ d => Function.update ρ d.name (I.define ρ d)) ρ

/-- The set that an expression stands for, by recursion over what the caller built. No names occur
in it, nor any areas. -/
def denote : Expression → Set ε
  | .inRegion kind tags region => I.ofKind kind ∩ I.inRegion region ∩ I.having tags
  | .within kind tags source => I.ofKind kind ∩ denote source ∩ I.having tags
  | .binary operator left right => I.binary operator (denote left) (denote right)
  | .recurse direction source => I.follow direction (denote source)

/-! ### Execution -/

variable {I} {ρ ρ' : SetName → Set ε} {ds : List Definition} {d : Definition} {n : SetName}

/-- What a definition binds depends on the sets that it refers to, and on nothing else. So executing
definitions of other names before or after it makes no difference. -/
theorem define_congr (h : ∀ n ∈ d.references, ρ n = ρ' n) : I.define ρ d = I.define ρ' d := by
  cases d with
  | area a => rfl
  | selection s =>
      obtain ⟨name, kind, scope, tags⟩ := s
      cases scope with
      | named n =>
          simp only [define, inScope]
          rw [h n (List.mem_singleton.mpr rfl)]
      | inline region => rfl
  | operation o =>
      obtain ⟨name, formula⟩ := o
      cases formula with
      | binary operator left right =>
          simp only [define, formula]
          rw [h left (List.mem_pair.mpr (Or.inl rfl)), h right (List.mem_pair.mpr (Or.inr rfl))]
      | recurse direction source =>
          simp only [define, formula]
          rw [h source (List.mem_singleton.mpr rfl)]

theorem execute_cons (d : Definition) (ds : List Definition) (ρ : SetName → Set ε) :
    I.execute (d :: ds) ρ = I.execute ds (Function.update ρ d.name (I.define ρ d)) := rfl

/-- Executing definitions changes no set but those that they bind. So a set stays what it is once
its definition was executed. -/
theorem execute_of_notMem (h : n ∉ ds.map Definition.name) (ρ : SetName → Set ε) :
    I.execute ds ρ n = ρ n := by
  induction ds generalizing ρ with
  | nil => rfl
  | cons d rest ih =>
      rw [List.map_cons, List.mem_cons, not_or] at h
      rw [execute_cons, ih h.2, Function.update_of_ne h.1]

/-- **A chain of definitions is satisfied by its execution.** Each definition is executed when the
sets that it refers to are bound for good: their names are known or bound before, and no later
definition binds them again. -/
theorem execute_eq_define {known : List SetName}
    (hchain : Chained Definition.name Definition.references known ds)
    (hnodup : (ds.map Definition.name).Nodup) (hknown : ∀ n ∈ known, n ∉ ds.map Definition.name)
    (hd : d ∈ ds) (ρ : SetName → Set ε) :
    I.execute ds ρ d.name = I.define (I.execute ds ρ) d := by
  induction ds generalizing known ρ with
  | nil => cases hd
  | cons e rest ih =>
      obtain ⟨hreferences, hrest⟩ := hchain
      rw [List.map_cons, List.nodup_cons] at hnodup
      rcases List.mem_cons.mp hd with rfl | hd
      · have hsame : ∀ n ∈ d.references, ρ n = I.execute (d :: rest) ρ n := fun n hn =>
          (execute_of_notMem (hknown n (hreferences n hn)) ρ).symm
        calc I.execute (d :: rest) ρ d.name
            = Function.update ρ d.name (I.define ρ d) d.name := by
              rw [execute_cons, execute_of_notMem hnodup.1]
          _ = I.define ρ d := Function.update_self _ _ _
          _ = I.define (I.execute (d :: rest) ρ) d := define_congr hsame
      · rw [execute_cons]
        refine ih hrest hnodup.2 ?_ hd _
        intro n hn
        rcases List.mem_cons.mp hn with rfl | hn
        · exact hnodup.1
        · exact fun hmem => hknown n hn (List.mem_cons_of_mem _ hmem)

/-! ### Statements -/

variable (I) in
/-- The elements in a source, if it is a set or the text of a region that can be read. -/
def inSource? (ρ : SetName → Set ε) : Source → Option (Set ε)
  | .set name => some (ρ name)
  | .region text => (Extent.read text).map I.inExtent

variable (I) in
/-- The set that a statement binds, given the sets that names are bound to, if its region can be
read. -/
def value? (ρ : SetName → Set ε) : Statement → Option (Set ε)
  | .select kind source tags _ =>
    (I.inSource? ρ source).map fun set => I.ofKind kind ∩ set ∩ I.having tags
  | .operation o => some (I.formula ρ o.formula)

/-- A region is read as the numbers that are shown, which count as the ones that were printed. This
is where an interpretation has to be blind to what is not shown. -/
theorem inSource?_source (ρ : SetName → Set ε) (scope : Scope) :
    I.inSource? ρ scope.source = some (I.inScope ρ scope) := by
  cases scope with
  | named n => rfl
  | inline region =>
      rw [Scope.source, inSource?, Extent.read_text, Option.map_some, I.inExtent_shown]
      rfl

/-- **The statement of a definition binds what the definition does.** An area is read as a selection
without tags, which every element has. -/
theorem value?_statement (ρ : SetName → Set ε) (d : Definition) :
    I.value? ρ d.statement = some (I.define ρ d) := by
  cases d with
  | area a =>
      have hsource := inSource?_source (I := I) ρ (.inline a.region)
      rw [Scope.source] at hsource
      rw [Definition.statement, value?, hsource, Option.map_some, I.having_empty, Set.inter_univ]
      rfl
  | selection s =>
      rw [Definition.statement, value?, inSource?_source, Option.map_some]
      rfl
  | operation o => rfl

end Interpretation

/-! ### Interpreters -/

/-- What executes lines. Nothing is known of it but that it acts on the forms of the query language
as an interpretation says. -/
structure Interpreter {ε : Type*} (I : Interpretation ε) where
  /-- What a line makes of the sets that names are bound to. -/
  step : String → (SetName → Set ε) → SetName → Set ε
  /-- A line that makes a statement binds the set of the statement to its name. -/
  step_statement : ∀ line statement set ρ, Line.statement? line = some statement →
    I.value? ρ statement = some set → step line ρ = Function.update ρ statement.name set
  /-- Settings and outputs bind nothing. -/
  step_frame : ∀ line ρ, Line.IsFrame line → step line ρ = ρ

namespace Interpreter

variable {ε : Type*} {I : Interpretation ε} (R : Interpreter I)

/-- The sets that names are bound to after lines have been executed in order, whatever the lines
are. -/
def run (lines : List String) (ρ : SetName → Set ε) : SetName → Set ε :=
  lines.foldl (fun ρ line => R.step line ρ) ρ

theorem run_append (lines others : List String) (ρ : SetName → Set ε) :
    R.run (lines ++ others) ρ = R.run others (R.run lines ρ) :=
  List.foldl_append

/-- Header and footer leave all sets as they are, so what is bound depends on the lines between them
only. -/
theorem run_frame {lines : List String} (h : ∀ line ∈ lines, Line.IsFrame line)
    (ρ : SetName → Set ε) : R.run lines ρ = ρ := by
  induction lines with
  | nil => rfl
  | cons line lines ih =>
      obtain ⟨hline, hlines⟩ := List.forall_mem_cons.mp h
      rw [run, List.foldl_cons, R.step_frame line ρ hline]
      exact ih hlines

/-- The line of a definition binds what the definition does, because the line makes the statement of
the definition. -/
theorem step_line {d : Definition} (h : d.IsReadable) (ρ : SetName → Set ε) :
    R.step d.line ρ = Function.update ρ d.name (I.define ρ d) := by
  rw [R.step_statement _ _ _ _ (Definition.statement?_line h) (Interpretation.value?_statement ρ d),
    Definition.name_statement]

/-- Running the lines of definitions is executing the definitions, one after the other. -/
theorem run_map_line {ds : List Definition} (h : ∀ d ∈ ds, d.IsReadable) (ρ : SetName → Set ε) :
    R.run (ds.map Definition.line) ρ = I.execute ds ρ := by
  induction ds generalizing ρ with
  | nil => rfl
  | cons d ds ih =>
      obtain ⟨hd, hds⟩ := List.forall_mem_cons.mp h
      rw [List.map_cons, run, List.foldl_cons, R.step_line hd]
      exact ih hds _

/-- **Running a script is executing its program**: of every query that is printed, with whatever
header and footer, if its program is well-formed, has valid names and binds the root. -/
theorem run_lines {q : Query} (hq : q.program.WellFormed) (hroot : q.root ∈ q.program.names)
    (hnames : q.program.NamesValid) (settings : Settings) :
    ∃ lines, q.lines settings = .ok lines ∧
      ∀ ρ, R.run lines ρ = I.execute q.program.definitions ρ := by
  refine ⟨_, Query.lines_eq_of_wellFormed hq hroot settings, fun ρ => ?_⟩
  rw [run_append, run_append, R.run_frame fun _ => Settings.isFrame_header,
    R.run_map_line fun d hd => hq.isReadable hnames hd,
    R.run_frame fun _ => Settings.isFrame_footer]

end Interpreter

/-- The interpreter that reads each line and binds the set that is read, if there is one. So there
is an interpreter for every interpretation: what is assumed of interpreters is consistent. -/
def Interpretation.reader {ε : Type*} (I : Interpretation ε) : Interpreter I where
  step line ρ :=
    match Line.statement? line with
    | some statement => (I.value? ρ statement).elim ρ (Function.update ρ statement.name)
    | none => ρ
  step_statement line statement set ρ hline hset := by
    simp only [hline, hset, Option.elim_some]
  step_frame line ρ hline := by
    simp only [hline.statement?_eq_none]

end Overpass
