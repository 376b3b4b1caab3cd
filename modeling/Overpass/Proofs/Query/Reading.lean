import Overpass.Proofs.Query.Lines
import Overpass.Proofs.Query.Minimal

/-!
# Reading scripts back

A line is read back whatever follows it, so the lines of a script are read one after the other, and
the ends of lines need not be looked for. What is read determines the definitions but for what lines
do not show: the coordinates and the encoding of a region, of which there is the text alone. A line
without tags that selects from a region may come from an area or from a selection. Where no
selection has a region of its own, it comes from an area.

## Main Definitions

* `Statement.area?`, `Statement.selection?`, `Statement.operation?`: the sorts of statements, and
  what each of them shows
* `Program.ScopesNamed`: the programs without regions inside of selections

## Main Statements

* `Definition.map_statement_eq_of_lines`: lines that make up the same text make the same statements
* `Query.Reachable.eq_of_print_eq`: a script determines the query, up to the coordinates that it
  does not show
-/

namespace Overpass

/-! ### What statements show -/

namespace Statement

/-- What a selection from a region shows of an area: its name, its kind, and the text of its
region. -/
def area? : Statement → Option (SetName × ElementKind × String)
  | select kind (.region text) _ name => some (name, kind, text)
  | _ => none

/-- The selection from a set that a statement is. -/
def selection? : Statement → Option Selection
  | select kind (.set source) tags name => some ⟨name, kind, .named source, tags⟩
  | _ => none

/-- The operation that a statement is. -/
def operation? : Statement → Option Operation
  | operation o => some o
  | _ => none

end Statement

namespace Definition

/-- Definitions that are read back make the same statements if their lines, each after a line end,
make up the same text: the first line on both sides is read from the same characters, and so is what
follows. -/
theorem map_statement_eq_of_lines {ds es : List Definition} (hds : ∀ d ∈ ds, d.IsReadable)
    (hes : ∀ e ∈ es, e.IsReadable)
    (h : (ds.flatMap fun d => '\n' :: d.line.toList) = es.flatMap fun e => '\n' :: e.line.toList) :
    ds.map statement = es.map statement := by
  induction ds generalizing es with
  | nil =>
      cases es with
      | nil => rfl
      | cons e es => cases h
  | cons d ds ih =>
      cases es with
      | nil => cases h
      | cons e es =>
          obtain ⟨hd, hds⟩ := List.forall_mem_cons.mp hds
          obtain ⟨he, hes⟩ := List.forall_mem_cons.mp hes
          rw [List.flatMap_cons, List.flatMap_cons, List.cons_append, List.cons_append,
            List.cons_inj_right] at h
          have hread := read_line hd (ds.flatMap fun d => '\n' :: d.line.toList)
          rw [h, read_line he, Option.some_inj, Prod.mk.injEq] at hread
          obtain ⟨hstatement, hrest⟩ := hread
          rw [List.map_cons, List.map_cons, hstatement, ih hds hes hrest.symm]

end Definition

/-! ### Scripts -/

/-- Lines that are joined by line ends are lines after line ends, but for the first line end. -/
theorem cons_toList_intercalate {lines : List String} (h : lines ≠ []) :
    '\n' :: ("\n".intercalate lines).toList = lines.flatMap fun line => '\n' :: line.toList := by
  rw [String.toList_intercalate]
  induction lines with
  | nil => exact absurd rfl h
  | cons line rest ih =>
      by_cases hrest : rest = []
      · subst hrest
        simp
      · rw [List.map_cons, List.intercalate_cons_of_ne_nil (mt List.map_eq_nil_iff.mp hrest),
          List.flatMap_cons, ← ih hrest]
        simp

namespace Program

variable {p q : Program}

/-- Whether every selection of a program looks in a set, as those do that are not given their region
in their own line. -/
def ScopesNamed (p : Program) : Prop := ∀ s ∈ p.selections, ∃ n, s.scope = .named n

/-- What is found among the statements of all definitions is found sort by sort. -/
theorem filterMap_statement {β : Type} (p : Program) (read : Statement → Option β) :
    (p.definitions.map Definition.statement).filterMap read =
      p.areas.filterMap (fun a => read (Definition.area a).statement) ++
        p.selections.filterMap (fun s => read (Definition.selection s).statement) ++
          p.operations.filterMap (fun o => read (Definition.operation o).statement) := by
  simp only [definitions, List.map_append, List.map_map, List.filterMap_append, List.filterMap_map]
  rfl

/-- The areas, selections and operations are found among the statements of all definitions, each
sort in its order. A selection is not taken for an area, because it looks in a set. -/
theorem ScopesNamed.filterMap_statement (h : p.ScopesNamed) :
    (p.definitions.map Definition.statement).filterMap Statement.area? =
        p.areas.map (fun a => (a.name, a.kind, a.region.text)) ∧
      (p.definitions.map Definition.statement).filterMap Statement.selection? = p.selections ∧
      (p.definitions.map Definition.statement).filterMap Statement.operation? =
        p.operations := by
  have hselection : ∀ s ∈ p.selections,
      (Definition.selection s).statement.area? = none ∧
        (Definition.selection s).statement.selection? = some s := by
    rintro ⟨name, kind, scope, tags⟩ hs
    obtain ⟨n, rfl⟩ : ∃ n, scope = .named n := h _ hs
    exact ⟨rfl, rfl⟩
  have hnoAreas : p.selections.filterMap
      (fun s => (Definition.selection s).statement.area?) = [] :=
    List.filterMap_eq_nil_iff.mpr fun s hs => (hselection s hs).1
  have hselections : p.selections.filterMap
      (fun s => (Definition.selection s).statement.selection?) = p.selections := by
    rw [List.filterMap_congr fun s hs => (hselection s hs).2, List.filterMap_some]
  refine ⟨?_, ?_, ?_⟩
  · rw [Program.filterMap_statement, hnoAreas]
    simp [Definition.statement, Statement.area?]
  · rw [Program.filterMap_statement, hselections]
    simp [Definition.statement, Statement.selection?]
  · rw [Program.filterMap_statement]
    simp [Definition.statement, Statement.operation?]

end Program

namespace Query

/-- The root is the last of the selections and operations. So it can be read off a script without a
footer. -/
theorem Minimal.getLast?_eq_root {q : Query} (h : q.Minimal) :
    (q.program.selections.map Selection.name ++ q.program.operations.map Operation.name).getLast? =
      some q.root := by
  rcases h.root_last with hlast | ⟨hnil, hlast⟩
  · rw [List.getLast?_append]
    exact Option.or_eq_some_iff.mpr (Or.inl hlast)
  · rw [hnil, List.map_nil, List.append_nil]
    exact hlast

/-- A bare script consists of the lines of the definitions and nothing else, neither header nor
footer. -/
theorem print_bare_of_formed {e : Expression} {q : Query} (h : Formed e q) :
    q.print .bare = .ok ("\n".intercalate (q.program.definitions.map Definition.line)) := by
  rw [print, lines_eq_of_formed h]
  show Except.ok ("\n".intercalate ([] ++ q.program.definitions.map Definition.line ++ [])) = _
  rw [List.nil_append, List.append_nil]

/-- The lines of a built query, each after a line end, are its bare script after a line end. -/
theorem cons_toList_print {e : Expression} {q : Query} (h : Formed e q) {text : String}
    (htext : q.print .bare = .ok text) :
    '\n' :: text.toList = q.program.definitions.flatMap fun d => '\n' :: d.line.toList := by
  rw [print_bare_of_formed h, Except.ok.injEq] at htext
  have hlines : q.program.definitions.map Definition.line ≠ [] := by
    intro hnil
    have hroot := h.root_mem_names
    rw [Program.names, List.map_eq_nil_iff.mp hnil] at hroot
    cases hroot
  rw [← htext, cons_toList_intercalate hlines, List.flatMap_map]

/-- **A script determines its query.** Two queries that a caller can obtain, of valid names and
without regions inside of selections, have the same root and show the same areas, selections and
operations in the same order if they are printed alike, whatever the keys and values of their tags
are. The names that callers come by are all valid, because they are either checked or generated
(`Call.namesValid`); only `Built` leaves the names of drafts and of given regions open. -/
theorem Reachable.eq_of_print_eq {q r : Query} (hq : q.Reachable) (hr : r.Reachable)
    (hqnames : q.program.NamesValid) (hrnames : r.program.NamesValid)
    (hqscopes : q.program.ScopesNamed) (hrscopes : r.program.ScopesNamed)
    (h : q.print .bare = r.print .bare) :
    q.root = r.root ∧
      q.program.areas.map (fun a => (a.name, a.kind, a.region.text)) =
        r.program.areas.map (fun a => (a.name, a.kind, a.region.text)) ∧
      q.program.selections = r.program.selections ∧
      q.program.operations = r.program.operations := by
  obtain ⟨e, he⟩ := hq.exists_formed
  obtain ⟨f, hf⟩ := hr.exists_formed
  have hlines := (cons_toList_print he (print_bare_of_formed he)).symm.trans
    (cons_toList_print hf (h.symm.trans (print_bare_of_formed he)))
  have hstatements := Definition.map_statement_eq_of_lines
    (fun d hd => he.wellFormed.isReadable hqnames hd)
    (fun d hd => hf.wellFormed.isReadable hrnames hd) hlines
  obtain ⟨hqareas, hqselections, hqoperations⟩ := hqscopes.filterMap_statement
  obtain ⟨hrareas, hrselections, hroperations⟩ := hrscopes.filterMap_statement
  rw [hstatements] at hqareas hqselections hqoperations
  have hselections := hqselections.symm.trans hrselections
  have hoperations := hqoperations.symm.trans hroperations
  refine ⟨?_, hqareas.symm.trans hrareas, hselections, hoperations⟩
  have hroot := he.minimal.getLast?_eq_root
  rw [hselections, hoperations, hf.minimal.getLast?_eq_root] at hroot
  exact (Option.some_inj.mp hroot).symm

end Query

/-- The nodes of a park whose region holds an outline besides its box, which is not printed. -/
def Park.outlined : Query where
  root := ⟨"nodes"⟩
  program := { Park.nodes.program with
    areas := [⟨.node, { Park.region with outline := [⟨.zero false, .zero false⟩] }⟩] }

/-- Queries that differ in what is not printed only have the same script. -/
theorem Query.eq_of_print_eq_outlined :
    Park.outlined ≠ Park.nodes ∧ Park.outlined.root = Park.nodes.root ∧
      Park.outlined.program.selections = Park.nodes.program.selections := by
  have hbuild : (Draft.build ⟨.node, .ok .empty, some (.ok ⟨"nodes"⟩),
      some (.region { Park.region with outline := [⟨.zero false, .zero false⟩] })⟩
      .natural).runOn .initial = (.ok Park.outlined, .initial) := rfl
  have hscopes : Park.nodes.program.ScopesNamed :=
    List.forall_mem_singleton.mpr ⟨⟨"park"⟩, rfl⟩
  obtain ⟨hroot, -, hselections, -⟩ := Query.Reachable.eq_of_print_eq
    ⟨_, .inRegion rfl rfl rfl hbuild⟩ ⟨_, Park.built_nodes⟩ (by decide) (by decide) hscopes hscopes
    (rfl : Park.outlined.print .bare = Park.nodes.print .bare)
  exact ⟨by decide, hroot, hselections⟩

end Overpass
