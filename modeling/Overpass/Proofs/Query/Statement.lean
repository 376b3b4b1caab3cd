import Overpass.Proofs.Region.Text
import Overpass.Proofs.SetName.Valid
import Overpass.Proofs.Tag.Reading
import Overpass.Query.Script

/-!
# What lines say

A line of a script makes a statement: it binds a set to a name, and says how that set is obtained.
This module reads the statement off the characters of a line. The reader shares nothing with the
printer: it knows the keywords, the marks and their order, and nothing of definitions. So what is
proved of the lines of a script by way of it is proved of the text that is printed.

The lines of a script have six shapes, some of which begin alike: an intersection and a selection
both go on with a set after their kind, and the operations in parentheses with their first operand.
What stands next tells them apart, since a valid name ends where the next mark begins. The texts of
a caller occur between quotes only, and a line ends with the mark after its name. So a line is read
back whatever follows it, and the ends of lines need not be looked for: the contents of tags may
hold line ends of their own.

## Main Definitions

* `Source`, `Statement`: what a line says
* `Statement.read`: the statement that a text starts with
* `Line.statement?`, `Line.output?`: the statement that a line makes, and the set that a line asks
  for
* `Line.binds?`, `Line.references`: the names that a line binds and refers to
* `Definition.statement`: the statement that the line of a definition is meant to make
* `Definition.IsReadable`: the definitions of valid names

## Main Statements

* `Definition.read_line`: the line of a definition makes its statement, whatever follows
* `Definition.statement?_line`: so it does on its own
* `Settings.isFrame_header`, `Settings.isFrame_footer`: header and footer make no statements
* `Settings.references_header`, `Settings.references_footer`: a header refers to nothing, and a
  footer to the root

## Design Notes

An area and a selection from a region without tags have the same line, and so they make the same
statement here.
-/

namespace Overpass

/-! ### Names, kinds and directions -/

namespace SetName

/-- The name that a text starts with, and what follows it. A name goes on as long as characters of
names follow, so it is the longest one that is read. -/
def read (cs : List Char) : SetName × List Char :=
  (⟨String.ofList (cs.takeWhile isPart)⟩, cs.dropWhile isPart)

/-- A valid name ends where a character follows that is no part of names, and there is no other way
to read it. -/
theorem read_text {name : SetName} (h : name.IsValid) {rest : List Char}
    (hrest : ∀ c ∈ rest.head?, isPart c = false) :
    read (name.text.toList ++ rest) = (name, rest) := by
  obtain ⟨htake, hdrop⟩ := takeWhile_append_of_head? h.isPart hrest
  rw [read, htake, hdrop, String.ofList_toList]

/-- A mark that is no part of names ends the valid name before it. -/
theorem read_text_cons {name : SetName} (h : name.IsValid) {c : Char} (hc : isPart c = false)
    (rest : List Char) : read (name.text.toList ++ c :: rest) = (name, c :: rest) := by
  refine read_text h fun d hd => ?_
  rw [List.head?_cons, Option.mem_some_iff] at hd
  exact hd ▸ hc

end SetName

namespace ElementKind

/-- The kind that a text starts with, and what follows it. The four keywords are told apart within
their first three characters. -/
def read : List Char → Option (ElementKind × List Char)
  | 'n' :: 'o' :: 'd' :: 'e' :: rest => some (node, rest)
  | 'w' :: 'a' :: 'y' :: rest => some (way, rest)
  | 'r' :: 'e' :: 'l' :: rest => some (relation, rest)
  | 'n' :: 'w' :: 'r' :: rest => some (any, rest)
  | _ => none

end ElementKind

namespace Direction

/-- The direction whose marker a text starts with, up to a semicolon. Some markers begin alike, so
the whole of it has to be looked at. -/
def read (cs : List Char) : Option (Direction × List Char) :=
  (ofMarker? (String.ofList (cs.takeWhile (· != ';')))).map fun direction =>
    (direction, cs.dropWhile (· != ';'))

/-- No marker holds a semicolon, so a marker is read back up to the one that ends it. -/
theorem read_marker (direction : Direction) (rest : List Char) :
    read (direction.marker.toList ++ ';' :: rest) = some (direction, ';' :: rest) := by
  cases direction <;> rfl

end Direction

/-! ### Operations in parentheses -/

/-- The operation whose first operand a text starts with, up to the parenthesis that closes it. -/
def Formula.readGroup (cs : List Char) : Option (Formula × List Char) :=
  let (left, cs) := SetName.read cs
  match cs with
  | ';' :: '.' :: cs =>
    match SetName.read cs with
    | (right, ';' :: ')' :: rest) => some (binary .union left right, rest)
    | _ => none
  | ';' :: ' ' :: '-' :: ' ' :: '.' :: cs =>
    match SetName.read cs with
    | (right, ';' :: ')' :: rest) => some (binary .difference left right, rest)
    | _ => none
  | ';' :: ' ' :: cs =>
    match Direction.read cs with
    | some (direction, ';' :: ')' :: rest) => some (recurse direction left, rest)
    | _ => none
  | _ => none

/-! ### Statements -/

/-- Where a line looks for elements: in a set, which is shown as a point and a name, or in a region,
which is shown between parentheses. -/
inductive Source where
  /-- In a set that is bound earlier. -/
  | set (name : SetName)
  /-- In the region that a text between parentheses shows. -/
  | region (text : String)

/-- The names that a source refers to. A region is shown in full and refers to nothing. -/
def Source.references : Source → List SetName
  | set name => [name]
  | region _ => []

/-- The source that a text starts with, and what follows it. Regions are kept as they stand, with
their parentheses, and not read any further here. -/
def Source.read : List Char → Option (Source × List Char)
  | '(' :: cs =>
    match cs.dropWhile (· != ')') with
    | ')' :: rest =>
      some (region (String.ofList ('(' :: (cs.takeWhile (· != ')') ++ [')']))), rest)
    | _ => none
  | '.' :: cs =>
    let (name, rest) := SetName.read cs
    some (set name, rest)
  | _ => none

/-- What a line says: which set it binds, and how this set is obtained. There are no statements for
headers and footers, which bind nothing. -/
inductive Statement where
  /-- A set holds the elements of a kind in a source that have some tags. -/
  | select (kind : ElementKind) (source : Source) (tags : TagFilter) (name : SetName)
  /-- A set is obtained from sets that are bound earlier. -/
  | operation (operation : Operation)

namespace Statement

/-- The name that a statement binds. -/
def name : Statement → SetName
  | select _ _ _ name => name
  | operation o => o.name

/-- The names that a statement refers to. -/
def references : Statement → List SetName
  | select _ source _ _ => source.references
  | operation o => o.formula.references

/-- What a text says after a kind and before the arrow, still without its name. A second set after
the first one makes an intersection of the two. -/
def readAfterKind (kind : ElementKind) (cs : List Char) :
    Option ((SetName → Statement) × List Char) :=
  match Source.read cs with
  | some (.set left, '.' :: cs) =>
    let (right, rest) := SetName.read cs
    some (fun name => operation ⟨name, .binary (.intersection kind) left right⟩, rest)
  | some (source, cs) =>
    let (tags, rest) := TagFilter.read cs
    some (select kind source tags, rest)
  | none => none

/-- What a text says before the arrow, still without its name. Operations in parentheses are told by
the two characters that they start with, all other statements start with a kind. -/
def readBody : List Char → Option ((SetName → Statement) × List Char)
  | '(' :: '.' :: cs =>
    (Formula.readGroup cs).map fun read => (fun name => operation ⟨name, read.1⟩, read.2)
  | cs => (ElementKind.read cs).bind fun read => readAfterKind read.1 read.2

/-- The arrow, the name after it, and the semicolon that ends a line. All statements end so. -/
def readBinding : List Char → Option (SetName × List Char)
  | '-' :: '>' :: '.' :: cs =>
    match SetName.read cs with
    | (name, ';' :: rest) => some (name, rest)
    | _ => none
  | _ => none

/-- The statement that a text starts with, and what follows it. Nothing but the characters of the
text is looked at. -/
def read (cs : List Char) : Option (Statement × List Char) := do
  let (statement, cs) ← readBody cs
  let (name, rest) ← readBinding cs
  return (statement name, rest)

/-- The characters of a line that bind its name. -/
def bindingText (name : SetName) : List Char := '-' :: '>' :: '.' :: (name.text.toList ++ [';'])

/-- What stands at the end of every line is read as the name that it binds, since the semicolon ends
the name. -/
theorem readBinding_bindingText {name : SetName} (h : name.IsValid) (rest : List Char) :
    readBinding (bindingText name ++ rest) = some (name, rest) := by
  simp [bindingText, readBinding, SetName.read_text_cons h (rfl : SetName.isPart ';' = false)]

/-- A statement is read if what stands before its arrow is. The six shapes of lines differ only in
that part. -/
theorem read_of_readBody {cs rest : List Char} {statement : SetName → Statement} {name : SetName}
    (hname : name.IsValid) (hbody : readBody cs = some (statement, bindingText name ++ rest)) :
    read cs = some (statement name, rest) := by
  rw [read, hbody]
  show (readBinding (bindingText name ++ rest)).bind _ = _
  rw [readBinding_bindingText hname]
  rfl

end Statement

/-! ### Lines -/

namespace Line

/-- The statement that a line makes, if it consists of one. A line that goes on after its statement
makes none. -/
def statement? (line : String) : Option Statement :=
  match Statement.read line.toList with
  | some (statement, []) => some statement
  | _ => none

/-- The set that a line asks the output for: the name after the point at its start, if the word for
output follows. -/
def output? (line : String) : Option SetName :=
  match line.toList with
  | '.' :: cs =>
    match SetName.read cs with
    | (name, ' ' :: 'o' :: 'u' :: 't' :: ' ' :: _) => some name
    | _ => none
  | _ => none

/-- The name that a line binds, which is the one after its arrow. -/
def binds? (line : String) : Option SetName := (statement? line).map Statement.name

/-- The names that a line refers to: as the source of a selection, as operands of an operation, or
as the set to output. -/
def references (line : String) : List SetName :=
  match statement? line with
  | some statement => statement.references
  | none => (output? line).toList

/-- Whether a line starts with the mark of settings or with that of an output. These are the headers
and footers of scripts. -/
def IsFrame (line : String) : Prop := line.toList.head? = some '[' ∨ line.toList.head? = some '.'

/-- What starts like settings or like an output makes no statement: no kind and no operation starts
with these marks. -/
theorem IsFrame.statement?_eq_none {line : String} (h : IsFrame line) : statement? line = none := by
  have hread : Statement.read line.toList = none := by
    rcases h with h | h <;> obtain ⟨cs, hcs⟩ := List.head?_eq_some_iff.mp h <;> rw [hcs] <;> rfl
  rw [statement?, hread]

end Line

/-! ### The lines of definitions -/

/-- The source that a scope is printed as: a set by its name, an inline region by its text. -/
def Scope.source : Scope → Source
  | named name => .set name
  | inline region => .region region.text

namespace Definition

open Statement

/-- The statement that the line of a definition is meant to make: it shows everything but the
coordinates and the encoding of a region, of which it shows the text. -/
def statement : Definition → Statement
  | area a => .select a.kind (.region a.region.text) .empty a.name
  | selection s => .select s.kind s.scope.source s.tags s.name
  | operation o => .operation o

/-- The statement of a definition binds its name, whatever its shape. -/
@[simp] theorem name_statement (d : Definition) : d.statement.name = d.name := by
  cases d <;> rfl

/-- The statement of a definition refers to the names that the definition refers to: a region is
shown by its text, which holds no names. -/
@[simp] theorem references_statement (d : Definition) : d.statement.references = d.references := by
  cases d with
  | area a => rfl
  | selection s =>
      obtain ⟨name, kind, scope, tags⟩ := s
      cases scope <;> rfl
  | operation o => rfl

section Bodies

variable {rest : List Char}

/-- A kind is read from its keyword, and what follows is read with that kind in mind. -/
theorem readBody_keyword (kind : ElementKind) (cs : List Char) :
    readBody (kind.keyword.toList ++ cs) = readAfterKind kind cs := by
  cases kind <;> rfl

/-- A region is read up to the parenthesis that closes it, the first one that does. No region holds
another parenthesis, since its numbers do not. -/
theorem read_region (region : Region) :
    Source.read (region.text.toList ++ rest) = some (.region region.text, rest) := by
  obtain ⟨body, htext, hbody⟩ := region.exists_text
  have hinside : ∀ c ∈ body, (c != ')') = true := by
    intro c hc
    rw [bne_iff_ne]
    rintro rfl
    exact hbody hc
  have hregion : String.ofList ('(' :: (body ++ [')'])) = region.text := by
    rw [← htext, String.ofList_toList]
  rw [htext, List.cons_append, List.append_assoc, Source.read,
    List.dropWhile_append_of_pos hinside, List.takeWhile_append_of_pos hinside]
  simp [hregion]

/-- After a source that elements are selected from, tags or the arrow follow. Neither starts with a
point, which would make the line an intersection. -/
theorem head?_render_append (tags : TagFilter) (rest : List Char) :
    (tags.render.toList ++ '-' :: rest).head? = some '[' ∨
      (tags.render.toList ++ '-' :: rest).head? = some '-' := by
  obtain ⟨tags⟩ := tags
  rw [TagFilter.toList_render]
  cases tags with
  | nil => exact Or.inr rfl
  | cons tag tags =>
      left
      obtain ⟨key, value⟩ := tag
      cases value <;> simp [Tag.render]

/-- The scope of a selection is read from its text, where tags or the arrow follow. -/
theorem read_scope (scope : Scope) (hvalid : ∀ n ∈ scope.references, n.IsValid) {cs : List Char}
    (hcs : cs.head? = some '[' ∨ cs.head? = some '-') :
    Source.read (scope.text.toList ++ cs) = some (scope.source, cs) := by
  cases scope with
  | inline region => exact read_region region
  | named n =>
      have hname : SetName.read (n.text.toList ++ cs) = (n, cs) := by
        refine SetName.read_text (hvalid n (List.mem_singleton.mpr rfl)) fun c hc => ?_
        rcases hcs with h | h <;> rw [h, Option.mem_some_iff] at hc <;> rw [← hc] <;> rfl
      have htext : (Scope.named n).text.toList ++ cs = '.' :: (n.text.toList ++ cs) := by
        simp [Scope.text]
      rw [htext, Source.read, hname]
      rfl

/-- The body of a selection is read back: its kind, where it looks, and its tags. What the tags hold
does not matter, as they are read up to their closing bracket. -/
theorem readBody_selection (kind : ElementKind) (scope : Scope)
    (hvalid : ∀ n ∈ scope.references, n.IsValid) (tags : TagFilter) :
    readBody (kind.keyword.toList ++ (scope.text.toList ++ (tags.render.toList ++ '-' :: rest))) =
      some (.select kind scope.source tags, '-' :: rest) := by
  have htags : TagFilter.read (tags.render.toList ++ '-' :: rest) = (tags, '-' :: rest) :=
    tags.read_render (by simp)
  have hhead := head?_render_append tags rest
  generalize tags.render.toList ++ '-' :: rest = cs at htags hhead ⊢
  rw [readBody_keyword, readAfterKind, read_scope scope hvalid hhead]
  split
  -- No second set follows, so this is not an intersection.
  · next heq =>
      obtain ⟨-, rfl⟩ := Prod.mk.inj (Option.some.inj heq)
      rcases hhead with h | h <;> cases h
  · next heq =>
      cases heq
      rw [htags]
  · next heq => cases heq

/-- The body of an operation is read back if its operands have valid names. After the first operand
the marks differ: a semicolon with a point, a minus or the marker of a direction. -/
theorem readBody_formula (formula : Formula) (hvalid : ∀ n ∈ formula.references, n.IsValid) :
    readBody (formula.text.toList ++ '-' :: rest) =
      some (fun name => .operation ⟨name, formula⟩, '-' :: rest) := by
  have hsemicolon : ∀ n : SetName, n.IsValid → ∀ tail,
      SetName.read (n.text.toList ++ ';' :: tail) = (n, ';' :: tail) :=
    fun n hn tail => SetName.read_text_cons hn rfl tail
  cases formula with
  | binary operator left right =>
      obtain ⟨hleft, hright⟩ : left.IsValid ∧ right.IsValid := by
        simpa [Formula.references] using hvalid
      cases operator with
      | union | difference =>
          simp [Formula.text, readBody, Formula.readGroup, hsemicolon left hleft,
            hsemicolon right hright]
      | intersection kind =>
          have htext : (Formula.binary (.intersection kind) left right).text.toList ++ '-' :: rest =
              kind.keyword.toList ++ '.' :: (left.text.toList ++ '.' ::
                (right.text.toList ++ '-' :: rest)) := by
            simp [Formula.text]
          rw [htext, readBody_keyword, readAfterKind, Source.read,
            SetName.read_text_cons hleft (rfl : SetName.isPart '.' = false)]
          simp [SetName.read_text_cons hright (rfl : SetName.isPart '-' = false)]
  | recurse direction source =>
      have hsource : source.IsValid := by simpa [Formula.references] using hvalid
      have hdirection := direction.read_marker (')' :: '-' :: rest)
      cases direction <;>
        simp [Formula.text, readBody, Formula.readGroup, hsemicolon source hsource,
          Direction.marker] at hdirection ⊢ <;>
        rw [hdirection] <;>
        exact ⟨_, rfl, rfl⟩

end Bodies

/-- The definitions whose lines are read back: all names in them are valid. Nothing is asked of
their tags and regions, whatever these hold. -/
structure IsReadable (d : Definition) : Prop where
  name : d.name.IsValid
  references : ∀ n ∈ d.references, n.IsValid

/-- **A line makes the statement of its definition**, whatever follows it. So a script can be read
without first dividing it into lines. -/
theorem read_line {d : Definition} (h : d.IsReadable) (rest : List Char) :
    Statement.read (d.line.toList ++ rest) = some (d.statement, rest) := by
  cases d with
  | area a =>
      have hline : (area a).line.toList ++ rest = a.kind.keyword.toList ++
          ((Scope.inline a.region).text.toList ++ (TagFilter.empty.render.toList ++
            (bindingText a.name ++ rest))) := by
        simp [line, Area.line, Scope.text, bindingText, TagFilter.render, TagFilter.empty]
      have hnone : ∀ n ∈ (Scope.inline a.region).references, n.IsValid :=
        fun n hn => absurd hn List.not_mem_nil
      rw [hline]
      exact read_of_readBody h.name
        (readBody_selection a.kind (.inline a.region) hnone .empty)
  | selection s =>
      have hline : (selection s).line.toList ++ rest = s.kind.keyword.toList ++
          (s.scope.text.toList ++ (s.tags.render.toList ++ (bindingText s.name ++ rest))) := by
        simp [line, Selection.line, bindingText]
      rw [hline]
      exact read_of_readBody h.name (readBody_selection s.kind s.scope h.references s.tags)
  | operation o =>
      have hline : (operation o).line.toList ++ rest =
          o.formula.text.toList ++ (bindingText o.name ++ rest) := by
        simp [line, Operation.line, bindingText]
      rw [hline]
      exact read_of_readBody h.name (readBody_formula o.formula h.references)

/-- The line of a definition consists of its statement: nothing is left of it when the statement was
read. -/
theorem statement?_line {d : Definition} (h : d.IsReadable) :
    Line.statement? d.line = some d.statement := by
  have hread := read_line h []
  rw [List.append_nil] at hread
  rw [Line.statement?, hread]

end Definition

/-! ### Header and footer -/

namespace Settings

variable {settings : Settings} {line : String} {root : SetName}

/-- A header starts with the bracket of its first setting. -/
theorem head?_header (h : line ∈ settings.header) : line.toList.head? = some '[' := by
  obtain ⟨format, timeout, verbosity, geometry⟩ := settings
  unfold header at h
  split_ifs at h with hempty
  · cases h
  · rw [List.mem_singleton.mp h]
    cases format <;> cases timeout <;> simp_all [formatText, timeoutText]

/-- A footer starts with the set that is asked for. -/
theorem exists_toList_footer (h : line ∈ settings.footer root) :
    ∃ cs, line.toList = '.' :: (root.text.toList ++ ' ' :: 'o' :: 'u' :: 't' :: ' ' :: cs) := by
  unfold footer at h
  split at h
  · next level _ =>
      refine ⟨level.keyword.toList ++
        ((if settings.geometry then " geom" else "").toList ++ [';']), ?_⟩
      rw [List.mem_singleton.mp h]
      simp
  · cases h

/-- A header is told by its bracket, which starts no statement. -/
theorem isFrame_header (h : line ∈ settings.header) : Line.IsFrame line := Or.inl (head?_header h)

/-- Neither does a footer, which starts with a point, while statements start with a kind or a
parenthesis. -/
theorem isFrame_footer (h : line ∈ settings.footer root) : Line.IsFrame line := by
  obtain ⟨cs, hcs⟩ := exists_toList_footer h
  exact Or.inr (by rw [hcs, List.head?_cons])

theorem references_header (h : line ∈ settings.header) : Line.references line = [] := by
  obtain ⟨cs, hcs⟩ := List.head?_eq_some_iff.mp (head?_header h)
  rw [Line.references, (isFrame_header h).statement?_eq_none, Line.output?, hcs]
  rfl

/-- A footer refers to the root alone, whose name ends at the blank before the word that follows. -/
theorem references_footer (hroot : root.IsValid) (h : line ∈ settings.footer root) :
    Line.references line = [root] := by
  obtain ⟨cs, hcs⟩ := exists_toList_footer h
  rw [Line.references, (isFrame_footer h).statement?_eq_none, Line.output?, hcs]
  simp only [SetName.read_text_cons hroot (rfl : SetName.isPart ' ' = false)]
  rfl

end Settings

end Overpass
