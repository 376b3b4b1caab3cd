import Mathlib.Algebra.Order.BigOperators.Group.List
import Overpass.Proofs.Query.Lines
import Overpass.Proofs.Region.Text
import Overpass.Proofs.SetName.Valid
import Overpass.Proofs.Tag.Reading

/-!
# Line ends in scripts

The lines of a script are joined by line ends, and a reader who splits the text there gets the lines
back as long as none of them holds a line end of its own. Keywords, names, numbers and the marks
between them hold none. A key or value of a tag is put between its quotes as it is, but for quotes
and backslashes, so a line end in it stands in the script and breaks the line of its selection in
two. That is the only way in which a script can come to have more lines than it should.

## Main Definitions

* `Text.lines`, `Text.lineEnds`: the lines of a text, and how many line ends it holds
* `Tag.lineEnds`, `Query.lineEnds`: how many line ends the tags of a query hold

## Main Statements

* `Text.lines_intercalate_eq_iff`: when the lines of joined texts are these texts
* `Definition.lineEnds_line`: the line ends of a line are those of its tags
* `Query.Reachable.one_line_each_iff`: when a script has one line for each entry
-/

namespace Overpass

/-! ### Lines of texts -/

namespace Text

/-- The lines of a text: what stands between its line ends. A text that ends in a line end has an
empty line after it. -/
def lines (text : String) : List String := (text.toList.splitOn '\n').map String.ofList

/-- How many line ends a text holds. -/
def lineEnds (text : String) : ℕ := text.toList.count '\n'

/-- Line ends add up. With this, the line ends of a line are counted along the pieces that it is put
together from, which is what the lemmas below do. -/
@[simp]
theorem lineEnds_append (a b : String) : lineEnds (a ++ b) = lineEnds a + lineEnds b := by
  rw [lineEnds, String.toList_append, List.count_append, lineEnds, lineEnds]

theorem lineEnds_ofList (cs : List Char) : lineEnds (String.ofList cs) = cs.count '\n' := by
  rw [lineEnds, String.toList_ofList]

theorem lineEnds_eq_zero_iff {text : String} : lineEnds text = 0 ↔ '\n' ∉ text.toList :=
  List.count_eq_zero

/-- Splitting a text at a character gives one part more than the text has of it. -/
theorem length_splitOn (c : Char) (cs : List Char) :
    (cs.splitOn c).length = cs.count c + 1 := by
  induction cs with
  | nil => rw [List.splitOn_nil, List.count_nil, List.length_singleton]
  | cons d cs ih =>
      rw [List.splitOn_cons_eq_if_modifyHead, List.count_cons]
      split
      · rw [List.length_cons, ih]
      · rw [List.length_modifyHead, ih, Nat.add_zero]

/-- A text has one line more than line ends. So a text has as many lines as pieces that it was
joined from exactly if the pieces hold no line ends. -/
theorem length_lines (text : String) : (lines text).length = lineEnds text + 1 := by
  rw [lines, List.length_map, length_splitOn, lineEnds]

theorem lines_eq_singleton {text : String} (h : lineEnds text = 0) : lines text = [text] := by
  rw [lines, List.splitOn_eq_singleton (lineEnds_eq_zero_iff.mp h), List.map_singleton,
    String.ofList_toList]

/-- A text can be split on both sides of a separator apart: no part reaches over a separator. -/
theorem splitOn_append_cons (c : Char) (before after : List Char) :
    (before ++ c :: after).splitOn c = before.splitOn c ++ after.splitOn c :=
  List.splitOnP_append_cons before after (beq_self_eq_true c)

/-- Texts that are joined by line ends have the lines of the texts, one after the other. At least
one text is needed, since no texts at all are joined to the empty one, which has a line. -/
theorem lines_intercalate {parts : List String} (h : parts ≠ []) :
    lines ("\n".intercalate parts) = parts.flatMap lines := by
  rw [lines, String.toList_intercalate]
  induction parts with
  | nil => exact absurd rfl h
  | cons part rest ih =>
      by_cases hrest : rest = []
      · subst hrest
        simp [lines]
      · have hjoined : "\n".toList.intercalate ((part :: rest).map String.toList) =
            part.toList ++ '\n' :: "\n".toList.intercalate (rest.map String.toList) := by
          rw [List.map_cons, List.intercalate_cons_of_ne_nil (mt List.map_eq_nil_iff.mp hrest),
            List.append_assoc]
          rfl
        rw [hjoined, splitOn_append_cons, List.map_append, ih hrest, List.flatMap_cons, lines]

/-- Joined texts have as many lines as there are texts, and one more for each line end in them. -/
theorem length_flatMap_lines (parts : List String) :
    (parts.flatMap lines).length = parts.length + (parts.map lineEnds).sum := by
  induction parts with
  | nil => rfl
  | cons part rest ih =>
      rw [List.flatMap_cons, List.length_append, length_lines, ih, List.length_cons,
        List.map_cons, List.sum_cons]
      omega

/-- **The lines of joined texts are these texts if and only if none of them holds a line end.** -/
theorem flatMap_lines_eq_iff {parts : List String} :
    parts.flatMap lines = parts ↔ (parts.map lineEnds).sum = 0 := by
  constructor
  · intro h
    have hlength := length_flatMap_lines parts
    rw [h] at hlength
    omega
  · intro h
    have hnone : ∀ part ∈ parts, lines part = [part] := fun part hpart =>
      lines_eq_singleton (List.sum_eq_zero_iff.mp h _ (List.mem_map_of_mem hpart))
    rw [List.flatMap_congr hnone, List.flatMap_singleton']

end Text

open Text

/-! ### What holds no line end -/

/-- A valid name is within one line. So are keywords, markers and regions, which leaves tags as the
only source of line ends in a script. -/
theorem SetName.IsValid.lineEnds {name : SetName} (h : name.IsValid) : lineEnds name.text = 0 := by
  rw [lineEnds_eq_zero_iff]
  intro hmem
  cases h.isPart _ hmem

theorem ElementKind.lineEnds_keyword (kind : ElementKind) : lineEnds kind.keyword = 0 := by
  cases kind <;> rfl

theorem Direction.lineEnds_marker (direction : Direction) : lineEnds direction.marker = 0 := by
  cases direction <;> rfl

theorem Region.lineEnds_text (region : Region) : lineEnds region.text = 0 := by
  rw [lineEnds_eq_zero_iff, text]
  cases region.encoding with
  | bbox =>
      have hnumbers : '\n' ∉ region.bbox.numbers := Bbox.notMem_numbers rfl (by decide)
      simp [render, Bbox.toList_render, hnumbers]
  | poly =>
      have hnumbers : '\n' ∉ Outline.numbers region.outline :=
        Outline.notMem_numbers rfl (by decide)
      simp [render, Outline.toList_render, hnumbers]

/-! ### Tags -/

/-- How many line ends the key and the value of a tag hold. -/
def Tag.lineEnds (tag : Tag) : ℕ := Text.lineEnds tag.key + tag.value.elim 0 Text.lineEnds

/-- How many line ends the tags of a filter hold, in all of their keys and values. -/
def TagFilter.lineEnds (filter : TagFilter) : ℕ := (filter.tags.map Tag.lineEnds).sum

/-- A line end stays what it is between quotes: escaping puts backslashes in front of quotes and of
backslashes, and leaves all else alone. -/
theorem Tag.count_escape (cs : List Char) : (escape cs).count '\n' = cs.count '\n' := by
  induction cs with
  | nil => rfl
  | cons c cs ih =>
      rw [escape_cons, List.count_append, ih, List.count_cons, Nat.add_comm]
      by_cases hescaped : c = '\\' ∨ c = '"'
      · rw [if_pos hescaped]
        rcases hescaped with rfl | rfl <;> rfl
      · rw [if_neg hescaped, List.count_singleton]

theorem Tag.lineEnds_quote (text : String) : Text.lineEnds (quote text) = Text.lineEnds text := by
  rw [quote, lineEnds_append, lineEnds_append, lineEnds_ofList (escape text.toList), count_escape]
  exact Nat.zero_add _

theorem Tag.lineEnds_render (tag : Tag) : Text.lineEnds tag.render = tag.lineEnds := by
  obtain ⟨key, value⟩ := tag
  cases value with
  | none =>
      rw [render, lineEnds_append, lineEnds_append, lineEnds_quote]
      exact Nat.zero_add _
  | some value =>
      rw [render, lineEnds_append, lineEnds_append, lineEnds_append, lineEnds_append,
        lineEnds_quote, lineEnds_quote]
      exact congrArg (· + Text.lineEnds value) (Nat.zero_add _)

/-- The line ends of a filter are those of its keys and values, counted over all its tags. -/
theorem TagFilter.lineEnds_render (filter : TagFilter) :
    Text.lineEnds filter.render = filter.lineEnds := by
  rw [Text.lineEnds, toList_render, List.count_flatMap]
  exact congrArg List.sum (List.map_congr_left fun tag _ => tag.lineEnds_render)

/-- The tags of a filter hold no line end if and only if neither a key nor a value does. -/
theorem TagFilter.lineEnds_eq_zero_iff {filter : TagFilter} :
    filter.lineEnds = 0 ↔ ∀ tag ∈ filter.tags, '\n' ∉ tag.key.toList ∧
      ∀ value, tag.value = some value → '\n' ∉ value.toList := by
  rw [lineEnds, List.sum_eq_zero_iff, List.forall_mem_map]
  refine forall₂_congr fun tag _ => ?_
  rw [Tag.lineEnds, Nat.add_eq_zero_iff, Text.lineEnds_eq_zero_iff]
  refine and_congr_right fun _ => ?_
  cases tag.value with
  | none => simp
  | some value => simp [Text.lineEnds_eq_zero_iff]

/-! ### Lines of scripts -/

namespace Definition

/-- How many line ends the tags of a definition hold. -/
def lineEnds : Definition → ℕ
  | selection s => s.tags.lineEnds
  | area _ | operation _ => 0

/-- An operation shows its operands, whose names are valid, and marks. -/
theorem lineEnds_formula {formula : Formula} (h : ∀ n ∈ formula.references, n.IsValid) :
    Text.lineEnds formula.text = 0 := by
  cases formula with
  | binary operator left right =>
      obtain ⟨hleft, hright⟩ : Text.lineEnds left.text = 0 ∧ Text.lineEnds right.text = 0 :=
        ⟨(h left (by simp [Formula.references])).lineEnds,
          (h right (by simp [Formula.references])).lineEnds⟩
      cases operator with
      | union | difference =>
          simp only [Formula.text, lineEnds_append, hleft, hright]
          rfl
      | intersection kind =>
          simp only [Formula.text, lineEnds_append, kind.lineEnds_keyword, hleft, hright]
          rfl
  | recurse direction source =>
      have hsource := (h source (by simp [Formula.references])).lineEnds
      simp only [Formula.text, lineEnds_append, direction.lineEnds_marker, hsource]
      rfl

/-- A scope is the name of a set or a region, and neither holds a line end. -/
theorem lineEnds_scope {scope : Scope} (h : ∀ n ∈ scope.references, n.IsValid) :
    Text.lineEnds scope.text = 0 := by
  cases scope with
  | named n =>
      have hn := (h n (by simp [Scope.references])).lineEnds
      simp only [Scope.text, lineEnds_append, hn]
      rfl
  | inline region => exact region.lineEnds_text

/-- **The line ends of a line are those of its tags.** Areas and operations have none, and so they
are always printed within a line. -/
theorem lineEnds_line {d : Definition} (hname : d.name.IsValid)
    (hreferences : ∀ n ∈ d.references, n.IsValid) : Text.lineEnds d.line = d.lineEnds := by
  have harrow : Text.lineEnds "->." = 0 := rfl
  have hend : Text.lineEnds ";" = 0 := rfl
  have hname := hname.lineEnds
  cases d with
  | area a =>
      simp [line, Area.line, lineEnds, a.kind.lineEnds_keyword, a.region.lineEnds_text, harrow,
        hend, show Text.lineEnds a.name.text = 0 from hname]
  | selection s =>
      simp [line, Selection.line, lineEnds, s.kind.lineEnds_keyword, lineEnds_scope hreferences,
        s.tags.lineEnds_render, harrow, hend, show Text.lineEnds s.name.text = 0 from hname]
  | operation o =>
      simp [line, Operation.line, lineEnds, lineEnds_formula hreferences, harrow, hend,
        show Text.lineEnds o.name.text = 0 from hname]

end Definition

namespace Settings

/-- A header holds no line end: formats and timeouts are keywords and numbers. -/
theorem lineEnds_header {settings : Settings} {line : String} (h : line ∈ settings.header) :
    Text.lineEnds line = 0 := by
  have hformat : Text.lineEnds settings.formatText = 0 := by
    unfold formatText
    cases settings.format with
    | none => rfl
    | some format => cases format <;> rfl
  have htimeout : Text.lineEnds settings.timeoutText = 0 := by
    unfold timeoutText
    cases settings.timeout with
    | none => rfl
    | some seconds =>
        have hdigits : Text.lineEnds seconds.repr = 0 := by
          rw [lineEnds_eq_zero_iff, Nat.repr, String.toList_ofList]
          intro hmem
          cases Nat.isDigit_of_mem_toDigits (by decide) (by decide) hmem
        simp only [lineEnds_append, hdigits]
        rfl
  unfold header at h
  split at h
  · exact absurd h List.not_mem_nil
  · rw [List.mem_singleton.mp h, lineEnds_append, lineEnds_append, hformat, htimeout]
    rfl

theorem lineEnds_footer {settings : Settings} {root : SetName} (hroot : root.IsValid)
    {line : String} (h : line ∈ settings.footer root) : Text.lineEnds line = 0 := by
  unfold footer at h
  split at h
  · next level hlevel =>
      rw [List.mem_singleton.mp h]
      simp only [lineEnds_append, hroot.lineEnds]
      cases level <;> cases settings.geometry <;> rfl
  · exact absurd h List.not_mem_nil

end Settings

namespace Query

/-- How many line ends the tags of a query hold. -/
def lineEnds (q : Query) : ℕ := (q.program.selections.map fun s => s.tags.lineEnds).sum

/-- Of the definitions of a program, only selections have tags. So the line ends in a script can be
read off its selections. -/
theorem sum_lineEnds_definitions (q : Query) :
    (q.program.definitions.map Definition.lineEnds).sum = q.lineEnds := by
  have hzero : ∀ {α : Type} (items : List α), (items.map fun _ => 0).sum = 0 :=
    fun items => List.sum_eq_zero (List.forall_mem_map.mpr fun _ _ => rfl)
  simp only [Program.definitions, List.map_append, List.map_map, List.sum_append,
    Function.comp_def, Definition.lineEnds, hzero, Nat.zero_add, Nat.add_zero, lineEnds]

variable {q : Query}

/-- The line ends in the lines of a script are those in the tags of its query. -/
theorem sum_lineEnds_lines {e : Expression} (h : Formed e q) (hnames : q.program.NamesValid)
    (settings : Settings) :
    ((settings.header ++ q.program.definitions.map Definition.line ++
      settings.footer q.root).map Text.lineEnds).sum = q.lineEnds := by
  have hheader : (settings.header.map Text.lineEnds).sum = 0 :=
    List.sum_eq_zero (List.forall_mem_map.mpr fun _ => Settings.lineEnds_header)
  have hfooter : ((settings.footer q.root).map Text.lineEnds).sum = 0 :=
    List.sum_eq_zero (List.forall_mem_map.mpr fun _ =>
      Settings.lineEnds_footer (hnames _ h.root_mem_names))
  have hbody : (q.program.definitions.map Definition.line).map Text.lineEnds =
      q.program.definitions.map Definition.lineEnds := by
    rw [List.map_map]
    refine List.map_congr_left fun d hd => Definition.lineEnds_line (hnames _ ?_) fun n hn => ?_
    · exact Program.name_mem_names hd
    · exact hnames n ((h.wellFormed.supports hd).mem_names hn)
  rw [List.map_append, List.map_append, List.sum_append, List.sum_append, hheader, hbody, hfooter,
    sum_lineEnds_definitions, Nat.zero_add, Nat.add_zero]

/-- **When a script has one line for each entry.** The text of a query that a caller can obtain, of
valid names, is split at its line ends into what the entries are split into, one after the other,
which is one line for each entry and one more for each line end in a key or a value of its tags. So
the lines of the text are the lines that were printed if and only if no key and no value holds a
line end. -/
theorem Reachable.one_line_each_iff (h : q.Reachable) (hnames : q.program.NamesValid)
    (settings : Settings) :
    ∃ lines text, q.lines settings = .ok lines ∧ q.print settings = .ok text ∧
      Text.lines text = lines.flatMap Text.lines ∧
      (Text.lines text).length = lines.length + q.lineEnds ∧
      (Text.lines text = lines ↔
        ∀ s ∈ q.program.selections, ∀ tag ∈ s.tags.tags, '\n' ∉ tag.key.toList ∧
          ∀ value, tag.value = some value → '\n' ∉ value.toList) := by
  obtain ⟨e, hformed⟩ := h.exists_formed
  have hlines := lines_eq_of_formed hformed settings
  have hsum := sum_lineEnds_lines hformed hnames settings
  generalize hall : settings.header ++ q.program.definitions.map Definition.line ++
    settings.footer q.root = lines at hlines hsum
  have hne : lines ≠ [] := by
    obtain ⟨d, hd, -⟩ := List.mem_map.mp hformed.root_mem_names
    rw [← hall]
    intro hnil
    rw [List.append_eq_nil_iff, List.append_eq_nil_iff, List.map_eq_nil_iff] at hnil
    rw [hnil.1.2] at hd
    exact absurd hd List.not_mem_nil
  have hsplit := Text.lines_intercalate hne
  have hprint : q.print settings = .ok ("\n".intercalate lines) := by
    rw [print, hlines]
    rfl
  refine ⟨lines, _, hlines, hprint, hsplit, ?_, ?_⟩
  · rw [hsplit, Text.length_flatMap_lines, hsum]
  · rw [hsplit, Text.flatMap_lines_eq_iff, hsum, lineEnds, List.sum_eq_zero_iff,
      List.forall_mem_map]
    exact forall₂_congr fun s _ => TagFilter.lineEnds_eq_zero_iff

end Query

namespace Park

/-- A tag whose value goes on in a second line. -/
def brokenTag : TagFilter := ⟨[⟨"name", some "a\nb"⟩]⟩

/-- The nodes of the park with that tag. -/
def broken : Query where
  root := ⟨"nodes"⟩
  program := { nodes.program with selections := [⟨⟨"nodes"⟩, .node, .named ⟨"park"⟩, brokenTag⟩] }

/-- The selection with a line end in a value can be obtained by a caller: values are checked for
being empty, and not for what they hold. -/
theorem reachable_broken : broken.Reachable := by
  have hbuild : (Draft.build ⟨.node, .ok brokenTag, some (.ok ⟨"nodes"⟩), some (.region region)⟩
      .natural).runOn .initial = (.ok broken, .initial) := rfl
  exact ⟨_, .inRegion rfl rfl rfl hbuild⟩

end Park

/-- The script of an area and a selection has a third line if the value of the tag holds a line
end. -/
theorem Query.one_line_each_iff_broken :
    Park.broken.Reachable ∧ Park.broken.program.NamesValid ∧
      ∃ lines text, Park.broken.lines .bare = .ok lines ∧ Park.broken.print .bare = .ok text ∧
        Text.lines text = lines.flatMap Text.lines ∧
        (Text.lines text).length = lines.length + 1 := by
  have hnames : Park.broken.program.NamesValid := by decide
  obtain ⟨lines, text, hlines, hprint, hsplit, hlength, -⟩ :=
    Park.reachable_broken.one_line_each_iff hnames .bare
  exact ⟨Park.reachable_broken, hnames, lines, text, hlines, hprint, hsplit, hlength⟩

/-- Both a token and a pair can hold a line end, and then the lines of the script are not the lines
of its text. -/
theorem Query.not_one_line_each_broken :
    TagFilter.ofText "name=a\nb" = .ok Park.brokenTag ∧
      TagFilter.ofPairs [("name", some "a\nb")] = .ok Park.brokenTag ∧
      Park.broken.Reachable ∧ Park.broken.program.NamesValid ∧
      ∃ lines text, Park.broken.lines .bare = .ok lines ∧ Park.broken.print .bare = .ok text ∧
        lines.length = 2 ∧ (Text.lines text).length = 3 ∧ Text.lines text ≠ lines := by
  refine ⟨rfl, rfl, Park.reachable_broken, by decide, _, _, rfl, rfl, rfl, rfl, fun h => ?_⟩
  cases congrArg List.length h

end Overpass
