import Overpass.Proofs.Query.Formed
import Overpass.Proofs.Query.Statement

/-!
# Scripts of queries

Printing a query checks of every line that the sets it refers to were bound by earlier lines, and
refuses the query otherwise. For a query that a caller can obtain these checks never fail, and what
is printed has one line for each definition. What the lines bind and refer to is read off their
characters, so the order of binding and use is a fact about the text that is printed: it would not
hold of lines that show other names than those that were checked, or none.

## Main Definitions

* `Script.Binds`, `Script.Refers`: what the line at a position of a script binds and refers to
* `Query.IsScript`: the statements of a script, and the order of binding and use in it

## Main Statements

* `Definition.lines_eq_ok`: the definitions of a chain are printed one after the other
* `Query.lines_eq_of_wellFormed`: so a query is printed whose program is well-formed and binds its
  root
* `Query.binds_lines_iff`, `Query.refers_lines_iff`: what the printed lines bind and refer to
* `Query.Reachable.exists_script`: a query that a caller can obtain has a script
-/

namespace Overpass

namespace Definition

/-- References to names that are bound pass the check, which is the only one that printing makes. -/
theorem checkReferences_eq_ok {bound names : List SetName} (h : ∀ n ∈ names, n ∈ bound)
    (line : ℕ) : checkReferences bound line names = .ok () := by
  have hnone : (names.find? fun n => !bound.contains n) = none := by
    rw [List.find?_eq_none]
    intro n hn
    simpa using h n hn
  rw [checkReferences, hnone]

/-- **A chain of definitions prints.** The names that are bound before a line are those of the
definitions that stand before it, which is what its references are known to be among. -/
theorem lines_eq_ok {bound : List SetName} {ds : List Definition}
    (h : Chained Definition.name Definition.references bound ds) (line : ℕ) :
    lines bound line ds = .ok (ds.map Definition.line) := by
  induction ds generalizing bound line with
  | nil => rfl
  | cons d rest ih =>
      obtain ⟨hreferences, hrest⟩ := h
      rw [lines, checkReferences_eq_ok hreferences, ih hrest (line + 1)]
      rfl

end Definition

namespace Settings

/-- There is a header line if and only if a format or a timeout is set. -/
theorem length_header (settings : Settings) :
    settings.header.length =
      if settings.format.isSome ∨ settings.timeout.isSome then 1 else 0 := by
  unfold header
  cases settings.format <;> cases settings.timeout <;> rfl

/-- A footer is a single line, and a level of detail is set wherever there is one. -/
theorem footer_eq_nil_or_singleton (settings : Settings) (root : SetName) :
    settings.footer root = [] ∧ settings.verbosity.isSome = false ∨
      ∃ line, settings.footer root = [line] ∧ settings.verbosity.isSome = true := by
  unfold footer
  cases settings.verbosity with
  | none => exact Or.inl ⟨rfl, rfl⟩
  | some level => exact Or.inr ⟨_, rfl, rfl⟩

/-- There is a footer line if and only if a level of detail is set. Whether coordinates are asked
for too does not matter. -/
theorem length_footer (settings : Settings) (root : SetName) :
    (settings.footer root).length = if settings.verbosity.isSome then 1 else 0 := by
  rcases settings.footer_eq_nil_or_singleton root with ⟨hnil, hnone⟩ | ⟨line, hfooter, hsome⟩
  · rw [hnil, hnone]
    rfl
  · rw [hfooter, hsome]
    rfl

end Settings

/-! ### What a script binds and refers to -/

namespace Script

/-- Whether the line at a position binds a name, read off the characters of the line. -/
def Binds (lines : List String) (position : ℕ) (n : SetName) : Prop :=
  ∃ line, lines[position]? = some line ∧ Line.binds? line = some n

/-- Whether the line at a position refers to a name: as the source of a selection, as an operand of
an operation, or as the set to output. -/
def Refers (lines : List String) (position : ℕ) (n : SetName) : Prop :=
  ∃ line, lines[position]? = some line ∧ n ∈ Line.references line

end Script

/-- An item of two lists after one another stands in the first or, counted on, in the second. -/
theorem getElem?_append_eq_some_iff {α : Type} {xs ys : List α} {i : ℕ} {x : α} :
    (xs ++ ys)[i]? = some x ↔
      xs[i]? = some x ∨ ∃ j, i = xs.length + j ∧ ys[j]? = some x := by
  rcases Nat.lt_or_ge i xs.length with hlt | hle
  · rw [List.getElem?_append_left hlt]
    refine ⟨Or.inl, ?_⟩
    rintro (h | ⟨j, rfl, -⟩)
    · exact h
    · exact absurd hlt (by omega)
  · obtain ⟨j, rfl⟩ := Nat.exists_eq_add_of_le hle
    rw [List.getElem?_append_right hle, Nat.add_sub_cancel_left]
    refine ⟨fun h => Or.inr ⟨j, rfl, h⟩, ?_⟩
    rintro (h | ⟨k, hk, h⟩)
    · rw [List.getElem?_eq_none hle] at h
      cases h
    · rwa [Nat.add_left_cancel hk]

/-- In a well-formed program of valid names every definition is read back: it refers to names that
the program binds. -/
theorem Program.WellFormed.isReadable {p : Program} (h : p.WellFormed) (hnames : p.NamesValid)
    {d : Definition} (hd : d ∈ p.definitions) : d.IsReadable where
  name := hnames d.name (Program.name_mem_names hd)
  references n hn := hnames n ((h.supports hd).mem_names hn)

namespace Query

/-- What makes lines the script of a query. All of it is read off the lines, by a reader that knows
nothing of how they were printed. -/
structure IsScript (settings : Settings) (q : Query) (lines : List String) : Prop where
  /-- Between header and footer, the lines make the statements of the definitions in their order. -/
  statements : ∃ body, lines = settings.header ++ body ++ settings.footer q.root ∧
    List.Forall₂ (fun line d => Line.statement? line = some (Definition.statement d)) body
      q.program.definitions
  /-- A header binds nothing and refers to nothing. -/
  header : ∀ line ∈ settings.header, Line.binds? line = none ∧ Line.references line = []
  /-- A footer binds nothing and refers to the root. -/
  footer : ∀ line ∈ settings.footer q.root, Line.binds? line = none ∧
    Line.references line = [q.root]
  /-- What a line refers to is bound by an earlier line. -/
  bound_earlier : ∀ position n, Script.Refers lines position n →
    ∃ earlier < position, Script.Binds lines earlier n
  /-- No two lines bind one name. -/
  bound_once : ∀ i j n, Script.Binds lines i n → Script.Binds lines j n → i = j

variable {q : Query} {settings : Settings} {n : SetName} {position : ℕ}

/-- The lines of a query whose program is well-formed and binds its root, header and footer
included. -/
theorem lines_eq_of_wellFormed (hq : q.program.WellFormed) (hroot : q.root ∈ q.program.names)
    (settings : Settings) :
    q.lines settings = .ok (settings.header ++ q.program.definitions.map Definition.line ++
      settings.footer q.root) := by
  have hbody := Definition.lines_eq_ok hq.chained (settings.header.length + 1)
  have hlast : Definition.checkReferences (q.program.definitions.map Definition.name)
      (settings.header.length + 1 + q.program.definitions.length) [q.root] = .ok () :=
    Definition.checkReferences_eq_ok (fun n hn => List.mem_singleton.mp hn ▸ hroot) _
  rw [Query.lines, bind_eq_ok_iff]
  exact ⟨_, hbody, bind_eq_ok_iff.mpr ⟨(), hlast, rfl⟩⟩

/-- The lines of a built query, header and footer included: built queries are well-formed and bind
their roots. -/
theorem lines_eq_of_formed {e : Expression} (h : Formed e q) (settings : Settings) :
    q.lines settings = .ok (settings.header ++ q.program.definitions.map Definition.line ++
      settings.footer q.root) :=
  lines_eq_of_wellFormed h.wellFormed h.root_mem_names settings

/-- A line of a script is its header, the line of a definition, or its footer. Where only what a
line says counts, its position may be forgotten. -/
theorem mem_lines_iff {line : String} :
    line ∈ settings.header ++ q.program.definitions.map Definition.line ++ settings.footer q.root ↔
      line ∈ settings.header ∨ (∃ d ∈ q.program.definitions, d.line = line) ∨
        line ∈ settings.footer q.root := by
  rw [List.mem_append, List.mem_append, List.mem_map, or_assoc]

/-- The line at a position of a script is its header, the line of a definition, or its footer, which
stands after the lines of all definitions. -/
theorem getElem?_lines_iff {line : String} :
    (settings.header ++ q.program.definitions.map Definition.line ++
        settings.footer q.root)[position]? = some line ↔
      settings.header[position]? = some line ∨
      (∃ (i : ℕ) (d : Definition), q.program.definitions[i]? = some d ∧
        position = settings.header.length + i ∧ line = d.line) ∨
      position = settings.header.length + q.program.size ∧ line ∈ settings.footer q.root := by
  have hfooter : ∀ j, (settings.footer q.root)[j]? = some line ↔
      j = 0 ∧ line ∈ settings.footer q.root := by
    intro j
    rcases settings.footer_eq_nil_or_singleton q.root with ⟨hnil, -⟩ | ⟨footer, hfooter, -⟩
    · simp [hnil]
    · cases j <;> simp [hfooter, eq_comm]
  simp only [getElem?_append_eq_some_iff, List.getElem?_map, Option.map_eq_some_iff, hfooter,
    List.length_append, List.length_map, Program.length_definitions, or_assoc]
  refine or_congr_right (or_congr ?_ ?_)
  · constructor
    · rintro ⟨i, rfl, d, hd, rfl⟩
      exact ⟨i, d, hd, rfl, rfl⟩
    · rintro ⟨i, d, hd, rfl, rfl⟩
      exact ⟨i, rfl, d, hd, rfl⟩
  · constructor
    · rintro ⟨j, rfl, rfl, hline⟩
      exact ⟨rfl, hline⟩
    · rintro ⟨rfl, hline⟩
      exact ⟨0, rfl, rfl, hline⟩

section Readable

variable (hreadable : ∀ d ∈ q.program.definitions, d.IsReadable)
include hreadable

/-- **What the printed lines bind**: each the name of its definition. Header and footer bind
nothing. -/
theorem binds_lines_iff :
    Script.Binds (settings.header ++ q.program.definitions.map Definition.line ++
      settings.footer q.root) position n ↔
      ∃ (i : ℕ) (d : Definition), q.program.definitions[i]? = some d ∧
        position = settings.header.length + i ∧ d.name = n := by
  have hframe : ∀ line, Line.IsFrame line → Line.binds? line ≠ some n := by
    intro line hline hbinds
    rw [Line.binds?, hline.statement?_eq_none] at hbinds
    cases hbinds
  have hbody : ∀ (i : ℕ) (d : Definition), q.program.definitions[i]? = some d →
      Line.binds? d.line = some d.name := by
    intro i d hd
    rw [Line.binds?, Definition.statement?_line (hreadable d (List.mem_of_getElem? hd)),
      Option.map_some, Definition.name_statement]
  simp only [Script.Binds, getElem?_lines_iff]
  constructor
  · rintro ⟨line, hline | ⟨i, d, hd, rfl, rfl⟩ | ⟨-, hline⟩, hbinds⟩
    · exact absurd hbinds (hframe line (Settings.isFrame_header (List.mem_of_getElem? hline)))
    · exact ⟨i, d, hd, rfl, Option.some.inj ((hbody i d hd).symm.trans hbinds)⟩
    · exact absurd hbinds (hframe line (Settings.isFrame_footer hline))
  · rintro ⟨i, d, hd, rfl, rfl⟩
    exact ⟨d.line, Or.inr (Or.inl ⟨i, d, hd, rfl, rfl⟩), hbody i d hd⟩

/-- **What the printed lines refer to**: each to what its definition refers to, and the footer to
the root. -/
theorem refers_lines_iff (hroot : q.root.IsValid) :
    Script.Refers (settings.header ++ q.program.definitions.map Definition.line ++
      settings.footer q.root) position n ↔
      (∃ (i : ℕ) (d : Definition), q.program.definitions[i]? = some d ∧
        position = settings.header.length + i ∧ n ∈ d.references) ∨
      settings.verbosity.isSome ∧ position = settings.header.length + q.program.size ∧
        n = q.root := by
  have hbody : ∀ (i : ℕ) (d : Definition), q.program.definitions[i]? = some d →
      Line.references d.line = d.references := by
    intro i d hd
    rw [Line.references, Definition.statement?_line (hreadable d (List.mem_of_getElem? hd))]
    exact d.references_statement
  simp only [Script.Refers, getElem?_lines_iff]
  constructor
  · rintro ⟨line, hline | ⟨i, d, hd, rfl, rfl⟩ | ⟨rfl, hline⟩, hrefers⟩
    · rw [Settings.references_header (List.mem_of_getElem? hline)] at hrefers
      cases hrefers
    · exact Or.inl ⟨i, d, hd, rfl, hbody i d hd ▸ hrefers⟩
    · rw [Settings.references_footer hroot hline, List.mem_singleton] at hrefers
      rcases settings.footer_eq_nil_or_singleton q.root with ⟨hnil, -⟩ | ⟨-, -, hsome⟩
      · rw [hnil] at hline
        cases hline
      · exact Or.inr ⟨hsome, rfl, hrefers⟩
  · rintro (⟨i, d, hd, rfl, hrefers⟩ | ⟨hsome, rfl, rfl⟩)
    · exact ⟨d.line, Or.inr (Or.inl ⟨i, d, hd, rfl, rfl⟩), (hbody i d hd).symm ▸ hrefers⟩
    · rcases settings.footer_eq_nil_or_singleton q.root with ⟨-, hnone⟩ | ⟨line, hfooter, -⟩
      · rw [hnone] at hsome
        cases hsome
      · have hline : line ∈ settings.footer q.root := by
          rw [hfooter]
          exact List.mem_singleton.mpr rfl
        refine ⟨line, Or.inr (Or.inr ⟨rfl, hline⟩), ?_⟩
        rw [Settings.references_footer hroot hline]
        exact List.mem_singleton.mpr rfl

end Readable

/-- The lines of a well-formed program of valid names bind what they refer to, and bind it once. -/
theorem isScript_lines (hq : q.program.WellFormed) (hroot : q.root ∈ q.program.names)
    (hnames : q.program.NamesValid) (settings : Settings) :
    q.IsScript settings (settings.header ++ q.program.definitions.map Definition.line ++
      settings.footer q.root) := by
  have hreadable : ∀ d ∈ q.program.definitions, d.IsReadable := fun d hd => hq.isReadable hnames hd
  have hvalid := hnames q.root hroot
  refine ⟨⟨_, rfl, ?_⟩, fun line hline => ⟨?_, Settings.references_header hline⟩,
    fun line hline => ⟨?_, Settings.references_footer hvalid hline⟩, fun position n hrefers => ?_,
    fun i j n hi hj => ?_⟩
  · rw [List.forall₂_map_left_iff, List.forall₂_same]
    exact fun d hd => Definition.statement?_line (hreadable d hd)
  · rw [Line.binds?, (Settings.isFrame_header hline).statement?_eq_none, Option.map_none]
  · rw [Line.binds?, (Settings.isFrame_footer hline).statement?_eq_none, Option.map_none]
  · simp only [binds_lines_iff hreadable]
    rcases (refers_lines_iff hreadable hvalid).mp hrefers with ⟨i, d, hd, rfl, hn⟩ | ⟨-, rfl, rfl⟩
    · rcases hq.chained.exists_earlier hd hn with hnil | ⟨j, hj, e, he, hname⟩
      · exact absurd hnil List.not_mem_nil
      · exact ⟨settings.header.length + j, by omega, j, e, he, rfl, hname⟩
    -- The footer stands after the lines of all definitions, one of which binds the root.
    · obtain ⟨e, he, hname⟩ := List.mem_map.mp hroot
      obtain ⟨j, hj⟩ := List.mem_iff_getElem?.mp he
      have hlt : j < q.program.size := by
        rw [← Program.length_definitions]
        exact (List.getElem?_eq_some_iff.mp hj).1
      exact ⟨settings.header.length + j, by omega, j, e, hj, rfl, hname⟩
  · obtain ⟨k, d, hd, rfl, hname⟩ := (binds_lines_iff hreadable).mp hi
    obtain ⟨l, e, he, rfl, rfl⟩ := (binds_lines_iff hreadable).mp hj
    have hk : q.program.names[k]? = some e.name := by
      rw [Program.names, List.getElem?_map, hd, Option.map_some, hname]
    have hl : q.program.names[l]? = some e.name := by
      rw [Program.names, List.getElem?_map, he, Option.map_some]
    have hlt : k < q.program.names.length := (List.getElem?_eq_some_iff.mp hk).1
    rw [(List.getElem?_inj hlt hq.nodup).mp (hk.trans hl.symm)]

/-- **Every query that a caller can obtain has a script**, whatever header and footer are asked for:
it is never refused, and there is one line for each definition, one for a header and one for a
footer. If its names are valid, as all names are that callers come by (`Call.namesValid`), the lines
make the statements of its definitions, and they bind every set once and before it is used. -/
theorem Reachable.exists_script (h : q.Reachable) (settings : Settings) :
    ∃ lines, q.lines settings = .ok lines ∧
      lines.length = (if settings.format.isSome ∨ settings.timeout.isSome then 1 else 0) +
        (q.program.areas.length + q.program.selections.length + q.program.operations.length) +
        (if settings.verbosity.isSome then 1 else 0) ∧
      (q.program.NamesValid → q.IsScript settings lines) := by
  obtain ⟨e, hformed⟩ := h.exists_formed
  refine ⟨_, lines_eq_of_formed hformed settings, ?_,
    fun hnames => isScript_lines hformed.wellFormed hformed.root_mem_names hnames settings⟩
  rw [List.length_append, List.length_append, List.length_map, Program.length_definitions,
    settings.length_header, settings.length_footer]
  rfl

/-- The script of the park has a header and a footer around an area, two selections and a union, and
its fifth line is where the set is bound that the last one refers to. -/
theorem exists_script_park :
    ∃ lines, Park.both.lines ⟨some .json, some 25, some .body, true⟩ = .ok lines ∧
      lines.length = 6 ∧ Park.both.IsScript ⟨some .json, some 25, some .body, true⟩ lines ∧
      Script.Refers lines 5 ⟨"both"⟩ ∧ ∃ earlier < 5, Script.Binds lines earlier ⟨"both"⟩ := by
  obtain ⟨lines, hlines, hlength, hscript⟩ := Reachable.exists_script ⟨_, Park.built_both⟩
    ⟨some .json, some 25, some .body, true⟩
  have hscript := hscript (by decide)
  have hrefers : Script.Refers lines 5 ⟨"both"⟩ := by
    cases hlines
    exact ⟨".both out body geom;", rfl, by decide⟩
  exact ⟨lines, hlines, hlength, hscript, hrefers, hscript.bound_earlier _ _ hrefers⟩

end Query

end Overpass
