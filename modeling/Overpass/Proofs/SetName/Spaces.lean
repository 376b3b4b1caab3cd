import Overpass.Proofs.Query.Derived
import Overpass.Proofs.Query.Lines
import Overpass.Proofs.Region.Shape

/-!
# Three spaces of names

A name is given by a caller, or it is generated from a number, or from the key of a region. The
three ways lead to three disjoint spaces, each of which can be told by the characters of its names:
what the pattern of generated names refuses to callers is just what the two formatters write. There
is no other way to come by a name, so all names in a script belong to one of the spaces, and all of
them have the syntax of set names.

## Main Definitions

* `SetName.IsMade`: the ways to come by a name
* `Event.givenRegions`: the regions that callers bring in as they are

## Main Statements

* `SetName.parse_eq_ok_iff_forms`: which names callers may give
* `Run.isMade_of_mem_names`: the names that a run binds are made in one of the three ways
* `SetName.name_spaces`: the spaces are disjoint, and scripts show no other names
-/

namespace Overpass

open Program

namespace SetName

/-- The ways to come by a name: it is given, numbered, or made from a key. -/
inductive IsMade : SetName → Prop
  /-- A caller's name is checked. -/
  | given {text : String} {name : SetName} (h : parse text = .ok name) : IsMade name
  | numbered (supply : NameSupply) : IsMade supply.name
  | ofKey (key : String) : IsMade (ofKey key)

/-- Names that are made in one of the three ways have the syntax of set names. -/
theorem IsMade.isValid {name : SetName} (h : name.IsMade) : name.IsValid := by
  cases h with
  | given h => exact isValid_of_parse_eq_ok h
  | numbered supply => exact isValid_numbered _
  | ofKey key => exact isValid_ofKey key

/-- **Which names callers may give**: those that have the syntax of names and neither of the
generated forms. -/
theorem parse_eq_ok_iff_forms {text : String} {name : SetName} :
    parse text = .ok name ↔ name = ⟨text⟩ ∧ name.IsValid ∧ ¬ IsNumberedForm text.toList ∧
      ¬ IsKeyForm text.toList := by
  rw [parse_eq_ok_iff, ofText?_eq_some_iff, ← Bool.not_eq_true, isReserved_iff, not_or]
  constructor
  · rintro ⟨hform, hreserved, rfl⟩
    exact ⟨rfl, hform, hreserved⟩
  · rintro ⟨rfl, hform, hreserved⟩
    exact ⟨hform, hreserved, rfl⟩

theorem isNumberedForm_numbered (n : ℕ) : IsNumberedForm (numbered n).text.toList :=
  ⟨Nat.toDigits 10 n, String.toList_ofList, Nat.toDigits_ne_nil,
    fun _ hc => Nat.isDigit_of_mem_toDigits (by decide) (by decide) hc⟩

theorem isKeyForm_ofKey (key : String) : IsKeyForm (ofKey key).text.toList :=
  ⟨Digest.hex (Digest.ofText key), String.toList_ofList, length_hex _,
    fun _ hc => isHexDigit_of_mem_hex hc⟩

end SetName

/-! ### The names of a run -/

/-- The region that a place gives as it is. -/
def Place.given? : Place → Option Region
  | region r | inline r => some r
  | query _ | polygon _ | bbox _ | outline _ => none

/-- The region that a call is given as it is. -/
def Call.givenRegion? : Call → Option Region
  | select _ _ _ (some place) _ => place.given?
  | _ => none

/-- The regions that callers bring in as they are. They may have names of the callers' choice. -/
def Event.givenRegions (events : List Event) : List Region :=
  events.filterMap fun event => event.call.givenRegion?

/-- A region that is not given as it is has the name of its key, since it was resolved. -/
theorem Place.isMade_of_region? {place : Place} {resolver : Resolver} {region : Region}
    (hgiven : ∀ r, place.given? = some r → r.name.IsMade)
    (h : place.region? resolver = some region) : region.name.IsMade := by
  have hresolved : region.Resolved → region.name.IsMade := fun h => h.name_eq ▸ .ofKey _
  cases place with
  | query q => cases h
  | polygon p => exact hresolved (Resolver.resolved_of_ofPolygon (eq_ok_of_toOption h))
  | bbox b => exact hresolved (Resolver.resolved_of_ofBbox (eq_ok_of_toOption h))
  | outline points => exact hresolved (Resolver.resolved_of_ofOutline (eq_ok_of_toOption h))
  | region r => exact hgiven region h
  | inline r => exact hgiven region h

/-- So the regions of a run have names that are made in one of the three ways, if those that are
given as they are do. -/
theorem Event.isMade_of_mem_regions {events : List Event} {region : Region}
    (hgiven : ∀ r ∈ givenRegions events, r.name.IsMade) (h : region ∈ regions events) :
    region.name.IsMade := by
  obtain ⟨event, hevent, hregion⟩ := List.mem_filterMap.mp h
  have hcall : ∀ r, event.call.givenRegion? = some r → r.name.IsMade :=
    fun r hr => hgiven r (List.mem_filterMap.mpr ⟨event, hevent, hr⟩)
  generalize event.call = call at hregion hcall
  cases call with
  | select kind tags text? place? resolver =>
      cases place? with
      | none => cases hregion
      | some place => exact place.isMade_of_region? hcall hregion
  | _ => cases hregion

variable {supply : NameSupply} {events : List Event} {session : Session}

/-- **Every name that a run binds is made in one of the three ways**, if the names of the regions
that callers bring in as they are were. -/
theorem Run.isMade_of_mem_names (hrun : Run ⟨[], supply⟩ events session)
    (hgiven : ∀ r ∈ Event.givenRegions events, r.name.IsMade) :
    ∀ q ∈ session.built, (∃ e, Formed e q) ∧ ∀ n ∈ q.program.names, n.IsMade :=
  hrun.forall_names (P := SetName.IsMade) (fun _ hmem => absurd hmem List.not_mem_nil)
    (fun _ hr => Event.isMade_of_mem_regions hgiven hr) (fun _ _ h => .given h)
    (by rintro _ ⟨earlier, -, -, rfl⟩; exact .numbered earlier)

/-- **A name that a line of a script shows is a name of the program**: it is bound in the line of a
definition, is referred to there, or is the root that a footer asks for. The lines are read as they
are printed, so all that is known of the names in them is that they are valid. -/
theorem Query.mem_names_of_line {q : Query} {e : Expression} (h : Formed e q)
    (hnames : q.program.NamesValid) {settings : Settings} {lines : List String}
    (hlines : q.lines settings = .ok lines) {line : String} (hline : line ∈ lines) {n : SetName}
    (hn : Line.binds? line = some n ∨ n ∈ Line.references line) : n ∈ q.program.names := by
  have hscript := isScript_lines h.wellFormed h.root_mem_names hnames settings
  rw [lines_eq_of_formed h, Except.ok.injEq] at hlines
  rw [← hlines] at hline
  rcases mem_lines_iff.mp hline with hline | ⟨d, hd, rfl⟩ | hline
  · obtain ⟨hbinds, hrefers⟩ := hscript.header line hline
    rw [hbinds, hrefers] at hn
    rcases hn with hn | hn <;> cases hn
  · have hread := Definition.statement?_line (h.wellFormed.isReadable hnames hd)
    rw [Line.binds?, Line.references, hread, Option.map_some, Option.some_inj,
      Definition.name_statement] at hn
    rcases hn with rfl | hn
    · exact name_mem_names hd
    · exact (h.wellFormed.supports hd).mem_names (d.references_statement ▸ hn)
  · obtain ⟨hbinds, hrefers⟩ := hscript.footer line hline
    rw [hbinds, hrefers, List.mem_singleton] at hn
    rcases hn with hn | rfl
    · cases hn
    · exact h.root_mem_names

/-- **The spaces of names.** Callers may give exactly the names that have the syntax of set names
and neither of the generated forms. Whatever the counter and whatever the key, a generated name has
the syntax of set names and the form that callers are refused, and the two forms share no name. So a
name that a caller gives is never a generated one. And in every run, all names in the program of a
query, which are those that its script binds, and all names that can be read in the lines of the
script are made in one of the three ways and have the syntax of set names, provided that the names
of the regions that callers bring in as they are were made so: there is no other way to come by a
name. -/
theorem SetName.name_spaces :
    (∀ text name, parse text = .ok name ↔ name = ⟨text⟩ ∧ name.IsValid ∧
      ¬ IsNumberedForm text.toList ∧ ¬ IsKeyForm text.toList) ∧
    (∀ supply : NameSupply, supply.name.IsValid ∧ IsNumberedForm supply.name.text.toList ∧
      ∀ name, parse supply.name.text ≠ .ok name) ∧
    (∀ key, (ofKey key).IsValid ∧ IsKeyForm (ofKey key).text.toList ∧
      ∀ name, parse (ofKey key).text ≠ .ok name) ∧
    (∀ (supply : NameSupply) (key : String), supply.name ≠ ofKey key) ∧
    (∀ text name, parse text = .ok name →
      (∀ supply : NameSupply, name ≠ supply.name) ∧ ∀ key, name ≠ ofKey key) ∧
    ∀ supply events session, Run ⟨[], supply⟩ events session →
      (∀ r ∈ Event.givenRegions events, r.name.IsMade) →
      ∀ q ∈ session.built, (∀ n ∈ q.program.names, n.IsMade ∧ n.IsValid) ∧
        ∀ settings, ∃ lines, q.lines settings = .ok lines ∧ q.IsScript settings lines ∧
          ∀ line ∈ lines, ∀ n, Line.binds? line = some n ∨ n ∈ Line.references line →
            n.IsMade ∧ n.IsValid := by
  refine ⟨fun text name => parse_eq_ok_iff_forms, fun supply => ?_, fun key => ?_,
    fun supply key => numbered_ne_ofKey _ key, fun text name h => ⟨?_, ?_⟩, ?_⟩
  · have hform := isNumberedForm_numbered (supply.next % UInt64.size)
    exact ⟨isValid_numbered _, hform, fun name h => (parse_eq_ok_iff_forms.mp h).2.2.1 hform⟩
  · have hform := isKeyForm_ofKey key
    exact ⟨isValid_ofKey key, hform, fun name h => (parse_eq_ok_iff_forms.mp h).2.2.2 hform⟩
  · rintro supply rfl
    exact parse_ne_ok_numbered text _ h
  · rintro key rfl
    exact parse_ne_ok_ofKey text key h
  · intro supply events session hrun hgiven q hq
    obtain ⟨⟨e, hformed⟩, hnames⟩ := hrun.isMade_of_mem_names hgiven q hq
    have hmade : ∀ n ∈ q.program.names, n.IsMade ∧ n.IsValid :=
      fun n hn => ⟨hnames n hn, (hnames n hn).isValid⟩
    have hvalid : q.program.NamesValid := fun n hn => (hmade n hn).2
    refine ⟨hmade, fun settings => ⟨_, Query.lines_eq_of_formed hformed settings,
      Query.isScript_lines hformed.wellFormed hformed.root_mem_names hvalid settings, ?_⟩⟩
    intro line hline n hn
    exact hmade n
      (Query.mem_names_of_line hformed hvalid (Query.lines_eq_of_formed hformed settings) hline hn)

/-- In the run over the park, whose region a caller brings in under a name of the caller's choice,
the footer shows a numbered name. -/
theorem SetName.name_spaces_park :
    Run Park.first Park.events (Park.fourth.after Park.subtract) ∧
      (∀ r ∈ Event.givenRegions Park.events, r.name.IsMade) ∧
      ∃ lines, Park.united.lines ⟨none, none, some .body, false⟩ = .ok lines ∧
        "._s2 out body;" ∈ lines ∧ Line.references "._s2 out body;" = [⟨"_s2"⟩] ∧
        IsMade ⟨"_s2"⟩ ∧ IsValid ⟨"_s2"⟩ := by
  obtain ⟨-, -, -, -, -, hnames⟩ := name_spaces
  have hgiven : ∀ r ∈ Event.givenRegions Park.events, r.name.IsMade := by
    intro r hr
    have hregions : Event.givenRegions Park.events = List.replicate 2 Park.region := rfl
    rw [hregions] at hr
    obtain rfl := List.eq_of_mem_replicate hr
    exact .given (rfl : parse "park" = .ok ⟨"park"⟩)
  obtain ⟨-, hlines⟩ := hnames _ _ _ Park.run_events hgiven Park.united (by decide)
  obtain ⟨lines, heq, -, hmade⟩ := hlines ⟨none, none, some .body, false⟩
  have hfooter : "._s2 out body;" ∈ lines := by
    cases heq
    decide
  have hreferences : Line.references "._s2 out body;" = [⟨"_s2"⟩] := by decide
  exact ⟨Park.run_events, hgiven, lines, heq, hfooter, hreferences,
    hmade _ hfooter _ (Or.inr (hreferences ▸ List.mem_singleton.mpr rfl))⟩

end Overpass
