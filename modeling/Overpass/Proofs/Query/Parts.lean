import Overpass.Proofs.Query.Call
import Overpass.Proofs.SetName.Generated

/-!
# The parts of a selection

A selection is told its tags, its name and its place one after the other, in any order and as often
as a caller likes. Nothing is reported on the way. When the selection is built, the last tags, the
last name and the first place count, and they are checked in a fixed order: first whether the tags
are well formed, whether there is a place and whether the name is one, then what the place stands
for, and last whether the name is free in what the place brings along. Between the first three
checks and the others lies the moment at which a selection without a name takes a generated one, so
the name is gone whatever the other checks come to.

## Main Definitions

* `Draft.Step`, `Draft.ofSteps`: telling a selection a part, and all of its parts in turn
* `Draft.Parts`: the tags, the name and the place that count
* `Place.resolution?`, `Place.Binds`: the shape that a place has resolved, and the names it brings
  along
* `Draft.Outcome`: what building a selection comes to

## Main Statements

* `Draft.ofSteps_eq`: the draft after any steps is that of the parts that count
* `Draft.outcome_of_steps`: building a selection, whatever it was told and in whatever order
-/

namespace Overpass

open Program

/-! ### Parts that count -/

namespace Draft

/-- A call that tells a selection one of its parts. -/
inductive Step where
  | tags (given : TagInput)
  | name (text : String)
  | place (given : Place)

namespace Step

/-- The tags that a step tells, if it tells any. Of several such steps the last one counts. -/
def tags? : Step → Option TagInput
  | tags given => some given
  | name _ | place _ => none

/-- The name that a step tells. Here too the last such step counts. -/
def text? : Step → Option String
  | name text => some text
  | tags _ | place _ => none

/-- The place that a step tells. Of these the first one counts. -/
def place? : Step → Option Place
  | place given => some given
  | tags _ | name _ => none

end Step

/-- The draft after a step. Tags and names are replaced by later ones, and a place is kept once it
is there. -/
def tell (draft : Draft) : Step → Draft
  | .tags given => draft.withTags given.read
  | .name text => draft.withName text
  | .place given => draft.within given

/-- The draft of a kind after some steps. -/
def ofSteps (kind : ElementKind) (steps : List Step) : Draft := steps.foldl tell (ofKind kind)

/-- The tags, the name and the place of a selection, as a caller gives them. They are what remains
of a sequence of steps. -/
structure Parts where
  tags : TagInput
  text? : Option String
  place? : Option Place

namespace Parts

/-- The parts that count: the last tags, or no tags, the last name and the first place. -/
def ofSteps (steps : List Step) : Parts where
  tags := (steps.filterMap Step.tags?).getLast?.getD (.filter .empty)
  text? := (steps.filterMap Step.text?).getLast?
  place? := (steps.filterMap Step.place?).head?

/-- The draft with these parts. -/
def draft (parts : Parts) (kind : ElementKind) : Draft :=
  ⟨kind, parts.tags.read, parts.text?.map SetName.parse, parts.place?⟩

/-- The name that the selection gets, unless the one that is given is refused. -/
def name? (parts : Parts) (supply : NameSupply) : Option SetName :=
  match parts.text? with
  | some text => SetName.ofText? text
  | none => some supply.name

end Parts

/-- What a draft was told before counts where the steps that follow tell nothing else, and its place
counts in any case. -/
theorem foldl_tell (steps : List Step) (draft : Draft) :
    steps.foldl tell draft =
      ⟨draft.kind,
        (steps.filterMap Step.tags?).getLast?.elim draft.tags TagInput.read,
        (steps.filterMap Step.text?).getLast?.elim draft.name fun text => some (SetName.parse text),
        draft.place.or (steps.filterMap Step.place?).head?⟩ := by
  induction steps generalizing draft with
  | nil => simp
  | cons step steps ih =>
      rw [List.foldl_cons, ih]
      cases step with
      | tags given =>
          simp only [tell, withTags, List.filterMap_cons, Step.tags?, Step.text?, Step.place?,
            List.getLast?_cons]
          cases (steps.filterMap Step.tags?).getLast? <;> rfl
      | name text =>
          simp only [tell, withName, List.filterMap_cons, Step.tags?, Step.text?, Step.place?,
            List.getLast?_cons]
          cases (steps.filterMap Step.text?).getLast? <;> rfl
      | place given =>
          simp only [tell, within, List.filterMap_cons, Step.tags?, Step.text?, Step.place?,
            List.head?_cons]
          cases draft.place <;> rfl

/-- **The normal form of a draft.** Of all that it was told, only the parts that count are left. -/
theorem ofSteps_eq (kind : ElementKind) (steps : List Step) :
    ofSteps kind steps = (Parts.ofSteps steps).draft kind := by
  rw [ofSteps, foldl_tell, Parts.draft, Parts.ofSteps]
  cases (steps.filterMap Step.tags?).getLast? <;>
    cases (steps.filterMap Step.text?).getLast? <;> rfl

end Draft

/-! ### Places -/

namespace Place

variable {place : Place} {resolver : Resolver} {kind : ElementKind} {program : Program}
  {scope : Scope} {cause : QueryError} {name : SetName}

/-- What resolving the shape of a place comes to, if the place is a shape. Places that are queries
or regions already have nothing to resolve. -/
def resolution? (resolver : Resolver) : Place → Option (Except RegionError Region)
  | polygon p => some (resolver.ofPolygon p)
  | bbox b => some (resolver.ofBbox b)
  | outline points => some (resolver.ofOutline points)
  | query _ | region _ | inline _ => none

/-- Whether a place brings along a name: one that the program of its query binds, or the name of its
region, if the region gets an area of its own. -/
def Binds (resolver : Resolver) (name : SetName) : Place → Prop
  | query source => source.program.binds name = true
  | inline _ => False
  | place => ∃ region, place.region? resolver = some region ∧ region.name = name

/-- A place is refused if it is the set of an operation or a shape that is refused. -/
theorem resolve_eq_error_iff :
    place.resolve resolver kind = .error cause ↔
      (∃ source, place = query source ∧ source.program.binding? source.root = some .operation ∧
        cause = .operationAsScope source.root) ∨
      ∃ refusal, place.resolution? resolver = some (.error refusal) ∧ cause = .region refusal := by
  have hshape : ∀ result : Except RegionError Region,
      (shared kind <$> result).mapError QueryError.region = .error cause ↔
        ∃ refusal, result = .error refusal ∧ cause = .region refusal := by
    rintro (refusal | region)
    · simp [Functor.map, Except.map, Except.mapError, eq_comm]
    · simp [Functor.map, Except.map, Except.mapError]
  cases place with
  | query source =>
      rw [resolve]
      split_ifs with hbinding
      · simp [hbinding, resolution?, eq_comm]
      · simp [hbinding, resolution?]
  | polygon p => simp [resolve, hshape, resolution?]
  | bbox b => simp [resolve, hshape, resolution?]
  | outline points => simp [resolve, hshape, resolution?]
  | region r => simp [resolve, resolution?]
  | inline r => simp [resolve, resolution?]

/-- A place is refused as an operation exactly if it is a query whose root is one. -/
theorem resolve_eq_operationAsScope_iff {n : SetName} :
    place.resolve resolver kind = .error (.operationAsScope n) ↔ ∃ source, place = query source ∧
      source.root = n ∧ source.program.binding? source.root = some .operation := by
  simp only [resolve_eq_error_iff, QueryError.operationAsScope.injEq, reduceCtorEq, and_false,
    exists_false, or_false]
  constructor
  · rintro ⟨source, hplace, hbinding, hroot⟩
    exact ⟨source, hplace, hroot.symm, hbinding⟩
  · rintro ⟨source, hplace, hroot, hbinding⟩
    exact ⟨source, hplace, hbinding, hroot.symm⟩

/-- A place is refused for its region exactly if resolving it is, and for the same reason. -/
theorem resolve_eq_region_iff {refusal : RegionError} :
    place.resolve resolver kind = .error (.region refusal) ↔
      place.resolution? resolver = some (.error refusal) := by
  simp [resolve_eq_error_iff]

/-- The names that a place brings along are those of the program that it resolves to. -/
theorem mem_names_iff_binds (h : place.resolve resolver kind = .ok (program, scope)) :
    name ∈ program.names ↔ place.Binds resolver name := by
  have hshared : ∀ region : Region, place.region? resolver = some region →
      (name ∈ (shared kind region).1.names ↔
        ∃ r, place.region? resolver = some r ∧ r.name = name) := by
    intro region hregion
    simp [hregion, shared, names, definitions, Definition.name, Area.name, eq_comm]
  cases place with
  | query source =>
      rw [resolve] at h
      split_ifs at h
      cases h
      exact binds_iff.symm
  | polygon p | bbox b | outline points =>
      obtain ⟨region, hregion, hresolved⟩ := exists_shared_of_map_eq_ok h
      cases hresolved
      exact hshared region hregion
  | region r =>
      cases h
      exact hshared r rfl
  | inline r =>
      cases h
      exact iff_of_false List.not_mem_nil id

end Place

/-! ### What building comes to -/

namespace Draft

/-- The tags are well formed, there is a place, and the name is one. What is accepted here may still
be refused for its place. -/
structure Parts.Accepted (parts : Parts) (supply : NameSupply) (filter : TagFilter) (place : Place)
    (name : SetName) : Prop where
  tags : parts.tags.read = .ok filter
  place : parts.place? = some place
  name : parts.name? supply = some name

/-- What building a selection from its parts comes to: the result, and what is left of the
supply. -/
structure Outcome (parts : Parts) (kind : ElementKind) (resolver : Resolver) (supply : NameSupply)
    (built : Except QueryError Query × NameSupply) : Prop where
  /-- Tags are checked first. -/
  tagSyntax : (∃ token, built.1 = .error (.tagSyntax token)) ↔
    ∃ cause, parts.tags.read = .error cause
  /-- A place must be given. -/
  placeMissing : ∀ filter, parts.tags.read = .ok filter →
    (built.1 = .error .placeMissing ↔ parts.place? = none)
  /-- The name that is given must be one that callers can give. -/
  invalidName : ∀ filter place, parts.tags.read = .ok filter → parts.place? = some place →
    ∀ text, built.1 = .error (.invalidName text) ↔
      parts.text? = some text ∧ SetName.ofText? text = none
  /-- The place must not be the set of an operation. -/
  operationAsScope : ∀ filter place name, parts.Accepted supply filter place name →
    ∀ n, built.1 = .error (.operationAsScope n) ↔ ∃ source, place = .query source ∧
      source.root = n ∧ source.program.binding? source.root = some .operation
  /-- A shape must be one that the resolver accepts. -/
  region : ∀ filter place name, parts.Accepted supply filter place name →
    ∀ cause, built.1 = .error (.region cause) ↔ place.resolution? resolver = some (.error cause)
  /-- The name must be free in what the place brings along. -/
  nameConflict : ∀ filter place name resolved, parts.Accepted supply filter place name →
    place.resolve resolver kind = .ok resolved →
    ∀ n, built.1 = .error (.nameConflict n) ↔ n = name ∧ place.Binds resolver name
  /-- Otherwise the selection is put last in what the place brings along, and is the root. -/
  selected : ∀ filter place name program scope, parts.Accepted supply filter place name →
    place.resolve resolver kind = .ok (program, scope) → ¬ place.Binds resolver name →
    built.1 = .ok ⟨name, program.append (.selection ⟨name, kind, scope, filter⟩)⟩
  /-- A name is taken if none is given, as soon as there are tags and a place. -/
  taken : built.2 =
    if parts.tags.read.isOk ∧ parts.place?.isSome ∧ parts.text?.isNone then supply.advance
    else supply

variable {parts : Parts} {kind : ElementKind} {resolver : Resolver} {supply : NameSupply}
  {filter : TagFilter} {place : Place} {name : SetName} {cause : QueryError}

/-! ### The checks in order -/

namespace Parts

/-- What is accepted is determined by the parts and the supply. So a selection that is described by
steps comes to one task at most. -/
theorem Accepted.eq {filter' : TagFilter} {place' : Place} {name' : SetName}
    (h : parts.Accepted supply filter place name)
    (h' : parts.Accepted supply filter' place' name') :
    filter = filter' ∧ place = place' ∧ name = name' :=
  ⟨Except.ok.inj (h.tags.symm.trans h'.tags), Option.some.inj (h.place.symm.trans h'.place),
    Option.some.inj (h.name.symm.trans h'.name)⟩

/-- A name that is given is accepted as it was read, and no name is generated then. -/
theorem Accepted.ofText? (h : parts.Accepted supply filter place name) {text : String}
    (htext : parts.text? = some text) : SetName.ofText? text = some name := by
  have hname := h.name
  rwa [name?, htext] at hname

/-- The draft of the parts is that of a call that is given the parts at once. So what is proved of
calls holds of selections that were described step by step. -/
theorem runOn_build_eq_call (parts : Parts) :
    ((parts.draft kind).build resolver).runOn supply =
      (Call.select kind parts.tags parts.text? parts.place? resolver).run.runOn supply := rfl

/-- Tags that are refused come first: neither the place nor the name is looked at, and no name is
taken. -/
theorem runOn_build_of_tags (htags : parts.tags.read = .error cause) :
    ((parts.draft kind).build resolver).runOn supply = (.error cause, supply) := by
  rw [runOn_build_eq_call, Call.runOn_of_error]
  rw [Call.task?, htags]
  rfl

/-- A missing place comes next. It is reported even if the name could not be read either. -/
theorem runOn_build_of_place (htags : parts.tags.read = .ok filter) (hplace : parts.place? = none) :
    ((parts.draft kind).build resolver).runOn supply = (.error .placeMissing, supply) := by
  rw [runOn_build_eq_call, Call.runOn_of_error]
  rw [Call.task?, htags, hplace]
  rfl

/-- With tags and a place, a selection is a task. What may still be refused is the name and what the
task does with the place. -/
theorem runOn_build_eq_task (htags : parts.tags.read = .ok filter)
    (hplace : parts.place? = some place) :
    ((parts.draft kind).build resolver).runOn supply =
      (Task.select kind filter place resolver).runOn parts.text? supply := by
  rw [runOn_build_eq_call, Call.runOn_of_task]
  · rfl
  · rw [Call.task?, htags, hplace]
    rfl

/-- A name that is no set name is refused before the place is resolved. -/
theorem runOn_build_of_text (htags : parts.tags.read = .ok filter)
    (hplace : parts.place? = some place) {text : String} (htext : parts.text? = some text)
    (hname : SetName.ofText? text = none) :
    ((parts.draft kind).build resolver).runOn supply = (.error (.invalidName text), supply) := by
  rw [runOn_build_eq_task htags hplace, htext, Task.runOn, SetName.parse, hname]
  rfl

/-- Once all parts are accepted, the name is settled, and the rest does not touch the supply. -/
theorem runOn_build_of_accepted (h : parts.Accepted supply filter place name) :
    ((parts.draft kind).build resolver).runOn supply =
      (Draft.finish resolver kind filter place name,
        if parts.text?.isNone then supply.advance else supply) := by
  have hname := h.name
  rw [name?] at hname
  rw [runOn_build_eq_task h.tags h.place]
  cases htext : parts.text? with
  | none =>
      rw [htext] at hname
      cases hname
      rfl
  | some text =>
      rw [htext] at hname
      rw [Task.runOn, SetName.parse_eq_ok_iff.mpr hname]
      rfl

end Parts

/-- An insertion is refused for its name only, by a definition that is there and does not agree. -/
theorem ne_of_insert_eq_error {program : Program} {definition : Definition}
    (h : program.insert definition = .error cause) : cause = .nameConflict definition.name := by
  rw [insert_eq] at h
  split_ifs at h
  exact (Except.error.inj h).symm

/-- What refuses a selection once its parts are accepted, other than its name, is its place. -/
theorem finish_eq_error_iff {tags : TagFilter} (h : ∀ n, cause ≠ .nameConflict n) :
    finish resolver kind tags place name = .error cause ↔
      place.resolve resolver kind = .error cause := by
  rw [finish, bind_eq_error_iff, or_iff_left]
  rintro ⟨⟨program, scope⟩, -, hinsert⟩
  rcases bind_eq_error_iff.mp hinsert with hrefused | ⟨extended, -, hdone⟩
  · exact h _ (ne_of_insert_eq_error hrefused)
  · cases hdone

namespace Outcome

variable {built : Except QueryError Query × NameSupply}

theorem of_tags (htags : parts.tags.read = .error cause) (h : built = (.error cause, supply)) :
    Outcome parts kind resolver supply built := by
  obtain ⟨token, rfl⟩ := TagInput.exists_tagSyntax_of_read htags
  have hrefused : ∀ filter, parts.tags.read ≠ .ok filter :=
    fun filter hfilter => by cases htags.symm.trans hfilter
  subst h
  exact {
    tagSyntax := by simp [htags]
    placeMissing := fun filter h => absurd h (hrefused filter)
    invalidName := fun filter _ h => absurd h (hrefused filter)
    operationAsScope := fun filter _ _ h => absurd h.tags (hrefused filter)
    region := fun filter _ _ h => absurd h.tags (hrefused filter)
    nameConflict := fun filter _ _ _ h => absurd h.tags (hrefused filter)
    selected := fun filter _ _ _ _ h => absurd h.tags (hrefused filter)
    taken := by simp [htags, Except.isOk, Except.toBool] }

theorem of_place (htags : parts.tags.read = .ok filter) (hplace : parts.place? = none)
    (h : built = (.error .placeMissing, supply)) : Outcome parts kind resolver supply built := by
  have hrefused : ∀ place, parts.place? ≠ some place :=
    fun place hsome => by cases hplace.symm.trans hsome
  subst h
  exact {
    tagSyntax := by simp [htags]
    placeMissing := by simp [hplace]
    invalidName := fun _ place _ h => absurd h (hrefused place)
    operationAsScope := fun _ place _ h => absurd h.place (hrefused place)
    region := fun _ place _ h => absurd h.place (hrefused place)
    nameConflict := fun _ place _ _ h => absurd h.place (hrefused place)
    selected := fun _ place _ _ _ h => absurd h.place (hrefused place)
    taken := by simp [hplace] }

theorem of_text (htags : parts.tags.read = .ok filter) (hplace : parts.place? = some place)
    {text : String} (htext : parts.text? = some text) (hname : SetName.ofText? text = none)
    (h : built = (.error (.invalidName text), supply)) :
    Outcome parts kind resolver supply built := by
  have hrefused : ∀ filter place name, ¬ parts.Accepted supply filter place name := by
    intro filter place name h
    cases hname.symm.trans (h.ofText? htext)
  subst h
  exact {
    tagSyntax := by simp [htags]
    placeMissing := by simp [hplace]
    invalidName := by
      intro _ _ _ _ other
      simp only [htext, Except.error.injEq, QueryError.invalidName.injEq, Option.some.injEq]
      exact ⟨fun heq => ⟨heq, heq ▸ hname⟩, And.left⟩
    operationAsScope := fun _ _ _ h => absurd h (hrefused _ _ _)
    region := fun _ _ _ h => absurd h (hrefused _ _ _)
    nameConflict := fun _ _ _ _ h => absurd h (hrefused _ _ _)
    selected := fun _ _ _ _ _ h => absurd h (hrefused _ _ _)
    taken := by simp [htext] }

/-- Once all parts are accepted, what remains are the place and the name. A generated name is taken
in any case, also if the place is refused afterwards. -/
theorem of_accepted (haccepted : parts.Accepted supply filter place name)
    (hplace : ∀ source, place = .query source → ∃ e, Formed e source)
    (h : built = (finish resolver kind filter place name,
      if parts.text?.isNone then supply.advance else supply)) :
    Outcome parts kind resolver supply built := by
  -- None of the checks that were passed can be what refuses the selection.
  have hpassed : ∀ cause, (∀ n, cause ≠ .nameConflict n) →
      (∀ n, cause ≠ .operationAsScope n) → (∀ refusal, cause ≠ .region refusal) →
      finish resolver kind filter place name ≠ .error cause := by
    intro cause hconflict hscope hregion hfinish
    rcases Place.resolve_eq_error_iff.mp ((finish_eq_error_iff hconflict).mp hfinish) with
      ⟨source, -, -, hcause⟩ | ⟨refusal, -, hcause⟩
    · exact hscope _ hcause
    · exact hregion _ hcause
  subst h
  exact {
    tagSyntax := by
      refine iff_of_false ?_ (by simp [haccepted.tags])
      rintro ⟨token, htoken⟩
      exact hpassed (.tagSyntax token) (by simp) (by simp) (by simp) htoken
    placeMissing := by
      intro _ _
      exact iff_of_false (hpassed .placeMissing (by simp) (by simp) (by simp))
        (by simp [haccepted.place])
    invalidName := by
      intro _ _ _ _ text
      refine iff_of_false (hpassed (.invalidName text) (by simp) (by simp) (by simp)) ?_
      rintro ⟨hsome, hnone⟩
      cases hnone.symm.trans (haccepted.ofText? hsome)
    operationAsScope := by
      intro _ _ _ h n
      obtain ⟨rfl, rfl, rfl⟩ := haccepted.eq h
      exact (finish_eq_error_iff (by simp)).trans Place.resolve_eq_operationAsScope_iff
    region := by
      intro _ _ _ h cause
      obtain ⟨rfl, rfl, rfl⟩ := haccepted.eq h
      exact (finish_eq_error_iff (by simp)).trans Place.resolve_eq_region_iff
    nameConflict := by
      rintro _ _ _ ⟨program, scope⟩ h hresolve n
      obtain ⟨rfl, rfl, rfl⟩ := haccepted.eq h
      rw [Formed.finish_eq hplace hresolve, ← Place.mem_names_iff_binds hresolve]
      split_ifs with hbound <;> simp [hbound, eq_comm]
    selected := by
      intro _ _ _ program scope h hresolve hfree
      obtain ⟨rfl, rfl, rfl⟩ := haccepted.eq h
      rw [← Place.mem_names_iff_binds hresolve] at hfree
      exact (Formed.finish_eq hplace hresolve filter name).trans (if_neg hfree)
    taken := by simp [haccepted.tags, haccepted.place, Except.isOk, Except.toBool] }

end Outcome

/-- What building comes to, check by check, in the order in which the checks are made. Each check
that fails is the last one to be made. -/
theorem Parts.outcome (parts : Parts) (kind : ElementKind) (resolver : Resolver)
    (supply : NameSupply)
    (hplace : ∀ source, parts.place? = some (.query source) → ∃ e, Formed e source) :
    Outcome parts kind resolver supply
      (((parts.draft kind).build resolver).runOn supply) := by
  cases htags : parts.tags.read with
  | error cause => exact .of_tags htags (runOn_build_of_tags htags)
  | ok filter =>
      cases hgiven : parts.place? with
      | none => exact .of_place htags hgiven (runOn_build_of_place htags hgiven)
      | some place =>
          have hsource : ∀ source, place = .query source → ∃ e, Formed e source :=
            fun source heq => hplace source (hgiven.trans (congrArg some heq))
          cases hname : parts.name? supply with
          | some name =>
              have haccepted : parts.Accepted supply filter place name := ⟨htags, hgiven, hname⟩
              exact .of_accepted haccepted hsource (runOn_build_of_accepted haccepted)
          | none =>
              cases htext : parts.text? with
              | none => simp [name?, htext] at hname
              | some text =>
                  rw [name?, htext] at hname
                  exact .of_text htags hgiven htext hname
                    (runOn_build_of_text htags hgiven htext hname)

/-- **Building a selection.** Whatever a selection was told, and in whatever order, only the last
tags, the last name and the first place count, and building it comes to what the checks of these
parts, made in a fixed order, come to. -/
theorem outcome_of_steps (kind : ElementKind) (resolver : Resolver) (supply : NameSupply)
    (steps : List Step)
    (hplace : ∀ source, (Parts.ofSteps steps).place? = some (.query source) → source.Reachable) :
    (∀ others, Parts.ofSteps others = Parts.ofSteps steps →
      (ofSteps kind others).build resolver = (ofSteps kind steps).build resolver) ∧
    Outcome (Parts.ofSteps steps) kind resolver supply
      (((ofSteps kind steps).build resolver).runOn supply) := by
  constructor
  · intro others hothers
    rw [ofSteps_eq, ofSteps_eq, hothers]
  · rw [ofSteps_eq]
    exact (Parts.ofSteps steps).outcome kind resolver supply
      fun source hsource => (hplace source hsource).exists_formed

/-- Told to look among the nodes of the park first of all, a selection looks nowhere else. Its name
is bound there, and without a name it takes one. -/
theorem outcome_of_steps_park :
    ((ofSteps .way [.place (.query Park.nodes), .tags (.text "="), .name "ways",
      .place (.region Park.region), .tags (.filter .empty), .name "nodes"]).build .natural).runOn
        .initial = (.error (.nameConflict ⟨"nodes"⟩), .initial) ∧
    ((ofSteps .way [.tags (.text "="), .place (.query Park.nodes), .tags (.filter .empty),
      .place (.region Park.region)]).build .natural).runOn .initial =
        (.ok ⟨⟨"_s1"⟩, Park.nodes.program.append
          (.selection ⟨⟨"_s1"⟩, .way, .named ⟨"nodes"⟩, .empty⟩)⟩, ⟨2⟩) := by
  have hreachable : ∀ source, some (Place.query Park.nodes) = some (.query source) →
      source.Reachable := by
    rintro source ⟨⟩
    exact ⟨_, Park.built_nodes⟩
  have hfree : ¬ Park.nodes.program.binds ⟨"_s1"⟩ = true := by decide
  have hname : (Parts.ofSteps [.tags (.text "="), .place (.query Park.nodes),
      .tags (.filter .empty), .place (.region Park.region)]).name? .initial = some ⟨"_s1"⟩ := rfl
  have hnamed := (outcome_of_steps .way .natural .initial [.place (.query Park.nodes),
    .tags (.text "="), .name "ways", .place (.region Park.region), .tags (.filter .empty),
    .name "nodes"] hreachable).2
  have hunnamed := (outcome_of_steps .way .natural .initial [.tags (.text "="),
    .place (.query Park.nodes), .tags (.filter .empty), .place (.region Park.region)]
    hreachable).2
  refine ⟨Prod.ext ?_ hnamed.taken, Prod.ext ?_ hunnamed.taken⟩
  · exact (hnamed.nameConflict .empty (.query Park.nodes) ⟨"nodes"⟩ _ ⟨rfl, rfl, rfl⟩ rfl _).mpr
      ⟨rfl, rfl⟩
  · exact hunnamed.selected .empty (.query Park.nodes) ⟨"_s1"⟩ _ _ ⟨rfl, rfl, hname⟩ rfl hfree

end Draft

end Overpass
