import Overpass.Proofs.Program.Join
import Overpass.Proofs.Query.Call
import Overpass.Proofs.Query.Lines
import Overpass.Proofs.Request.Reading
import Overpass.Proofs.SetName.Generated

/-!
# The parts of a request

Once the texts of a request are read, what it asks for is determined: one area, the selection of the
wanted elements in it, a second selection and a difference if some elements are to be left out, and
a recursion if a direction is to be followed. Putting these parts together never fails, whatever the
texts say. A name that is given is neither the name of a region nor a generated one, generated names
differ from each other and from the names of regions, and a resolved region is equal to itself, so
that both selections can share its area.

## Main Definitions

* `Request.Parts`: the definitions that a request asks for
* `Request.Parts.AskedBy`: whether parts are what a request asks for, clause by clause
* `Request.Reading.parts`: the parts under the names that a supply gives
* `Request.runOn`: the answer to a request, with names from any supply
* `Request.Shows`: whether an answer shows a query, as its dump or as the text of its script

## Main Statements

* `Request.runOn_query_of_readIn`, `Request.runOn_query_of_error`: the query of a request is made up
  of its parts, or one of its texts is refused
* `Request.answered_with_parts`: what becomes of a request, clause by clause
-/

namespace Overpass

open Program

/-! ### Names that stay apart -/

namespace NameSupply

variable {supply later : NameSupply}

/-- The name that is given, or else the next generated one. -/
def nameOr (supply : NameSupply) (given : Option SetName) : SetName := given.getD supply.name

/-- The supply after that. -/
def afterNameOr (supply : NameSupply) (given : Option SetName) : NameSupply :=
  if given.isSome then supply else supply.advance

/-- A generated name is never that of a resolved region, since generated names are numbers and those
of regions are keys. -/
theorem name_ne_region {region : Region} (h : region.Resolved) (supply : NameSupply) :
    supply.name ≠ region.name := by
  rw [h.name_eq]
  exact SetName.numbered_ne_ofKey _ _

/-- Names that are generated close after one another differ. Far apart they might meet, as the
numbers start again after the last one. -/
theorem name_ne_of_lt (hlt : supply.next < later.next) (hle : later.next ≤ supply.next + 3) :
    supply.name ≠ later.name := by
  have hround : 3 < UInt64.size := by decide
  exact name_ne_name hlt (by omega)

variable {text? : Option String} {given : Option SetName}
variable (hgiven : Option.Rel (fun text n => SetName.parse text = .ok n) text? given)
include hgiven

/-- What is given or generated is not the name of a resolved region: names of that form are refused
to callers. -/
theorem nameOr_ne_region {region : Region} (h : region.Resolved) (supply : NameSupply) :
    supply.nameOr given ≠ region.name := by
  cases hgiven with
  | none => exact name_ne_region h supply
  | some hparse =>
      rintro heq
      rw [nameOr, Option.getD_some, h.name_eq] at heq
      exact SetName.parse_ne_ok_ofKey _ _ (heq ▸ hparse)

/-- What is given or taken first is not taken later, within the few names that a request takes. -/
theorem nameOr_ne_name (hle : (supply.afterNameOr given).next ≤ later.next)
    (hlt : later.next < (supply.afterNameOr given).next + 3) :
    supply.nameOr given ≠ later.name := by
  cases hgiven with
  | none =>
      have hnext : (supply.afterNameOr none).next = supply.next + 1 := rfl
      exact name_ne_of_lt (by omega) (by omega)
  | some hparse =>
      rintro heq
      rw [nameOr, Option.getD_some] at heq
      exact SetName.parse_ne_ok_numbered _ _ (heq ▸ hparse)

/-- A region, what is named in it, and what is named after that have different names. -/
theorem nodup_names {region : Region} (h : region.Resolved) (supply : NameSupply) :
    [region.name, supply.nameOr given, (supply.afterNameOr given).name,
      (supply.afterNameOr given).advance.name,
      (supply.afterNameOr given).advance.advance.name].Nodup := by
  have hregion : ∀ s : NameSupply, region.name ≠ s.name := fun s => (name_ne_region h s).symm
  have hfirst := (nameOr_ne_region hgiven h supply).symm
  have hlater : ∀ later : NameSupply, (supply.afterNameOr given).next ≤ later.next →
      later.next < (supply.afterNameOr given).next + 3 → supply.nameOr given ≠ later.name :=
    fun later hle hlt => nameOr_ne_name hgiven hle hlt
  generalize supply.afterNameOr given = rest at hlater ⊢
  have hnext : rest.advance.next = rest.next + 1 := rfl
  have hnext' : rest.advance.advance.next = rest.next + 2 := rfl
  simp only [List.nodup_cons, List.mem_cons, List.not_mem_nil, or_false, not_or]
  exact ⟨⟨hfirst, hregion _, hregion _, hregion _⟩,
    ⟨hlater _ (by omega) (by omega), hlater _ (by omega) (by omega),
      hlater _ (by omega) (by omega)⟩,
    ⟨name_ne_of_lt (by omega) (by omega), name_ne_of_lt (by omega) (by omega)⟩,
    name_ne_of_lt (by omega) (by omega), not_false, List.nodup_nil⟩

end NameSupply

/-! ### Selections in an area -/

/-- The elements with some tags in an area. -/
def Area.select (area : Area) (name : SetName) (tags : TagFilter) : Selection :=
  ⟨name, area.kind, .named area.name, tags⟩

@[simp] theorem Area.name_select (area : Area) (name : SetName) (tags : TagFilter) :
    (area.select name tags).name = name := rfl

namespace Request

/-- The definitions that a request asks for: its area, the selection in it, and what there is of the
other parts. -/
structure Parts where
  area : Area
  /-- The selection of the wanted elements. -/
  main : Selection
  /-- The selection of the elements to leave out, and the difference. -/
  exclusion : Option (Selection × Operation)
  recursion : Option Operation

namespace Parts

/-- The name of the wanted elements, less those that are left out. It is what a recursion
follows. -/
def kept (parts : Parts) : SetName := parts.exclusion.elim parts.main.name fun part => part.2.name

/-- The name of the last part: of the recursion if there is one, and else of what is kept. -/
def root (parts : Parts) : SetName := parts.recursion.elim parts.kept Operation.name

/-- The parts put together, in the order in which a script prints them. -/
def query (parts : Parts) : Query where
  root := parts.root
  program :=
    { areas := [parts.area]
      selections := parts.main :: (parts.exclusion.map Prod.fst).toList
      operations := (parts.exclusion.map Prod.snd).toList ++ parts.recursion.toList }

/-- Whether parts are what a request asks for. This is said clause by clause in terms of the
request, and not of how it is processed. -/
structure AskedBy (parts : Parts) (request : Request) : Prop where
  /-- There is one area, of the kind of the request and in its region. -/
  area_kind : parts.area.kind = request.kind
  area_region : request.region = .ok parts.area.region
  /-- The wanted elements are selected in the area. -/
  main_eq : ∃ name tags, TagFilter.ofText request.tags = .ok tags ∧
    parts.main = parts.area.select name tags
  /-- They have the name that is given, if there is one. -/
  main_name : ∀ text, request.name = some text → SetName.parse text = .ok parts.main.name
  /-- If and only if elements are to be left out, they are selected in the area too, and subtracted
  from the wanted ones. -/
  exclusion : Option.Rel
    (fun text part => ∃ name tags, TagFilter.ofText text = .ok tags ∧
      part.1 = parts.area.select name tags ∧
      part.2.formula = .binary .difference parts.main.name name)
    request.exclude parts.exclusion
  /-- If and only if a direction is to be followed, it is followed from what is left. -/
  recursion : Option.Rel
    (fun marker operation => ∃ direction, Direction.parse marker = .ok direction ∧
      operation.formula = .recurse direction parts.kept)
    request.recurse parts.recursion

/-- The selection of the wanted elements alone. -/
def ofSelection (area : Area) (name : SetName) (tags : TagFilter) : Parts :=
  ⟨area, area.select name tags, none, none⟩

/-- Parts with a selection subtracted from the wanted elements. -/
def without (parts : Parts) (others : Selection) (name : SetName) : Parts :=
  { parts with
    exclusion := some (others, ⟨name, .binary .difference parts.main.name others.name⟩) }

/-- Parts with what is left followed in a direction. -/
def followed (parts : Parts) (direction : Direction) (name : SetName) : Parts :=
  { parts with recursion := some ⟨name, .recurse direction parts.kept⟩ }

variable {area : Area} {name other : SetName} {tags tags' : TagFilter} {parts : Parts}

/-- The names in the parts: those of the area and of the main selection, and then what there is of
the others. -/
theorem names_query (parts : Parts) : parts.query.program.names =
    parts.area.name :: parts.main.name :: ((parts.exclusion.map fun part => part.1.name).toList ++
      ((parts.exclusion.map fun part => part.2.name).toList ++
        (parts.recursion.map Operation.name).toList)) := by
  cases hexclusion : parts.exclusion <;> cases hrecursion : parts.recursion <;>
    simp [query, names_eq, namesOf, hexclusion, hrecursion]

/-! ### Putting parts together -/

theorem formed_ofSelection (hname : name ≠ area.name) :
    Formed (.inRegion area.kind tags area.region) (ofSelection area name tags).query :=
  .shared hname

/-- Selecting in a region gives the area of the region and the selection in it, if the names of the
two differ. -/
theorem finish_eq_ok {kind : ElementKind} {region : Region} (hname : name ≠ region.name)
    (resolver : Resolver) :
    Draft.finish resolver kind tags (.region region) name =
      .ok (ofSelection ⟨kind, region⟩ name tags).query := by
  have hplace : ∀ source, Place.region region = .query source → ∃ e, Formed e source :=
    fun _ h => nomatch h
  have hfree : name ∉ (Place.shared kind region).1.names :=
    fun h => hname (List.mem_singleton.mp h)
  rw [Formed.finish_eq hplace rfl]
  exact if_neg hfree

/-- Two selections in one area have compatible programs, since the area is equal to itself. That its
coordinates are finite is what this comes down to. -/
theorem compatible_ofSelection (hequal : area.region.Equal area.region) (hname : name ≠ area.name)
    (hother : other ≠ area.name) (hne : name ≠ other) :
    (ofSelection area name tags).query.program.Compatible
      (ofSelection area other tags').query.program := by
  rw [Program.compatible_iff (formed_ofSelection hname).wellFormed.nodup]
  intro d hd e he heq
  rcases List.mem_pair.mp hd with rfl | rfl <;> rcases List.mem_pair.mp he with rfl | rfl
  · exact hequal
  · exact absurd heq.symm hother
  · exact absurd heq hname
  · exact absurd heq hne

/-- An area that meets one of its own kind keeps its kind. So the area of a request is of the kind
of the request, also when elements are left out. -/
theorem widen_self (kind : ElementKind) : kind.widen kind = kind := by
  cases kind <;> rfl

/-- Two selections in one area share it when they are joined: the area is there once, and of the
same kind. -/
theorem join_ofSelection (hother : other ≠ area.name) (hne : name ≠ other) :
    (ofSelection area name tags).query.program.join (ofSelection area other tags').query.program =
      ⟨[area], [area.select name tags, area.select other tags'], []⟩ := by
  have hfound : (ofSelection area other tags').query.program.definition? area.name =
      some (.area area) := by
    simp [definition?, definitions, ofSelection, query, Definition.name]
  have hwiden : area.widenBy (some (.area area)) = area := by
    rw [Area.widenBy, widen_self]
  have hnames : (ofSelection area name tags).query.program.names = [area.name, name] := rfl
  refine (Program.mk.injEq ..).mpr ⟨?_, ?_, rfl⟩
  · rw [hnames]
    simp [ofSelection, query] at hfound ⊢
    rw [hfound, hwiden]
  · rw [hnames]
    simp [ofSelection, query, hother, hne.symm]

variable (area) in
/-- Subtracting a second selection in the same area succeeds: the two programs share nothing but the
area, which agrees with itself. -/
theorem difference_eq_ok {remainder : SetName} (hequal : area.region.Equal area.region)
    (hname : name ≠ area.name) (hother : other ≠ area.name) (hne : name ≠ other)
    (hremainder : remainder ∉ [area.name, name, other]) :
    Query.combine .difference (ofSelection area name tags).query
        (ofSelection area other tags').query remainder =
      .ok ((ofSelection area name tags).without (area.select other tags') remainder).query := by
  rw [(formed_ofSelection hname).combine_eq (formed_ofSelection hother) rfl
    (compatible_ofSelection hequal hname hother hne), join_ofSelection hother hne]
  exact if_neg hremainder

/-- Following a direction from the parts so far succeeds under a new name, and becomes their
root. -/
theorem follow_eq_ok {e : Expression} {direction : Direction} (hparts : Formed e parts.query)
    (hlast : parts.recursion = none) (hname : name ∉ parts.query.program.names) :
    Query.follow direction parts.query name = .ok (parts.followed direction name).query := by
  rw [hparts.follow_eq, if_neg hname]
  simp [extend, append, query, followed, root, hlast, Definition.name]

end Parts

/-! ### The parts that a supply names -/

namespace Reading

variable (reading : Reading) (kind : ElementKind) (supply : NameSupply)

/-- The parts before a direction is followed. Names are taken from the supply in the order of the
selections. -/
def kept : Parts :=
  let area : Area := ⟨kind, reading.region⟩
  let name := supply.nameOr reading.name
  let rest := supply.afterNameOr reading.name
  { area
    main := area.select name reading.tags
    exclusion := reading.others.map fun tags =>
      (area.select rest.name tags,
        ⟨rest.advance.name, .binary .difference name rest.name⟩)
    recursion := none }

/-- The supply after these parts were named. -/
def afterKept : NameSupply :=
  let rest := supply.afterNameOr reading.name
  if reading.others.isSome then rest.advance.advance else rest

/-- The parts that a request of a kind asks for, given what its texts say. -/
def parts : Parts :=
  let kept := reading.kept kind supply
  { kept with
    recursion := reading.direction.map fun direction =>
      ⟨(reading.afterKept supply).name, .recurse direction kept.kept⟩ }

end Reading

/-! ### Runs -/

section Runs

variable {request : Request} {region : Region} {reading : Reading} {supply : NameSupply}
variable {kind : ElementKind} {tags : TagFilter} {text : String} {text? : Option String}
variable {given : Option SetName} {cause : QueryError}

/-- The call that selects elements in a region. -/
def selectIn (kind : ElementKind) (text : String) (text? : Option String)
    (region : Region) : Call :=
  .select kind (.text text) text? (some (.region region)) .natural

theorem task?_selectIn (htags : TagFilter.ofText text = .ok tags) :
    (selectIn kind text text? region).task? =
      some (.ok (.select kind tags (.region region) .natural)) := by
  simp only [selectIn, Call.task?, TagInput.read, htags]
  rfl

/-- A selection in a region under the name that is given, or under a generated one. -/
theorem runOn_selectIn (hregion : region.Resolved) (htags : TagFilter.ofText text = .ok tags)
    (hgiven : Option.Rel (fun text n => SetName.parse text = .ok n) text? given) :
    (selectIn kind text text? region).run.runOn supply =
      (.ok (Parts.ofSelection ⟨kind, region⟩ (supply.nameOr given) tags).query,
        supply.afterNameOr given) := by
  have hfinish : Draft.finish .natural kind tags (.region region) (supply.nameOr given) =
      .ok (Parts.ofSelection ⟨kind, region⟩ (supply.nameOr given) tags).query :=
    Parts.finish_eq_ok (NameSupply.nameOr_ne_region hgiven hregion supply) .natural
  rw [Call.runOn_of_task (task?_selectIn htags)]
  show Task.runOn _ text? supply = _
  cases hgiven with
  | none => exact congrArg (·, supply.advance) hfinish
  | some hparse =>
      rw [Task.runOn, hparse]
      exact congrArg (·, supply) hfinish

/-- Tags that cannot be read are the reason for a refusal before any name is looked at or taken. -/
theorem runOn_selectIn_of_tags (htags : TagFilter.ofText text = .error cause) :
    (selectIn kind text text? region).run.runOn supply = (.error cause, supply) := by
  refine Call.runOn_of_error ?_
  simp only [selectIn, Call.task?, TagInput.read, htags]
  rfl

theorem runOn_selectIn_of_name {name : String} (htags : TagFilter.ofText text = .ok tags)
    (hname : SetName.parse name = .error cause) :
    (selectIn kind text (some name) region).run.runOn supply = (.error cause, supply) := by
  rw [Call.runOn_of_task (task?_selectIn htags)]
  show Task.runOn _ (some name) supply = _
  rw [Task.runOn, hname]
  rfl

theorem runOn_leaveOut_of_error {q : Query} (hexclude : request.exclude = some text)
    (htags : TagFilter.ofText text = .error cause) :
    (request.leaveOut region q).runOn supply = (.error cause, supply) := by
  rw [leaveOut, hexclude]
  show ((selectIn request.kind text none region).run >>= _).runOn supply = _
  rw [Fresh.runOn_bind, runOn_selectIn_of_tags htags]

theorem runOn_followUp_of_error {q : Query} (hrecurse : request.recurse = some text)
    (hparse : Direction.parse text = .error cause) :
    (request.followUp q).runOn supply = (.error cause, supply) := by
  rw [followUp, hrecurse]
  show (q.recurseMarker text).runOn supply = _
  rw [Query.recurseMarker, Fresh.runOn_bind, Fresh.runOn_lift, hparse]

/-- The draft of the wanted elements is that of a single selection, with or without a name. -/
theorem build_wanted (request : Request) (region : Region) :
    (request.wanted region).build .natural =
      (selectIn request.kind request.tags request.name region).run := by
  rw [wanted]
  cases request.name <;> rfl

section Named

variable (hregion : reading.region.Resolved)
variable (hgiven :
  Option.Rel (fun text n => SetName.parse text = .ok n) request.name reading.name)
include hregion hgiven

/-- Subtracting what is left out gives the parts that are kept, under the names that come next in
the supply. -/
theorem difference_eq_kept (hothers : reading.others = some tags) (kind : ElementKind)
    (supply : NameSupply) :
    Query.combine .difference
        (Parts.ofSelection ⟨kind, reading.region⟩ (supply.nameOr reading.name) reading.tags).query
        (Parts.ofSelection ⟨kind, reading.region⟩ (supply.afterNameOr reading.name).name tags).query
        (supply.afterNameOr reading.name).advance.name =
      .ok (reading.kept kind supply).query := by
  have hnames := NameSupply.nodup_names hgiven hregion supply
  simp only [List.nodup_cons, List.mem_cons, List.not_mem_nil, or_false, not_or] at hnames
  obtain ⟨⟨hname, hother, hremainder, -⟩, ⟨hne, hne', -⟩, ⟨hne'', -⟩, -⟩ := hnames
  have hlast : (supply.afterNameOr reading.name).advance.name ∉ [reading.region.name,
      supply.nameOr reading.name, (supply.afterNameOr reading.name).name] := by
    simp only [List.mem_cons, List.not_mem_nil, or_false, not_or]
    exact ⟨Ne.symm hremainder, Ne.symm hne', Ne.symm hne''⟩
  rw [Parts.difference_eq_ok ⟨kind, reading.region⟩ hregion.equal_self (Ne.symm hname)
    (Ne.symm hother) hne hlast, Reading.kept, hothers]
  rfl

/-- The parts that are kept make up a built query, with or without a subtraction. -/
theorem exists_formed_kept (kind : ElementKind) (supply : NameSupply) :
    ∃ e, Formed e (reading.kept kind supply).query := by
  have hmain := NameSupply.nameOr_ne_region hgiven hregion supply
  have hformed : Formed _ (Parts.ofSelection ⟨kind, reading.region⟩ (supply.nameOr reading.name)
    reading.tags).query := Parts.formed_ofSelection hmain
  cases hothers : reading.others with
  | none =>
      rw [Reading.kept, hothers]
      exact ⟨_, hformed⟩
  | some tags =>
      have hother : Formed _ (Parts.ofSelection ⟨kind, reading.region⟩
          (supply.afterNameOr reading.name).name tags).query :=
        Parts.formed_ofSelection (NameSupply.name_ne_region hregion _)
      exact ⟨_, hformed.combine hother (difference_eq_kept hregion hgiven hothers kind supply)⟩

/-- The name after the parts that are kept is new to them, so a recursion can be named by it. -/
theorem name_notMem_names_kept (kind : ElementKind) (supply : NameSupply) :
    (reading.afterKept supply).name ∉ (reading.kept kind supply).query.program.names := by
  have hnames := NameSupply.nodup_names hgiven hregion supply
  simp only [List.nodup_cons, List.mem_cons, List.not_mem_nil, or_false, not_or] at hnames
  obtain ⟨⟨-, hr1, -, hr3⟩, ⟨hm1, -, hm3⟩, ⟨-, ho⟩, hd, -⟩ := hnames
  rw [Parts.names_query, Reading.afterKept, Reading.kept]
  cases hothers : reading.others with
  | none =>
      simp [Area.name]
      exact ⟨Ne.symm hr1, Ne.symm hm1⟩
  | some tags =>
      simp [Area.name]
      exact ⟨Ne.symm hr3, Ne.symm hm3, Ne.symm ho, Ne.symm hd⟩

/-- Leaving out what a request leaves out gives the parts that are kept, and the supply after their
names. -/
theorem runOn_leaveOut
    (hothers : Option.Rel (fun text tags => TagFilter.ofText text = .ok tags) request.exclude
      reading.others) (supply : NameSupply) :
    (request.leaveOut reading.region (Parts.ofSelection ⟨request.kind, reading.region⟩
        (supply.nameOr reading.name) reading.tags).query).runOn (supply.afterNameOr reading.name) =
      (.ok (reading.kept request.kind supply).query, reading.afterKept supply) := by
  have hdifference := fun tags hothers => difference_eq_kept hregion hgiven
    (show reading.others = some tags from hothers) request.kind supply
  rw [leaveOut, Reading.afterKept]
  generalize hgivenOthers : reading.others = others at hothers hdifference ⊢
  generalize request.exclude = exclude at hothers ⊢
  cases hothers with
  | none =>
      show (Except.ok _, _) = _
      rw [Reading.kept, hgivenOthers]
      rfl
  | @some text tags hread =>
      show ((selectIn request.kind text none reading.region).run >>= _).runOn _ = _
      rw [Fresh.runOn_bind, runOn_selectIn hregion hread .none]
      exact congrArg (·, (supply.afterNameOr reading.name).advance.advance) (hdifference tags rfl)

/-- Following a direction, if there is one, gives all parts. -/
theorem runOn_followUp
    (hdirection : Option.Rel (fun marker direction => Direction.parse marker = .ok direction)
      request.recurse reading.direction) (supply : NameSupply) :
    ((request.followUp (reading.kept request.kind supply).query).runOn
      (reading.afterKept supply)).1 = .ok (reading.parts request.kind supply).query := by
  obtain ⟨e, hkept⟩ := exists_formed_kept hregion hgiven request.kind supply
  have hname := name_notMem_names_kept hregion hgiven request.kind supply
  rw [followUp, Reading.parts]
  generalize reading.direction = direction? at hdirection ⊢
  generalize request.recurse = marker? at hdirection ⊢
  cases hdirection with
  | none => rfl
  | @some marker direction hparse =>
      have hfollow : Query.follow direction _ _ = _ := Parts.follow_eq_ok hkept rfl hname
      show ((Query.recurseMarker _ marker).runOn _).1 = _
      rw [Query.recurseMarker, Fresh.runOn_bind, Fresh.runOn_lift, hparse]
      exact hfollow

end Named

/-- **The query of a request is made up of its parts** if all texts can be read. Selecting, leaving
out and following are each done under the next names of the supply, and none of them fails. -/
theorem runOn_query_of_readIn (hregion : region.Resolved)
    (hread : request.readIn region = .ok reading) (supply : NameSupply) :
    ((request.query region).runOn supply).1 = .ok (reading.parts request.kind supply).query := by
  obtain ⟨rfl, htags, hgiven, hothers, hdirection⟩ := readIn_eq_ok_iff.mp hread
  rw [Request.query, build_wanted, Fresh.runOn_bind, runOn_selectIn hregion htags hgiven]
  dsimp only
  rw [Fresh.runOn_bind, runOn_leaveOut hregion hgiven hothers]
  exact runOn_followUp hregion hgiven hdirection supply

/-- The first text that cannot be read is the reason for which a request is refused, in the order of
tags, name, tags to leave out, and direction. -/
theorem runOn_query_of_error (hregion : region.Resolved)
    (hread : request.readIn region = .error cause) (supply : NameSupply) :
    ((request.query region).runOn supply).1 = .error cause := by
  simp only [readIn, bind_eq_error_iff, option_mapM_eq_ok_iff] at hread
  rw [Request.query, build_wanted, Fresh.runOn_bind]
  rcases hread with htags | ⟨tags, htags, hname | ⟨given, hgiven, hread⟩⟩
  · rw [runOn_selectIn_of_tags htags]
  · obtain ⟨text, htext, hparse⟩ := exists_of_option_mapM_eq_error hname
    rw [htext, runOn_selectIn_of_name htags hparse]
  · rw [runOn_selectIn hregion htags hgiven]
    dsimp only
    rw [Fresh.runOn_bind]
    rcases hread with hothers | ⟨others, hothers, hdirection | ⟨_, -, hdone⟩⟩
    · obtain ⟨text, htext, hrefused⟩ := exists_of_option_mapM_eq_error hothers
      rw [runOn_leaveOut_of_error htext hrefused]
    · obtain ⟨marker, hmarker, hparse⟩ := exists_of_option_mapM_eq_error hdirection
      -- What is kept does not depend on the direction that cannot be read.
      let reading : Reading := ⟨region, tags, given, others, none⟩
      have hkept := runOn_leaveOut (show reading.region.Resolved from hregion) hgiven hothers supply
      dsimp only [reading] at hkept
      rw [hkept]
      dsimp only
      rw [runOn_followUp_of_error hmarker hparse]
    · cases hdone

end Runs

/-! ### Answers -/

variable {request : Request} {reading : Reading}

/-- Answers a request with names from any supply. The program answers with an untouched one. -/
def runOn (request : Request) (supply : NameSupply) : Except RequestError Answer := do
  let region ← request.region
  let result := ((request.query region).runOn supply).1
  (result >>= request.answer).mapError .query

/-- All parts together make up a built query too. So its script is printed without being refused. -/
theorem exists_formed_parts (hregion : reading.region.Resolved)
    (hgiven : Option.Rel (fun text n => SetName.parse text = .ok n) request.name reading.name)
    (kind : ElementKind) (supply : NameSupply) :
    ∃ e, Formed e (reading.parts kind supply).query := by
  obtain ⟨e, hkept⟩ := exists_formed_kept hregion hgiven kind supply
  have hname := name_notMem_names_kept hregion hgiven kind supply
  rw [Reading.parts]
  cases reading.direction with
  | none => exact ⟨e, hkept⟩
  | some direction =>
      exact ⟨_, hkept.follow (Parts.follow_eq_ok hkept rfl hname)⟩

/-- All names in the parts are valid: that of the region is made from its key, that of the wanted
elements is given or generated, and the others are generated. -/
theorem namesValid_parts (hregion : reading.region.Resolved)
    (hgiven : Option.Rel (fun text n => SetName.parse text = .ok n) request.name reading.name)
    (kind : ElementKind) (supply : NameSupply) :
    (reading.parts kind supply).query.program.NamesValid := by
  have hplace : reading.region.name.IsValid := by
    rw [hregion.name_eq]
    exact SetName.isValid_ofKey _
  have hgenerated : ∀ s : NameSupply, s.name.IsValid := fun s => SetName.isValid_numbered _
  have hmain : (supply.nameOr reading.name).IsValid := by
    generalize reading.name = given at hgiven ⊢
    generalize request.name = text? at hgiven
    cases hgiven with
    | none => exact hgenerated supply
    | some hparse => exact SetName.isValid_of_parse_eq_ok hparse
  rw [Program.NamesValid, Parts.names_query, Reading.parts, Reading.kept]
  cases reading.others <;> cases reading.direction <;>
    simp [Area.name, hplace, hmain, hgenerated]

/-- Whether an answer shows a query in the way that a request asks for: as a dump, or as the text of
a script with the settings of the request. -/
inductive Shows (request : Request) (q : Query) : Answer → Prop
  /-- The dump is the whole answer. -/
  | dump (h : request.dump = true) : Shows request q (.dump q.dumpText)
  /-- The answer is the text of the lines of the script, which say what the definitions of the query
  say, in their order. -/
  | script {lines : List String} {text : String} (h : request.dump = false)
      (hlines : q.lines request.settings = .ok lines) (hscript : q.IsScript request.settings lines)
      (hprint : q.print request.settings = .ok text) : Shows request q (.script text)

/-- A built query of valid names can be shown, whichever way is asked for. Dumps are always given,
and scripts are printed because built queries are well-formed. -/
theorem exists_answer (request : Request) {e : Expression} {q : Query} (h : Formed e q)
    (hnames : q.program.NamesValid) :
    ∃ answer, request.answer q = .ok answer ∧ request.Shows q answer := by
  rw [Request.answer]
  cases hdump : request.dump with
  | true => exact ⟨_, rfl, .dump hdump⟩
  | false =>
      have hlines := Query.lines_eq_of_formed h request.settings
      have hscript :=
        Query.isScript_lines h.wellFormed h.root_mem_names hnames request.settings
      have hprint : q.print request.settings = .ok ("\n".intercalate (request.settings.header ++
          q.program.definitions.map Definition.line ++ request.settings.footer q.root)) := by
        rw [Query.print, hlines]
        rfl
      refine ⟨.script _, ?_, .script hdump hlines hscript hprint⟩
      rw [hprint]
      rfl

/-- The parts are what the request asks for, clause by clause, each as it was read from its text. -/
theorem askedBy_parts (hregion : request.region = .ok reading.region)
    (hread : request.readIn reading.region = .ok reading) (supply : NameSupply) :
    (reading.parts request.kind supply).AskedBy request := by
  obtain ⟨-, htags, hgiven, hothers, hdirection⟩ := readIn_eq_ok_iff.mp hread
  refine ⟨rfl, hregion, ⟨_, _, htags, rfl⟩, ?_, ?_, ?_⟩
  · intro text htext
    show SetName.parse text = .ok (supply.nameOr reading.name)
    rw [htext] at hgiven
    generalize reading.name = given at hgiven ⊢
    cases hgiven with
    | some hparse => exact hparse
  · exact rel_map_right hothers fun htags => ⟨_, _, htags, rfl, rfl⟩
  · exact rel_map_right hdirection fun hparse => ⟨_, hparse, rfl⟩

/-- A request all of whose texts can be read is answered with its parts. They make up the query that
it asks for, and the answer shows that query. -/
theorem runOn_of_read (hread : request.read = .ok reading) (supply : NameSupply) :
    ∃ parts : Parts, parts.AskedBy request ∧ parts.query.program.names.Nodup ∧
      ((request.query parts.area.region).runOn supply).1 = .ok parts.query ∧
      ∃ answer, request.answer parts.query = .ok answer ∧ request.Shows parts.query answer ∧
        request.runOn supply = .ok answer := by
  obtain ⟨region, hregion, hread⟩ := bind_eq_ok_iff.mp hread
  have hread := mapError_eq_ok_iff.mp hread
  obtain ⟨rfl, -, hgiven, -⟩ := readIn_eq_ok_iff.mp hread
  have hresolved := resolved_of_region hregion
  have hnames := namesValid_parts hresolved hgiven request.kind supply
  have hquery := runOn_query_of_readIn hresolved hread supply
  obtain ⟨e, hformed⟩ := exists_formed_parts hresolved hgiven request.kind supply
  obtain ⟨answer, hanswer, hshows⟩ := exists_answer request hformed hnames
  refine ⟨_, askedBy_parts hregion hread supply, hformed.wellFormed.nodup, hquery, answer, hanswer,
    hshows, ?_⟩
  rw [runOn, hregion]
  show ((((request.query reading.region).runOn supply).1 >>= request.answer).mapError _) = _
  rw [hquery]
  exact mapError_eq_ok_iff.mpr hanswer

/-- A request whose texts are refused is refused for the same reason, with names from any supply. -/
theorem runOn_of_error {cause : RequestError} (hread : request.read = .error cause)
    (supply : NameSupply) : request.runOn supply = .error cause := by
  rw [runOn]
  rcases bind_eq_error_iff.mp hread with hregion | ⟨region, hregion, hreadIn⟩
  · rw [hregion]
    rfl
  · obtain ⟨refusal, hrefusal, rfl⟩ := mapError_eq_error_iff.mp hreadIn
    rw [hregion]
    show ((((request.query region).runOn supply).1 >>= request.answer).mapError _) = _
    rw [runOn_query_of_error (resolved_of_region hregion) hrefusal]
    rfl

/-- A request that is answered had all of its texts read. With the two lemmas above, being readable
is the same as being answered. -/
theorem exists_read_of_runOn {supply : NameSupply} {answer : Answer}
    (h : request.runOn supply = .ok answer) : ∃ reading, request.read = .ok reading := by
  cases hread : request.read with
  | ok reading => exact ⟨reading, rfl⟩
  | error cause =>
      rw [runOn_of_error hread] at h
      cases h

/-- A request that is refused is refused while its texts are read: putting the parts together never
fails. -/
theorem read_eq_error_of_runOn {supply : NameSupply} {cause : RequestError}
    (h : request.runOn supply = .error cause) : request.read = .error cause := by
  cases hread : request.read with
  | error refusal =>
      rw [runOn_of_error hread] at h
      cases h
      rfl
  | ok reading =>
      obtain ⟨-, -, -, -, answer, -, -, hanswer⟩ := runOn_of_read hread supply
      rw [hanswer] at h
      cases h

/-- **A request is answered with the parts that it asks for.** It is refused only for a text that
cannot be read or is missing, never because its parts do not fit together. Otherwise the query that
it asks for has one area of the kind of the request, the selection in it, the exclusion and the
recursion if and only if they are asked for, and its root is the last of these. This query is what
the answer shows, by its dump or by a script whose lines make the statements of these parts. Of the
texts of a region only the first one given counts. -/
theorem answered_with_parts (request : Request) (supply : NameSupply) :
    request.run = request.runOn .initial ∧
    (∀ cause, request.runOn supply = .error cause → cause.IsOfTexts) ∧
    ((∃ reading, request.read = .ok reading) ↔ ∃ answer, request.runOn supply = .ok answer) ∧
    (∀ answer, request.runOn supply = .ok answer →
      ∃ parts : Parts, parts.AskedBy request ∧ parts.query.program.names.Nodup ∧
        ((request.query parts.area.region).runOn supply).1 = .ok parts.query ∧
        request.answer parts.query = .ok answer ∧ request.Shows parts.query answer) ∧
    (request.bbox.isSome → ∀ coords shape,
      { request with coords, shape }.runOn supply = request.runOn supply) ∧
    (request.coords.isSome → ∀ shape,
      { request with shape }.runOn supply = request.runOn supply) := by
  refine ⟨rfl, fun cause h => isOfTexts_of_read (read_eq_error_of_runOn h), ?_, ?_, ?_, ?_⟩
  · constructor
    · rintro ⟨reading, hread⟩
      obtain ⟨-, -, -, -, answer, -, -, hanswer⟩ := runOn_of_read hread supply
      exact ⟨answer, hanswer⟩
    · rintro ⟨answer, hanswer⟩
      exact exists_read_of_runOn hanswer
  · intro answer h
    obtain ⟨reading, hread⟩ := exists_read_of_runOn h
    obtain ⟨parts, hparts, hnodup, hquery, shown, hshown, hshows, hanswer⟩ :=
      runOn_of_read hread supply
    obtain rfl : answer = shown := Except.ok.inj (h.symm.trans hanswer)
    exact ⟨parts, hparts, hnodup, hquery, hshown, hshows⟩
  · intro h coords shape
    have hregion := region_of_bbox h coords shape
    rw [runOn, runOn, hregion]
    rfl
  · intro h shape
    have hregion := region_of_coords h shape
    rw [runOn, runOn, hregion]
    rfl

/-- Benches under a given name, less the lit ones, and what they are members of. The texts of an
outline and a shape are given too, and neither can be read. -/
def benches : Request where
  kind := .node
  tags := "amenity=bench"
  name := some "benches"
  bbox := some "(48, 11, 49, 12)"
  coords := some "48 north"
  shape := some "none"
  exclude := some "lit"
  recurse := some "<"
  encoding := some .poly
  settings := .bare
  dump := false

/-- The request for the benches is answered, with a script of all of its parts, and the texts of its
outline and its shape do not count. -/
theorem answered_with_parts_benches :
    (∃ reading, benches.read = .ok reading) ∧
    (∃ answer, benches.runOn .initial = .ok answer ∧ ∃ parts : Parts, parts.AskedBy benches ∧
      parts.query.program.names.Nodup ∧
      ((benches.query parts.area.region).runOn .initial).1 = .ok parts.query ∧
      benches.answer parts.query = .ok answer ∧ benches.Shows parts.query answer) ∧
    { benches with coords := none, shape := none }.runOn .initial = benches.runOn .initial := by
  let box : Bbox := ⟨.ofNat 48, .ofNat 11, .ofNat 49, .ofNat 12⟩
  let region := Region.ofForms box box.corners .poly
  have hregion : benches.region = .ok region := by
    have htext : Bbox.ofText "(48, 11, 49, 12)" = .ok box := by decide +kernel
    have hcheck : box.check = .ok () := by decide +kernel
    show (Bbox.ofText "(48, 11, 49, 12)" >>= Resolver.ofBbox ⟨some .poly⟩).mapError
      (fun cause => RequestError.query (.region cause)) = _
    refine mapError_eq_ok_iff.mpr (bind_eq_ok_iff.mpr ⟨box, htext, ?_⟩)
    exact bind_eq_ok_iff.mpr ⟨(), hcheck, rfl⟩
  have hread : benches.readIn region = .ok ⟨region, ⟨[⟨"amenity", some "bench"⟩]⟩,
      some ⟨"benches"⟩, some ⟨[⟨"lit", none⟩]⟩, some .up⟩ := by
    refine readIn_eq_ok_iff.mpr ⟨rfl, ?_, .some ?_, .some ?_, .some ?_⟩
    all_goals decide +kernel
  have hreading : ∃ reading, benches.read = .ok reading :=
    ⟨_, bind_eq_ok_iff.mpr ⟨region, hregion, mapError_eq_ok_iff.mpr hread⟩⟩
  obtain ⟨-, -, hanswered, hparts, hbbox, -⟩ := answered_with_parts benches .initial
  obtain ⟨answer, hanswer⟩ := hanswered.mp hreading
  exact ⟨hreading, ⟨answer, hanswer, hparts answer hanswer⟩, hbbox rfl none none⟩

end Request

end Overpass
