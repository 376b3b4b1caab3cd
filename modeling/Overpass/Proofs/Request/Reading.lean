import Overpass.Proofs.Query.Refusal
import Overpass.Proofs.Region.Shape
import Overpass.Request

/-!
# The texts of a request

The texts of a request are read in a fixed order: those of its region, the tags of the wanted
elements, their name, the tags of what is left out, and the marker of the direction. The first of
them that cannot be read is the reason for which the request is refused. Of the texts of a region
only one is looked at.

## Main Definitions

* `Request.Reading`, `Request.read`: what the texts say
* `RequestError.IsOfTexts`: the refusals that are due to the texts

## Main Statements

* `Request.isOfTexts_of_read`: the texts are refused for one of them
* `Request.resolved_of_region`: the region of a request is resolved
* `Request.region_of_bbox`, `Request.region_of_coords`: the texts that are not looked at
-/

namespace Overpass

/-! ### Refusals -/

/-- Whether a refusal is due to a text that cannot be read, or to one that is missing. -/
def QueryError.IsOfTexts : QueryError → Prop
  | tagSyntax _ | placeMissing | unknownMarker _ | invalidName _ | region _ => True
  | kindMismatch _ _ _ | unaryNegation | unboundReference _ _ | nameConflict _
  | operationAsScope _ => False

/-- Whether a refusal is due to a text that cannot be read, or to one that is missing. -/
def RequestError.IsOfTexts : RequestError → Prop
  | query cause => cause.IsOfTexts
  | document _ | noPolygon => True
  | unreadable _ | unknownValue _ _ => False

/-- Tags that cannot be read are a fault of a text, and so are names and markers. -/
theorem TagFilter.isOfTexts_of_ofText {text : String} {cause : QueryError}
    (h : TagFilter.ofText text = .error cause) : cause.IsOfTexts := by
  obtain ⟨token, rfl⟩ := exists_tagSyntax_of_ofText h
  trivial

theorem SetName.isOfTexts_of_parse {text : String} {cause : QueryError}
    (h : SetName.parse text = .error cause) : cause.IsOfTexts := by
  rw [eq_invalidName_of_parse h]
  trivial

theorem Direction.isOfTexts_of_parse {text : String} {cause : QueryError}
    (h : Direction.parse text = .error cause) : cause.IsOfTexts := by
  obtain ⟨marker, rfl⟩ := exists_unknownMarker_of_parse h
  trivial

namespace Request

/-! ### The region -/

variable {request : Request} {region : Region}

/-- The region of a request is resolved, whichever text it is given by. So it is equal to itself,
and has the name of its key. -/
theorem resolved_of_region (h : request.region = .ok region) : region.Resolved := by
  unfold Request.region at h
  dsimp only at h
  split at h
  · obtain ⟨b, -, hregion⟩ := bind_eq_ok_iff.mp (mapError_eq_ok_iff.mp h)
    exact Resolver.resolved_of_ofBbox hregion
  · obtain ⟨points, -, hregion⟩ := bind_eq_ok_iff.mp (mapError_eq_ok_iff.mp h)
    exact Resolver.resolved_of_ofOutline hregion
  · obtain ⟨p, -, hregion⟩ := bind_eq_ok_iff.mp h
    exact Resolver.resolved_of_ofPolygon (mapError_eq_ok_iff.mp hregion)
  · cases h

/-- A document is refused as malformed or for holding no polygon. -/
theorem isOfTexts_of_ofGeoJson {text : String} {cause : RequestError}
    (h : Polygon.ofGeoJson text = .error cause) : cause.IsOfTexts := by
  unfold Polygon.ofGeoJson at h
  split at h
  · cases h
    trivial
  · split at h
    · cases h
    · cases h
      trivial

/-- A region is refused for its text, or because no text is given for it. -/
theorem isOfTexts_of_region {cause : RequestError} (h : request.region = .error cause) :
    cause.IsOfTexts := by
  unfold Request.region at h
  dsimp only at h
  split at h
  · obtain ⟨refusal, -, rfl⟩ := mapError_eq_error_iff.mp h
    trivial
  · obtain ⟨refusal, -, rfl⟩ := mapError_eq_error_iff.mp h
    trivial
  · rcases bind_eq_error_iff.mp h with hpolygon | ⟨p, -, hregion⟩
    · exact isOfTexts_of_ofGeoJson hpolygon
    · obtain ⟨refusal, -, rfl⟩ := mapError_eq_error_iff.mp hregion
      trivial
  · cases h
    trivial

/-- A box is looked at before the other texts of a region, which are not even read then. -/
theorem region_of_bbox (h : request.bbox.isSome) (coords shape : Option String) :
    { request with coords, shape }.region = request.region := by
  obtain ⟨text, htext⟩ := Option.isSome_iff_exists.mp h
  simp only [Request.region, htext]

/-- An outline is looked at before a shape, whatever the shape may hold. -/
theorem region_of_coords (h : request.coords.isSome) (shape : Option String) :
    { request with shape }.region = request.region := by
  obtain ⟨text, htext⟩ := Option.isSome_iff_exists.mp h
  cases hbbox : request.bbox with
  | none => simp only [Request.region, htext, hbbox]
  | some box => simp only [Request.region, hbbox]

/-! ### All texts -/

/-- What the texts of a request say, once each of them was read. -/
structure Reading where
  region : Region
  tags : TagFilter
  /-- The name that is given. -/
  name : Option SetName
  /-- The tags of what is to be left out. -/
  others : Option TagFilter
  /-- The direction that is to be followed. -/
  direction : Option Direction

/-- Reads the texts besides those of the region, in the order in which a request looks at them. -/
def readIn (request : Request) (region : Region) : Except QueryError Reading := do
  let tags ← TagFilter.ofText request.tags
  let name ← request.name.mapM SetName.parse
  let others ← request.exclude.mapM TagFilter.ofText
  let direction ← request.recurse.mapM Direction.parse
  return ⟨region, tags, name, others, direction⟩

/-- Reads all texts, those of the region first. -/
def read (request : Request) : Except RequestError Reading := do
  let region ← request.region
  (request.readIn region).mapError .query

variable {reading : Reading}

/-- The texts of a request can be read in a region if each of them can, and what is optional may be
missing. -/
theorem readIn_eq_ok_iff : request.readIn region = .ok reading ↔
    reading.region = region ∧ TagFilter.ofText request.tags = .ok reading.tags ∧
    Option.Rel (fun text name => SetName.parse text = .ok name) request.name reading.name ∧
    Option.Rel (fun text tags => TagFilter.ofText text = .ok tags) request.exclude
      reading.others ∧
    Option.Rel (fun marker direction => Direction.parse marker = .ok direction) request.recurse
      reading.direction := by
  simp only [readIn, bind_eq_ok_iff, option_mapM_eq_ok_iff]
  constructor
  · rintro ⟨tags, htags, name, hname, others, hothers, direction, hdirection, hread⟩
    cases hread
    exact ⟨rfl, htags, hname, hothers, hdirection⟩
  · rintro ⟨rfl, htags, hname, hothers, hdirection⟩
    exact ⟨_, htags, _, hname, _, hothers, _, hdirection, rfl⟩

theorem isOfTexts_of_readIn {cause : QueryError} (h : request.readIn region = .error cause) :
    cause.IsOfTexts := by
  simp only [readIn, bind_eq_error_iff] at h
  rcases h with htags | ⟨tags, -, hname | ⟨name, -, hothers | ⟨others, -, hdirection | ⟨_, -, h⟩⟩⟩⟩
  · exact TagFilter.isOfTexts_of_ofText htags
  · obtain ⟨text, -, hparse⟩ := exists_of_option_mapM_eq_error hname
    exact SetName.isOfTexts_of_parse hparse
  · obtain ⟨text, -, hread⟩ := exists_of_option_mapM_eq_error hothers
    exact TagFilter.isOfTexts_of_ofText hread
  · obtain ⟨text, -, hparse⟩ := exists_of_option_mapM_eq_error hdirection
    exact Direction.isOfTexts_of_parse hparse
  · cases h

/-- The texts of a request are refused for one of them, that of the region being read first. -/
theorem isOfTexts_of_read {cause : RequestError} (h : request.read = .error cause) :
    cause.IsOfTexts := by
  rcases bind_eq_error_iff.mp h with hregion | ⟨region, -, hread⟩
  · exact isOfTexts_of_region hregion
  · obtain ⟨refusal, hrefusal, rfl⟩ := mapError_eq_error_iff.mp hread
    exact isOfTexts_of_readIn hrefusal

end Request

end Overpass
