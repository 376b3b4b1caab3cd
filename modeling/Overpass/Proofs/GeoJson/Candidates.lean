import Overpass.Request

/-!
# The first polygon of a document

The search for a polygon goes into a collection before it goes on to what stands after it, and ends
at the first polygon that it meets. What it could have met is the list of the candidates of the
document, in this order. The search finds the head of that list: what offers no candidate, such as a
multipolygon or a collection that is empty, does not stop it.

## Main Definitions

* `GeoJson.Geometry.candidates`, `GeoJson.Document.candidates`: the polygons that are offered

## Main Statements

* `GeoJson.Geometry.candidates_collection`: a collection offers what its members offer, in order
* `GeoJson.Geometry.firstPolygon?_eq`: the search finds the head of the candidates
* `GeoJson.Document.ofGeoJson_eq_head`: so a document is refused if and only if it has none
-/

namespace Overpass.GeoJson

namespace Geometry

mutual

/-- The polygons that a geometry offers, depth first and in order. Of a multipolygon only the first
member counts. -/
def candidates : Geometry → List Polygon
  | polygon rings => [rings.toPolygon]
  | multiPolygon polygons => (polygons.take 1).map Rings.toPolygon
  | collection members => candidatesAmong members
  | point _ | multiPoint _ | lineString _ | multiLineString _ => []

/-- The polygons that geometries offer one after the other. -/
def candidatesAmong : List Geometry → List Polygon
  | [] => []
  | geometry :: others => candidates geometry ++ candidatesAmong others

end

theorem candidatesAmong_eq_flatMap (members : List Geometry) :
    candidatesAmong members = members.flatMap candidates := by
  induction members with
  | nil => rfl
  | cons geometry others ih => rw [candidatesAmong, ih, List.flatMap_cons]

/-- A collection offers what its members offer, in order, however deep these are nested. -/
theorem candidates_collection (members : List Geometry) :
    (collection members).candidates = members.flatMap candidates :=
  candidatesAmong_eq_flatMap members

mutual

/-- **The search finds the head of the candidates** of a geometry, by induction on how geometries
are nested. -/
theorem firstPolygon?_eq : (geometry : Geometry) →
    geometry.firstPolygon? = geometry.candidates.head?
  | polygon _ => rfl
  | multiPolygon polygons => by cases polygons <;> rfl
  | collection members => firstAmong?_eq members
  | point _ | multiPoint _ | lineString _ | multiLineString _ => rfl

/-- A geometry that offers no polygon hands the search on to the geometries after it. -/
theorem firstAmong?_eq : (members : List Geometry) →
    firstAmong? members = (candidatesAmong members).head?
  | [] => rfl
  | geometry :: others => by
      rw [firstAmong?, candidatesAmong, List.head?_append, firstPolygon?_eq geometry,
        firstAmong?_eq others]
      cases geometry.candidates.head? <;> rfl

end

end Geometry

namespace Document

/-- The polygons that the geometries of a document offer, in order: depth first, and from left to
right. -/
def candidates (document : Document) : List Polygon :=
  document.geometries.flatMap Geometry.candidates

theorem firstPolygon?_eq_head? (document : Document) :
    document.firstPolygon? = document.candidates.head? := by
  rw [firstPolygon?, Geometry.firstAmong?_eq, Geometry.candidatesAmong_eq_flatMap, candidates]

/-- **The first polygon of a document that can be read is the first of its candidates**, and the
document is refused for having no polygon if and only if it has no candidates. -/
theorem ofGeoJson_eq_head {text : String} {document : Document}
    (h : Document.ofText text = .ok document) :
    (∀ polygon, Polygon.ofGeoJson text = .ok polygon ↔
      document.candidates.head? = some polygon) ∧
    (Polygon.ofGeoJson text = .error .noPolygon ↔ document.candidates = []) := by
  have hfound : Polygon.ofGeoJson text =
      document.candidates.head?.elim (.error .noPolygon) .ok := by
    rw [Polygon.ofGeoJson, h]
    dsimp only
    rw [firstPolygon?_eq_head?]
    cases document.candidates.head? <;> rfl
  rw [hfound]
  cases hcandidates : document.candidates with
  | nil => simp
  | cons polygon others => simp [eq_comm]

/-- A collection of an empty multipolygon and, inside of a further collection, an empty polygon. -/
def nested : String :=
  "\x7b\"type\":\"GeometryCollection\",\"geometries\":[" ++
    "\x7b\"type\":\"MultiPolygon\",\"coordinates\":[]\x7d," ++
    "\x7b\"type\":\"GeometryCollection\",\"geometries\":[" ++
      "\x7b\"type\":\"Polygon\",\"coordinates\":[]\x7d]\x7d]\x7d"

/-- The search passes the empty multipolygon and goes into the inner collection, where it finds a
polygon without any rings. -/
theorem ofGeoJson_eq_head_nested :
    ∃ document, Document.ofText nested = .ok document ∧
      document.candidates = [Rings.toPolygon []] ∧
      Polygon.ofGeoJson nested = .ok (Rings.toPolygon []) := by
  have hread : (Document.ofText nested).toOption.map candidates = some [Rings.toPolygon []] := by
    decide +kernel
  cases htext : Document.ofText nested with
  | error cause =>
      rw [htext] at hread
      cases hread
  | ok document =>
      rw [htext] at hread
      have hcandidates : document.candidates = [Rings.toPolygon []] := Option.some.inj hread
      refine ⟨document, rfl, hcandidates, ((ofGeoJson_eq_head htext).1 _).mpr ?_⟩
      rw [hcandidates, List.head?_cons]

end Document

end Overpass.GeoJson
