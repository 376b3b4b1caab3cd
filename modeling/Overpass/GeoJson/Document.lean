import Overpass.Region.Geometry

/-!
# Documents of geometries

A GeoJSON document is a geometry, a feature that may carry one, or a collection of features. The
polygon of a document is the first one met when the geometries are searched depth first in the order
of the document; a multipolygon offers its first member.

## Main Definitions

* `GeoJson.Geometry`: a geometry, possibly a collection of geometries
* `GeoJson.Document`: a document
* `GeoJson.Geometry.firstPolygon?`, `GeoJson.Document.firstPolygon?`: the search
-/

namespace Overpass.GeoJson

/-- The rings of a polygon, the outer one first. -/
abbrev Rings : Type := List (List Position)

/-- A geometry of a document. -/
inductive Geometry where
  | point (position : Position)
  | multiPoint (positions : List Position)
  | lineString (positions : List Position)
  | multiLineString (lines : List (List Position))
  | polygon (rings : Rings)
  | multiPolygon (polygons : List Rings)
  | collection (members : List Geometry)

/-- The polygon with the given rings; without any its outer ring is empty. -/
def Rings.toPolygon : Rings → Polygon
  | [] => Polygon.ofRings [] []
  | exterior :: interiors => Polygon.ofRings exterior interiors

namespace Geometry

mutual

/-- The first polygon of a geometry. -/
def firstPolygon? : Geometry → Option Polygon
  | polygon rings => some rings.toPolygon
  | multiPolygon polygons => polygons.head?.map Rings.toPolygon
  | collection members => firstAmong? members
  | point _ | multiPoint _ | lineString _ | multiLineString _ => none

/-- The first polygon of the geometries of a collection. -/
def firstAmong? : List Geometry → Option Polygon
  | [] => none
  | geometry :: others =>
    match firstPolygon? geometry with
    | some found => some found
    | none => firstAmong? others

end

end Geometry

/-- A feature; its geometry may be absent. -/
structure Feature where
  geometry : Option Geometry

/-- A document. -/
inductive Document where
  | geometry (geometry : Geometry)
  | feature (feature : Feature)
  | features (features : List Feature)

namespace Document

/-- The geometries of a document, features without one being skipped. -/
def geometries : Document → List Geometry
  | geometry g => [g]
  | feature f => f.geometry.toList
  | features fs => fs.filterMap Feature.geometry

/-- The first polygon of a document. -/
def firstPolygon? (document : Document) : Option Polygon :=
  Geometry.firstAmong? document.geometries

end Document

end Overpass.GeoJson
