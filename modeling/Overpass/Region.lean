import Overpass.Region.Error
import Overpass.SetName
import Overpass.Text.Words

/-!
# Regions

A region is a named part of the map that can be printed as a bounding box and as a polygon. Regions
are resolved from boxes, outlines and polygons after their coordinates have been checked, and named
after a digest of their printed forms, so that equal input gives equal names.

## Main Definitions

* `Encoding`: the textual form a region is printed in
* `Region`: a named region with both forms
* `Region.render`: a region printed in one of the forms
* `Resolver`: the choice of encoding for resolved regions
* `Resolver.ofBbox`, `Resolver.ofOutline`, `Resolver.ofPolygon`: resolving regions
* `Resolver.ofPolygonBy`: resolving polygons, for a given way to find the box around one

## Design Notes

Both forms are kept side by side, since the encoding can be forced. Of an outline that is no box,
the box is the smallest one around its points.
-/

namespace Overpass

/-- The textual form a region is printed in. -/
inductive Encoding where
  /-- `(south,west,north,east)` -/
  | bbox
  /-- `(poly:"lat lon lat lon ...")` -/
  | poly
deriving DecidableEq

namespace Encoding

/-- The keyword of the encoding. -/
def keyword : Encoding → String
  | bbox => "bbox"
  | poly => "poly"

/-- The name of the encoding in the key texts of regions. -/
def label : Encoding → String
  | bbox => "Bbox"
  | poly => "Poly"

/-- The encoding that a keyword names, in any case. -/
def ofKeyword? (text : String) : Option Encoding :=
  if Text.matchesKeyword text "bbox" then some bbox
  else if Text.matchesKeyword text "poly" || Text.matchesKeyword text "polygon" then some poly
  else none

end Encoding

/-- A number of degrees as regions show it, always with a decimal point. -/
def degreesText (x : Binary64) : String := String.ofList x.degrees

/-- A bounding box as it is printed. -/
def Bbox.render (b : Bbox) : String :=
  "(" ++ ",".intercalate (b.sides.map degreesText) ++ ")"

/-- A point as it is printed inside an outline. -/
def Point.render (p : Point) : String := degreesText p.lat ++ " " ++ degreesText p.lon

/-- An outline as it is printed. -/
def Outline.render (points : List Point) : String :=
  "(poly:\"" ++ " ".intercalate (points.map Point.render) ++ "\")"

/-- A named region with both of its forms and the encoding it is printed in. -/
structure Region where
  name : SetName
  bbox : Bbox
  outline : List Point
  encoding : Encoding
deriving DecidableEq

namespace Region

/-- Equality of regions with coordinates compared numerically. -/
def Equal (a b : Region) : Prop :=
  a.name = b.name ∧ a.bbox.Equal b.bbox ∧ Point.AllEqual a.outline b.outline ∧
    a.encoding = b.encoding

instance (a b : Region) : Decidable (a.Equal b) :=
  inferInstanceAs (Decidable (a.name = b.name ∧ a.bbox.Equal b.bbox ∧
    Point.AllEqual a.outline b.outline ∧ a.encoding = b.encoding))

/-- A region printed in the given encoding. -/
def render (region : Region) : Encoding → String
  | .bbox => region.bbox.render
  | .poly => Outline.render region.outline

/-- A region printed in its own encoding. -/
def text (region : Region) : String := region.render region.encoding

/-- The text that the name of a resolved region is derived from. -/
def key (bbox : Bbox) (outline : List Point) (encoding : Encoding) : String :=
  bbox.render ++ "|" ++ Outline.render outline ++ "|" ++ encoding.label

/-- The region with the given forms, named after its key. -/
def ofForms (bbox : Bbox) (outline : List Point) (encoding : Encoding) : Region :=
  ⟨SetName.ofKey (key bbox outline encoding), bbox, outline, encoding⟩

end Region

/-! ## Checks -/

/-- Whether a number lies between the negation of a bound and the bound. -/
def Binary64.isWithin (bound x : Binary64) : Bool := bound.negate ≤ x && x ≤ bound

/-- Accepts latitudes from -90 to 90 degrees. -/
def checkLatitude (x : Binary64) : Except RegionError Unit :=
  if (Binary64.ofNat 90).isWithin x then .ok () else .error (.latitude x)

/-- Accepts longitudes from -180 to 180 degrees. -/
def checkLongitude (x : Binary64) : Except RegionError Unit :=
  if (Binary64.ofNat 180).isWithin x then .ok () else .error (.longitude x)

/-- Accepts boxes with finite sides, south not above north, within the range of coordinates. -/
def Bbox.check (b : Bbox) : Except RegionError Unit :=
  if !b.sides.all Binary64.isFinite then .error (.bboxNotFinite b)
  else if b.north < b.south then .error (.bboxInverted b.south b.north)
  else do
    checkLatitude b.south
    checkLatitude b.north
    checkLongitude b.west
    checkLongitude b.east

/-- Accepts points with finite coordinates within range. -/
def Point.check (p : Point) : Except RegionError Unit :=
  if !p.isFinite then .error (.pointNotFinite p)
  else do
    checkLatitude p.lat
    checkLongitude p.lon

/-- Accepts outlines of at least three points, each of them acceptable. -/
def Outline.check (points : List Point) : Except RegionError Unit :=
  if points.length < 3 then .error (.tooFewPoints points.length)
  else points.forM Point.check

/-! ## Resolving -/

/-- The choice of encoding for resolved regions: boxes are printed as boxes and everything else as
polygons, unless one encoding is forced. -/
structure Resolver where
  forced : Option Encoding
deriving DecidableEq

namespace Resolver

/-- The resolver that forces no encoding. -/
def natural : Resolver := ⟨none⟩

/-- The encoding of a region, given the one that is natural for it. -/
def encoding (resolver : Resolver) (natural : Encoding) : Encoding :=
  resolver.forced.getD natural

/-- Resolves a bounding box; its outline is its corners. -/
def ofBbox (resolver : Resolver) (b : Bbox) : Except RegionError Region := do
  b.check
  return Region.ofForms b b.corners (resolver.encoding .bbox)

/-- Resolves an outline; its box is the smallest one around it. -/
def ofOutline (resolver : Resolver) (points : List Point) : Except RegionError Region := do
  Outline.check points
  return Region.ofForms (Outline.box points) points (resolver.encoding .poly)

/-- Resolves a polygon by its outer ring, for a given way to find the box around a polygon. -/
def ofPolygonBy (extent? : Polygon → Option Bbox) (resolver : Resolver) (p : Polygon) :
    Except RegionError Region := do
  Outline.check p.outline
  match extent? p with
  | some bbox => return Region.ofForms bbox p.outline (resolver.encoding .poly)
  | none => throw .noExtent

/-- Resolves a polygon by its outer ring. -/
def ofPolygon : Resolver → Polygon → Except RegionError Region := ofPolygonBy Polygon.extent?

end Resolver

end Overpass
