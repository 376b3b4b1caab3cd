import Overpass.Numeric.Style

/-!
# Boxes, points and polygons

Regions are given as bounding boxes, as outlines of `(latitude, longitude)` points, or as polygons
whose positions are `(x, y)`, that is longitude first. This module holds these shapes and the
smallest box around a list of points.

## Main Definitions

* `Point`, `Bbox`: a point of an outline, and a bounding box, both in degrees
* `Outline.box`: the smallest box around the points of an outline
* `Bbox.around?`: the smallest box around some points, if there are any
* `Position`, `Polygon`: a closed ring of positions with further rings inside
* `Polygon.ofRings`: the polygon whose rings are closed where they are open

## Design Notes

`Equal` compares numerically, so it does not tell the two zeros apart and holds for no shape with a
NaN in it; `=` compares bit patterns.
-/

namespace Overpass

/-- A point of an outline, in degrees. -/
structure Point where
  lat : Binary64
  lon : Binary64
deriving DecidableEq

namespace Point

/-- Numeric equality of points. -/
def Equal (p q : Point) : Prop := p.lat.Equal q.lat ∧ p.lon.Equal q.lon

instance (p q : Point) : Decidable (p.Equal q) :=
  inferInstanceAs (Decidable (p.lat.Equal q.lat ∧ p.lon.Equal q.lon))

/-- Numeric equality of outlines: as many points, equal one by one. -/
def AllEqual : List Point → List Point → Prop
  | [], [] => True
  | p :: ps, q :: qs => p.Equal q ∧ AllEqual ps qs
  | _, _ => False

instance decidableAllEqual : (ps qs : List Point) → Decidable (AllEqual ps qs)
  | [], [] => isTrue trivial
  | [], _ :: _ => isFalse id
  | _ :: _, [] => isFalse id
  | p :: ps, q :: qs =>
    have : Decidable (AllEqual ps qs) := decidableAllEqual ps qs
    inferInstanceAs (Decidable (p.Equal q ∧ AllEqual ps qs))

/-- Whether both coordinates are finite. -/
def isFinite (p : Point) : Bool := p.lat.isFinite && p.lon.isFinite

end Point

/-- A bounding box, in degrees. -/
structure Bbox where
  south : Binary64
  west : Binary64
  north : Binary64
  east : Binary64
deriving DecidableEq

namespace Bbox

/-- Numeric equality of boxes. -/
def Equal (a b : Bbox) : Prop :=
  a.south.Equal b.south ∧ a.west.Equal b.west ∧ a.north.Equal b.north ∧ a.east.Equal b.east

instance (a b : Bbox) : Decidable (a.Equal b) :=
  inferInstanceAs (Decidable (a.south.Equal b.south ∧ a.west.Equal b.west ∧
    a.north.Equal b.north ∧ a.east.Equal b.east))

/-- The four sides in the order in which they are written. -/
def sides (b : Bbox) : List Binary64 := [b.south, b.west, b.north, b.east]

/-- The corners as an outline, counter-clockwise from the south-west. -/
def corners (b : Bbox) : List Point :=
  [⟨b.south, b.west⟩, ⟨b.south, b.east⟩, ⟨b.north, b.east⟩, ⟨b.north, b.west⟩]

/-- The box that holds one point. -/
def ofPoint (p : Point) : Bbox := ⟨p.lat, p.lon, p.lat, p.lon⟩

/-- The box widened as little as possible to hold a further point. -/
def extend (b : Bbox) (p : Point) : Bbox where
  south := b.south.least p.lat
  west := b.west.least p.lon
  north := b.north.greatest p.lat
  east := b.east.greatest p.lon

/-- The smallest box around the points; no points have no box. -/
def around? : List Point → Option Bbox
  | [] => none
  | p :: ps => some (ps.foldl extend (ofPoint p))

/-- The box that nothing lies in. Each of its sides lies as far as a finite number can from where a
box that holds points would have it, so extending it by points leaves nothing of it. -/
def nowhere : Bbox := ⟨.largest, .largest, .negate .largest, .negate .largest⟩

end Bbox

/-- The smallest box around the points of an outline. -/
def Outline.box (points : List Point) : Bbox := points.foldl Bbox.extend Bbox.nowhere

/-- A position of a polygon: `x` is the longitude and `y` the latitude. -/
structure Position where
  x : Binary64
  y : Binary64
deriving DecidableEq

namespace Position

/-- Numeric equality of positions. -/
def Equal (p q : Position) : Prop := p.x.Equal q.x ∧ p.y.Equal q.y

instance (p q : Position) : Decidable (p.Equal q) :=
  inferInstanceAs (Decidable (p.x.Equal q.x ∧ p.y.Equal q.y))

/-- The position as a point of an outline. -/
def toPoint (p : Position) : Point := ⟨p.y, p.x⟩

/-- Whether a ring ends where it starts; the empty ring does. -/
def IsClosed (ring : List Position) : Prop :=
  match ring.head?, ring.getLast? with
  | some first, some last => first.Equal last
  | _, _ => True

instance (ring : List Position) : Decidable (IsClosed ring) := by
  unfold IsClosed
  split <;> infer_instance

/-- The ring led back to its first position, if it does not end there already. -/
def closeRing (ring : List Position) : List Position :=
  if IsClosed ring then ring else ring ++ ring.head?.toList

end Position

/-- A polygon: an outer ring, and the rings that bound its holes. -/
structure Polygon where
  exterior : List Position
  interiors : List (List Position)
deriving DecidableEq

namespace Polygon

/-- The polygon with the given rings, each of them closed. -/
def ofRings (exterior : List Position) (interiors : List (List Position)) : Polygon :=
  ⟨Position.closeRing exterior, interiors.map Position.closeRing⟩

/-- The outer ring as an outline. Outlines close by convention, so a last position that repeats the
first one is left out, unless it is the only one. -/
def outline (p : Polygon) : List Point :=
  let ring := p.exterior
  (if 1 < ring.length ∧ Position.IsClosed ring then ring.dropLast else ring).map Position.toPoint

/-- The smallest box around the outer ring. -/
def extent? (p : Polygon) : Option Bbox := Bbox.around? (p.exterior.map Position.toPoint)

end Polygon

end Overpass
