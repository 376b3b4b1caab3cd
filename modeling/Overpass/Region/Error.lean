import Overpass.Numeric.Numeral
import Overpass.Region.Geometry
import Overpass.Text.Graphic

/-!
# Refused regions

## Main Definitions

* `RegionError`: why a region is refused
* `RegionError.message`: the wording of the refusal
-/

namespace Overpass

/-- Why a region is refused. -/
inductive RegionError where
  /-- A part of a bounding box text is not a numeral. -/
  | bboxNumeral (text : String) (cause : NumeralError)
  /-- A bounding box text does not have four parts. -/
  | bboxCount (text : String) (count : Nat)
  /-- A side of a bounding box is infinite or no number. -/
  | bboxNotFinite (bbox : Bbox)
  /-- The south side lies north of the north side. -/
  | bboxInverted (south north : Binary64)
  /-- A latitude lies outside of ±90 degrees. -/
  | latitude (value : Binary64)
  /-- A longitude lies outside of ±180 degrees. -/
  | longitude (value : Binary64)
  /-- An outline has fewer than three points. -/
  | tooFewPoints (count : Nat)
  /-- A coordinate of a point is infinite or no number. -/
  | pointNotFinite (point : Point)
  /-- A part of an outline text is not a numeral. -/
  | outlineNumeral (text : String) (cause : NumeralError)
  /-- An outline text ends with a latitude. -/
  | outlineOdd (text : String)
  /-- There is no box around the points. -/
  | noExtent
deriving DecidableEq

namespace RegionError

/-- A number as messages show it. -/
def number (x : Binary64) : String := String.ofList (x.text .plain)

/-- The numbers of a list as messages show them, between brackets and with a point or exponent. -/
def numbers (xs : List Binary64) : String :=
  "[" ++ ", ".intercalate (xs.map fun x => String.ofList (x.text .scientific)) ++ "]"

/-- The wording of a refusal. -/
def message : RegionError → String
  | bboxNumeral text cause => "bbox " ++ Text.quoted text ++ ": " ++ cause.message
  | bboxCount text count =>
    "bbox " ++ Text.quoted text ++ " needs four values, got " ++ count.repr
  | bboxNotFinite bbox => "bbox " ++ numbers bbox.sides ++ " holds a non-finite value"
  | bboxInverted south north => "bbox south " ++ number south ++ " lies north of " ++ number north
  | latitude value => "latitude " ++ number value ++ " out of range"
  | longitude value => "longitude " ++ number value ++ " out of range"
  | tooFewPoints count => "a polygon needs at least three points, got " ++ count.repr
  | pointNotFinite point =>
    "point (" ++ number point.lat ++ ", " ++ number point.lon ++ ") is not finite"
  | outlineNumeral text cause => "coordinates " ++ Text.quoted text ++ ": " ++ cause.message
  | outlineOdd text => "coordinates " ++ Text.quoted text ++ " hold an odd number of values"
  | noExtent => "shape has no extent"

end RegionError

end Overpass
