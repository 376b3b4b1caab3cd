import Overpass.Region.Error
import Overpass.Text.Words

/-!
# Reading boxes and outlines

A bounding box is written `south,west,north,east`, optionally in parentheses; an outline is written
as numerals separated by blanks or commas, latitude and longitude in turn.

## Main Definitions

* `Bbox.ofText`: the box that a text denotes
* `Outline.ofText`: the points that a text denotes
-/

namespace Overpass

/-- A text without the blanks around it, the parentheses that open it and those that close it. -/
def Bbox.body (text : String) : List Char :=
  Text.dropEndWhile (· == ')') ((Text.trim text.toList).dropWhile (· == '('))

/-- The box that a text denotes. The first part that is no numeral is reported before a wrong number
of parts. -/
def Bbox.ofText (text : String) : Except RegionError Bbox :=
  match ((Bbox.body text).splitOn ',').mapM fun part => Binary64.ofNumeral (Text.trim part) with
  | .error cause => .error (.bboxNumeral text cause)
  | .ok [south, west, north, east] => .ok ⟨south, west, north, east⟩
  | .ok values => .error (.bboxCount text values.length)

namespace Outline

/-- Whether a character separates the numerals of an outline. -/
def isSeparator (c : Char) : Bool := Text.isBlank c || c == ','

/-- Numbers taken in pairs as points. -/
def ofNumbers : List Binary64 → List Point
  | lat :: lon :: rest => ⟨lat, lon⟩ :: ofNumbers rest
  | _ => []

/-- The points that a text denotes. -/
def ofText (text : String) : Except RegionError (List Point) :=
  match (Text.words isSeparator text.toList).mapM Binary64.ofNumeral with
  | .error cause => .error (.outlineNumeral text cause)
  | .ok values =>
    if values.length % 2 = 0 then .ok (ofNumbers values) else .error (.outlineOdd text)

end Outline

end Overpass
