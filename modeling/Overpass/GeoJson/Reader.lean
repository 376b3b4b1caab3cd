import Overpass.GeoJson.Document
import Overpass.Json.Reader

/-!
# Reading documents of geometries

The whole of a document is read and checked before a polygon is looked for. Of several faults the
one that is met first is reported, in the order in which the members are read here.

## Main Definitions

* `GeoJson.ReadError`: why a text is not a document
* `GeoJson.Document.ofText`: the document that a text denotes
-/

namespace Overpass.GeoJson

/-- Why a text is not a document of geometries. -/
inductive ReadError where
  /-- The text is no structured value at all. -/
  | malformed
  | expectedObject
  | emptyType
  | geometryUnknownType
  | expectedProperty
  | expectedString
  | expectedArray
  | expectedNumber
  | positionTooShort
  | notAFeature
  | featureGeometry
  | featureIdentifier
  | properties
  | bboxArray
  | bboxNumber
deriving DecidableEq

/-- The name under which a fault is reported. -/
def ReadError.name : ReadError → String
  | malformed => "MalformedJson"
  | expectedObject => "ExpectedObjectValue"
  | emptyType => "EmptyType"
  | geometryUnknownType => "GeometryUnknownType"
  | expectedProperty => "ExpectedProperty"
  | expectedString => "ExpectedStringValue"
  | expectedArray => "ExpectedArrayValue"
  | expectedNumber => "ExpectedF64Value"
  | positionTooShort => "PositionTooShort"
  | notAFeature => "NotAFeature"
  | featureGeometry => "FeatureInvalidGeometryValue"
  | featureIdentifier => "FeatureInvalidIdentifierType"
  | properties => "PropertiesExpectedObjectOrNull"
  | bboxArray => "BboxExpectedArray"
  | bboxNumber => "BboxExpectedNumericValues"

/-! ## Parts of a document -/

/-- The members of an object. -/
def asObject : Json → Except ReadError Json.Members
  | .object members => .ok members
  | _ => .error .expectedObject

/-- The items of an array. -/
def asArray : Json → Except ReadError (List Json)
  | .array items => .ok items
  | _ => .error .expectedArray

/-- A number. -/
def asNumber : Json → Except ReadError Binary64
  | .number x => .ok x
  | _ => .error .expectedNumber

/-- A text. -/
def asString : Json → Except ReadError String
  | .string text => .ok text
  | _ => .error .expectedString

/-- A member that must be there. -/
def property (members : Json.Members) (name : String) : Except ReadError Json :=
  match Json.member? members name with
  | some value => .ok value
  | none => .error .expectedProperty

/-- Accepts an item of a bounding box, which must be a number. -/
def checkBboxItem : Json → Except ReadError Unit
  | .number _ => .ok ()
  | _ => .error .bboxNumber

/-- Accepts an absent or null bounding box, and one that is an array of numbers. -/
def checkBbox (members : Json.Members) : Except ReadError Unit :=
  match Json.member? members "bbox" with
  | none | some .null => .ok ()
  | some (.array items) => items.forM checkBboxItem
  | some _ => .error .bboxArray

/-- Accepts absent or null properties, and an object. -/
def checkProperties (members : Json.Members) : Except ReadError Unit :=
  match Json.member? members "properties" with
  | none | some .null | some (.object _) => .ok ()
  | some _ => .error .properties

/-- Accepts an absent identifier, and one that is a number or a text. -/
def checkIdentifier (members : Json.Members) : Except ReadError Unit :=
  match Json.member? members "id" with
  | none | some (.number _) | some (.string _) => .ok ()
  | some _ => .error .featureIdentifier

/-! ## Coordinates -/

/-- A position: an array of at least two numbers, of which the first two count. -/
def readPosition (value : Json) : Except ReadError Position := do
  let items ← asArray value
  if items.length < 2 then throw .positionTooShort
  match ← items.mapM asNumber with
  | x :: y :: _ => return ⟨x, y⟩
  | _ => throw .positionTooShort

/-- An array each of whose items is read in the same way. -/
def readList {α : Type} (read : Json → Except ReadError α) (value : Json) :
    Except ReadError (List α) := do
  let items ← asArray value
  items.mapM read

/-- Reads the coordinates of a geometry that is no collection. -/
def readCoordinates (type : String) (members : Json.Members) : Except ReadError Geometry := do
  let read {α : Type} (reader : Json → Except ReadError α) : Except ReadError α := do
    reader (← property members "coordinates")
  match type with
  | "Point" => return .point (← read readPosition)
  | "MultiPoint" => return .multiPoint (← read (readList readPosition))
  | "LineString" => return .lineString (← read (readList readPosition))
  | "MultiLineString" => return .multiLineString (← read (readList (readList readPosition)))
  | "Polygon" => return .polygon (← read (readList (readList readPosition)))
  | "MultiPolygon" =>
    return .multiPolygon (← read (readList (readList (readList readPosition))))
  | _ => throw .geometryUnknownType

/-! ## Geometries, features and documents -/

/-- Reads a geometry: its bounding box, its type, then its coordinates or, for a collection, its
members in order. -/
def readGeometry (value : Json) : Except ReadError Geometry :=
  match value with
  | .object members =>
    match checkBbox members, property members "type" >>= asString with
    | .error e, _ => .error e
    | .ok (), .error e => .error e
    | .ok (), .ok type =>
      if type = "GeometryCollection" then
        match _found : Json.member? members "geometries" with
        | none => .error .expectedProperty
        | some (.array items) =>
          Geometry.collection <$> items.attach.mapM fun ⟨item, _⟩ => readGeometry item
        | some _ => .error .expectedArray
      else readCoordinates type members
  | _ => .error .expectedObject
termination_by sizeOf value
decreasing_by
  exact Nat.lt_trans (Json.sizeOf_lt_of_item ‹_›) (Json.sizeOf_lt_of_member? ‹_›)

/-- Reads the geometry of a feature; null stands for none. -/
def readFeatureGeometry (members : Json.Members) : Except ReadError (Option Geometry) := do
  match ← property members "geometry" with
  | .null => return none
  | .object inner => return some (← readGeometry (.object inner))
  | _ => throw .featureGeometry

/-- Reads a feature: its type, geometry, properties, identifier and bounding box. -/
def readFeature (value : Json) : Except ReadError Feature := do
  let members ← asObject value
  let type ← property members "type" >>= asString
  if type ≠ "Feature" then throw .notAFeature
  let geometry ← readFeatureGeometry members
  checkProperties members
  checkIdentifier members
  checkBbox members
  return ⟨geometry⟩

/-- Reads a collection of features: its bounding box, then the features in order. -/
def readFeatures (members : Json.Members) : Except ReadError (List Feature) := do
  checkBbox members
  let items ← property members "features" >>= asArray
  items.mapM readFeature

/-- The types that a geometry can have. -/
def geometryTypes : List String :=
  ["Point", "MultiPoint", "LineString", "MultiLineString", "Polygon", "MultiPolygon",
    "GeometryCollection"]

/-- Reads a document. -/
def Document.ofJson (value : Json) : Except ReadError Document := do
  let members ← asObject value
  match Json.member? members "type" with
  | some (.string type) =>
    if type = "Feature" then return .feature (← readFeature value)
    else if type = "FeatureCollection" then return .features (← readFeatures members)
    else if type ∈ geometryTypes then return .geometry (← readGeometry value)
    else throw .emptyType
  | _ => throw .geometryUnknownType

/-- The document that a text denotes. -/
def Document.ofText (text : String) : Except ReadError Document :=
  match Json.ofText? text with
  | some value => Document.ofJson value
  | none => .error .malformed

end Overpass.GeoJson
