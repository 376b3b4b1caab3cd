import Overpass.FileError
import Overpass.GeoJson.Reader
import Overpass.Query.Draft
import Overpass.Query.Dump
import Overpass.Query.Script
import Overpass.Region.Reading

/-!
# Requests

A request asks in flat texts for the elements of one kind with some tags in one region, less those
with some other tags, optionally followed in a direction. It is answered with a script or with a
dump.

## Main Definitions

* `Request`: the options of a request
* `Request.region`, `Request.query`: the region it names and the query it asks for
* `Request.run`: the answer
* `RequestError`: why a request is refused

## Design Notes

Of the three ways to give a region a box comes before an outline, and an outline before a shape; the
texts of the others are not looked at. Both selections share the area of the region.
-/

namespace Overpass

/-- Why a request is refused. -/
inductive RequestError where
  | query (cause : QueryError)
  | document (cause : GeoJson.ReadError)
  /-- The shape document holds no polygon. -/
  | noPolygon
  /-- The shape document cannot be read. -/
  | unreadable (cause : FileError)
  /-- A choice option has a value that is none of the choices. -/
  | unknownValue (what value : String)
deriving DecidableEq

/-- The wording of a refusal. -/
def RequestError.message : RequestError → String
  | query cause => "Query error: " ++ cause.message
  | document cause => "Invalid GeoJSON: " ++ cause.name
  | noPolygon => "No polygon found in the GeoJSON input"
  | unreadable cause => "IO error: " ++ cause.message
  | unknownValue what value => "Unknown " ++ what ++ ": '" ++ value ++ "'"

/-- The first polygon of a document of geometries. -/
def Polygon.ofGeoJson (text : String) : Except RequestError Polygon :=
  match GeoJson.Document.ofText text with
  | .error cause => .error (.document cause)
  | .ok document =>
    match document.firstPolygon? with
    | some polygon => .ok polygon
    | none => .error .noPolygon

/-- The options of a request. -/
structure Request where
  kind : ElementKind
  /-- Comma-separated tag tokens. -/
  tags : String
  /-- Name of the selection of the wanted elements. -/
  name : Option String
  /-- A box as text. -/
  bbox : Option String
  /-- An outline as text. -/
  coords : Option String
  /-- A document of geometries that holds a polygon. -/
  shape : Option String
  /-- Tag tokens of the elements to leave out. -/
  exclude : Option String
  /-- Marker of the direction to follow at the end. -/
  recurse : Option String
  /-- The encoding of the region, if one is forced. -/
  encoding : Option Encoding
  settings : Settings
  /-- Whether to dump the query instead of printing its script. -/
  dump : Bool
deriving DecidableEq

/-- The answer to a request. -/
inductive Answer where
  | script (text : String)
  | dump (text : String)
deriving DecidableEq

/-- The text of an answer. -/
def Answer.text : Answer → String
  | script text => text
  | dump text => text

namespace Request

/-- The region of a request: of box, outline and shape the first one given. -/
def region (request : Request) : Except RequestError Region :=
  let resolver : Resolver := ⟨request.encoding⟩
  let refuse (cause : RegionError) : RequestError := .query (.region cause)
  match request.bbox, request.coords, request.shape with
  | some text, _, _ => (Bbox.ofText text >>= resolver.ofBbox).mapError refuse
  | none, some text, _ => (Outline.ofText text >>= resolver.ofOutline).mapError refuse
  | none, none, some text => do
    let polygon ← Polygon.ofGeoJson text
    (resolver.ofPolygon polygon).mapError refuse
  | none, none, none => .error (.query .placeMissing)

/-- The draft of a selection with the given tag tokens in the region of a request. -/
def draft (request : Request) (region : Region) (tags : String) : Draft :=
  ((Draft.ofKind request.kind).withTags (TagFilter.ofText tags)).within (.region region)

/-- The draft of the wanted elements. -/
def wanted (request : Request) (region : Region) : Draft :=
  let unnamed := request.draft region request.tags
  request.name.elim unnamed unnamed.withName

/-- Leaves out the elements with the given tag tokens, if there are any. -/
def leaveOut (request : Request) (region : Region) (query : Query) : Fresh Query :=
  match request.exclude with
  | some tags => do
    let others ← (request.draft region tags).build .natural
    query.difference others
  | none => pure query

/-- Follows a query in the direction of a request, if it has one. -/
def followUp (request : Request) (query : Query) : Fresh Query :=
  match request.recurse with
  | some marker => query.recurseMarker marker
  | none => pure query

/-- The query that a request asks for in its region. -/
def query (request : Request) (region : Region) : Fresh Query := do
  let selected ← (request.wanted region).build .natural
  let kept ← request.leaveOut region selected
  request.followUp kept

/-- The answer that shows a query as a request asks for. -/
def answer (request : Request) (query : Query) : Except QueryError Answer :=
  if request.dump then .ok (.dump query.dumpText) else .script <$> query.print request.settings

/-- Answers a request with an untouched supply of names. -/
def run (request : Request) : Except RequestError Answer := do
  let region ← request.region
  let result := ((request.query region).runOn .initial).1
  (result >>= request.answer).mapError .query

end Request

end Overpass
