import Overpass.Query

/-!
# Drafts of selections

A query starts as a selection: elements of a kind with some tags, in some place, under an optional
name. The parts can be given in any order and more than once; what is refused among them is reported
only when the selection is built.

## Main Definitions

* `Place`: where a selection is told to look
* `Draft`: the parts of a selection given so far
* `Draft.withTags`, `Draft.withName`, `Draft.within`: giving a part
* `Draft.build`: the query of the selection

## Design Notes

Of several tags or names the last one counts, and of several places the first one. A selection
without a name takes a generated one after its tags and the presence of a place have been checked,
and before the place is resolved.
-/

namespace Overpass

/-- Where a selection is told to look. -/
inductive Place where
  /-- In the set of a query, whose program is carried over. -/
  | query (query : Query)
  /-- In a polygon that is still to be resolved. -/
  | polygon (polygon : Polygon)
  /-- In a bounding box that is still to be resolved. -/
  | bbox (bbox : Bbox)
  /-- In an outline that is still to be resolved. -/
  | outline (points : List Point)
  /-- In a region that gets an area of its own. -/
  | region (region : Region)
  /-- In a region that is printed inside the line of the selection. -/
  | inline (region : Region)
deriving DecidableEq

namespace Place

/-- A region with an area of its own: the program that defines it, and the scope. -/
def shared (kind : ElementKind) (region : Region) : Program × Scope :=
  (⟨[⟨kind, region⟩], [], []⟩, .named region.name)

/-- The program that a place brings along, and the scope that it is in it. Operations are printed
after all selections, so a query rooted at one cannot be a scope. -/
def resolve (resolver : Resolver) (kind : ElementKind) :
    Place → Except QueryError (Program × Scope)
  | query q =>
    if q.program.binding? q.root = some .operation then .error (.operationAsScope q.root)
    else .ok (q.program, .named q.root)
  | polygon p => (shared kind <$> resolver.ofPolygon p).mapError .region
  | bbox b => (shared kind <$> resolver.ofBbox b).mapError .region
  | outline points => (shared kind <$> resolver.ofOutline points).mapError .region
  | region r => .ok (shared kind r)
  | inline r => .ok (.empty, .inline r)

end Place

/-- The parts of a selection given so far; refused tags and names are held back. -/
structure Draft where
  kind : ElementKind
  tags : Except QueryError TagFilter
  name : Option (Except QueryError SetName)
  place : Option Place

namespace Draft

/-- The draft without tags, name and place. -/
def ofKind (kind : ElementKind) : Draft := ⟨kind, .ok .empty, none, none⟩

/-- Gives the tags, instead of those given before. -/
def withTags (draft : Draft) (tags : Except QueryError TagFilter) : Draft :=
  { draft with tags := tags }

/-- Gives the name, instead of the one given before. -/
def withName (draft : Draft) (text : String) : Draft :=
  { draft with name := some (SetName.parse text) }

/-- Gives the place, unless one was given before. -/
def within (draft : Draft) (place : Place) : Draft :=
  { draft with place := draft.place <|> some place }

/-- The name of the selection: the one given, or a generated one. -/
def takeName (draft : Draft) : Fresh SetName :=
  match draft.name with
  | some name => Fresh.lift name
  | none => Fresh.name

/-- The query of a selection all of whose parts are known. -/
def finish (resolver : Resolver) (kind : ElementKind) (tags : TagFilter) (place : Place)
    (name : SetName) : Except QueryError Query := do
  let (program, scope) ← place.resolve resolver kind
  let extended ← program.insert (.selection ⟨name, kind, scope, tags⟩)
  return ⟨name, extended⟩

/-- Builds the selection. -/
def build (draft : Draft) (resolver : Resolver) : Fresh Query := do
  let tags ← Fresh.lift draft.tags
  match draft.place with
  | none => throw .placeMissing
  | some place =>
    let name ← draft.takeName
    Fresh.lift (finish resolver draft.kind tags place name)

end Draft

namespace Query

/-- The draft of a selection from the set of a query. -/
def scope (query : Query) (kind : ElementKind) : Draft := (Draft.ofKind kind).within (.query query)

/-- The selection of a kind with the given tags in the given place. -/
def select (kind : ElementKind) (tags : Except QueryError TagFilter) (place : Place) :
    Fresh Query :=
  (((Draft.ofKind kind).withTags tags).within place).build .natural

end Query

end Overpass
