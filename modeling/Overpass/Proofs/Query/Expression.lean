import Overpass.Program.Merge
import Overpass.Query.Draft

/-!
# Expressions and the queries built from them

What a caller does to obtain a query is recorded as an expression tree: selections in a region or
within the set of another query, combinations and recursions. `Built` relates an expression to every
query that the calls of the algebra can give for it, one rule for each form of call, with names
given or generated in any mix. A query is reachable if it is built from some expression, and a
program is reachable if it is empty, defines a reachable query, or is a merge of reachable programs.

## Main Definitions

* `Expression`: selections, combinations and recursions as a tree
* `Built`: the queries that calls give for an expression
* `Query.Reachable`, `Program.Reachable`: queries and programs that a caller can obtain

## Design Notes

Each call under a generated name runs on a supply of its own, so the rules cover every sequence of
calls and more: nothing that is proved of built queries depends on which names were generated.
-/

namespace Overpass

/-- What a caller asks for, as a tree. It has no names and no areas, and says nothing of which parts
were shared. -/
inductive Expression where
  /-- The elements of a kind with some tags in a region. -/
  | inRegion (kind : ElementKind) (tags : TagFilter) (region : Region)
  /-- The elements of a kind with some tags in the set of another expression. -/
  | within (kind : ElementKind) (tags : TagFilter) (source : Expression)
  | binary (operator : BinaryOperator) (left right : Expression)
  | recurse (direction : Direction) (source : Expression)

/-- The region that a place other than a query stands for. A region from any other resolver is given
as it is. -/
def Place.region? (resolver : Resolver) : Place → Option Region
  | query _ => none
  | polygon p => (resolver.ofPolygon p).toOption
  | bbox b => (resolver.ofBbox b).toOption
  | outline points => (resolver.ofOutline points).toOption
  | region r => some r
  | inline r => some r

/-- The queries that the calls of the algebra can give for an expression. Names are given or
generated as callers like, from any supply, and all that is asked of a call is that it succeeds. -/
inductive Built : Expression → Query → Prop
  /-- A selection in a region: resolved from a shape, or given with or without an area of its own.
  -/
  | inRegion {draft : Draft} {resolver : Resolver} {supply rest : NameSupply} {tags : TagFilter}
      {place : Place} {region : Region} {query : Query} :
      draft.tags = .ok tags → draft.place = some place → place.region? resolver = some region →
      (draft.build resolver).runOn supply = (.ok query, rest) →
      Built (.inRegion draft.kind tags region) query
  /-- A selection from the set of a query. -/
  | within {draft : Draft} {resolver : Resolver} {supply rest : NameSupply} {tags : TagFilter}
      {e : Expression} {source query : Query} :
      draft.tags = .ok tags → draft.place = some (.query source) → Built e source →
      (draft.build resolver).runOn supply = (.ok query, rest) →
      Built (.within draft.kind tags e) query
  /-- A union, difference or intersection under a caller's name. -/
  | combineAs {operator : BinaryOperator} {e f : Expression} {a b query : Query} {text : String} :
      Built e a → Built f b → Query.combineAs operator a b text = .ok query →
      Built (.binary operator e f) query
  /-- A union, difference or intersection under a generated name. -/
  | combineFresh {operator : BinaryOperator} {e f : Expression} {a b query : Query}
      {supply rest : NameSupply} :
      Built e a → Built f b → (Query.combineFresh operator a b).runOn supply = (.ok query, rest) →
      Built (.binary operator e f) query
  /-- A recursion under a caller's name. -/
  | recurseAs {direction : Direction} {e : Expression} {a query : Query} {text : String} :
      Built e a → a.recurseAs direction text = .ok query → Built (.recurse direction e) query
  /-- A recursion under a generated name. -/
  | recurse {direction : Direction} {e : Expression} {a query : Query} {supply rest : NameSupply} :
      Built e a → (a.recurse direction).runOn supply = (.ok query, rest) →
      Built (.recurse direction e) query
  /-- A recursion in the direction that a marker names. -/
  | recurseMarker {direction : Direction} {e : Expression} {a query : Query} {marker : String}
      {supply rest : NameSupply} :
      Built e a → Direction.parse marker = .ok direction →
      (a.recurseMarker marker).runOn supply = (.ok query, rest) →
      Built (.recurse direction e) query
  /-- A union of several queries from the left. -/
  | unionAll {e : Expression} {a query : Query} {others : List (Expression × Query)}
      {supply rest : NameSupply} :
      Built e a → (∀ other ∈ others, Built other.1 other.2) →
      (a.unionAll (others.map Prod.snd)).runOn supply = (.ok query, rest) →
      Built (others.foldl (fun left other => .binary .union left other.1) e) query
  /-- A difference of several queries from the left. -/
  | differenceAll {e : Expression} {a query : Query} {others : List (Expression × Query)}
      {supply rest : NameSupply} :
      Built e a → (∀ other ∈ others, Built other.1 other.2) →
      (a.differenceAll (others.map Prod.snd)).runOn supply = (.ok query, rest) →
      Built (others.foldl (fun left other => .binary .difference left other.1) e) query

/-- Queries that a caller can obtain: by any sequence of calls, over any regions, under any
names. -/
def Query.Reachable (query : Query) : Prop := ∃ e, Built e query

/-- Programs that a caller can obtain: the empty one, those of queries, and those that callers merge
themselves, also with parts of what was built elsewhere. -/
inductive Program.Reachable : Program → Prop
  | empty : Program.Reachable .empty
  | ofQuery {query : Query} : query.Reachable → Program.Reachable query.program
  | merge {p q merged : Program} :
      Program.Reachable p → Program.Reachable q → p.merge q = .ok merged →
      Program.Reachable merged

/-! ### A running example: the nodes and the ways of a park

Both selections bring an area for the park, of different kinds, so that their union widens it. -/

namespace Park

/-- The park, as small as can be. -/
def region : Region :=
  ⟨⟨"park"⟩, .ofPoint ⟨.zero false, .zero false⟩, [], .bbox⟩

/-- The elements of a kind in the park, under a given name. -/
def select (kind : ElementKind) (name : SetName) : Query where
  root := name
  program := ⟨[⟨kind, region⟩], [⟨name, kind, .named ⟨"park"⟩, .empty⟩], []⟩

/-- The nodes of the park, under a name of their own. -/
def nodes : Query := select .node ⟨"nodes"⟩

/-- The ways of the park. They share the area of the nodes, as that of their own kind. -/
def ways : Query := select .way ⟨"ways"⟩

/-- The nodes and the ways of the park. -/
def both : Query where
  root := ⟨"both"⟩
  program :=
    ⟨[⟨.any, region⟩], nodes.program.selections ++ ways.program.selections,
      [⟨⟨"both"⟩, .binary .union ⟨"nodes"⟩ ⟨"ways"⟩⟩]⟩

/-- The nodes are built from the region of the park without any tags. -/
theorem built_nodes : Built (.inRegion .node .empty region) nodes := by
  have hbuild : (Draft.build ⟨.node, .ok .empty, some (.ok ⟨"nodes"⟩), some (.region region)⟩
      .natural).runOn .initial = (.ok nodes, .initial) := rfl
  exact .inRegion rfl rfl rfl hbuild

theorem built_ways : Built (.inRegion .way .empty region) ways := by
  have hbuild : (Draft.build ⟨.way, .ok .empty, some (.ok ⟨"ways"⟩), some (.region region)⟩
      .natural).runOn .initial = (.ok ways, .initial) := rfl
  exact .inRegion rfl rfl rfl hbuild

theorem combineAs_nodes_ways : Query.combineAs .union nodes ways "both" = .ok both :=
  rfl

/-- The union of the nodes and the ways is built by combining the two, after which they share an
area of all kinds. -/
theorem built_both : Built
    (.binary .union (.inRegion .node .empty region) (.inRegion .way .empty region)) both :=
  .combineAs built_nodes built_ways combineAs_nodes_ways

end Park

end Overpass
