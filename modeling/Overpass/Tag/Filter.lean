import Overpass.Tag

/-!
# Tag filters

A filter is a list of tags, all of which an element must have. Callers give it as tokens, as a text
of comma-separated tokens, as pairs, or as a dictionary.

## Main Definitions

* `TagFilter`: the tags of a filter, in order
* `TagFilter.ofText`, `TagFilter.ofTokens`, `TagFilter.ofPairs`: reading filters
* `TagFilter.render`: the bracketed forms of all tags
* `Pairs.lastWins`, `Pairs.sorted`: the pairs of a dictionary, by first mention or by key

## Design Notes

The order in which tags are given is the order in which they are printed.
-/

namespace Overpass

/-- Tags that an element must have, in the order in which they are printed. -/
structure TagFilter where
  tags : List Tag
deriving DecidableEq

namespace TagFilter

/-- The filter that asks for nothing. -/
def empty : TagFilter := ⟨[]⟩

/-- Reads a list of tokens; the first one that is malformed is reported. -/
def ofTokens (tokens : List String) : Except QueryError TagFilter :=
  TagFilter.mk <$> tokens.mapM Tag.parse

/-- Reads comma-separated tokens; a blank text is the empty filter. -/
def ofText (text : String) : Except QueryError TagFilter :=
  if (Text.trim text.toList).isEmpty then .ok empty
  else ofTokens ((text.toList.splitOn ',').map String.ofList)

/-- Reads a list of pairs; the first one that is malformed is reported. -/
def ofPairs (pairs : List (String × Option String)) : Except QueryError TagFilter :=
  TagFilter.mk <$> pairs.mapM Tag.ofPair

/-- The bracketed forms of all tags. -/
def render (filter : TagFilter) : String := String.join (filter.tags.map Tag.render)

end TagFilter

namespace Pairs

/-- Sets the value of a key: in its old place, or at the end when it is new. -/
def set (key : String) (value : Option String) :
    List (String × Option String) → List (String × Option String)
  | [] => [(key, value)]
  | pair :: rest => if pair.1 = key then (key, value) :: rest else pair :: set key value rest

/-- The pairs of a dictionary in the order of first mention; the last value of a key counts. -/
def lastWins (pairs : List (String × Option String)) : List (String × Option String) :=
  pairs.foldl (fun dictionary pair => set pair.1 pair.2 dictionary) []

/-- The pairs of a dictionary in the order of their keys by code points. -/
def sorted (pairs : List (String × Option String)) : List (String × Option String) :=
  (lastWins pairs).mergeSort fun a b => !(decide (b.1 < a.1))

end Pairs

end Overpass
