import Overpass.Query
import Overpass.Text.Words

/-!
# Scripts

A query is printed as a script of one line per definition, with an optional header that sets format
and timeout and an optional footer that asks for output. Areas come first, then selections, then
operations, so that a name is bound before it is used; a query for which that fails is refused.

## Main Definitions

* `OutputFormat`, `Verbosity`, `Settings`: what header and footer say
* `Query.lines`: the lines of a script
* `Query.print`: the lines joined by line ends
-/

namespace Overpass

/-- The format of the answer that a header asks for. -/
inductive OutputFormat where
  | json
  | xml
deriving DecidableEq

namespace OutputFormat

/-- The keyword of the format. -/
def keyword : OutputFormat → String
  | json => "json"
  | xml => "xml"

/-- The format that a keyword names, in any case. -/
def ofKeyword? (text : String) : Option OutputFormat :=
  [json, xml].find? fun format => Text.matchesKeyword text format.keyword

end OutputFormat

/-- The level of detail that a footer asks for. -/
inductive Verbosity where
  | ids
  | skel
  | body
  | tags
  | metadata
deriving DecidableEq

namespace Verbosity

/-- The keyword of the level. -/
def keyword : Verbosity → String
  | ids => "ids"
  | skel => "skel"
  | body => "body"
  | tags => "tags"
  | metadata => "meta"

/-- The level that a keyword names, in any case. -/
def ofKeyword? (text : String) : Option Verbosity :=
  [ids, skel, body, tags, metadata].find? fun level => Text.matchesKeyword text level.keyword

end Verbosity

/-- What the header and the footer of a script say. -/
structure Settings where
  format : Option OutputFormat
  timeout : Option Nat
  verbosity : Option Verbosity
  geometry : Bool
deriving DecidableEq

namespace Settings

/-- Neither header nor footer. -/
def bare : Settings := ⟨none, none, none, false⟩

/-- The text of the format setting. -/
def formatText (settings : Settings) : String :=
  match settings.format with
  | some format => "[out:" ++ format.keyword ++ "]"
  | none => ""

/-- The text of the timeout setting. -/
def timeoutText (settings : Settings) : String :=
  match settings.timeout with
  | some seconds => "[timeout:" ++ seconds.repr ++ "]"
  | none => ""

/-- The header line, present as soon as a format or a timeout is set. -/
def header (settings : Settings) : List String :=
  if settings.format.isNone && settings.timeout.isNone then []
  else [settings.formatText ++ settings.timeoutText ++ ";"]

/-- The footer line, present if a level of detail is set. -/
def footer (settings : Settings) (root : SetName) : List String :=
  match settings.verbosity with
  | some level =>
    ["." ++ root.text ++ " out " ++ level.keyword ++
      (if settings.geometry then " geom" else "") ++ ";"]
  | none => []

end Settings

/-! ## Lines -/

namespace Definition

/-- Refuses references to names that are not bound before the line with the given number. -/
def checkReferences (bound : List SetName) (line : Nat) (names : List SetName) :
    Except QueryError Unit :=
  match names.find? fun name => !bound.contains name with
  | some name => .error (.unboundReference name line)
  | none => .ok ()

/-- The lines of definitions, given the names bound so far and the number of the next line. -/
def lines (bound : List SetName) (line : Nat) :
    List Definition → Except QueryError (List String)
  | [] => .ok []
  | definition :: rest => do
    checkReferences bound line definition.references
    let others ← lines (definition.name :: bound) (line + 1) rest
    return definition.line :: others

end Definition

namespace Query

/-- The lines of a script: header, one line per definition, footer. -/
def lines (settings : Settings) (query : Query) : Except QueryError (List String) := do
  let definitions := query.program.definitions
  let first := settings.header.length + 1
  let body ← Definition.lines [] first definitions
  Definition.checkReferences (definitions.map Definition.name) (first + definitions.length)
    [query.root]
  return settings.header ++ body ++ settings.footer query.root

/-- The script of a query as one text. -/
def print (settings : Settings) (query : Query) : Except QueryError String :=
  "\n".intercalate <$> query.lines settings

end Query

end Overpass
