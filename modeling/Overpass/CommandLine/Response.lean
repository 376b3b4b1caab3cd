import Overpass.CommandLine.Arguments
import Overpass.Request

/-!
# Answering a command line

A command line is turned into a request, for which a shape document may have to be read, and the
request into what is printed and the code to exit with.

## Main Definitions

* `CommandLine.ShapeSource`: where a shape document is read from
* `CommandLine.Offer`: what such a source has to offer
* `CommandLine.Arguments.toRequest`: the request that the arguments make
* `CommandLine.Arguments.respond`: the response to the arguments
* `CommandLine.respond`: the response to a whole command line
-/

namespace Overpass.CommandLine

/-- Where a shape document is read from. -/
inductive ShapeSource where
  | file (path : String)
  | standardInput
deriving DecidableEq

/-- What a source has to offer: a document, nothing if it is a terminal, or a failure to read it. -/
abbrev Offer : Type := Except FileError (Option String)

/-- What is printed, and the code to exit with. -/
structure Response where
  exitCode : Nat
  stdout : String
  stderr : String
deriving DecidableEq

/-- The choice that an option's value names, if the option is given. -/
def choose {α : Type} (what : String) (read : String → Option α) :
    Option String → Except RequestError (Option α)
  | none => .ok none
  | some value =>
    match read value with
    | some choice => .ok (some choice)
    | none => .error (.unknownValue what value)

namespace Arguments

/-- The source of the shape: a file if one is named, else the standard input if no region is
given. -/
def shapeSource? (args : Arguments) : Option ShapeSource :=
  match args.value? .shape with
  | some path => some (.file path)
  | none =>
    if (args.value? .bbox).isNone && (args.value? .coords).isNone then some .standardInput else none

/-- The shape document, read from its source if there is one. -/
def readShape (args : Arguments) (read : ShapeSource → Offer) :
    Except RequestError (Option String) :=
  match args.shapeSource? with
  | none => .ok none
  | some source => (read source).mapError .unreadable

/-- The request that the arguments make. Choices are checked before the shape is read. -/
def toRequest (args : Arguments) (read : ShapeSource → Offer) :
    Except RequestError Request := do
  let kind ← choose "element kind" ElementKind.ofKeyword? (args.value? .kind)
  let encoding ← choose "area format" Encoding.ofKeyword? (args.value? .areaFormat)
  let format ← choose "output format" OutputFormat.ofKeyword? (args.value? .format)
  let verbosity ← choose "out verbosity" Verbosity.ofKeyword? (args.value? .out)
  let shape ← args.readShape read
  return {
    kind := kind.getD .any
    tags := (args.value? .tags).getD ""
    name := args.value? .name
    bbox := args.value? .bbox
    coords := args.value? .coords
    shape := shape
    exclude := args.value? .exclude
    recurse := args.value? .recurse
    encoding := encoding
    settings :=
      { format := format
        timeout := (args.value? .timeout).bind seconds?
        verbosity := verbosity
        geometry := args.flags.contains .geom }
    dump := args.flags.contains .json }

/-- The response to arguments, given what their shape source has to offer. Requests that are refused
exit with 1. -/
def respond (args : Arguments) (read : ShapeSource → Offer) : Response :=
  match args.toRequest read >>= Request.run with
  | .ok answer => ⟨0, answer.text ++ "\n", ""⟩
  | .error cause => ⟨1, "", cause.message ++ "\n"⟩

end Arguments

/-- The response to a command line, given what its shape source has to offer. The text that explains
an interruption is left to the caller. -/
def respond (arguments : List String) (read : ShapeSource → Offer) : Response :=
  match Arguments.read arguments with
  | .ok args => args.respond read
  | .error interruption => ⟨interruption.exitCode, "", ""⟩

end Overpass.CommandLine
