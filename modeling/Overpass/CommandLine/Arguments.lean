/-!
# Command line arguments

The command line names the command `query` and gives its options in any order. An option takes one
value, either attached to it or as the next argument; a flag takes none. No option or flag may be
given twice, and there are no positional arguments.

## Main Definitions

* `CommandLine.OptionName`, `CommandLine.Flag`: the options and flags
* `CommandLine.Arguments`: what was given
* `CommandLine.Arguments.read`: reading the arguments

## Design Notes

The next argument is the value of an option only if it does not start with a dash, a lone dash
apart. Boxes and outlines are the exception, since coordinates may be negative: they take any next
argument.
-/

namespace Overpass.CommandLine

/-- An option of the command. -/
inductive OptionName where
  | kind
  | tags
  | name
  | bbox
  | coords
  | shape
  | exclude
  | recurse
  | areaFormat
  | format
  | timeout
  | out
deriving DecidableEq

namespace OptionName

/-- The option with the given long name. -/
def ofLong? : String → Option OptionName
  | "kind" => some kind
  | "tags" => some tags
  | "name" => some name
  | "bbox" => some bbox
  | "coords" => some coords
  | "shape" => some shape
  | "exclude" => some exclude
  | "recurse" => some recurse
  | "area-format" => some areaFormat
  | "format" => some format
  | "timeout" => some timeout
  | "out" => some out
  | _ => none

/-- The option with the given letter. -/
def ofLetter? : Char → Option OptionName
  | 'k' => some kind
  | 't' => some tags
  | 'n' => some name
  | _ => none

/-- Whether the option takes any next argument as its value. -/
def takesDashes : OptionName → Bool
  | bbox | coords => true
  | _ => false

end OptionName

/-- A flag of the command. -/
inductive Flag where
  | geom
  | json
deriving DecidableEq

/-- The flag with the given long name. -/
def Flag.ofLong? : String → Option Flag
  | "geom" => some geom
  | "json" => some json
  | _ => none

/-- Why the command is not run. -/
inductive Interruption where
  /-- Help or version information was asked for. -/
  | help
  /-- The arguments are not acceptable. -/
  | refused
deriving DecidableEq

/-- The code to exit with when the command is not run. -/
def Interruption.exitCode : Interruption → Nat
  | help => 0
  | refused => 2

/-- How the command is used. -/
def usage : String :=
  "usage: query [-k KIND] [-t TAGS] [-n NAME] [--bbox BOX] [--coords POINTS] [--shape FILE]\n" ++
  "  [--exclude TAGS] [--recurse MARKER] [--area-format FORM] [--format FORMAT]\n" ++
  "  [--timeout SECONDS] [--out LEVEL] [--geom] [--json]\n"

/-- The options and flags given. -/
structure Arguments where
  options : List (OptionName × String)
  flags : List Flag
deriving DecidableEq

/-- The number of seconds that a timeout value denotes: an optional sign and digits, at most 32
bits. -/
def seconds? (value : String) : Option Nat :=
  let (negative, digits) :=
    match value.toList with
    | '-' :: rest => (true, rest)
    | '+' :: rest => (false, rest)
    | rest => (false, rest)
  let count := Nat.ofDigitChars 10 digits 0
  if digits.isEmpty || !digits.all Char.isDigit then none
  else if UInt32.size ≤ count || (negative && count != 0) then none
  else some count

namespace Arguments

/-- No option and no flag. -/
def empty : Arguments := ⟨[], []⟩

/-- The value given for an option. -/
def value? (args : Arguments) (option : OptionName) : Option String := args.options.lookup option

/-- Records the value of an option, which must be the first one for it; a timeout must be a
number. -/
def give (args : Arguments) (option : OptionName) (value : String) :
    Except Interruption Arguments :=
  if (args.value? option).isSome then .error .refused
  else if option = .timeout ∧ seconds? value = none then .error .refused
  else .ok { args with options := args.options ++ [(option, value)] }

/-- Records a flag, which must not have been given before. -/
def raise (args : Arguments) (flag : Flag) : Except Interruption Arguments :=
  if flag ∈ args.flags then .error .refused else .ok { args with flags := args.flags ++ [flag] }

/-- An argument cut at its first equals sign: the name, and the value if there is a sign. -/
def splitValue (cs : List Char) : String × Option String :=
  let name := String.ofList (cs.takeWhile (· != '='))
  match cs.dropWhile (· != '=') with
  | [] => (name, none)
  | _ :: value => (name, some (String.ofList value))

/-- Reads an argument that starts with two dashes, given without them. The result also holds the
option that still waits for its value. -/
def readLong (args : Arguments) (cs : List Char) :
    Except Interruption (Arguments × Option OptionName) :=
  let (name, value) := splitValue cs
  match OptionName.ofLong? name, Flag.ofLong? name, value with
  | some option, _, some value => (·, none) <$> args.give option value
  | some option, _, none => .ok (args, some option)
  | none, some flag, none => (·, none) <$> args.raise flag
  | none, none, none => .error (if name = "help" then .help else .refused)
  | none, _, some _ => .error .refused

/-- Reads an argument that starts with one dash, given without it. -/
def readShort (args : Arguments) : List Char →
    Except Interruption (Arguments × Option OptionName)
  | [] => .error .refused
  | letter :: rest =>
    match OptionName.ofLetter? letter, rest with
    | some option, [] => .ok (args, some option)
    | some option, '=' :: value => (·, none) <$> args.give option (String.ofList value)
    | some option, value => (·, none) <$> args.give option (String.ofList value)
    | none, _ => .error (if letter = 'h' then .help else .refused)

/-- Reads an argument where no value is due. -/
def readArgument (args : Arguments) (argument : String) :
    Except Interruption (Arguments × Option OptionName) :=
  match argument.toList with
  | '-' :: '-' :: rest => args.readLong rest
  | '-' :: rest => args.readShort rest
  | _ => .error .refused

/-- Whether an argument can be the value of the option before it. -/
def isValue (option : OptionName) (argument : String) : Bool :=
  option.takesDashes || argument == "-" || argument.toList.head? != some '-'

/-- Reads arguments, the first of which is the value of an option that waits for one. -/
def readAll (args : Arguments) : Option OptionName → List String → Except Interruption Arguments
  | none, [] => .ok args
  | some _, [] => .error .refused
  | some option, argument :: rest =>
    if isValue option argument then do
      let extended ← args.give option argument
      extended.readAll none rest
    else .error .refused
  | none, argument :: rest =>
    if argument = "--" then if rest.isEmpty then .ok args else .error .refused
    else do
      let (extended, waiting) ← args.readArgument argument
      extended.readAll waiting rest

/-- Reads the arguments of the whole command line, the command first. -/
def read : List String → Except Interruption Arguments
  | "query" :: rest => empty.readAll none rest
  | ["help"] | ["help", "query"] | ["help", "help"] => .error .help
  | command :: _ =>
    if command = "--help" ∨ command = "--version" then .error .help
    else
      match command.toList with
      | '-' :: 'h' :: _ | '-' :: 'V' :: _ => .error .help
      | _ => .error .refused
  | [] => .error .refused

end Arguments

end Overpass.CommandLine
