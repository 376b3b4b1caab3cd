import Overpass.CommandLine.Response

/-!
# The program

Reads the shape document that the command line asks for, prints the response and exits with its
code. A command line that is not run is answered with a short usage text.
-/

open Overpass Overpass.CommandLine

/-- The cause of a failure to read. -/
def fileError : IO.Error → FileError
  | .noFileOrDirectory .. => .notFound
  | .permissionDenied .. => .notPermitted
  | .inappropriateType _ code details | .invalidArgument _ code details =>
    (FileError.ofNumber? code.toInt32.toInt.natAbs).getD (.other details)
  | .userError _ => .notText
  | failure => .other failure.toString

/-- What a source of shapes has to offer. -/
def readShapeSource (source : ShapeSource) : IO Offer := do
  try
    match source with
    | .file path => return .ok (some (← IO.FS.readFile path))
    | .standardInput =>
      let input ← IO.getStdin
      if ← input.isTty then return .ok none
      return .ok (some (← input.readToEnd))
  catch failure => return .error (fileError failure)

/-- The program. -/
def main (arguments : List String) : IO UInt32 := do
  let stdout ← IO.getStdout
  let stderr ← IO.getStderr
  match Arguments.read arguments with
  | .error interruption =>
    (if interruption = .help then stdout else stderr).putStr usage
    return UInt32.ofNat interruption.exitCode
  | .ok args =>
    let offer ← args.shapeSource?.elim (pure (.ok none)) readShapeSource
    let response := args.respond fun _ => offer
    stdout.putStr response.stdout
    stderr.putStr response.stderr
    return UInt32.ofNat response.exitCode
