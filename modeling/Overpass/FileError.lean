/-!
# Errors of reading a file

A failure that the system reports is described by the system's own words and number for it.

## Main Definitions

* `FileError`: why a file cannot be read
* `FileError.report?`: the words and the number of the system
* `FileError.message`: the wording of the failure
-/

namespace Overpass

/-- Why a file cannot be read. -/
inductive FileError where
  /-- There is nothing at the path. -/
  | notFound
  /-- The file may not be read. -/
  | notPermitted
  /-- The path leads through something that is no directory. -/
  | notDirectory
  /-- The path leads to a directory. -/
  | isDirectory
  /-- The path or one of its parts is longer than names can be. -/
  | nameTooLong
  /-- The path leads through too many links. -/
  | linkLoop
  /-- The bytes of the file are no text. -/
  | notText
  /-- Another failure, in the words of who reports it. -/
  | other (description : String)
deriving DecidableEq

namespace FileError

/-- The words and the number of the system for a failure; none if the system does not see one. -/
def report? : FileError → Option (String × Nat)
  | notFound => some ("No such file or directory", 2)
  | notPermitted => some ("Permission denied", 13)
  | notDirectory => some ("Not a directory", 20)
  | isDirectory => some ("Is a directory", 21)
  | nameTooLong => some ("File name too long", 36)
  | linkLoop => some ("Too many levels of symbolic links", 40)
  | notText | other _ => none

/-- The failure with the given number of the system. -/
def ofNumber? (number : Nat) : Option FileError :=
  [notFound, notPermitted, notDirectory, isDirectory, nameTooLong, linkLoop].find? fun cause =>
    cause.report?.any fun report => report.2 == number

/-- The wording of a failure. -/
def message (cause : FileError) : String :=
  match cause.report?, cause with
  | some (words, number), _ => words ++ " (os error " ++ number.repr ++ ")"
  | none, other description => description
  | none, _ => "stream did not contain valid UTF-8"

end FileError

end Overpass
