import TableDriven.CommandLine.Report

/-!
# The program

The only part that touches the outside world: it reads the file that the
arguments name, hands its contents over, and writes out the answer.
-/

namespace TableDriven.CommandLine

/-- The number of the system error for a path that leads through a file. -/
def throughFile : UInt32 := 20

/-- The number of the system error for a name that is too long. -/
def longName : UInt32 := 36

/-- The reason behind a failure of the file system. The number of a system error
may come with its sign changed. -/
def fileError : IO.Error → FileError
  | .noFileOrDirectory _ _ _ => .notFound
  | .inappropriateType _ code _ =>
    if code = throughFile ∨ 0 - code = throughFile then .notADirectory else .isADirectory
  | .invalidArgument name code details =>
    if code = longName ∨ 0 - code = longName then .nameTooLong
    else .other (toString (IO.Error.invalidArgument name code details))
  | .permissionDenied _ _ _ => .permissionDenied
  | other => .other (toString other)

/-- The contents of a file. -/
def readContents (path : String) : IO (Except FileError (Array UInt8)) := do
  try
    let contents ← IO.FS.readBinFile path
    return .ok contents.data
  catch failure =>
    return .error (fileError failure)

end TableDriven.CommandLine

open TableDriven.CommandLine in
/-- Answer the arguments of the program. -/
def main (arguments : List String) : IO UInt32 := do
  let request := readArguments arguments
  let contents ← match request.path? with
    | some path => readContents path
    | none => pure (.error .notFound)
  let report := request.answer contents TableDriven.Parser.ampleSteps
  IO.print report.stdout
  IO.eprint report.stderr
  return UInt32.ofNat report.code
