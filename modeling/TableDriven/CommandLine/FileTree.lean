import TableDriven.Calculator.Error

/-!
# Files in memory

A tree of files stands in for a file system. A path is followed component by
component from a directory; every component but the last must lead to a
directory, and so must the last if a slash follows it. Two dots lead to the
enclosing directory, and from the top to the top itself.
-/

namespace TableDriven.CommandLine

/-- A file or a directory of named entries. -/
inductive FileTree where
  | file (contents : Array UInt8)
  | directory (entries : List (String × FileTree))

namespace FileTree

/-- The longest name of an entry, in bytes. -/
def longestName : Nat := 255

/-- The longest path, in bytes. -/
def longestPath : Nat := 4095

/-- A directory in which nothing is known. -/
def empty : FileTree := .directory []

/-- The top directory, where absolute paths start, with the directories that are
always found there. Nothing is known inside them but the empty device. -/
def top : FileTree :=
  .directory (("dev", .directory [("null", .file #[])]) ::
    ["bin", "etc", "home", "lib", "proc", "root", "sys", "tmp", "usr", "var"].map
      fun name => (name, empty))

/-- Follow components from a directory whose enclosing directories are given,
the innermost first. -/
def follow (enclosing : List FileTree) (current : FileTree) :
    List String → Except FileError FileTree
  | [] => .ok current
  | component :: rest =>
    match current with
    | .file _ => .error .notADirectory
    | .directory entries =>
      if component = "" ∨ component = "." then follow enclosing current rest
      else if component = ".." then
        match enclosing with
        | [] => follow [] current rest
        | outer :: others => follow others outer rest
      else if longestName < component.utf8ByteSize then .error .nameTooLong
      else
        match entries.lookup component with
        | none => .error .notFound
        | some found => follow (current :: enclosing) found rest

/-- What a path names, seen from a working directory that stands in a directory
below the top. The empty path names nothing. -/
def find (working : FileTree) (path : String) : Except FileError FileTree :=
  if path = "" then .error .notFound
  else if longestPath < path.utf8ByteSize then .error .nameTooLong
  else if path.startsWith "/" then follow [] top (path.splitOn "/")
  else follow [empty, top] working (path.splitOn "/")

/-- The contents of the file at a path. -/
def read (working : FileTree) (path : String) : Except FileError (Array UInt8) :=
  match working.find path with
  | .error error => .error error
  | .ok (.file contents) => .ok contents
  | .ok (.directory _) => .error .isADirectory

end FileTree

end TableDriven.CommandLine
