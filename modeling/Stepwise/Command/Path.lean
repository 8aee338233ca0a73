/-!
# Paths

A path is resolved against the working directory by its text alone: empty parts and `.` are
dropped, and `..` takes back the part before it.
-/

namespace Stepwise.Command.Path

/-- Goes on from a directory, given by its parts, by one part of a path. -/
def push (parts : List String) (part : String) : List String :=
  if part = "" || part = "." then parts
  else if part = ".." then parts.dropLast
  else parts ++ [part]

/-- The parts of a path, from a directory. -/
def extend (directory : List String) (path : String) : List String :=
  (path.splitOn "/").foldl push directory

/-- The absolute path that a path stands for in the working directory `cwd`. -/
def resolve (cwd path : String) : String :=
  let start := if "/".isPrefixOf path then [] else extend [] cwd
  "/" ++ "/".intercalate (extend start path)

end Stepwise.Command.Path
