import QueryTerms.Arguments

/-!
# The program

Reads the words behind its name, does what they ask for, prints the answer, or the reason why there
is none and ends with status 1.

No database driver is linked.  `run` reads its settings and its parameters and then reports that the
database cannot be opened; the artifacts are not looked at before that.
-/

namespace QueryTerms

/-- The rest of the standard input. -/
partial def readAll (input : IO.FS.Stream) (soFar : String) : IO String := do
  let line ← input.getLine
  if line.isEmpty then return soFar else readAll input (soFar ++ line)

/-- The parameters: those given, else the standard input unless it is a terminal. -/
def suppliedParams (given : Option String) : IO (Option String) := do
  if given.isSome then return given
  let input ← IO.getStdin
  if ← input.isTty then return none else some <$> readAll input ""

/-- The file at a path as the one entry of a directory; an empty directory if it cannot be read. -/
def fileAlone (path : String) : IO Entry := do
  try
    let text ← IO.FS.readFile path
    return Entry.empty.write (pathComponents path) (.file (.text text))
  catch _ => return Entry.empty

/-- The database in a file. -/
def openDatabase (path : String) : Except String Database :=
  .error ("no driver is linked to open '" ++ path ++ "'")

/-- The answer to a request. -/
def Request.answer : Request → IO (Except CommandError String)
  | .parse term structured => return parseCommand term structured
  | .run term storePath database params config first => do
    let params ← suppliedParams params
    let config ← config.mapM fun path => do return (← fileAlone path, path)
    let options : RunOptions := { term, store := Entry.empty, storePath, params, config, first }
    return RunResult.text <$> runCommand options (openDatabase database)

end QueryTerms

open QueryTerms in
def main (words : List String) : IO UInt32 := do
  match Request.ofWords? words with
  | none =>
    IO.eprintln Request.usage
    return 2
  | some request =>
    match ← request.answer with
    | .ok text =>
      IO.println text
      return 0
    | .error cause =>
      IO.eprintln cause.message
      return 1
