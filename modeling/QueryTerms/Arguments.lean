import QueryTerms.CommandLine

/-!
# The words of a command line

The words behind the program's name say which command is meant and what it works on.

**Words.** `Words.sort` tells switches, options with their values, and plain words apart.  A word
that begins with a dash and is not known is refused, and so is an option without a value.

**Requests.** `Request.ofWords?` reads a command; a later value of an option replaces an earlier
one.
-/

namespace QueryTerms

/-- The words of a command line by their role. -/
structure Words where
  plain : List String := []
  switches : List String := []
  options : Table String String := []

namespace Words

/-- Sorts words, given which of them are switches and which are options: an option by its short or
its long name, with the name it goes by. -/
def sort (switches : List String) (options : Table String String) : List String → Option Words
  | [] => some {}
  | [word] =>
    if switches.contains word then some { switches := [word] }
    else if word.startsWith "-" then none
    else some { plain := [word] }
  | word :: next :: rest =>
    if switches.contains word then
      (sort switches options (next :: rest)).map fun words =>
        { words with switches := word :: words.switches }
    else
      match options.get? word with
      | some name =>
        (sort switches options rest).map fun words =>
          { words with options := (name, next) :: words.options }
      | none =>
        if word.startsWith "-" then none
        else
          (sort switches options (next :: rest)).map fun words =>
            { words with plain := word :: words.plain }

/-- The value of an option; the last one given counts. -/
def option (words : Words) (name : String) : Option String :=
  Table.get? name words.options.reverse

end Words

/-- A command with what it works on. -/
inductive Request where
  /-- Show a term in its canonical text, or its structure. -/
  | parse (term : String) (structured : Bool)
  /-- Run a term on the artifacts in a directory and a database file. -/
  | run (term store database : String) (params config : Option String) (first : Bool)

namespace Request

/-- The options of `run`, by their short and long names. -/
def runOptions : Table String String :=
  [("-s", "store"), ("--store", "store"), ("-d", "db"), ("--db", "db"), ("-p", "params"),
   ("--params", "params"), ("-c", "config"), ("--config", "config")]

/-- The request that words make. -/
def ofWords? : List String → Option Request
  | "parse" :: rest => do
    let words ← Words.sort ["--tree"] [] rest
    match words.plain with
    | [term] => some (.parse term (words.switches.contains "--tree"))
    | _ => none
  | "run" :: rest => do
    let words ← Words.sort ["--first"] runOptions rest
    let store ← words.option "store"
    let database ← words.option "db"
    match words.plain with
    | [term] =>
      some (.run term store database (words.option "params") (words.option "config")
        (words.switches.contains "--first"))
    | _ => none
  | _ => none

/-- How the commands are written. -/
def usage : String :=
  "parse TERM [--tree]\nrun TERM --store DIR --db FILE [--params JSON] [--config FILE] [--first]"

end Request

end QueryTerms
