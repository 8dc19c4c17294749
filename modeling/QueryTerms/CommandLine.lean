import QueryTerms.Resolver

/-!
# Commands

What the two commands do, apart from reading arguments and printing: `parse` shows a term in its
canonical text or its structure, `run` resolves a term against a directory of artifacts and
executes it.

**Errors.** `CommandError` and its wording.

**Commands.** `parseCommand`, `runCommand`.
-/

namespace QueryTerms

/-- Why a command fails. -/
inductive CommandError where
  | parse (cause : ParseError)
  | query (cause : QueryError)
  /-- The database cannot be opened. -/
  | database (message : String)
  /-- The settings cannot be read. -/
  | config (cause : StoreError)
  /-- The parameters are no JSON. -/
  | json
  /-- The parameters are JSON, but no object. -/
  | notAnObject

/-- The wording of the cause. -/
def CommandError.message : CommandError → String
  | .parse cause => "Parse error: " ++ cause.message
  | .query cause => "Query error: " ++ cause.message
  | .database message => "Database error: " ++ message
  | .config cause => "Config error: " ++ cause.message
  | .json => "Invalid JSON"
  | .notAnObject => "Parameters must be a JSON object, e.g. '\x7b\"user\": 1\x7d'"

/-- The canonical text of a term, or its structure. -/
def parseCommand (text : String) (structured : Bool) : Except CommandError String :=
  match Term.parse text with
  | .ok term => .ok (if structured then term.outline else term.canonical)
  | .error cause => .error (.parse cause)

/-- What `run` is asked to do. -/
structure RunOptions where
  term : String
  /-- The directory of artifacts. -/
  store : Entry
  /-- The path that leads to it. -/
  storePath : String := ""
  /-- Parameter values as a JSON object. -/
  params : Option String := none
  /-- The settings: a file below a directory. -/
  config : Option (Entry × String) := none
  /-- Whether only the first row is wanted. -/
  first : Bool := false

/-- What `run` prints. -/
inductive RunResult where
  | selected (value : Value)
  | affected (count : Nat)

/-- The result as it is printed. -/
def RunResult.text : RunResult → String
  | .selected value => value.json
  | .affected count => toString count ++ " row(s) affected"

/-- The parameter values in a JSON object; blank text has none. -/
def readParams (text : Option String) : Except CommandError Params :=
  match text.map fun text => Text.trim text.toList with
  | none | some [] => .ok []
  | some trimmed =>
    match Value.ofJson? (String.ofList trimmed) with
    | none => .error .json
    | some (.object fields) => .ok fields
    | some _ => .error .notAnObject

/-- The settings to use. -/
def readConfig (config : Option (Entry × String)) : Except CommandError Config :=
  match config with
  | none => .ok {}
  | some (root, path) =>
    match Config.read root path with
    | .ok config => .ok config
    | .error cause => .error (.config cause)

/-- Runs a query, or its first row. -/
def Query.report (query : Query) (params : Params) (first : Bool) : Execution RunResult :=
  if first then
    (fun row => RunResult.selected ((row.map Value.object).getD .null)) <$>
      query.selectFirst params
  else
    (fun
      | Outcome.selected result => RunResult.selected result.toValue
      | Outcome.affected count => .affected count) <$> query.run params

/-- Resolves a term and executes it.  Settings come first, then parameters, the database, the
term. -/
def runCommand (options : RunOptions) (database : Except String Database) :
    Except CommandError RunResult := do
  let config ← readConfig options.config
  let params ← readParams options.params
  match database with
  | .error message => .error (.database message)
  | .ok database =>
    let store := options.store.toStore options.storePath
    let resolver : Resolver := { store, database, config }
    match resolver.resolve options.term with
    | .error cause => .error (.query cause)
    | .ok query =>
      match (query.report params options.first).outcome with
      | .ok result => .ok result
      | .error cause => .error (.query cause)

end QueryTerms
