import QueryTerms.Query.Build
import QueryTerms.Query.Run
import QueryTerms.Term.Parser

/-!
# Resolvers and queries

A resolver knows where artifacts come from, which database to ask, and the settings.  It turns the
text of a term into a query, which can be adjusted and run any number of times.

**Resolving.** `Resolver.parse` with the aliases that leaves declare, `Resolver.resolve`.

**Adjusting.** `Query.bind`, `key`, `order`, `group`, `max`, `params` change the root of a query.

**Running.** `Query.select`, `selectFirst` and `run`; the last one writes if the root is a leaf that
does.
-/

namespace QueryTerms

/-- Turns terms into queries. -/
structure Resolver where
  store : Store
  database : Database
  transforms : String → Option Transform := fun _ => none
  config : Config := {}

/-- A resolved term. -/
structure Query where
  resolver : Resolver
  term : Term
  root : Node

namespace Resolver

/-- The aliases that the leaves of the store declare for the children of trees. -/
def aliases (resolver : Resolver) : Aliases where
  target? parent child := (resolver.store.aliasesOf parent).get? child
  extent := resolver.store.aliasExtent

/-- Reads a term, with the aliases that leaves declare. -/
def parse (resolver : Resolver) (text : String) : Except ParseError Term :=
  Term.parseWith resolver.aliases text

/-- The query of a term. -/
def resolve (resolver : Resolver) (text : String) : Except QueryError Query :=
  match resolver.parse text with
  | .error cause => .error (.parse cause)
  | .ok term => do
    let root ← build resolver.store term
    return { resolver, term, root }

/-- What executions read from. -/
def context (resolver : Resolver) : Context where
  database := resolver.database
  store := resolver.store
  transforms := resolver.transforms
  config := resolver.config

end Resolver

/-- What `Query.run` did. -/
inductive Outcome where
  | selected (result : Shaped)
  /-- How many rows a write has changed. -/
  | affected (count : Nat)

namespace Query

/-! ## Adjusting -/

/-- Changes what the root knows. -/
def mapInfo (query : Query) (change : NodeInfo → NodeInfo) : Query :=
  { query with root := query.root.withInfo (change query.root.info) }

/-- Changes the shape of the root's result. -/
def mapOutput (query : Query) (change : OutputShape → OutputShape) : Query :=
  query.mapInfo fun info => { info with output := change info.output }

/-- Restricts the rows to those whose `field` takes one of the values of `param`.  Without a field,
that of the key named `param` is taken, or a field of that name. -/
def bind (query : Query) (param : String) (field : Option String) : Query :=
  { query with root := query.root.bind param (field.map KeyFields.single) }

/-- Sets the key that results are merged and grouped on. -/
def key (query : Query) (field : String) : Query :=
  query.mapOutput fun output => { output with key := some field }

def order (query : Query) (field : String) (direction : Direction) : Query :=
  query.mapOutput fun output => { output with order := some { field, direction } }

/-- Returns rows grouped by key, or as a sequence. -/
def group (query : Query) (grouped : Bool) : Query :=
  query.mapOutput fun output => { output with grouped }

/-- Sets the most rows to return. -/
def max (query : Query) (count : Nat) : Query :=
  query.mapOutput fun output => { output with max := some count }

/-- Sets parameter values that count where the caller gives none. -/
def params (query : Query) (values : Params) : Query :=
  query.mapInfo fun info => { info with defaults := info.defaults.extend values }

/-! ## Running -/

/-- The key that rows are grouped on: the declared one, else the first key of the node. -/
def groupKey (info : NodeInfo) : Except QueryError String :=
  match info.output.key.or info.keys.keys.head? with
  | some key => .ok key
  | none => .error (.schema (.noGroupKey info.name))

/-- A result as one row that holds the list of rows of each key. -/
def groupResult (info : NodeInfo) (result : Shaped) : Except QueryError Shaped := do
  let key ← groupKey info
  match result.toRows? with
  | none => .error (.schema (.scalarGroup info.name))
  | some rows =>
    let groups ← groupRows (info.keyFields key) info.name rows
    return .row (some (groups.map fun (key, rows) => (key.text, .array (rows.map .object))))

/-- Runs the query. -/
def select (query : Query) (params : Params) : Execution Shaped := do
  let result ← query.root.run query.resolver.context params
  if query.root.info.output.grouped then
    groupResult query.root.info result
  else return result

/-- The first row of the result. -/
def selectFirst (query : Query) (params : Params) : Execution (Option Row) := do
  match ← query.select params with
  | .row row => return row
  | .rows rows => return rows.head?
  | .scalar _ | .scalars _ => .fail (.schema (.scalarOutput query.term.canonical))

/-- Runs the query, or writes if its root is declared to. -/
def run (query : Query) (params : Params) : Execution Outcome :=
  match query.root.info.kind with
  | .read => Outcome.selected <$> query.select params
  | _ => Outcome.affected <$> query.root.write query.resolver.context params

end Query

end QueryTerms
