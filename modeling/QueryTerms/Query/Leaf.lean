import QueryTerms.Config
import QueryTerms.Shaping
import QueryTerms.Query.Execution
import QueryTerms.Sql.Render

/-!
# Leaves

A leaf runs one statement, compiled or put together from fragments, and shapes the rows it gets.

**Where the statement comes from.** `LeafSource`, restricted to the values of a parameter by
`LeafSource.bind`.  A compiled statement that does not mention the parameter is wrapped, one in
fragments gets a condition.

**Values.** `effectiveParams`: the caller's values, then the paging limit, declared defaults, global
parameters.

**Batches.** A sequence longer than its declared batch is sent in successive statements, whose
results `concat` joins.

**Running.** `runLeaf` reads, `writeLeaf` writes.
-/

namespace QueryTerms

/-- What a node knows besides its operands. -/
structure NodeInfo where
  name : String
  keys : KeyMap := []
  params : ParamSpecs := []
  output : OutputShape := {}
  /-- The id under which unqualified children of a tree are looked up first. -/
  scope : Option String := none
  /-- Parameter values that stand back behind the caller's. -/
  defaults : Params := []
  kind : StatementKind := .read
  paging : Option Paging := none

namespace NodeInfo

/-- What a leaf's interface says about its node. -/
def ofInterface (name : String) (interface : Interface) : NodeInfo where
  name
  keys := interface.keys
  params := interface.params
  output := interface.output
  kind := interface.kind
  paging := interface.paging

/-- The fields that back a key on the node. -/
def keyFields (info : NodeInfo) (key : String) : KeyFields := info.keys.fieldsOf key

/-- Declares a parameter, if it is not declared yet. -/
def declare (info : NodeInfo) (param : String) : NodeInfo :=
  { info with params := info.params.setNew param {} }

end NodeInfo

/-- What executions read from. -/
structure Context where
  database : Database
  store : Store
  /-- The transforms registered for leaves, by id. -/
  transforms : String → Option Transform
  config : Config

/-! ## Statements -/

/-- A restriction of rows to the values of a parameter. -/
structure Binding where
  param : String
  fields : KeyFields
deriving DecidableEq

/-- Where the statement of a leaf comes from. -/
inductive LeafSource where
  /-- Compiled, with the joins of its children, restricted by bindings. -/
  | compiled (id : String) (children : Table String ChildBinding) (bindings : List Binding)
  /-- Put together from fragments. -/
  | fragments (id : String) (parts : Fragments)

/-- The columns of a binding, qualified by a table. -/
def columnList (database : Database) (table : String) : KeyFields → String
  | .single field => table ++ "." ++ database.identifier field
  | .composite fields =>
    "(" ++ String.intercalate ", "
      (fields.map fun field => table ++ "." ++ database.identifier field) ++ ")"

/-- The condition of a binding on a wrapped statement. -/
def boundCondition (database : Database) (binding : Binding) : String :=
  columnList database "bound" binding.fields ++ " IN (:" ++ binding.param ++ ")"

/-- A statement without white space at its ends and without closing semicolons. -/
def bareStatement (sql : String) : String :=
  String.ofList ((Text.trim sql.toList).reverse.dropWhile (· = ';')).reverse

/-- A compiled statement inside a query that applies those bindings whose parameter it does not
mention itself. -/
def wrapBindings (database : Database) (bindings : List Binding) (sql : String) : String :=
  let unmentioned := bindings.filter fun binding => !Sql.mentions sql binding.param
  if unmentioned.isEmpty then sql
  else
    "SELECT * FROM (" ++ bareStatement sql ++ ") AS bound WHERE "
      ++ String.intercalate " AND " (unmentioned.map (boundCondition database))

namespace Fragments

/-- Selects a field, unless it is selected already. -/
def selectField (fragments : Fragments) (field : String) : Fragments :=
  if fragments.selects field then fragments
  else { fragments with select := fragments.select ++ [field] }

/-- The condition of a binding inside a statement. -/
def condition (param : String) : KeyFields → String
  | .single field => field ++ " IN (:" ++ param ++ ")"
  | .composite fields => "(" ++ String.intercalate ", " fields ++ ") IN (:" ++ param ++ ")"

/-- Restricts the statement to rows whose fields take a value of the parameter. -/
def restrict (fragments : Fragments) (param : String) (fields : KeyFields) : Fragments :=
  let selected := fields.fields.foldl selectField fragments
  { selected with conditions := selected.conditions ++ [condition param fields] }

/-- Selects an expression under another name, unless that name is selected already. -/
def selectAs (fragments : Fragments) (expression name : String) : Fragments :=
  if fragments.selects name then fragments
  else { fragments with select := fragments.select ++ [expression ++ " AS " ++ name] }

end Fragments

namespace LeafSource

/-- The id of the leaf. -/
def id : LeafSource → String
  | .compiled id _ _ => id
  | .fragments id _ => id

/-- Restricts the statement.  In fragments, a parameter that is declared is taken to be in the
statement already. -/
def bind (param : String) (fields : KeyFields) (declared : Bool) : LeafSource → LeafSource
  | .compiled id children bindings =>
    let binding : Binding := { param, fields }
    .compiled id children
      (if bindings.contains binding then bindings else bindings ++ [binding])
  | .fragments id parts => .fragments id (if declared then parts else parts.restrict param fields)

/-- The statement with its placeholders. -/
def statement (context : Context) : LeafSource → Except QueryError String
  | .compiled id _ bindings =>
    match context.store.statement id with
    | .ok sql => .ok (wrapBindings context.database bindings sql)
    | .error cause => .error (.store cause)
  | .fragments id parts =>
    match parts.toSql? with
    | some sql => .ok sql
    | none => .error (.schema (.noSelect id))

end LeafSource

/-! ## Values -/

/-- The values a leaf is rendered with. -/
def effectiveParams (info : NodeInfo) (config : Config) (params : Params) : Params :=
  let paged := match info.paging, info.output.max with
    | some paging, some max => params.setNew paging.limit (Value.integer (Int64.ofNat max))
    | _, _ => params
  let declared : Params := info.params.filterMap fun (name, spec) =>
    spec.default.map fun value => (name, value)
  (paged.extendNew declared).extendNew config.globalParams

/-! ## Batches -/

/-- A parameter whose values are sent in batches. -/
structure Batched where
  param : String
  size : Nat
  items : List Value

/-- The batch that a declared parameter calls for. -/
def batchOf (values : Params) (param : String) (spec : ParamSpec) : Option Batched :=
  match spec.batch, values.get? param with
  | some size, some (.array items) =>
    if max size 1 < items.length then some ⟨param, max size 1, items⟩ else none
  | _, _ => none

/-- The one parameter to be sent in batches, if there is one. -/
def batchedParam (leaf : String) (info : NodeInfo) (values : Params) :
    Except QueryError (Option Batched) :=
  match info.params.filterMap fun (param, spec) => batchOf values param spec with
  | [] => .ok none
  | [batched] => .ok (some batched)
  | several => .error (.schema (.severalBatches leaf (several.map Batched.param)))

/-- Successive parts of a list, each of `size` items except for the last one. -/
def chunks {α : Type} (size : Nat) : List α → List (List α)
  | [] => []
  | item :: rest => (item :: rest.take (size - 1)) :: chunks size (rest.drop (size - 1))
termination_by items => items.length
decreasing_by simp only [List.length_drop, List.length_cons]; omega

/-- The result of two batches. -/
def concat : Shaped → Shaped → Shaped
  | .rows first, .rows second => .rows (first ++ second)
  | .scalars first, .scalars second => .scalars (first ++ second)
  | .row none, next => next
  | .scalar .null, next => next
  | first, _ => first

/-- Runs a statement for each part of a list of values in turn. -/
def runBatches (run : Params → Execution Shaped) (values : Params) (param : String) :
    List (List Value) → Execution Shaped
  | [] => run values
  | first :: rest => do
    let result ← run (values.set param (.array first))
    rest.foldlM
      (fun result items => do return concat result (← run (values.set param (.array items))))
      result

/-! ## Running -/

/-- Renders and sends a statement. -/
def sendLeaf (context : Context) (leaf sql : String) (info : NodeInfo) (values : Params) :
    Execution Cursor := do
  let rendered ← Sql.render context.database.literal sql values info.params
  Execution.send context.database leaf ⟨rendered.sql, rendered.bound⟩

/-- One statement, in the declared shape. -/
def runOnce (context : Context) (leaf sql : String) (info : NodeInfo) (values : Params) :
    Execution Shaped := do
  let cursor ← sendLeaf context leaf sql info values
  return cursor.fetch info.output.rows info.output.columns

/-- How the rows of a leaf are shaped. -/
def shapingOf (context : Context) (leaf : String) (info : NodeInfo) : Shaping where
  nested := info.output.nested
  separator := context.config.nestedSeparator
  types := info.output.types
  transform := context.transforms leaf

/-- Shapes rows; other results stay as they are. -/
def shapeResult (shaping : Shaping) : Shaped → Shaped
  | .rows all => .rows (shaping.apply all)
  | other => other

/-- The result of a statement, in batches where needed. -/
def runStatement (context : Context) (leaf sql : String) (info : NodeInfo) (params : Params) :
    Execution Shaped := do
  let values := effectiveParams info context.config params
  let result ← match ← batchedParam leaf info values with
    | none => runOnce context leaf sql info values
    | some batched =>
      runBatches (runOnce context leaf sql info) values batched.param
        (chunks batched.size batched.items)
  return shapeResult (shapingOf context leaf info) result

/-- Reads a leaf. -/
def runLeaf (context : Context) (info : NodeInfo) (source : LeafSource) (params : Params) :
    Execution Shaped := do
  let sql ← source.statement context
  runStatement context source.id sql info params

/-- Writes through a leaf and counts the rows that were changed. -/
def writeLeaf (context : Context) (info : NodeInfo) (source : LeafSource) (params : Params) :
    Execution Nat := do
  let sql ← source.statement context
  let values := effectiveParams info context.config params
  let cursor ← sendLeaf context source.id sql info values
  return cursor.affected

end QueryTerms
