import QueryTerms.Query.Node
import QueryTerms.Join.Merge
import QueryTerms.Join.Attach
import QueryTerms.Join.Filter

/-!
# Running nodes

The joins work on operands; here nodes become operands, from the leaves up.

**Finishing.** `finish` sorts rows by the declared order and cuts the result to the declared
length.  A union keeps its order while it merges.

**Running.** `Node.run` reads, `Node.write` writes and is refused to everything but leaves.
-/

namespace QueryTerms

/-- The first rows or values of a result. -/
def truncate (max : Option Nat) (result : Shaped) : Shaped :=
  match result, max with
  | .rows all, some max => .rows (all.take max)
  | .scalars all, some max => .scalars (all.take max)
  | result, _ => result

/-- Rows in the declared order. -/
def sortResult (order : Option OrderBy) (result : Shaped) : Shaped :=
  match result, order with
  | .rows all, some order => .rows (sortRows order all)
  | result, _ => result

/-- The result in its declared order and of its declared length. -/
def finish (info : NodeInfo) (result : Shaped) : Shaped :=
  truncate info.output.max (sortResult info.output.order result)

/-- The rows of a node's result, or the fault that it is scalar. -/
def rowsOf (name : String) (result : Shaped) : Except QueryError (List Row) :=
  match result.toRows? with
  | some rows => .ok rows
  | none => .error (.schema (.scalarOperand name))

/-- A node as an operand, given how it runs. -/
def NodeInfo.toOperand (info : NodeInfo) (run : Params → Execution Shaped) : Operand where
  name := info.name
  keys := info.keys
  cardinality := info.output.rows
  fetch params := do rowsOf info.name (← run params)

/-- The parameters of a run, with the node's own defaults behind them. -/
def NodeInfo.withDefaults (info : NodeInfo) (params : Params) : Params :=
  params.extendNew info.defaults

namespace Node

mutual

/-- The result of a node for a set of parameters. -/
def run (context : Context) : Node → Params → Execution Shaped
  | .leaf info source => fun params => do
    return finish info (← runLeaf context info source (info.withDefaults params))
  | .merge info operands => fun params => do
    let rows ← mergeRows info.output.key info.output.order info.name
      (operandsOf context operands) (info.withDefaults params)
    return truncate info.output.max (.rows rows)
  | .attach info key base joined => fun params => do
    let operand := base.info.toOperand (base.run context)
    let rows ← attachRows key operand (operandsOf context joined) (info.withDefaults params)
    return finish info (.ofRows rows operand.cardinality)
  | .filter info key narrowing base => fun params => do
    let rows ← filterRows key context.config.filterKeyLimit (operandsOf context narrowing)
      (base.info.toOperand (base.run context)) (info.withDefaults params)
    return finish info (.rows rows)
  | .tree info base nested => fun params => do
    let operand := base.info.toOperand (base.run context)
    let rows ← nestRows operand (nestedOf context nested) (info.withDefaults params)
    return finish info (.ofRows rows operand.cardinality)

/-- Nodes as operands. -/
def operandsOf (context : Context) : List Node → List Operand
  | [] => []
  | node :: rest => node.info.toOperand (node.run context) :: operandsOf context rest

/-- The children of a tree as operands. -/
def nestedOf (context : Context) : List (NestJoin × Node) → List Nested
  | [] => []
  | (join, node) :: rest =>
    { join, operand := node.info.toOperand (node.run context) } :: nestedOf context rest

end

/-- Writes through a node and counts the rows that were changed. -/
def write (context : Context) : Node → Params → Execution Nat
  | .leaf info source, params => writeLeaf context info source (info.withDefaults params)
  | node, _ => .fail (.schema (.compositeWrite node.info.name))

end Node

end QueryTerms
