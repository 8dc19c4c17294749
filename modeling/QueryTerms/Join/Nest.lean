import QueryTerms.Join.Operand

/-!
# Nesting: `parent(a,b)`

Each row of the parent gets, in a field of its own, the list of a child's rows that join with it.

**The join.** `NestJoin` says how a child joins its parent; `Nested` adds the child.

**One child.** `nestRow` puts the group of a child's rows that a row of the parent joins with into
that row, `nestChild` fetches them first.

**All children.** `nestRows`; fields that were selected for joining only are dropped at the end.
-/

namespace QueryTerms

/-- How a child joins its parent. -/
structure NestJoin where
  /-- The field of the parent's rows that holds the child's rows. -/
  field : String
  /-- The parameter that restricts the child to the parent's key values. -/
  param : String
  /-- The parent's fields that hold the join value. -/
  parent : KeyFields
  /-- The child's fields that it is matched against. -/
  child : KeyFields
  /-- Whether the parent's fields serve the join only. -/
  hidden : Bool

/-- A child with its join. -/
structure Nested where
  join : NestJoin
  operand : Operand

/-- A parent's row with the rows that join with it. -/
def nestRow (join : NestJoin) (groups : Table KeyValue (List Row)) (row : Row) : Row :=
  let group := ((KeyValue.ofRow? join.parent row).bind groups.get?).getD []
  row.set join.field (.array (group.map fun child => .object (join.child.strip child)))

/-- The parent's rows with the rows of one child. -/
def nestChild (parentName : String) (params : Params) (rows : List Row) (nested : Nested) :
    Execution (List Row) := do
  let values ← collectValues nested.join.parent parentName rows
  let fetched ← nested.operand.fetch (restrictedTo params nested.join.param values)
  let groups ← groupRows nested.join.child nested.operand.name fetched
  return rows.map (nestRow nested.join groups)

/-- A row without the fields that serve joins only. -/
def dropHidden (children : List Nested) (row : Row) : Row :=
  children.foldl
    (fun row nested => if nested.join.hidden then nested.join.parent.strip row else row) row

/-- The parent's rows with those of all children. -/
def nestRows (parent : Operand) (children : List Nested) (params : Params) :
    Execution (List Row) := do
  let rows ← parent.fetch params
  if rows.isEmpty then return rows
  let filled ← children.foldlM (nestChild parent.name params) rows
  return filled.map (dropHidden children)

end QueryTerms
