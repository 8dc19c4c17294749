import QueryTerms.Join.Operand

/-!
# Left join: `base+a+b`

The rows of the base, each with the fields of the rows of the other operands that share its key.
Operands are asked only for the keys of the base, and not at all if the base has no rows.

**One row.** `attachRow`.

**One operand.** `attachOperand`.

**The join.** `attachRows`.
-/

namespace QueryTerms

/-- A row with the fields of the row that has its key, if there is one. -/
def attachRow (fields : KeyFields) (lookup : Table KeyValue Row) (row : Row) :
    Except QueryError Row :=
  match KeyValue.ofRow? fields row with
  | none => .ok row
  | some key =>
    match lookup.get? key with
    | none => .ok row
    | some found => row.merge found

/-- The rows of the base with those of one operand attached. -/
def attachOperand (fields : KeyFields) (key : String) (params : Params) (rows : List Row)
    (operand : Operand) : Execution (List Row) := do
  let lookup ← operand.fetchByKey key params
  Execution.ofExcept (rows.mapM (attachRow fields lookup))

/-- The rows of the join. -/
def attachRows (key : String) (base : Operand) (joined : List Operand) (params : Params) :
    Execution (List Row) := do
  let rows ← base.fetch params
  if rows.isEmpty then return rows
  let values ← collectValues (base.keyFields key) base.name rows
  joined.foldlM (attachOperand (base.keyFields key) key (restrictedTo params key values)) rows

end QueryTerms
