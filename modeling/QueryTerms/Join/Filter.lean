import QueryTerms.Join.Operand

/-!
# Intersection: `a:b:base`

The last operand is the base.  From right to left every other operand narrows the rows to those
whose key it returns, and adds its fields to them.  Rows of an operand that no row had asked for are
kept too; a narrowing query may report keys that the base never had.

**One step.** `narrow` on the rows, `filterStep` with fetching.  A step hands on a bounded number of
key values.

**The chain.** `filterRows` stops early when no rows are left.
-/

namespace QueryTerms

/-- Copies the key of a row from one operand's fields to those of another, where they are free. -/
def rekey (source target : KeyFields) (row : Row) : Row :=
  if source = target then row
  else
    (target.fields.zip (source.fields.map fun field => row.get? field)).foldl
      (fun out (field, value) =>
        match value with
        | some value => out.setNew field value
        | none => out)
      row

/-- A row that the lookup has, with its fields merged in. -/
def keepRow (fields : KeyFields) (lookup : Table KeyValue Row) (row : Row) :
    Except QueryError (Option Row) :=
  match (KeyValue.ofRow? fields row).bind lookup.get? with
  | some found => some <$> row.merge found
  | none => .ok none

/-- The rows that the lookup has, then the rows of the lookup that no row had asked for. -/
def narrow (base operand : KeyFields) (lookup : Table KeyValue Row) (rows : List Row) :
    Except QueryError (List Row) := do
  let kept ← rows.filterMapM (keepRow base lookup)
  let asked := rows.filterMap (KeyValue.ofRow? base)
  let others := lookup.filter fun entry => !asked.contains entry.1
  return kept ++ others.map fun entry => rekey operand base entry.2

/-- The rows after one operand has narrowed them. -/
def filterStep (key : String) (limit : Nat) (base operand : Operand) (params : Params)
    (rows : List Row) : Execution (List Row) := do
  let values ← collectValues (base.keyFields key) base.name rows
  if limit < values.length then .fail (.limitExceeded values.length limit)
  else
    let lookup ← operand.fetchByKey key (restrictedTo params key values)
    narrow (base.keyFields key) (operand.keyFields key) lookup rows

/-- Narrows rows by one operand after another, as long as there are any. -/
def filterFrom (key : String) (limit : Nat) (base : Operand) (params : Params) :
    List Operand → List Row → Execution (List Row)
  | [], rows => pure rows
  | operand :: rest, rows =>
    if rows.isEmpty then pure rows
    else do
      let narrowed ← filterStep key limit base operand params rows
      filterFrom key limit base params rest narrowed

/-- The rows of the chain; `narrowing` is in the order of the term, the base not among it. -/
def filterRows (key : String) (limit : Nat) (narrowing : List Operand) (base : Operand)
    (params : Params) : Execution (List Row) := do
  let rows ← base.fetch params
  filterFrom key limit base params narrowing.reverse rows

end QueryTerms
