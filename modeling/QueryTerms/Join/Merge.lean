import QueryTerms.Join.Operand

/-!
# Union: `a|b|c`

Several queries over one entity become one list of rows.

**The key.** `mergeKey`: the declared one, else the only one that all operands share; none if no
operand declares any.

**The rows.** `mergeRows`: with a key, rows that share it are merged; without, the rows follow each
other.  An order is kept by inserting each row at its place.
-/

namespace QueryTerms

/-- The key that a union merges on. -/
def mergeKey (declared : Option String) (name : String) (operands : List Operand) :
    Except QueryError (Option String) :=
  match declared with
  | some key => .ok (some key)
  | none =>
    if operands.all fun operand => operand.keys.isEmpty then .ok none
    else some <$> commonKeyOfAll name (operands.map Operand.keys)

/-- Adds rows at the end, or each at its place in the order. -/
def appendRows (order : Option OrderBy) (merged rows : List Row) : List Row :=
  match order with
  | some order => rows.foldl (fun merged row => insertOrdered order row merged) merged
  | none => merged ++ rows

/-- Fetches the rows of every operand in turn. -/
def fetchAll (params : Params) : List Operand → Execution (List (Operand × List Row))
  | [] => pure []
  | operand :: rest => do
    let rows ← operand.fetch params
    let others ← fetchAll params rest
    return (operand, rows) :: others

/-- The rows of the union. -/
def mergeRows (declared : Option String) (order : Option OrderBy) (name : String)
    (operands : List Operand) (params : Params) : Execution (List Row) := do
  let key ← mergeKey declared name operands
  let results ← fetchAll params operands
  match key with
  | none => return results.foldl (fun merged result => appendRows order merged result.2) []
  | some key =>
    let merged ← mergeByKey order <| results.map fun (operand, rows) =>
      { node := operand.name, rows, fields := operand.keyFields key }
    return merged.values

end QueryTerms
