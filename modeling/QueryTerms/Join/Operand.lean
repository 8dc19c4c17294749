import QueryTerms.Query.Execution
import QueryTerms.Row.Keyed

/-!
# Operands of a join

The joins do not care where rows come from.  An operand is what they need to know of a node: its
name for messages, the keys it declares, whether it yields one row or many, and how to fetch its
rows for a set of parameters.

**Operands.** `Operand`, and `Operand.keyFields` for the fields that back a key.

**Restricting.** `restrictedTo` hands the key values of rows on as a parameter.
-/

namespace QueryTerms

/-- A node as an operand of a join. -/
structure Operand where
  name : String
  keys : KeyMap
  /-- Whether the operand yields one row or many. -/
  cardinality : Cardinality
  fetch : Params → Execution (List Row)

namespace Operand

/-- The fields that back `key` on this operand. -/
def keyFields (operand : Operand) (key : String) : KeyFields := operand.keys.fieldsOf key

/-- Fetches the rows and looks them up by key. -/
def fetchByKey (operand : Operand) (key : String) (params : Params) :
    Execution (Table KeyValue Row) := do
  let rows ← operand.fetch params
  associate (operand.keyFields key) operand.name rows

end Operand

/-- The parameters with `name` set to key values. -/
def restrictedTo (params : Params) (name : String) (values : List Value) : Params :=
  params.set name (.array values)

end QueryTerms
