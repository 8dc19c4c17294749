import QueryTerms.Row.Merge
import QueryTerms.Row.Order

/-!
# Rows by key

The joins look rows up by key.  Every row has to hold the fields that back the key.

**Tables by key.** `associate` merges the rows of a key into one, `groupRows` collects them; both
keep the order in which keys first appear.

**Across sources.** `mergeByKey` merges several lists of rows, each with its own backing fields.

**Key values.** `collectValues` lists the distinct values that are not null; `spliceKey` takes out
the first row with a key.
-/

namespace QueryTerms

/-- The fault of a row without the fields that back a key. -/
def missingKey (fields : KeyFields) (node : String) : QueryError :=
  .schema (.missingKey fields.fields node)

/-- The key of a row, or the fault that it has none. -/
def keyOf (fields : KeyFields) (node : String) (row : Row) : Except QueryError KeyValue :=
  match KeyValue.ofRow? fields row with
  | some key => .ok key
  | none => .error (missingKey fields node)

/-- Merges a row into the one that has its key, or adds it. -/
def associateRow (key : KeyValue) (row : Row) (table : Table KeyValue Row) :
    Except QueryError (Table KeyValue Row) :=
  match table.get? key with
  | some existing => do return table.set key (← existing.merge row)
  | none => .ok (table.set key row)

/-- The rows by key; those that share a key are merged into the first of them. -/
def associate (fields : KeyFields) (node : String) (rows : List Row) :
    Except QueryError (Table KeyValue Row) :=
  rows.foldlM (fun table row => do associateRow (← keyOf fields node row) row table) []

/-- The rows of each key, in order. -/
def groupRows (fields : KeyFields) (node : String) (rows : List Row) :
    Except QueryError (Table KeyValue (List Row)) :=
  rows.foldlM
    (fun groups row => do
      let key ← keyOf fields node row
      return groups.set key ((groups.get? key).getD [] ++ [row]))
    []

/-! ## Across sources -/

/-- Rows of one source, with the name of the node they come from. -/
structure KeyedRows where
  node : String
  rows : List Row
  fields : KeyFields

/-- Merges a row under its key, or puts it at its place in the order. -/
def placeRow (order : Option OrderBy) (key : KeyValue) (row : Row) (merged : Table KeyValue Row) :
    Except QueryError (Table KeyValue Row) :=
  match merged.get? key with
  | some existing => do return merged.set key (← existing.merge row)
  | none =>
    match order.bind fun order => insertPosition order row merged.values with
    | some index => .ok (merged.insertAt index key row)
    | none => .ok (merged ++ [(key, row)])

/-- Merges the rows of one source into those of the sources before it. -/
def placeSource (order : Option OrderBy) (merged : Table KeyValue Row) (source : KeyedRows) :
    Except QueryError (Table KeyValue Row) := do
  let table ← associate source.fields source.node source.rows
  table.foldlM (fun merged entry => placeRow order entry.1 entry.2 merged) merged

/-- Merges several sources by key.  The first one fixes the order to begin with; a new key goes to
its place in `order`, or to the end. -/
def mergeByKey (order : Option OrderBy) (sources : List KeyedRows) :
    Except QueryError (Table KeyValue Row) :=
  sources.foldlM (placeSource order) []

/-! ## Key values -/

/-- The distinct key values of the rows that are not null and not in `seen`. -/
def collectFrom (fields : KeyFields) (node : String) (seen : List KeyValue) :
    List Row → Except QueryError (List Value)
  | [] => .ok []
  | row :: rest =>
    match fields.valueOf row with
    | none => .error (missingKey fields node)
    | some value =>
      let key := KeyValue.ofValue value
      if value.isNull || seen.contains key then collectFrom fields node seen rest
      else (value :: ·) <$> collectFrom fields node (key :: seen) rest

/-- The distinct key values that are not null, in order of first appearance. -/
def collectValues (fields : KeyFields) (node : String) (rows : List Row) :
    Except QueryError (List Value) :=
  collectFrom fields node [] rows

/-- The first row with a key, and the other rows. -/
def spliceKey (fields : KeyFields) (key : KeyValue) : List Row → Option (Row × List Row)
  | [] => none
  | row :: rest =>
    if KeyValue.ofRow? fields row = some key then some (row, rest)
    else (spliceKey fields key rest).map fun (found, others) => (found, row :: others)

end QueryTerms
