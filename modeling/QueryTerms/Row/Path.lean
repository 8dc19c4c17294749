import QueryTerms.Value.Basic
import QueryTerms.Text.Separator

/-!
# Nested rows and compound names

A statement returns flat rows; the name `user.name` stands for the field `name` of a nested row
`user`.

**Placing.** `insertPath` puts a value at a path, through nested rows that it makes as needed.  A
scalar on the way that is not null blocks it, and then the row stays as it is.

**Both ways.** `unflatten` expands compound names, `flatten` makes them.

**Collapsing.** `collapseNulls` turns nested rows in which every leaf is null into null.
-/

namespace QueryTerms

/-- The row with a value at a path, or `none` if the path is empty or blocked. -/
def insertPath (row : Row) (value : Value) : List String → Option Row
  | [] => none
  | [name] => some (row.set name value)
  | name :: rest =>
    match row.get? name with
    | none => (insertPath [] value rest).map fun inner => row.set name (.object inner)
    | some .null => (insertPath [] value rest).map fun inner => row.set name (.object inner)
    | some (.object fields) =>
      (insertPath fields value rest).map fun inner => row.set name (.object inner)
    | some _ => none

/-- Expands the compound names of a row; values whose path is blocked are dropped. -/
def unflatten (separator : String) (row : Row) : Row :=
  row.foldl
    (fun out (field, value) =>
      if Text.occurs separator.toList field.toList then
        (insertPath out value (Text.path field separator)).getD out
      else out.set field value)
    []

mutual

/-- Adds a field, or the fields of the nested row that it holds, under compound names. -/
def flattenValue (separator name : String) (out : Row) : Value → Row
  | .object fields =>
    if fields.isEmpty then out.set name (.object [])
    else flattenFields separator (name ++ separator) out fields
  | value => out.set name value

/-- Adds fields whose names begin with `outer`. -/
def flattenFields (separator outer : String) (out : Row) : List (String × Value) → Row
  | [] => out
  | (field, value) :: rest =>
    flattenFields separator outer (flattenValue separator (outer ++ field) out value) rest

end

/-- Replaces nested rows by their fields under compound names; an empty one stays. -/
def flatten (separator : String) (row : Row) : Row := flattenFields separator "" [] row

mutual

/-- Turns nested rows that hold nothing but null into null, from the inside out; an empty one
stays. -/
def collapseNulls : Value → Value
  | .object fields =>
    let collapsed := collapseFields fields
    if !collapsed.isEmpty && collapsed.all (fun field => field.2.isNull) then .null
    else .object collapsed
  | value => value

def collapseFields : List (String × Value) → List (String × Value)
  | [] => []
  | (name, value) :: rest => (name, collapseNulls value) :: collapseFields rest

end

end QueryTerms
