import QueryTerms.Row.Path
import QueryTerms.Interface.Decode

/-!
# Shaping the rows of a leaf

What a leaf returns as rows is shaped before anything else sees it: compound names are nested,
declared types are applied, branches of an absent outer join collapse to null, and a transform that
the caller has registered for the leaf has the last word.

**Nesting.** `UnnestPlan` is settled by the first row and applied to all of them.

**Types.** `cast` and `castFields`; null stays null.

**All of it.** `Shaping.apply`.
-/

namespace QueryTerms

/-! ## Nesting -/

/-- The fields to move into nested rows, and the top-level fields that arise from it. -/
structure UnnestPlan where
  fields : List String := []
  roots : List String := []

namespace UnnestPlan

/-- Adds a field if its name is compound and begins with a part that is not empty. -/
def add (separator : String) (plan : UnnestPlan) (field : String) : UnnestPlan :=
  match Text.splitOnce? field separator with
  | some (root, _) =>
    if root = "" then plan
    else
      { fields := plan.fields ++ [field]
        roots := if plan.roots.contains root then plan.roots else plan.roots ++ [root] }
  | none => plan

/-- The plan that a row calls for. -/
def ofRow (separator : String) (row : Row) : UnnestPlan :=
  row.keys.foldl (add separator) {}

def isEmpty (plan : UnnestPlan) : Bool := plan.fields.isEmpty

/-- Adds one field of a row: a planned one at its path, or under its own name where the path is
blocked. -/
def place (plan : UnnestPlan) (separator : String) (out : Row) (field : String × Value) : Row :=
  if plan.fields.contains field.1 then
    (insertPath out field.2 (Text.path field.1 separator)).getD (out.set field.1 field.2)
  else out.set field.1 field.2

/-- The row with the planned fields nested. -/
def apply (plan : UnnestPlan) (separator : String) (row : Row) : Row :=
  row.foldl (plan.place separator) []

end UnnestPlan

/-! ## Types -/

/-- Concatenating over an outer join without a match yields one entry of nothing but null; that
means no entry. -/
def dropOuterJoinEntry : Value → Value
  | .array [item] => if item.isNullBranch then .array [] else .array [item]
  | value => value

/-- Text as the JSON in it; text that does not decode stays. -/
def decodeJson : Value → Value
  | .string text =>
    match Value.ofJson? text with
    | some value => dropOuterJoinEntry value
    | none => .string text
  | value => dropOuterJoinEntry value

/-- A value as a scalar type; null where it cannot be read as one. -/
def castScalar (type : ScalarType) (value : Value) : Value :=
  if value.isNull then .null
  else match type with
    | .int => (value.toInt?.map Value.integer).getD .null
    | .float => (value.toFloat?.map Value.float).getD .null
    | .string => .string value.text
    | .json => decodeJson value
    | .child => value

mutual

/-- A value as its declared type. -/
def cast : TypeDecl → Value → Value
  | .scalar type, value => castScalar type value
  | .object types, value =>
    match value with
    | .object fields => .object (castFields types fields)
    | other => other

/-- A row with its declared fields cast. -/
def castFields : List (String × TypeDecl) → Row → Row
  | [], row => row
  | (field, type) :: rest, row =>
    match row.get? field with
    | some value => castFields rest (row.set field (cast type value))
    | none => castFields rest row

end

/-! ## All of it -/

/-- A transform of all rows of a leaf. -/
abbrev Transform := List Row → List Row

/-- How the rows of a leaf are shaped. -/
structure Shaping where
  nested : Bool
  separator : String
  types : TypeMap
  transform : Option Transform

namespace Shaping

/-- The plan for a list of rows, settled by the first one. -/
def plan (shaping : Shaping) (rows : List Row) : UnnestPlan :=
  match rows with
  | first :: _ => if shaping.nested then .ofRow shaping.separator first else {}
  | [] => {}

/-- The row with the value of `root` collapsed. -/
def collapseRoot (row : Row) (root : String) : Row :=
  match row.get? root with
  | some value => row.set root (collapseNulls value)
  | none => row

/-- One row, nested by the plan, cast and collapsed. -/
def shapeRow (shaping : Shaping) (plan : UnnestPlan) (row : Row) : Row :=
  let nested := if plan.isEmpty then row else plan.apply shaping.separator row
  plan.roots.foldl collapseRoot (castFields shaping.types nested)

/-- The rows after all steps. -/
def apply (shaping : Shaping) (rows : List Row) : List Row :=
  let shaped := rows.map (shaping.shapeRow (shaping.plan rows))
  match shaping.transform with
  | some transform => transform shaped
  | none => shaped

end Shaping

end QueryTerms
