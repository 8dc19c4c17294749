import QueryTerms.Error
import QueryTerms.Sql.Token
import QueryTerms.Sql.Literal
import QueryTerms.Sql.Database
import QueryTerms.Text.Separator

/-!
# Filling in parameters

A statement with placeholders and a set of parameter values become the final text and the values
that are bound to it.

* A scalar stays a placeholder and is bound, as its declared type.
* A sequence is written into the text as a list of literals.
* Of a sequence of tuples, `:name__0`, `:name__1` are the lists of the components at a position.
* A placeholder without a value becomes `NULL`.

**Binding.** `bindValue`.

**Rendering.** `replacement` is the text for one placeholder, `render` the whole statement.  It
fails at the first scalar that is not of its declared type.
-/

namespace QueryTerms.Sql

/-- A scalar as a bound value of a declared type; `none` if it cannot be read as one. -/
def bindValue (type : ParamType) (value : Value) : Option Bound :=
  if value.isNull then some .null
  else match type with
    | .int => value.toInt?.map Bound.int
    | .float => value.toFloat?.map Bound.float
    | .string => some (.text value.text)
    | .bool => value.toInt?.map fun n => .int (if n = 0 then 0 else 1)
    | .any =>
      match value with
      | .integer n => some (.int n)
      | .float x => some (.float x)
      | .boolean b => some (.int (if b then 1 else 0))
      | other => some (.text other.text)

/-- The index that decimal digits spell, below `2 ^ 64`. -/
def readIndex (digits : List Char) : Option Nat :=
  if digits.isEmpty || !digits.all Char.isDigit then none
  else
    let index := naturalOfDigits digits
    if index < UInt64.size then some index else none

/-- A tuple's component; null where the tuple is too short. -/
def component (index : Nat) : Value → Value
  | .array parts => parts[index]?.getD .null
  | _ => .null

/-- The components that a placeholder `base__index` stands for. -/
def tuplePosition (name : String) (values : Params) : Option (List Value) := do
  let (base, index) ← Text.cutLast? ['_', '_'] name.toList
  let index ← readIndex index
  match values.get? (String.ofList base) with
  | some (.array items) => if isTupleList items then some (items.map (component index)) else none
  | _ => none

/-- The text that stands for a placeholder. -/
def replacement (literal : Value → String) (values : Params) (name : String) : String :=
  match values.get? name with
  | some (.array items) => literalList literal items
  | some _ => ":" ++ name
  | none =>
    match tuplePosition name values with
    | some components => literalList literal components
    | none => "NULL"

/-- The text that stands for a token. -/
def renderToken (literal : Value → String) (values : Params) : Token → List Char
  | .placeholder name => (replacement literal values (String.ofList name)).toList
  | token => token.text

/-- Adds the bound value of a placeholder, unless it is bound already or holds no scalar. -/
def bindPlaceholder (values : Params) (specs : ParamSpecs) (bound : Table String Bound)
    (name : String) : Except QueryError (Table String Bound) :=
  match values.get? name with
  | none | some (.array _) => .ok bound
  | some value =>
    if bound.has name then .ok bound
    else
      let type := ((specs.get? name).map ParamSpec.type).getD .any
      match bindValue type value with
      | some scalar => .ok (bound ++ [(name, scalar)])
      | none => .error (.schema (.mistyped name value.json type))

/-- A statement ready to be executed. -/
structure Rendered where
  sql : String
  bound : Table String Bound

/-- Fills parameter values into a statement. -/
def render (literal : Value → String) (sql : String) (values : Params) (specs : ParamSpecs) :
    Except QueryError Rendered := do
  let bound ← (placeholders sql.toList).foldlM (bindPlaceholder values specs) []
  return ⟨String.ofList ((tokens sql.toList).flatMap (renderToken literal values)), bound⟩

end QueryTerms.Sql
