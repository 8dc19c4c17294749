import QueryTerms.Table
import QueryTerms.Number.FloatView

/-!
# Values and rows

What flows through a query: the values a statement returns and takes, and the rows they form.  The
kinds are those of JSON, with integers apart from doubles, because declared types tell them apart.

**Values and rows.** `Value`, `Row`, `Params`.

**Null branches.** `Value.isNullBranch`: null, or a nested row in which every leaf is null, which is
what an absent side of an outer join looks like once its fields are nested.

**Shapes.** `Shaped` is a result with its shape: one value, a column, a row, or rows.  `toRows?`
brings the last two to rows; a scalar shape takes part in no join.
-/

namespace QueryTerms

/-- A value.  The fields of a nested row are in order and their names are distinct. -/
inductive Value where
  | null
  | boolean (value : Bool)
  | float (value : Float)
  | integer (value : Int64)
  | string (text : String)
  | array (items : List Value)
  | object (fields : List (String × Value))

instance : Inhabited Value := ⟨.null⟩

/-- Field names and values, in the column order of the statement that produced the row. -/
abbrev Row := Table String Value

/-- Parameter names and values.  A sequence of values fills a list in the statement. -/
abbrev Params := Table String Value

namespace Value

def isNull : Value → Bool
  | .null => true
  | _ => false

def isObject : Value → Bool
  | .object _ => true
  | _ => false

def isArray : Value → Bool
  | .array _ => true
  | _ => false

mutual

/-- Null, or a nested row in which every leaf is null. -/
def isNullBranch : Value → Bool
  | .null => true
  | .object fields => allNullBranches fields
  | _ => false

/-- Whether every field is a null branch. -/
def allNullBranches : List (String × Value) → Bool
  | [] => true
  | (_, value) :: rest => value.isNullBranch && allNullBranches rest

end

end Value

/-! ## Results and their shape -/

/-- Whether rows, or columns, come alone or in any number. -/
inductive Cardinality where
  | one
  | many
deriving DecidableEq

/-- A result in the shape that its source declares. -/
inductive Shaped where
  /-- One row, one column. -/
  | scalar (value : Value)
  /-- Many rows, one column. -/
  | scalars (values : List Value)
  /-- One row, many columns; `none` if there was no row. -/
  | row (row : Option Row)
  /-- Many rows, many columns. -/
  | rows (rows : List Row)

namespace Shaped

/-- The rows of a result, unless it is scalar. -/
def toRows? : Shaped → Option (List Row)
  | .rows all => some all
  | .row one => some one.toList
  | .scalar _ | .scalars _ => none

def isEmpty : Shaped → Bool
  | .scalar value => value.isNull
  | .scalars column => column.isEmpty
  | .row one => one.isNone
  | .rows all => all.isEmpty

/-- The result as one value. -/
def toValue : Shaped → Value
  | .scalar value => value
  | .scalars column => .array column
  | .row one => (one.map Value.object).getD .null
  | .rows all => .array (all.map Value.object)

/-- Rows in the shape of a source that yields one row, or many. -/
def ofRows (rows : List Row) : Cardinality → Shaped
  | .one => .row rows.head?
  | .many => .rows rows

end Shaped

end QueryTerms
