import QueryTerms.Key.Basic

/-!
# What a leaf declares

The interface of a leaf: its parameters, the shape of its output, the keys it can be joined on, and
what a compiler found out about its children.

**Parameters.** `ParamType`, `ParamSpec`.

**Output.** `OutputShape`: cardinality, order, types of fields.

**Joins.** Keys, `ChildBinding` for children joined at compile time, aliases of child ids.
-/

namespace QueryTerms

/-- Whether a leaf reads rows or changes them. -/
inductive StatementKind where
  | read
  | create
  | update
  | delete
deriving DecidableEq

/-- The declared type of a scalar parameter, used when it is bound. -/
inductive ParamType where
  | int
  | float
  | string
  | bool
  | any
deriving DecidableEq

/-- The name of a parameter type in messages. -/
def ParamType.name : ParamType → String
  | .int => "Int"
  | .float => "Float"
  | .string => "String"
  | .bool => "Bool"
  | .any => "Any"

/-- A declared parameter.  A sequence longer than `batch` is sent in successive statements. -/
structure ParamSpec where
  type : ParamType := .any
  default : Option Value := none
  batch : Option Nat := none

abbrev ParamSpecs := Table String ParamSpec

inductive Direction where
  | asc
  | desc
deriving DecidableEq

/-- Rows are ordered by one field. -/
structure OrderBy where
  field : String
  direction : Direction := .asc

/-- The declared type of an output field. -/
inductive ScalarType where
  | int
  | float
  | string
  | json
  | child
deriving DecidableEq

/-- The type of a field: a scalar, or a nested row with types of its own. -/
inductive TypeDecl where
  | scalar (type : ScalarType)
  | object (fields : List (String × TypeDecl))

abbrev TypeMap := Table String TypeDecl

/-- The declared shape of a result. -/
structure OutputShape where
  rows : Cardinality := .many
  columns : Cardinality := .many
  /-- The key, or the field, that results are merged and grouped on. -/
  key : Option String := none
  order : Option OrderBy := none
  grouped : Bool := false
  /-- Whether compound field names are nested. -/
  nested : Bool := true
  /-- The most rows that are returned. -/
  max : Option Nat := none
  types : TypeMap := []

/-- The parameter that receives the most rows to return. -/
structure Paging where
  limit : String

/-- How a child of a compiled leaf is joined. -/
structure ChildBinding where
  /-- The output field of the parent that holds the join value. -/
  parentField : String
  /-- The key of the child that it is matched against. -/
  childKey : String

/-- The declarations of one leaf. -/
structure Interface where
  kind : StatementKind := .read
  params : ParamSpecs := []
  output : OutputShape := {}
  keys : KeyMap := []
  paging : Option Paging := none
  children : Table String ChildBinding := []
  aliases : Table String String := []

end QueryTerms
