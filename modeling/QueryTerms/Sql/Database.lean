import QueryTerms.Sql.Literal

/-!
# Databases

What the engine asks of a database: to execute a statement with bound parameters, and to write
literals and identifiers in its dialect.

**Parameters.** `Bound`.

**Results.** `Cursor`, fetched by `Cursor.fetch` in the shape that a leaf declares.

**Databases.** `Database`; a rejected statement comes back as a message.
-/

namespace QueryTerms

/-- The value of a bound parameter. -/
inductive Bound where
  | null
  | int (n : Int64)
  | float (x : Float)
  | text (s : String)

/-- The result of a statement. -/
structure Cursor where
  rows : List Row := []
  /-- How many rows a statement that writes has changed. -/
  affected : Nat := 0

namespace Cursor

/-- The first field of a row. -/
def firstField (row : Row) : Option Value := row.head?.map Prod.snd

/-- The result in the shape for the given numbers of rows and columns. -/
def fetch (cursor : Cursor) (rows columns : Cardinality) : Shaped :=
  match rows, columns with
  | .one, .one => .scalar ((cursor.rows.head?.bind firstField).getD .null)
  | .one, .many => .row cursor.rows.head?
  | .many, .one => .scalars (cursor.rows.filterMap firstField)
  | .many, .many => .rows cursor.rows

end Cursor

/-- A database. -/
structure Database where
  execute : String → Table String Bound → Except String Cursor
  literal : Value → String := Sql.literal
  identifier : String → String := Sql.identifier

end QueryTerms
