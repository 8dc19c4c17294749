import QueryTerms.Value.Text

/-!
# Literals and identifiers

Values that go into the text of a statement are written as literals, names of columns as quoted
identifiers.  In both a quote is written twice.

**One value.** `literal`; a double that is no number is `NULL`, nested values are literals of their
JSON text.

**A list.** `literalList` writes the values of a sequence between commas; a sequence of sequences is
a list of tuples.  The empty list is `NULL`, which matches nothing.
-/

namespace QueryTerms.Sql

/-- Text with every `quote` doubled, between quotes. -/
def quoted (quote : Char) (text : String) : String :=
  String.ofList
    (quote :: (text.toList.flatMap fun c => if c = quote then [c, c] else [c]) ++ [quote])

/-- A value as a literal. -/
def literal : Value → String
  | .null => "NULL"
  | .boolean b => if b then "1" else "0"
  | .integer n => toString n.toInt
  | .float x => if isFinite x then FloatLayout.plain.write x else "NULL"
  | .string s => quoted '\'' s
  | value => quoted '\'' value.text

/-- A name as a quoted identifier. -/
def identifier (name : String) : String := quoted '"' name

/-- Whether the items are tuples, and at least one. -/
def isTupleList (items : List Value) : Bool := !items.isEmpty && items.all Value.isArray

/-- A tuple of literals. -/
def tupleLiteral (literal : Value → String) : Value → String
  | .array parts => "(" ++ String.intercalate "," (parts.map literal) ++ ")"
  | value => literal value

/-- The literals of a list, separated by commas. -/
def literalList (literal : Value → String) (items : List Value) : String :=
  if items.isEmpty then "NULL"
  else if isTupleList items then String.intercalate "," (items.map (tupleLiteral literal))
  else String.intercalate "," (items.map literal)

end QueryTerms.Sql
