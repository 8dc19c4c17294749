import QueryTerms.Interface.Basic
import QueryTerms.Text.Separator

/-!
# Statements in fragments

A leaf that has not been compiled is given as the fragments of one `SELECT` statement, which are
assembled when it runs.

**Assembling.** `Fragments.toSql?` needs at least one select entry.

**Select entries.** `Fragments.selects` tells whether an entry already yields a field, under its own
name, an alias, or behind a table name.
-/

namespace QueryTerms

/-- The fragments of a statement.  The conditions of `conditions` and of `having` all have to
hold. -/
structure Fragments where
  select : List String := []
  source : Option String := none
  conditions : List String := []
  groupBy : List String := []
  having : List String := []
  orderBy : List String := []

/-- A leaf in fragments, with the declarations that a compiled leaf has. -/
structure Definition where
  fragments : Fragments
  interface : Interface

namespace Fragments

/-- Conditions that all have to hold. -/
def conjunction (conditions : List String) : String :=
  String.intercalate " AND " (conditions.map fun condition => "(" ++ condition ++ ")")

/-- A clause of the statement, left out where it has no entries. -/
def clause (keyword : String) (entries : List String) (text : String) : String :=
  if entries.isEmpty then "" else keyword ++ text

/-- The statement, unless nothing is selected. -/
def toSql? (fragments : Fragments) : Option String :=
  if fragments.select.isEmpty then none
  else some <|
    "SELECT " ++ String.intercalate ", " fragments.select
      ++ (match fragments.source with
        | some source => " FROM " ++ source
        | none => "")
      ++ clause " WHERE " fragments.conditions (conjunction fragments.conditions)
      ++ clause " GROUP BY " fragments.groupBy (String.intercalate ", " fragments.groupBy)
      ++ clause " HAVING " fragments.having (conjunction fragments.having)
      ++ clause " ORDER BY " fragments.orderBy (String.intercalate ", " fragments.orderBy)

/-- Text without the double quotes at both ends. -/
def unquoted (text : List Char) : List Char :=
  ((text.dropWhile (· = '"')).reverse.dropWhile (· = '"')).reverse

/-- Whether a select entry yields `field`: bare, under an alias, or behind a table name. -/
def entryYields (field entry : List Char) : Bool :=
  let entry := Text.trim entry
  entry = field
    || (match Text.cutLast? " AS ".toList entry with
      | some (_, name) => unquoted (Text.trim name) = field
      | none => false)
    || (match Text.cutLast? ['.'] entry with
      | some (_, column) => column = field
      | none => false)

/-- Whether the statement already yields `field`. -/
def selects (fragments : Fragments) (field : String) : Bool :=
  fragments.select.any fun entry => entryYields field.toList entry.toList

end Fragments

end QueryTerms
