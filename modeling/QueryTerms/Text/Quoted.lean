import QueryTerms.Text.Spelled

/-!
# Quoted names in messages

Messages list names in double quotes, so that a name with blanks, quotes or invisible characters
can be told apart from its neighbours.

**One name.** `quoteChar`, `quote`: a quote and a backslash are escaped, tab, line ends and NUL
have short forms, whatever cannot be seen is given by its code point.

**A list.** `quoteList`: the quoted names between brackets, separated by a comma and a blank.
-/

namespace QueryTerms.Text

/-- How one character stands inside a quoted name. -/
def quoteChar (c : Char) : List Char :=
  if c = '\x00' then ['\\', '0']
  else if c = '\t' then ['\\', 't']
  else if c = '\r' then ['\\', 'r']
  else if c = '\n' then ['\\', 'n']
  else if c = '"' then ['\\', '"']
  else if c = '\\' then ['\\', '\\']
  else if isSpelledOut c then ['\\', 'u', '\x7b'] ++ Nat.toDigits 16 c.toNat ++ ['\x7d']
  else [c]

/-- A name in double quotes. -/
def quote (name : String) : String :=
  String.ofList ('"' :: name.toList.flatMap quoteChar ++ ['"'])

/-- The quoted names between brackets. -/
def quoteList (names : List String) : String :=
  "[" ++ String.intercalate ", " (names.map quote) ++ "]"

/-- A quote inside a name is escaped. -/
example : quoteList ["a", "b\"c"] = "[\"a\", \"b\\\"c\"]" := by decide +kernel

end QueryTerms.Text
