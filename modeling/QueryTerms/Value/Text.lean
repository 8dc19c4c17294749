import QueryTerms.Value.Basic
import QueryTerms.Number.Layout
import QueryTerms.Number.Reading
import QueryTerms.Text.Blank

/-!
# Values as numbers and as text

**As numbers.** `Value.toFloat?` and `Value.toInt?` read a value as a declared number: numbers in
text count, white space around them does not, a boolean is 0 or 1.

**As JSON.** `Value.json` writes a value without white space.

**As text.** `Value.text`: text itself, numbers and booleans by name, null as nothing, and nested
values as JSON.
-/

namespace QueryTerms

namespace Value

/-! ## Numbers -/

/-- The value as a double. -/
def toFloat? : Value → Option Float
  | .integer n => some (floatOfInt64 n)
  | .float x => some x
  | .string s => readFloat (Text.trim s.toList)
  | .boolean b => some (if b then 1.0 else 0.0)
  | _ => none

/-- The value as an integer.  A double, and text that spells one, is rounded half away from
zero. -/
def toInt? : Value → Option Int64
  | .integer n => some n
  | .float x => some (roundToInt64 x)
  | .string s =>
    let text := Text.trim s.toList
    (readInt64 text).or ((readFloat text).map roundToInt64)
  | .boolean b => some (if b then 1 else 0)
  | _ => none

/-! ## JSON -/

/-- How one character stands inside a JSON string. -/
def jsonChar (c : Char) : List Char :=
  if c = '"' then ['\\', '"']
  else if c = '\\' then ['\\', '\\']
  else if c = '\x08' then ['\\', 'b']
  else if c = '\x0c' then ['\\', 'f']
  else if c = '\n' then ['\\', 'n']
  else if c = '\r' then ['\\', 'r']
  else if c = '\t' then ['\\', 't']
  else if c.toNat < 0x10 then ['\\', 'u', '0', '0', '0'] ++ Nat.toDigits 16 c.toNat
  else if c.toNat < 0x20 then ['\\', 'u', '0', '0'] ++ Nat.toDigits 16 c.toNat
  else [c]

/-- A JSON string. -/
def jsonString (text : String) : String :=
  String.ofList ('"' :: text.toList.flatMap jsonChar ++ ['"'])

mutual

/-- The value as JSON. -/
def json : Value → String
  | .null => "null"
  | .boolean b => if b then "true" else "false"
  | .float x => FloatLayout.json.write x
  | .integer n => toString n.toInt
  | .string s => jsonString s
  | .array [] => "[]"
  | .array (item :: rest) => "[" ++ json item ++ jsonItems rest ++ "]"
  | .object [] => "\x7b\x7d"
  | .object ((name, value) :: rest) =>
    "\x7b" ++ jsonString name ++ ":" ++ json value ++ jsonMembers rest ++ "\x7d"

/-- The items after the first one, each behind a comma. -/
def jsonItems : List Value → String
  | [] => ""
  | item :: rest => "," ++ json item ++ jsonItems rest

/-- The members after the first one, each behind a comma. -/
def jsonMembers : List (String × Value) → String
  | [] => ""
  | (name, value) :: rest => "," ++ jsonString name ++ ":" ++ json value ++ jsonMembers rest

end

/-! ## Text -/

/-- The value as text. -/
def text : Value → String
  | .string s => s
  | .float x => FloatLayout.plain.write x
  | .integer n => toString n.toInt
  | .boolean b => if b then "true" else "false"
  | .null => ""
  | value => value.json

end Value

end QueryTerms
