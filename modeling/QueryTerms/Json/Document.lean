import QueryTerms.Number.Reading

/-!
# JSON documents

The tree of a JSON text as it is written.  Artifacts are read in two steps: the text is first taken
apart by the grammar alone, then the tree is decoded into a declared type.  The grammar admits more
than decoding does: numbers beyond every range, half a surrogate pair in a string, any nesting.
Decoding refuses those, except inside members that no declaration knows, which are passed over
unread.

**The tree.** `Numeral` keeps the parts of a number, `Document` the members of an object in order
and with repetitions.  A string is `none` when an escape in it names half of a surrogate pair.

**Reading.** `Document.ofText?`: one value, white space around it, nothing else.
-/

namespace QueryTerms.Json

/-- A number as it is written; digits are kept as characters. -/
structure Numeral where
  negative : Bool
  whole : List Char
  fraction : Option (List Char)
  /-- Whether the exponent is negative, and its digits. -/
  exponent : Option (Bool × List Char)

/-- The tree of a JSON text. -/
inductive Document where
  | null
  | boolean (value : Bool)
  | number (numeral : Numeral)
  | string (text : Option String)
  | array (items : List Document)
  | object (members : List (Option String × Document))

/-! ## Strings -/

/-- What one place of a string stands for: a character, or half of a surrogate pair. -/
inductive TextUnit where
  | whole (c : Char)
  | half (code : Nat)

/-- The value of a hexadecimal digit. -/
def hexValue? (c : Char) : Option Nat :=
  if c.isDigit then some (c.toNat - '0'.toNat)
  else if 'a' ≤ c ∧ c ≤ 'f' then some (c.toNat - 'a'.toNat + 10)
  else if 'A' ≤ c ∧ c ≤ 'F' then some (c.toNat - 'A'.toNat + 10)
  else none

/-- The unit that four hexadecimal digits name. -/
def codeUnit? (a b c d : Char) : Option TextUnit := do
  let code := (((← hexValue? a) * 16 + (← hexValue? b)) * 16 + (← hexValue? c)) * 16 + (← hexValue? d)
  some (if 0xD800 ≤ code ∧ code ≤ 0xDFFF then .half code else .whole (Char.ofNat code))

/-- The character behind a backslash, other than a code point. -/
def escaped? : Char → Option Char
  | '"' => some '"'
  | '\\' => some '\\'
  | '/' => some '/'
  | 'b' => some '\x08'
  | 'f' => some '\x0c'
  | 'n' => some '\n'
  | 'r' => some '\r'
  | 't' => some '\t'
  | _ => none

/-- The units up to the closing quote, in reverse behind `seen`, and what follows it. -/
def readUnits (seen : List TextUnit) : List Char → Option (List TextUnit × List Char)
  | [] => none
  | '"' :: cs => some (seen, cs)
  | '\\' :: 'u' :: a :: b :: c :: d :: cs =>
    match codeUnit? a b c d with
    | some unit => readUnits (unit :: seen) cs
    | none => none
  | '\\' :: e :: cs =>
    match escaped? e with
    | some c => readUnits (.whole c :: seen) cs
    | none => none
  | c :: cs => if c.toNat < 0x20 then none else readUnits (.whole c :: seen) cs

/-- Joins reversed units, the second half of a pair to the first one before it. -/
def joinUnits (tail : List Char) : List TextUnit → Option (List Char)
  | [] => some tail
  | .whole c :: units => joinUnits (c :: tail) units
  | .half low :: .half high :: units =>
    if 0xDC00 ≤ low ∧ high < 0xDC00 then
      joinUnits (Char.ofNat (0x10000 + (high - 0xD800) * 0x400 + (low - 0xDC00)) :: tail) units
    else none
  | .half _ :: _ => none

/-- A string behind its opening quote. -/
def readString (text : List Char) : Option (Option String × List Char) :=
  (readUnits [] text).map fun (units, rest) => ((joinUnits [] units).map String.ofList, rest)

/-! ## Numbers -/

/-- The fraction at the front, if there is one: a point and at least one digit. -/
def readFraction : List Char → Option (Option (List Char) × List Char)
  | '.' :: cs =>
    let (digits, rest) := takeDigits cs
    if digits.isEmpty then none else some (some digits, rest)
  | cs => some (none, cs)

/-- The exponent at the front, if there is one: its mark, a sign or none, at least one digit. -/
def readExponentPart : List Char → Option (Option (Bool × List Char) × List Char)
  | [] => some (none, [])
  | c :: cs =>
    if c = 'e' || c = 'E' then
      let (negative, rest) := takeSign cs
      let (digits, rest) := takeDigits rest
      if digits.isEmpty then none else some (some (negative, digits), rest)
    else some (none, c :: cs)

/-- A number; its whole part is 0 or starts with another digit. -/
def readNumeral (text : List Char) : Option (Numeral × List Char) := do
  let (negative, text) := match text with
    | '-' :: cs => (true, cs)
    | cs => (false, cs)
  let (whole, rest) := takeDigits text
  guard (whole = ['0'] || (!whole.isEmpty && whole.head? != some '0'))
  let (fraction, rest) ← readFraction rest
  let (exponent, rest) ← readExponentPart rest
  some (⟨negative, whole, fraction, exponent⟩, rest)

/-! ## Values -/

/-- White space between the tokens of a JSON text. -/
def isGap (c : Char) : Bool := c = ' ' || c = '\t' || c = '\n' || c = '\r'

def skipGap (text : List Char) : List Char := text.dropWhile isGap

mutual

/-- A value and what follows it.  The first argument bounds the number of steps. -/
def readValue : Nat → List Char → Option (Document × List Char)
  | 0, _ => none
  | steps + 1, text =>
    match skipGap text with
    | 'n' :: 'u' :: 'l' :: 'l' :: rest => some (.null, rest)
    | 't' :: 'r' :: 'u' :: 'e' :: rest => some (.boolean true, rest)
    | 'f' :: 'a' :: 'l' :: 's' :: 'e' :: rest => some (.boolean false, rest)
    | '"' :: rest => (readString rest).map fun (s, rest) => (.string s, rest)
    | '[' :: rest =>
      match skipGap rest with
      | ']' :: rest => some (.array [], rest)
      | rest => readItems steps [] rest
    | '\x7b' :: rest =>
      match skipGap rest with
      | '\x7d' :: rest => some (.object [], rest)
      | rest => readMembers steps [] rest
    | rest => (readNumeral rest).map fun (n, rest) => (.number n, rest)

/-- The items up to the closing bracket, behind those in `seen`, which is reversed. -/
def readItems : Nat → List Document → List Char → Option (Document × List Char)
  | 0, _, _ => none
  | steps + 1, seen, text =>
    match readValue steps text with
    | none => none
    | some (item, rest) =>
      match skipGap rest with
      | ',' :: rest => readItems steps (item :: seen) rest
      | ']' :: rest => some (.array (item :: seen).reverse, rest)
      | _ => none

/-- The members up to the closing brace, behind those in `seen`, which is reversed. -/
def readMembers : Nat → List (Option String × Document) → List Char →
    Option (Document × List Char)
  | 0, _, _ => none
  | steps + 1, seen, text =>
    match skipGap text with
    | '"' :: rest =>
      match readString rest with
      | none => none
      | some (name, rest) =>
        match skipGap rest with
        | ':' :: rest =>
          match readValue steps rest with
          | none => none
          | some (value, rest) =>
            match skipGap rest with
            | ',' :: rest => readMembers steps ((name, value) :: seen) rest
            | '\x7d' :: rest => some (.object ((name, value) :: seen).reverse, rest)
            | _ => none
        | _ => none
    | _ => none

end

/-- The document of a JSON text.  Every second step reads a character, so twice the length of the
text bounds the number of steps. -/
def Document.ofText? (text : String) : Option Document :=
  let chars := text.toList
  match readValue (2 * chars.length + 2) chars with
  | some (document, rest) => if rest.all isGap then some document else none
  | none => none

end QueryTerms.Json
