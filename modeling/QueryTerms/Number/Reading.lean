import QueryTerms.Number.FloatView

/-!
# Numbers in text

A value that arrives as text can still be read as a number where a parameter or an output field is
declared to be one.  No digit separators, no other bases, no surrounding white space: that is
removed before.

**Integers.** `readInt64`: an optional sign and decimal digits, within the 64-bit range.

**Doubles.** `readFloat`: digits with an optional point and exponent, where one side of the point
may be empty, or one of the names of infinity and of the value that is not a number, in any case.
The result is the nearest double.
-/

namespace QueryTerms

/-- The value of a decimal digit. -/
def digitValue (c : Char) : Nat := c.toNat - '0'.toNat

/-- The number that decimal digits spell. -/
def naturalOfDigits (digits : List Char) : Nat :=
  digits.foldl (fun n c => 10 * n + digitValue c) 0

/-- The sign at the front, `true` for minus, and the rest. -/
def takeSign : List Char → Bool × List Char
  | '-' :: cs => (true, cs)
  | '+' :: cs => (false, cs)
  | cs => (false, cs)

/-- The decimal digits at the front and what follows them. -/
def takeDigits (text : List Char) : List Char × List Char :=
  (text.takeWhile Char.isDigit, text.dropWhile Char.isDigit)

/-- A signed decimal integer within the 64-bit range. -/
def readInt64 (text : List Char) : Option Int64 :=
  let (negative, digits) := takeSign text
  if digits.isEmpty || !digits.all Char.isDigit then none
  else
    let n : Int := naturalOfDigits digits
    int64? (if negative then -n else n)

/-- The double nearest to `coefficient * 10 ^ exponent`.  Far outside the range of doubles the
power is not computed. -/
def nearestFloat (coefficient : Nat) (exponent : Int) : Float :=
  let size : Int := (Nat.toDigits 10 coefficient).length + exponent
  if coefficient = 0 || size < -400 then 0.0
  else if 400 < size then 1.0 / 0.0
  else Float.ofScientific coefficient (exponent < 0) exponent.natAbs

/-- The exponent after `e`, or 0 where there is none; nothing may follow. -/
def readExponent : List Char → Option Int
  | [] => some 0
  | c :: cs =>
    if c = 'e' || c = 'E' then
      let (negative, digits) := takeSign cs
      if digits.isEmpty || !digits.all Char.isDigit then none
      else
        let n : Int := naturalOfDigits digits
        some (if negative then -n else n)
    else none

/-- A number without its sign. -/
def readMagnitude (text : List Char) : Option Float :=
  let name := text.map Char.toLower
  if name = "inf".toList || name = "infinity".toList then some (1.0 / 0.0)
  else if name = "nan".toList then some (0.0 / 0.0)
  else
    let (whole, rest) := takeDigits text
    let (fraction, rest) := match rest with
      | '.' :: cs => takeDigits cs
      | cs => ([], cs)
    if whole.isEmpty && fraction.isEmpty then none
    else (readExponent rest).map fun exponent =>
      nearestFloat (naturalOfDigits (whole ++ fraction)) (exponent - fraction.length)

/-- A signed number as the nearest double. -/
def readFloat (text : List Char) : Option Float :=
  let (negative, rest) := takeSign text
  (readMagnitude rest).map fun x => if negative then -x else x

end QueryTerms
