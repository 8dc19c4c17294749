import QueryTerms.Json.Document

/-!
# The values of JSON numbers

An integer that fits 64 signed bits keeps its value.  Every other number becomes a double by a
fixed sequence of rounded steps: the digits fill a 64-bit significand, the rest of them only count,
and the significand is then scaled by powers of ten.  The result can be one unit off the nearest
double; what matters is that it is always the same one.

**Counts.** `Numeral.toNat?`: a whole number below `2 ^ 64` without sign, fraction or exponent.

**Amounts.** `Numeral.read?`: `none` for a number beyond the range of doubles.
-/

namespace QueryTerms.Json

/-- Appends digits to a significand as long as it stays below `2 ^ 64`; the digits left over come
back. -/
def absorb (significand : Nat) : List Char → Nat × List Char
  | [] => (significand, [])
  | c :: cs =>
    let next := significand * 10 + digitValue c
    if next < UInt64.size then absorb next cs else (significand, c :: cs)

/-- The double nearest to a power of ten within the range of doubles. -/
def powerOfTen (n : Nat) : Float := Float.ofScientific 1 false n

/-- Scales by `10 ^ exponent` in steps of at most 308; `none` beyond the range of doubles. -/
def scaleByTen (x : Float) (exponent : Int) : Option Float :=
  if 0 ≤ exponent then
    if exponent ≤ 308 then
      let scaled := x * powerOfTen exponent.toNat
      if isFinite scaled then some scaled else none
    else if x == 0.0 then some x
    else none
  else if -308 ≤ exponent then some (x / powerOfTen exponent.natAbs)
  else if x == 0.0 then some x
  else scaleByTen (x / powerOfTen 308) (exponent + 308)
termination_by exponent.natAbs

/-- What a JSON number stands for. -/
inductive Amount where
  | integer (n : Int64)
  | double (x : Float)

namespace Numeral

/-- A count: decimal digits only, below `2 ^ 64`. -/
def toNat? (numeral : Numeral) : Option Nat :=
  match numeral with
  | ⟨false, whole, none, none⟩ =>
    match absorb 0 whole with
    | (n, []) => some n
    | _ => none
  | _ => none

/-- The magnitude as a double. -/
def magnitude? (numeral : Numeral) : Option Float :=
  let (significand, left) := absorb 0 numeral.whole
  let (significand, shift) := match numeral.fraction with
    | none => (significand, (left.length : Int))
    | some digits =>
      let (significand, unread) := absorb significand digits
      (significand, (left.length : Int) - (digits.length - unread.length : Nat))
  match numeral.exponent with
  | none => scaleByTen (floatOfNat significand) shift
  | some (negative, digits) =>
    let exponent : Nat := naturalOfDigits digits
    if exponent < 0x80000000 then
      scaleByTen (floatOfNat significand) (if negative then shift - exponent else shift + exponent)
    else if significand = 0 || negative then some 0.0
    else none

/-- An integer where the number is written as one and fits, a double otherwise; minus zero is a
double. -/
def read? (numeral : Numeral) : Option Amount :=
  let double := numeral.magnitude?.map fun x => Amount.double (if numeral.negative then -x else x)
  match numeral with
  | ⟨negative, whole, none, none⟩ =>
    match absorb 0 whole with
    | (n, []) =>
      if negative && n = 0 then double
      else match int64? (if negative then -(n : Int) else n) with
        | some n => some (.integer n)
        | none => double
    | _ => double
  | _ => double

end Numeral

end QueryTerms.Json
