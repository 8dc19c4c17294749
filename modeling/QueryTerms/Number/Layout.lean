import QueryTerms.Number.Shortest

/-!
# How doubles are written

The digits of a double are settled by `shortestDecimal`; how they are laid out differs between the
two places where doubles become text.

**Layouts.** `FloatLayout.plain` is the form of a bare value and of an SQL literal, and
`FloatLayout.json` that of a number inside written JSON.

**Writing.** `FloatLayout.write` on any double; what is not finite has a name in each layout.
-/

namespace QueryTerms

/-- The decisions of a number format. -/
structure FloatLayout where
  /-- Which of two equally near digits ends the number. -/
  tie : Tie
  /-- The decimal exponents written without an exponent, least one and first one beyond. -/
  positional : Option (Int × Int)
  /-- Whether a whole number keeps a fraction of one zero. -/
  keepsFraction : Bool
  infinity : String
  negativeInfinity : String
  nan : String

namespace FloatLayout

/-- Never an exponent, and no fraction on whole numbers. -/
def plain : FloatLayout := ⟨.up, none, false, "inf", "-inf", "NaN"⟩

/-- Positional from `0.00001` to below `10 ^ 16`, always with a fraction; a signed exponent
elsewhere.  What is not finite has no number in JSON. -/
def json : FloatLayout := ⟨.even, some (-5, 16), true, "null", "null", "null"⟩

/-- Digits with the point after the first `point` of them. -/
def positionalText (layout : FloatLayout) (digits : List Char) (point : Int) : List Char :=
  if point ≤ 0 then '0' :: '.' :: List.replicate (-point).toNat '0' ++ digits
  else if point < digits.length then
    digits.take point.toNat ++ '.' :: digits.drop point.toNat
  else
    digits ++ List.replicate (point.toNat - digits.length) '0' ++
      (if layout.keepsFraction then ['.', '0'] else [])

/-- One digit before the point, the others after it, and the exponent with its sign. -/
def exponentText (digits : List Char) (exponent : Int) : List Char :=
  let mantissa := match digits with
    | [] => []
    | [d] => [d]
    | d :: ds => d :: '.' :: ds
  mantissa ++ 'e' :: (if exponent < 0 then '-' else '+') :: Nat.toDigits 10 exponent.natAbs

/-- The text of a decimal. -/
def decimalText (layout : FloatLayout) (decimal : Decimal) : List Char :=
  let digits := Nat.toDigits 10 decimal.coefficient
  let point : Int := digits.length + decimal.exponent
  match layout.positional with
  | none => layout.positionalText digits point
  | some (least, beyond) =>
    if least ≤ point - 1 ∧ point - 1 < beyond then layout.positionalText digits point
    else exponentText digits (point - 1)

/-- The text of a double. -/
def write (layout : FloatLayout) (x : Float) : String :=
  match FloatView.ofFloat x with
  | .nan => layout.nan
  | .infinite negative => if negative then layout.negativeInfinity else layout.infinity
  | .finite negative significand exponent =>
    let text := layout.decimalText (shortestDecimal layout.tie significand exponent)
    String.ofList (if negative then '-' :: text else text)

end FloatLayout

end QueryTerms
