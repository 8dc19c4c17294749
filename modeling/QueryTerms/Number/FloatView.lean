/-!
# What a double stands for

`Float` is the machine's double.  Printing one, and rounding one to an integer, need the number it
stands for: a sign, a natural significand and a power of two.

**The view.** `FloatView` and `FloatView.ofFloat`, read off the 64 bits.

**To integers.** `roundToInt64` rounds half away from zero, takes what lies outside the range to
its nearest end, and gives 0 for a value that is not a number.

**From integers.** `floatOfNat`, `floatOfInt64`: the nearest double, ties to the even one.
-/

namespace QueryTerms

/-- The value of a double.  A finite one is `± significand * 2 ^ exponent`. -/
inductive FloatView where
  | finite (negative : Bool) (significand : Nat) (exponent : Int)
  | infinite (negative : Bool)
  | nan

/-- What the implicit leading bit of a significand counts, `2 ^ 52`. -/
def leadingBit : Nat := 0x10000000000000

/-- Reads sign, exponent and fraction off the bits.  The least exponent field marks the numbers
without the implicit leading bit, the greatest one those that are not finite. -/
def FloatView.ofFloat (x : Float) : FloatView :=
  let bits := x.toBits.toNat
  let negative := decide (0x8000000000000000 ≤ bits)
  let biased : Nat := bits / leadingBit % 2048
  let fraction := bits % leadingBit
  if biased = 2047 then (if fraction = 0 then .infinite negative else .nan)
  else if biased = 0 then .finite negative fraction (-1074)
  else .finite negative (fraction + leadingBit) ((biased : Int) - 1075)

/-- Whether the double is a number. -/
def isFinite (x : Float) : Bool :=
  match FloatView.ofFloat x with
  | .finite .. => true
  | _ => false

/-- The integer itself, or the end of the 64-bit range nearest to it. -/
def clampInt64 (n : Int) : Int64 :=
  if n < Int64.minValue.toInt then Int64.minValue
  else if Int64.maxValue.toInt < n then Int64.maxValue
  else Int64.ofInt n

/-- The integer itself if it lies in the 64-bit range. -/
def int64? (n : Int) : Option Int64 :=
  if Int64.minValue.toInt ≤ n ∧ n ≤ Int64.maxValue.toInt then some (Int64.ofInt n) else none

/-- The integer nearest to `significand * 2 ^ exponent`; of two equally near ones, the larger. -/
def roundHalfUp (significand : Nat) (exponent : Int) : Nat :=
  if 0 ≤ exponent then significand <<< exponent.toNat
  else (significand + 1 <<< ((-exponent).toNat - 1)) >>> (-exponent).toNat

/-- Rounds half away from zero into the 64-bit range. -/
def roundToInt64 (x : Float) : Int64 :=
  match FloatView.ofFloat x with
  | .finite negative significand exponent =>
    let magnitude : Int := roundHalfUp significand exponent
    clampInt64 (if negative then -magnitude else magnitude)
  | .infinite negative => if negative then Int64.minValue else Int64.maxValue
  | .nan => 0

/-- The double nearest to a natural number below `2 ^ 64`. -/
def floatOfNat (n : Nat) : Float := (UInt64.ofNat n).toFloat

/-- The double nearest to a 64-bit integer. -/
def floatOfInt64 (n : Int64) : Float :=
  if n.toInt < 0 then -floatOfNat n.toInt.natAbs else floatOfNat n.toInt.natAbs

end QueryTerms
