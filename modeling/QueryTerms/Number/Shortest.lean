import QueryTerms.Number.FloatView

/-!
# The shortest decimal that reads back

A double stands for every real number that rounds to it.  Of the decimals in that interval the one
with the fewest digits is written, and among those the nearest to the value.

**The interval.** `RoundingInterval` holds the value and the two ends as natural numbers over one
denominator; the ends belong to it when the significand is even, because ties round to even.

**Grids.** `RoundingInterval.pick` looks at the two neighbours of the value among the multiples of
`10 ^ grid`.  If any multiple lies in the interval, one of these two does.

**The search.** `RoundingInterval.shortest` walks from coarse grids to fine ones and takes the first
hit; a coarser grid has fewer digits.
-/

namespace QueryTerms

/-- The number `coefficient * 10 ^ exponent`. -/
structure Decimal where
  coefficient : Nat
  exponent : Int

/-- Which of two equally near decimals is taken. -/
inductive Tie where
  /-- The larger one. -/
  | up
  /-- The one with an even last digit. -/
  | even

/-- A positive value and the ends of the interval of reals that round to it, each divided by
`denominator`. -/
structure RoundingInterval where
  low : Nat
  value : Nat
  high : Nat
  denominator : Nat
  closed : Bool

namespace RoundingInterval

/-- The interval of `significand * 2 ^ exponent`, counted in quarters of the last place.  Below a
power of two the neighbouring double is only half as far away. -/
def ofSignificand (significand : Nat) (exponent : Int) : RoundingInterval :=
  let scale := if 2 ≤ exponent then 1 <<< (exponent - 2).toNat else 1
  let below := if significand = leadingBit ∧ -1074 < exponent then 1 else 2
  { low := (4 * significand - below) * scale
    value := 4 * significand * scale
    high := (4 * significand + 2) * scale
    denominator := if 2 ≤ exponent then 1 else 1 <<< (2 - exponent).toNat
    closed := significand % 2 = 0 }

/-- The interval measured in units of `10 ^ grid`. -/
def inUnits (interval : RoundingInterval) (grid : Int) : RoundingInterval :=
  if 0 ≤ grid then
    { interval with denominator := interval.denominator * Nat.pow 10 grid.toNat }
  else
    let scale := Nat.pow 10 (-grid).toNat
    { interval with
      low := interval.low * scale, value := interval.value * scale
      high := interval.high * scale }

/-- Whether the natural number `n` lies in the interval. -/
def contains (interval : RoundingInterval) (n : Nat) : Bool :=
  let scaled := n * interval.denominator
  if interval.closed then interval.low ≤ scaled && scaled ≤ interval.high
  else interval.low < scaled && scaled < interval.high

/-- The nearest of the value's two neighbours on the grid that lies in the interval. -/
def pick (interval : RoundingInterval) (tie : Tie) (grid : Int) : Option Nat :=
  let scaled := interval.inUnits grid
  let floor := scaled.value / scaled.denominator
  match scaled.contains floor, scaled.contains (floor + 1) with
  | false, false => none
  | true, false => some floor
  | false, true => some (floor + 1)
  | true, true =>
    match compare (2 * (scaled.value % scaled.denominator)) scaled.denominator, tie with
    | .lt, _ => some floor
    | .gt, _ => some (floor + 1)
    | .eq, .up => some (floor + 1)
    | .eq, .even => some (if floor % 2 = 0 then floor else floor + 1)

/-- The decimal on the coarsest grid that meets the interval. -/
def shortest (interval : RoundingInterval) (tie : Tie) : Option Decimal :=
  (List.range 700).findSome? fun (step : Nat) =>
    let grid : Int := 309 - step
    (interval.pick tie grid).map fun coefficient => ⟨coefficient, grid⟩

end RoundingInterval

/-- The shortest decimal that rounds to `significand * 2 ^ exponent`. -/
def shortestDecimal (tie : Tie) (significand : Nat) (exponent : Int) : Decimal :=
  if significand = 0 then ⟨0, 0⟩
  else ((RoundingInterval.ofSignificand significand exponent).shortest tie).getD ⟨0, 0⟩

end QueryTerms
