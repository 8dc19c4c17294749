import QueryTerms.Interface.Basic

/-!
# Ordering rows

**Comparing.** `compareValues` orders null, booleans, numbers, text, sequences and nested rows in
this order of kinds; inside a kind, booleans, numbers and text by value, the others not at all.  A
double that is not a number compares as equal to every number.

**Sorting.** `sortRows` is stable: each row goes behind the last one that it does not precede.

**Inserting.** `insertOrdered` puts a row before the first one that it strictly precedes.
-/

namespace QueryTerms

/-- The place of a kind of value in the order of kinds. -/
def Value.rank : Value → Nat
  | .null => 0
  | .boolean _ => 1
  | .integer _ => 2
  | .float _ => 2
  | .string _ => 3
  | .array _ => 4
  | .object _ => 5

/-- The order of two doubles; what is not a number is equal to everything. -/
def compareFloats (x y : Float) : Ordering :=
  if x < y then .lt else if y < x then .gt else .eq

/-- The order of two values. -/
def compareValues : Value → Value → Ordering
  | .integer x, .integer y => compare x.toInt y.toInt
  | .boolean x, .boolean y => compare x.toNat y.toNat
  | .string x, .string y => compare x y
  | .integer x, .float y => compareFloats (floatOfInt64 x) y
  | .float x, .integer y => compareFloats x (floatOfInt64 y)
  | .float x, .float y => compareFloats x y
  | x, y => compare x.rank y.rank

/-- The value that a row is ordered by; a missing field counts as null. -/
def OrderBy.value (order : OrderBy) (row : Row) : Value := (row.get? order.field).getD .null

/-- The order of two rows. -/
def OrderBy.compare (order : OrderBy) (row other : Row) : Ordering :=
  let ascending := compareValues (order.value row) (order.value other)
  match order.direction with
  | .asc => ascending
  | .desc => ascending.swap

/-- Whether `row` has to stand before `other`. -/
def OrderBy.precedes (order : OrderBy) (row other : Row) : Bool := order.compare row other == .lt

/-! ## Sorting -/

/-- Puts a row behind the last one that it does not precede; the list runs from last to first. -/
def insertFromEnd (order : OrderBy) (row : Row) : List Row → List Row
  | [] => [row]
  | last :: earlier =>
    if order.precedes row last then last :: insertFromEnd order row earlier
    else row :: last :: earlier

/-- Sorts rows and keeps the order of equal ones. -/
def sortRows (order : OrderBy) (rows : List Row) : List Row :=
  (rows.foldl (fun sorted row => insertFromEnd order row sorted) []).reverse

/-! ## Inserting -/

/-- The index of the first row that `row` strictly precedes. -/
def insertPosition (order : OrderBy) (row : Row) (rows : List Row) : Option Nat :=
  rows.findIdx? fun existing => order.precedes row existing

/-- Puts a row before the first one that it strictly precedes, else at the end. -/
def insertOrdered (order : OrderBy) (row : Row) : List Row → List Row
  | [] => [row]
  | existing :: rest =>
    if order.precedes row existing then row :: existing :: rest
    else existing :: insertOrdered order row rest

end QueryTerms
