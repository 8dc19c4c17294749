import Mathlib.Data.Prod.Lex
import Mathlib.Data.String.Basic
import Mathlib.Order.Compare
import QueryTerms.Proofs.Row.Order

/-!
# The order of rows

Doubles aside, comparing two values is comparing two places in a linear order, so that rows are
ordered as one expects.

**Places.**  `Value.place` is the kind of a value, and then the value inside its kind; values compare
like their places (`compareValues_eq_compare_place`).  Doubles do not: what is not a number is equal
to every number.

**Preceding.**  In either direction of the order, `precedes_trans` and `precedes_asymm`.

**Sorted rows.**  `IsSorted` says that no row has to stand before an earlier one.  Rows stay sorted
around a row that fits (`IsSorted.insert`), and a row fits at the place where it is put
(`IsSorted.insertAt`).
-/

namespace QueryTerms

/-! ## Places -/

namespace Value

/-- The value inside its kind.  Sequences tie, and so do nested rows. -/
def inside : Value → ℤ ×ₗ String
  | .boolean b => toLex (b.toNat, "")
  | .integer n => toLex (n.toInt, "")
  | .string s => toLex (0, s)
  | _ => toLex (0, "")

/-- The kind of a value, and the value inside its kind. -/
def place (value : Value) : ℕ ×ₗ ℤ ×ₗ String := toLex (value.rank, value.inside)

/-- The value is no double. -/
def IsExact (value : Value) : Prop := ∀ x, value ≠ .float x

end Value

lemma compare_place (a b : Value) :
    compare a.place b.place = (compare a.rank b.rank).then (compare a.inside b.inside) := by
  simp only [Prod.Lex.compare_def]
  rfl

lemma compare_inside (x y : ℤ) (s t : String) :
    compare (toLex (x, s)) (toLex (y, t)) = (compare x y).then (compare s t) := by
  simp only [Prod.Lex.compare_def]
  rfl

/-- **Values compare like their places.** -/
theorem compareValues_eq_compare_place {a b : Value} (ha : a.IsExact) (hb : b.IsExact) :
    compareValues a b = compare a.place b.place := by
  rw [compare_place]
  cases a with
  | float x => exact absurd rfl (ha x)
  | boolean x =>
    cases b with
    | float y => exact absurd rfl (hb y)
    | boolean y => cases x <;> cases y <;> rfl
    | _ => rfl
  | integer x =>
    cases b with
    | float y => exact absurd rfl (hb y)
    | integer y => simp [compareValues, Value.rank, Value.inside, compare_inside]
    | _ => rfl
  | string x =>
    cases b with
    | float y => exact absurd rfl (hb y)
    | string y => simp [compareValues, Value.rank, Value.inside, compare_inside]
    | _ => rfl
  | _ =>
    cases b with
    | float y => exact absurd rfl (hb y)
    | _ => rfl

/-! ## Preceding -/

/-- The row is not ordered by a double. -/
def OrderBy.IsExactOn (order : OrderBy) (row : Row) : Prop := (order.value row).IsExact

section Preceding

variable {order : OrderBy} {a b c : Row}

lemma precedes_iff (ha : order.IsExactOn a) (hb : order.IsExactOn b) :
    order.precedes a b = true ↔
      match order.direction with
      | .asc => (order.value a).place < (order.value b).place
      | .desc => (order.value b).place < (order.value a).place := by
  rw [OrderBy.precedes, beq_iff_eq, OrderBy.compare, compareValues_eq_compare_place ha hb]
  cases order.direction with
  | asc => exact compare_lt_iff_lt
  | desc => exact Ordering.swap_eq_lt.trans compare_gt_iff_gt

lemma precedes_trans (ha : order.IsExactOn a) (hb : order.IsExactOn b) (hc : order.IsExactOn c)
    (hab : order.precedes a b = true) (hbc : order.precedes b c = true) :
    order.precedes a c = true := by
  rw [precedes_iff ha hb] at hab
  rw [precedes_iff hb hc] at hbc
  rw [precedes_iff ha hc]
  cases hdir : order.direction with
  | asc =>
    simp only [hdir] at hab hbc ⊢
    exact hab.trans hbc
  | desc =>
    simp only [hdir] at hab hbc ⊢
    exact hbc.trans hab

lemma precedes_asymm (ha : order.IsExactOn a) (hb : order.IsExactOn b)
    (hab : order.precedes a b = true) : order.precedes b a = false := by
  rw [← Bool.not_eq_true]
  intro hba
  have hself := precedes_trans ha hb ha hab hba
  rw [precedes_iff ha ha] at hself
  cases hdir : order.direction with
  | asc =>
    simp only [hdir] at hself
    exact lt_irrefl _ hself
  | desc =>
    simp only [hdir] at hself
    exact lt_irrefl _ hself

end Preceding

/-! ## Sorted rows -/

/-- No row has to stand before an earlier one. -/
def IsSorted (order : OrderBy) (rows : List Row) : Prop :=
  rows.Pairwise fun row later => order.precedes later row = false

instance (order : OrderBy) (rows : List Row) : Decidable (IsSorted order rows) :=
  inferInstanceAs (Decidable (List.Pairwise _ _))

/-- The position of a row is behind rows that it does not precede, and before one that it does. -/
lemma insertPosition_eq_some {order : OrderBy} {row : Row} {rows : List Row} {index : ℕ}
    (h : insertPosition order row rows = some index) :
    (∀ other ∈ rows.take index, order.precedes row other = false) ∧
      ∃ next rest, rows.drop index = next :: rest ∧ order.precedes row next = true := by
  obtain ⟨hindex, hnext, hearlier⟩ := List.findIdx?_eq_some_iff_getElem.mp h
  refine ⟨fun other hother => ?_, rows[index], rows.drop (index + 1),
    List.drop_eq_getElem_cons hindex, hnext⟩
  obtain ⟨i, hi, rfl⟩ := List.mem_take_iff_getElem.mp hother
  have hlt : i < index := by omega
  simpa using hearlier i hlt

namespace IsSorted

variable {order : OrderBy} {row : Row} {rows front back : List Row}

/-- A row fits between the rows that it does not precede and those that do not precede it. -/
lemma insert (h : IsSorted order (front ++ back))
    (hfront : ∀ other ∈ front, order.precedes row other = false)
    (hback : ∀ other ∈ back, order.precedes other row = false) :
    IsSorted order (front ++ row :: back) := by
  obtain ⟨hf, hb, hacross⟩ := List.pairwise_append.mp h
  refine List.pairwise_append.mpr ⟨hf, List.pairwise_cons.mpr ⟨hback, hb⟩, ?_⟩
  intro other hother later hlater
  rcases List.mem_cons.mp hlater with rfl | hlater
  · exact hfront other hother
  · exact hacross other hother later hlater

/-- **Putting a row at its place keeps rows sorted.**  The place is the row's position, or the end if
the row precedes no other. -/
theorem insertAt (h : IsSorted order rows) (hrow : order.IsExactOn row)
    (hrows : ∀ other ∈ rows, order.IsExactOn other) {index : ℕ}
    (hindex : (insertPosition order row rows).getD rows.length = index) :
    IsSorted order (rows.take index ++ row :: rows.drop index) := by
  have hsplit := h
  rw [← List.take_append_drop index rows] at hsplit
  cases hposition : insertPosition order row rows with
  | none =>
    rw [hposition, Option.getD_none] at hindex
    subst hindex
    refine hsplit.insert (fun other hother => ?_) (by simp)
    have hnone := List.findIdx?_eq_none_iff.mp hposition other (List.mem_of_mem_take hother)
    simpa using hnone
  | some position =>
    rw [hposition, Option.getD_some] at hindex
    subst hindex
    obtain ⟨hfront, next, rest, hdrop, hnext⟩ := insertPosition_eq_some hposition
    have hback : IsSorted order (rows.drop position) := h.sublist (List.drop_sublist position rows)
    have hexact : ∀ other ∈ rows.drop position, order.IsExactOn other := fun other hother =>
      hrows other (List.mem_of_mem_drop hother)
    refine hsplit.insert hfront fun other hother => ?_
    rw [hdrop] at hback hother hexact
    have hfirst := hexact next List.mem_cons_self
    rcases List.mem_cons.mp hother with rfl | hrest
    · exact precedes_asymm hrow hfirst hnext
    · -- Were `other` before `row`, it would be before `next`, behind which it stands.
      have hbehind := (List.pairwise_cons.mp hback).1 other hrest
      rw [← Bool.not_eq_true] at hbehind ⊢
      intro hother
      have hlast := hexact other (List.mem_cons_of_mem _ hrest)
      exact hbehind (precedes_trans hlast hrow hfirst hother hnext)

end IsSorted

end QueryTerms
