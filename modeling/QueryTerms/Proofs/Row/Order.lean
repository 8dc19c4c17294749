import Mathlib.Tactic.Lemma
import QueryTerms.Row.Order

/-!
# Sorted rows

Putting rows in order neither drops one nor makes one up.

**Sorting.**  `mem_sortRows`.

**Inserting.**  `mem_insertOrdered`.
-/

namespace QueryTerms

variable {order : OrderBy}

lemma mem_insertFromEnd {row other : Row} {rows : List Row} :
    other ∈ insertFromEnd order row rows ↔ other = row ∨ other ∈ rows := by
  induction rows with
  | nil => rw [insertFromEnd, List.mem_singleton, or_iff_left List.not_mem_nil]
  | cons last earlier ih =>
    rw [insertFromEnd]
    split
    · rw [List.mem_cons, ih, List.mem_cons, or_left_comm]
    · rw [List.mem_cons]

lemma mem_sortRows {row : Row} {rows : List Row} : row ∈ sortRows order rows ↔ row ∈ rows := by
  suffices hfold : ∀ sorted : List Row,
      row ∈ rows.foldl (fun sorted row => insertFromEnd order row sorted) sorted ↔
        row ∈ sorted ∨ row ∈ rows by
    rw [sortRows, List.mem_reverse, hfold, or_iff_right List.not_mem_nil]
  induction rows with
  | nil => intro sorted; rw [List.foldl_nil, or_iff_left List.not_mem_nil]
  | cons first rest ih =>
    intro sorted
    rw [List.foldl_cons, ih, mem_insertFromEnd, List.mem_cons, or_assoc, or_left_comm]

lemma mem_insertOrdered {row other : Row} {rows : List Row} :
    other ∈ insertOrdered order row rows ↔ other = row ∨ other ∈ rows := by
  induction rows with
  | nil => rw [insertOrdered, List.mem_singleton, or_iff_left List.not_mem_nil]
  | cons existing rest ih =>
    rw [insertOrdered]
    split
    · rw [List.mem_cons]
    · rw [List.mem_cons, ih, List.mem_cons, or_left_comm]

end QueryTerms
