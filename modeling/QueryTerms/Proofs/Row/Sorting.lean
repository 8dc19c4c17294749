import Mathlib.Data.List.Induction
import QueryTerms.Proofs.Row.Sorted

/-!
# Stable sorting

Sorting loses no row, puts none behind one that it precedes, and leaves rows that tie in the order
in which they came.  Doubles aside, no other list has these three properties, so that nothing but
them is needed to reason about sorted rows.

**Ties.**  Two rows tie if neither precedes the other one; they then have the same place
(`ties_iff`).

**Stable sorts.**  `IsStableSort` is the specification, and `isStableSort_iff` says that `sortRows`
is what it specifies.

**First rows.**  Whoever has only the rows in front of a list may still know which rows come first
when all of them are sorted; `take_sortRows_append_iff` says when.
-/

namespace QueryTerms

variable {order : OrderBy}

/-! ## Ties -/

/-- Neither row has to stand before the other one. -/
def OrderBy.ties (order : OrderBy) (row other : Row) : Bool :=
  !order.precedes row other && !order.precedes other row

section Ties

variable {a b c : Row}

lemma ties_iff_not_precedes :
    order.ties a b = true ↔ order.precedes a b = false ∧ order.precedes b a = false := by
  rw [OrderBy.ties, Bool.and_eq_true, Bool.not_eq_true', Bool.not_eq_true']

/-- Rows tie at the same place. -/
lemma ties_iff (ha : order.IsExactOn a) (hb : order.IsExactOn b) :
    order.ties a b = true ↔ (order.value a).place = (order.value b).place := by
  rw [ties_iff_not_precedes, ← Bool.not_eq_true, ← Bool.not_eq_true, precedes_iff ha hb,
    precedes_iff hb ha]
  cases order.direction with
  | asc => simp only [not_lt, le_antisymm_iff, and_comm]
  | desc => simp only [not_lt, le_antisymm_iff]

lemma ties_self (ha : order.IsExactOn a) : order.ties a a = true := (ties_iff ha ha).mpr rfl

/-- A row does not tie with two rows of which one precedes the other. -/
lemma not_ties_of_precedes (ha : order.IsExactOn a) (hb : order.IsExactOn b)
    (hc : order.IsExactOn c) (hbc : order.precedes b c = true) (hab : order.ties a b = true) :
    order.ties a c = false := by
  rw [← Bool.not_eq_true]
  intro hac
  rw [ties_iff ha hb] at hab
  rw [ties_iff ha hc] at hac
  obtain ⟨hnot, -⟩ := ties_iff_not_precedes.mp ((ties_iff hb hc).mpr (hab.symm.trans hac))
  rw [hbc] at hnot
  cases hnot

/-- What does not precede a row does not precede the rows that come no later than that one. -/
lemma not_precedes_trans (ha : order.IsExactOn a) (hb : order.IsExactOn b)
    (hc : order.IsExactOn c) (hab : order.precedes a b = false)
    (hbc : order.precedes b c = false) : order.precedes a c = false := by
  rw [← Bool.not_eq_true] at hab hbc ⊢
  rw [precedes_iff ha hb] at hab
  rw [precedes_iff hb hc] at hbc
  rw [precedes_iff ha hc]
  cases hdir : order.direction with
  | asc =>
    simp only [hdir, not_lt] at hab hbc ⊢
    exact hbc.trans hab
  | desc =>
    simp only [hdir, not_lt] at hab hbc ⊢
    exact hab.trans hbc

end Ties

/-! ## Inserting from the end -/

section Insert

variable {row : Row} {rows : List Row}

lemma perm_insertFromEnd : (insertFromEnd order row rows).Perm (row :: rows) := by
  induction rows with
  | nil => exact .refl _
  | cons last earlier ih =>
    rw [insertFromEnd]
    split
    · exact (ih.cons last).trans (.swap row last earlier)
    · exact .refl _

/-- Among the rows that tie with one row, the new one comes last. -/
lemma filter_ties_insertFromEnd {other : Row} (hother : order.IsExactOn other)
    (hrow : order.IsExactOn row) (hrows : ∀ row ∈ rows, order.IsExactOn row) :
    (insertFromEnd order row rows).filter (order.ties other) =
      (row :: rows).filter (order.ties other) := by
  induction rows with
  | nil => rfl
  | cons last earlier ih =>
    rw [List.forall_mem_cons] at hrows
    rw [insertFromEnd]
    split
    · next hprecedes =>
      rw [List.filter_cons, ih hrows.2]
      cases hties : order.ties other row with
      | true =>
        have hlast := not_ties_of_precedes hother hrow hrows.1 hprecedes hties
        simp only [List.filter_cons, hties, hlast, if_true, Bool.false_eq_true, if_false]
      | false => simp only [List.filter_cons, hties, Bool.false_eq_true, if_false]
    · rfl

lemma isSorted_concat :
    IsSorted order (rows ++ [row]) ↔
      IsSorted order rows ∧ ∀ other ∈ rows, order.precedes row other = false := by
  rw [IsSorted, List.pairwise_append, and_iff_right (List.pairwise_singleton _ _)]
  simp only [List.mem_singleton, forall_eq, IsSorted]

lemma IsSorted.insertFromEnd (hrow : order.IsExactOn row)
    (hrows : ∀ row ∈ rows, order.IsExactOn row) (h : IsSorted order rows.reverse) :
    IsSorted order (insertFromEnd order row rows).reverse := by
  induction rows with
  | nil => exact List.pairwise_singleton _ _
  | cons last earlier ih =>
    rw [List.forall_mem_cons] at hrows
    rw [QueryTerms.insertFromEnd]
    split
    · next hprecedes =>
      rw [List.reverse_cons, isSorted_concat] at h ⊢
      refine ⟨ih hrows.2 h.1, fun other hother => ?_⟩
      rcases mem_insertFromEnd.mp (List.mem_reverse.mp hother) with rfl | hother
      · exact precedes_asymm hrow hrows.1 hprecedes
      · exact h.2 other (List.mem_reverse.mpr hother)
    · next hnot =>
      rw [List.reverse_cons, isSorted_concat]
      rw [Bool.not_eq_true] at hnot
      refine ⟨h, fun other hother => ?_⟩
      rcases List.mem_cons.mp (List.mem_reverse.mp hother) with rfl | hearlier
      · exact hnot
      · rw [List.reverse_cons, isSorted_concat] at h
        exact not_precedes_trans hrow hrows.1 (hrows.2 other hearlier) hnot
          (h.2 other (List.mem_reverse.mpr hearlier))

end Insert

/-! ## Stable sorts -/

/-- The rows are sorted, and rows that tie are in the order in which they came. -/
structure IsStableSort (order : OrderBy) (rows sorted : List Row) : Prop where
  perm : sorted.Perm rows
  isSorted : IsSorted order sorted
  stable : ∀ row ∈ rows, sorted.filter (order.ties row) = rows.filter (order.ties row)

section Sorts

variable {rows first second sorted : List Row}

/-- The last row is put at its place among the others. -/
lemma sortRows_concat (rows : List Row) (row : Row) :
    sortRows order (rows ++ [row]) =
      (insertFromEnd order row (sortRows order rows).reverse).reverse := by
  rw [sortRows, List.foldl_append, sortRows, List.reverse_reverse]
  rfl

lemma perm_sortRows (rows : List Row) : (sortRows order rows).Perm rows := by
  induction rows using List.reverseRecOn with
  | nil => exact .refl _
  | append_singleton rows row ih =>
    rw [sortRows_concat]
    have hrest := ((List.reverse_perm _).trans ih).cons row
    exact (List.reverse_perm _).trans (perm_insertFromEnd.trans
      (hrest.trans (List.perm_append_singleton row rows).symm))

lemma isSorted_sortRows (hrows : ∀ row ∈ rows, order.IsExactOn row) :
    IsSorted order (sortRows order rows) := by
  induction rows using List.reverseRecOn with
  | nil => exact .nil
  | append_singleton rows row ih =>
    rw [List.forall_mem_append, List.forall_mem_singleton] at hrows
    rw [sortRows_concat]
    refine IsSorted.insertFromEnd hrows.2 (fun other hother => ?_) ?_
    · exact hrows.1 other (mem_sortRows.mp (List.mem_reverse.mp hother))
    · rw [List.reverse_reverse]
      exact ih hrows.1

lemma filter_ties_sortRows {other : Row} (hother : order.IsExactOn other)
    (hrows : ∀ row ∈ rows, order.IsExactOn row) :
    (sortRows order rows).filter (order.ties other) = rows.filter (order.ties other) := by
  induction rows using List.reverseRecOn with
  | nil => rfl
  | append_singleton rows row ih =>
    rw [List.forall_mem_append, List.forall_mem_singleton] at hrows
    rw [sortRows_concat, List.filter_reverse, filter_ties_insertFromEnd hother hrows.2,
      ← List.filter_reverse, List.reverse_cons, List.reverse_reverse, List.filter_append,
      ih hrows.1, List.filter_append]
    intro other hother
    exact hrows.1 other (mem_sortRows.mp (List.mem_reverse.mp hother))

/-- No row of a sorted list precedes the first one. -/
lemma IsSorted.not_precedes_head {row other : Row} (h : IsSorted order (row :: rows))
    (hrow : order.IsExactOn row) (hother : other ∈ row :: rows) :
    order.precedes other row = false := by
  rcases List.mem_cons.mp hother with rfl | hbehind
  · exact (ties_iff_not_precedes.mp (ties_self hrow)).1
  · exact (List.pairwise_cons.mp h).1 other hbehind

/-- Sorted lists of the same rows are equal if those that tie are in the same order. -/
lemma IsSorted.eq_of_ties (hfirst : IsSorted order first) (hsecond : IsSorted order second)
    (hexact : ∀ row ∈ first, order.IsExactOn row) (hperm : first.Perm second)
    (hties : ∀ row ∈ first, first.filter (order.ties row) = second.filter (order.ties row)) :
    first = second := by
  induction first generalizing second with
  | nil => exact hperm.nil_eq
  | cons head rest ih =>
    obtain ⟨other, others, rfl⟩ : ∃ other others, second = other :: others :=
      List.exists_cons_of_ne_nil fun hnil => by simp [hnil] at hperm
    have hhead : head ∈ other :: others := hperm.mem_iff.mp List.mem_cons_self
    have hother : other ∈ head :: rest := hperm.mem_iff.mpr List.mem_cons_self
    have hheads : order.ties head other = true := ties_iff_not_precedes.mpr
      ⟨hsecond.not_precedes_head (hexact other hother) hhead,
        hfirst.not_precedes_head (hexact head List.mem_cons_self) hother⟩
    -- The first rows tie, so that both are the first one among the rows that tie with them.
    have hsame := hties head List.mem_cons_self
    rw [List.filter_cons_of_pos (ties_self (hexact head List.mem_cons_self)),
      List.filter_cons_of_pos hheads] at hsame
    obtain ⟨rfl, -⟩ := List.cons.inj hsame
    rw [ih (List.pairwise_cons.mp hfirst).2 (List.pairwise_cons.mp hsecond).2
      (List.forall_mem_cons.mp hexact).2 hperm.cons_inv]
    intro row hrow
    have hrest := hties row (List.mem_cons_of_mem _ hrow)
    rw [List.filter_cons, List.filter_cons] at hrest
    split at hrest
    · exact (List.cons.inj hrest).2
    · exact hrest

lemma isStableSort_sortRows (hrows : ∀ row ∈ rows, order.IsExactOn row) :
    IsStableSort order rows (sortRows order rows) where
  perm := perm_sortRows rows
  isSorted := isSorted_sortRows hrows
  stable row hrow := filter_ties_sortRows (hrows row hrow) hrows

/-- **`sortRows` sorts stably**, and there is no other way to do so. -/
theorem isStableSort_iff (hrows : ∀ row ∈ rows, order.IsExactOn row) :
    IsStableSort order rows sorted ↔ sorted = sortRows order rows := by
  have hsort := isStableSort_sortRows hrows
  constructor
  · intro h
    refine h.isSorted.eq_of_ties hsort.isSorted (fun row hrow => hrows row (h.perm.mem_iff.mp hrow))
      (h.perm.trans hsort.perm.symm) fun row hrow => ?_
    have hmem := h.perm.mem_iff.mp hrow
    rw [h.stable row hmem, hsort.stable row hmem]
  · rintro rfl
    exact hsort

end Sorts

/-! ## First rows -/

/-- The rows in front suffice to know the first `n` of all rows in order: there are no other rows,
or enough of them are in front and no other row precedes one of the first ones among them. -/
def OrderBy.Suffices (order : OrderBy) (n : ℕ) (front back : List Row) : Prop :=
  back = [] ∨ n ≤ front.length ∧
    ∀ later ∈ back, ∀ row ∈ (sortRows order front).take n, order.precedes later row = false

section First

variable {front back : List Row} {n : ℕ}

/-- Rows that precede none of the first ones are sorted in behind them. -/
lemma sortRows_append (hexact : ∀ row ∈ front ++ back, order.IsExactOn row)
    (hback : ∀ later ∈ back, ∀ row ∈ (sortRows order front).take n,
      order.precedes later row = false) :
    sortRows order (front ++ back) =
      (sortRows order front).take n ++ sortRows order ((sortRows order front).drop n ++ back) := by
  obtain ⟨hfront, hbackExact⟩ := List.forall_mem_append.mp hexact
  have hrest : ∀ row ∈ (sortRows order front).drop n ++ back, order.IsExactOn row :=
    List.forall_mem_append.mpr ⟨fun row hrow =>
      hfront row (mem_sortRows.mp (List.mem_of_mem_drop hrow)), hbackExact⟩
  have hsplit := List.take_append_drop n (sortRows order front)
  have hsorted := isSorted_sortRows hfront
  rw [← hsplit] at hsorted
  obtain ⟨htake, -, hacross⟩ := List.pairwise_append.mp hsorted
  refine ((isStableSort_iff hexact).mp ⟨?_, ?_, ?_⟩).symm
  · refine ((perm_sortRows _).append_left _).trans ?_
    rw [← List.append_assoc, hsplit]
    exact (perm_sortRows front).append_right back
  · refine List.pairwise_append.mpr ⟨htake, isSorted_sortRows hrest, ?_⟩
    intro row hrow later hlater
    rcases List.mem_append.mp (mem_sortRows.mp hlater) with hlater | hlater
    · exact hacross row hrow later hlater
    · exact hback later hlater row hrow
  · intro row hrow
    rw [List.filter_append, filter_ties_sortRows (hexact row hrow) hrest, List.filter_append,
      ← List.append_assoc, ← List.filter_append, hsplit,
      filter_ties_sortRows (hexact row hrow) hfront, List.filter_append]

/-- In sorted rows, whatever precedes one of the first ones is one of them. -/
lemma countP_precedes_take {rows : List Row} {row : Row} (h : IsSorted order rows)
    (hrow : row ∈ rows.take n) :
    (rows.take n).countP (order.precedes · row) = rows.countP (order.precedes · row) := by
  conv_rhs => rw [← List.take_append_drop n rows, List.countP_append]
  rw [left_eq_add, List.countP_eq_zero]
  intro later hlater
  rw [← List.take_append_drop n rows] at h
  rw [Bool.not_eq_true]
  exact (List.pairwise_append.mp h).2.2 row hrow later hlater

/-- **When the rows in front are enough.**  The first `n` rows of a sorted list are those of its
front, sorted, exactly if the front suffices. -/
theorem take_sortRows_append_iff (hexact : ∀ row ∈ front ++ back, order.IsExactOn row) :
    (sortRows order (front ++ back)).take n = (sortRows order front).take n ↔
      order.Suffices n front back := by
  have hlength : (sortRows order front).length = front.length := (perm_sortRows front).length_eq
  constructor
  · intro h
    by_cases hback : back = []
    · exact .inl hback
    refine .inr ⟨?_, fun later hlater row hrow => ?_⟩
    · have hpos := List.length_pos_iff.mpr hback
      have htake := congrArg List.length h
      rw [List.length_take, List.length_take, (perm_sortRows _).length_eq, List.length_append,
        hlength] at htake
      omega
    · rw [← Bool.not_eq_true]
      intro hprecedes
      -- All rows that precede `row` are among the first ones, so that none is left for `back`.
      have hall := countP_precedes_take (isSorted_sortRows hexact) (h ▸ hrow)
      rw [h, countP_precedes_take (isSorted_sortRows (List.forall_mem_append.mp hexact).1) hrow,
        (perm_sortRows _).countP_eq, (perm_sortRows _).countP_eq, List.countP_append] at hall
      have hpos : 0 < back.countP (order.precedes · row) :=
        List.countP_pos_iff.mpr ⟨later, hlater, hprecedes⟩
      omega
  · rintro (rfl | ⟨hn, hback⟩)
    · rw [List.append_nil]
    · rw [sortRows_append hexact hback, List.take_append_of_le_length, List.take_take, min_self]
      rw [List.length_take, hlength]
      omega

/-- The first `n` rows suffice if they are the first ones in order as they stand. -/
lemma suffices_take_drop_iff {rows : List Row} :
    order.Suffices n (rows.take n) (rows.drop n) ↔
      ∀ later ∈ rows.drop n, ∀ row ∈ rows.take n, order.precedes later row = false := by
  have htake : (sortRows order (rows.take n)).take n = sortRows order (rows.take n) := by
    rw [List.take_of_length_le]
    rw [(perm_sortRows _).length_eq, List.length_take]
    exact min_le_left n rows.length
  rw [OrderBy.Suffices, htake, List.drop_eq_nil_iff]
  simp only [mem_sortRows]
  constructor
  · rintro (hall | ⟨-, h⟩)
    · rw [List.drop_eq_nil_of_le hall]
      exact fun _ hnone => nomatch hnone
    · exact h
  · intro h
    rcases le_total rows.length n with hall | hsome
    · exact .inl hall
    · exact .inr ⟨by rw [List.length_take, min_eq_left hsome], h⟩

end First

end QueryTerms
