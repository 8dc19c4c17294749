import QueryTerms.Proofs.Join.Union
import QueryTerms.Proofs.Query.Calls
import QueryTerms.Proofs.Row.Sorting

/-!
# Ordered unions

A union without a key puts the rows of its operands, one after another, before the first row that
each of them strictly precedes.  Doubles aside, that is a stable sort: among rows that tie, the one
that arrives last stays last.

**One row.**  What putting a row at its place keeps (`IsSorted.insertOrdered`), and what it says
about ties (`filter_ties_insertOrdered`).

**All rows.**  Inserting row after row is sorting (`insertAll_eq_sortRows`).

**Unions.**  `fetchAll_outcome_eq_ok_iff` says what the operands give, and
`Node.run_merge_eq_sortRows` what becomes of it.
-/

namespace QueryTerms

variable {order : OrderBy}

/-! ## One row -/

section Insert

variable {row other : Row} {rows : List Row}

lemma perm_insertOrdered : (insertOrdered order row rows).Perm (row :: rows) := by
  induction rows with
  | nil => exact .refl _
  | cons existing rest ih =>
    rw [insertOrdered]
    split
    · exact .refl _
    · exact (ih.cons existing).trans (.swap row existing rest)

/-- In sorted rows, what precedes the first one precedes all of them. -/
lemma IsSorted.precedes_of_precedes_head {head : Row} (h : IsSorted order (head :: rows))
    (hrow : order.IsExactOn row) (hexact : ∀ row ∈ head :: rows, order.IsExactOn row)
    (hhead : order.precedes row head = true) (hother : other ∈ head :: rows) :
    order.precedes row other = true := by
  by_contra hnot
  rw [Bool.not_eq_true] at hnot
  have hfirst := hexact head List.mem_cons_self
  have hbehind := h.not_precedes_head hfirst hother
  rw [not_precedes_trans hrow (hexact other hother) hfirst hnot hbehind] at hhead
  cases hhead

lemma IsSorted.insertOrdered (h : IsSorted order rows) (hrow : order.IsExactOn row)
    (hexact : ∀ row ∈ rows, order.IsExactOn row) :
    IsSorted order (insertOrdered order row rows) := by
  induction rows with
  | nil => exact List.pairwise_singleton _ _
  | cons existing rest ih =>
    rw [QueryTerms.insertOrdered]
    split
    · next hprecedes =>
      refine List.pairwise_cons.mpr ⟨?_, h⟩
      intro later hlater
      exact precedes_asymm hrow (hexact later hlater)
        (h.precedes_of_precedes_head hrow hexact hprecedes hlater)
    · next hnot =>
      obtain ⟨hbehind, hrest⟩ := List.pairwise_cons.mp h
      refine List.pairwise_cons.mpr ⟨?_, ih hrest (List.forall_mem_cons.mp hexact).2⟩
      intro later hlater
      rcases mem_insertOrdered.mp hlater with rfl | hlater
      · rwa [Bool.not_eq_true] at hnot
      · exact hbehind later hlater

/-- Among the rows that tie with one row, the new one comes last. -/
lemma filter_ties_insertOrdered (h : IsSorted order rows) (hother : order.IsExactOn other)
    (hrow : order.IsExactOn row) (hexact : ∀ row ∈ rows, order.IsExactOn row) :
    (insertOrdered order row rows).filter (order.ties other) =
      (rows ++ [row]).filter (order.ties other) := by
  induction rows with
  | nil => rfl
  | cons existing rest ih =>
    rw [insertOrdered]
    split
    · next hprecedes =>
      rw [List.filter_append]
      cases hties : order.ties other row with
      | false => simp only [List.filter_cons, List.filter_nil, hties, List.append_nil,
          Bool.false_eq_true, if_false]
      | true =>
        -- All rows behind the new one come strictly later, so that none of them ties with it.
        have hnone : (existing :: rest).filter (order.ties other) = [] := by
          refine List.filter_eq_nil_iff.mpr ?_
          intro later hlater
          rw [Bool.not_eq_true]
          exact not_ties_of_precedes hother hrow (hexact later hlater)
            (h.precedes_of_precedes_head hrow hexact hprecedes hlater) hties
        rw [List.filter_cons_of_pos hties, hnone, List.filter_cons_of_pos hties, List.filter_nil,
          List.nil_append]
    · have hrest := ih (List.pairwise_cons.mp h).2 (List.forall_mem_cons.mp hexact).2
      rw [List.cons_append, List.filter_cons, hrest, List.filter_cons]

end Insert

/-! ## All rows -/

section Rows

variable {rows : List Row}

/-- The rows in the order that inserting one after another leads to. -/
def insertAll (order : OrderBy) (rows : List Row) : List Row :=
  rows.foldl (fun sorted row => insertOrdered order row sorted) []

lemma insertAll_concat (row : Row) :
    insertAll order (rows ++ [row]) = insertOrdered order row (insertAll order rows) := by
  rw [insertAll, List.foldl_append, List.foldl_cons, List.foldl_nil, insertAll]

lemma perm_insertAll : (insertAll order rows).Perm rows := by
  induction rows using List.reverseRecOn with
  | nil => exact .refl _
  | append_singleton rows row ih =>
    rw [insertAll_concat]
    exact perm_insertOrdered.trans ((ih.cons row).trans (List.perm_append_singleton row rows).symm)

lemma isSorted_insertAll (hexact : ∀ row ∈ rows, order.IsExactOn row) :
    IsSorted order (insertAll order rows) := by
  induction rows using List.reverseRecOn with
  | nil => exact .nil
  | append_singleton rows row ih =>
    rw [List.forall_mem_append, List.forall_mem_singleton] at hexact
    rw [insertAll_concat]
    refine (ih hexact.1).insertOrdered hexact.2 ?_
    intro other hother
    exact hexact.1 other (perm_insertAll.mem_iff.mp hother)

lemma filter_ties_insertAll {other : Row} (hother : order.IsExactOn other)
    (hexact : ∀ row ∈ rows, order.IsExactOn row) :
    (insertAll order rows).filter (order.ties other) = rows.filter (order.ties other) := by
  induction rows using List.reverseRecOn with
  | nil => rfl
  | append_singleton rows row ih =>
    rw [List.forall_mem_append, List.forall_mem_singleton] at hexact
    rw [insertAll_concat, filter_ties_insertOrdered (isSorted_insertAll hexact.1) hother hexact.2,
      List.filter_append, ih hexact.1, List.filter_append]
    intro other hother
    exact hexact.1 other (perm_insertAll.mem_iff.mp hother)

/-- **Inserting row after row is sorting.** -/
theorem insertAll_eq_sortRows (hexact : ∀ row ∈ rows, order.IsExactOn row) :
    insertAll order rows = sortRows order rows := by
  refine (isStableSort_iff hexact).mp ?_
  exact {
    perm := perm_insertAll
    isSorted := isSorted_insertAll hexact
    stable := fun row hrow => filter_ties_insertAll (hexact row hrow) hexact }

end Rows

/-! ## Unions -/

section Unions

variable {operands : List Operand} {params : Params}

/-- The operands are asked one after another, and each of them has to answer. -/
lemma fetchAll_outcome_eq_ok_iff {results : List (Operand × List Row)} :
    (fetchAll params operands).outcome = .ok results ↔
      ∃ given, List.Forall₂ (fun operand rows => (operand.fetch params).outcome = .ok rows)
        operands given ∧ results = operands.zip given := by
  induction operands generalizing results with
  | nil => simp [fetchAll, Execution.pure_eq, eq_comm]
  | cons operand rest ih =>
    rw [fetchAll, Execution.outcome_bind_eq_ok_iff]
    constructor
    · rintro ⟨rows, hrows, h⟩
      obtain ⟨others, hothers, hresults⟩ := Execution.outcome_bind_eq_ok_iff.mp h
      obtain ⟨given, hgiven, rfl⟩ := ih.mp hothers
      cases hresults
      exact ⟨rows :: given, .cons hrows hgiven, rfl⟩
    · rintro ⟨given, hgiven, rfl⟩
      cases hgiven with
      | @cons _ rows _ others hrows hothers =>
        refine ⟨rows, hrows, Execution.outcome_bind_eq_ok_iff.mpr ?_⟩
        exact ⟨rest.zip others, ih.mpr ⟨others, hothers, rfl⟩, rfl⟩

/-- Rows that are added list by list are added one after another. -/
lemma foldl_appendRows {given : List (List Row)} (hlength : operands.length = given.length) :
    (operands.zip given).foldl (fun merged result => appendRows (some order) merged result.2) [] =
      insertAll order given.flatten := by
  have hgiven : (operands.zip given).map Prod.snd = given := List.map_snd_zip hlength.ge
  rw [insertAll, List.foldl_flatten, ← hgiven, List.foldl_map, hgiven]
  rfl

/-- A union without a key succeeds with the rows that were inserted one after another. -/
lemma mergeRows_ordered_eq_ok_iff {declared : Option String} {name : String} {rows : List Row}
    (hkey : mergeKey declared name operands = .ok none) :
    (mergeRows declared (some order) name operands params).outcome = .ok rows ↔
      ∃ given, List.Forall₂ (fun operand rows => (operand.fetch params).outcome = .ok rows)
        operands given ∧ rows = insertAll order given.flatten := by
  rw [mergeRows, Execution.liftM_bind_of_ok hkey, Execution.outcome_bind_eq_ok_iff]
  constructor
  · rintro ⟨results, hresults, hrows⟩
    obtain ⟨given, hgiven, rfl⟩ := fetchAll_outcome_eq_ok_iff.mp hresults
    refine ⟨given, hgiven, ?_⟩
    rw [← foldl_appendRows hgiven.length_eq]
    exact (Except.ok.inj hrows).symm
  · rintro ⟨given, hgiven, rfl⟩
    refine ⟨operands.zip given, fetchAll_outcome_eq_ok_iff.mpr ⟨given, hgiven, rfl⟩, ?_⟩
    rw [← foldl_appendRows hgiven.length_eq]
    rfl

end Unions

/-- **Ordered insertion is stable sorting.**  Rows that are ordered by no double, inserted one after
another, come out as `sortRows` puts them, which is the one stable sort of them.  So an ordered
union without a key gives the rows of its operands, taken in the order of the operands and sorted
stably; `max` cuts off what comes behind. -/
theorem Node.run_merge_eq_sortRows {rows : List Row}
    (hexact : ∀ row ∈ rows, order.IsExactOn row) :
    rows.foldl (fun sorted row => insertOrdered order row sorted) [] = sortRows order rows ∧
      (∀ sorted, IsStableSort order rows sorted ↔ sorted = sortRows order rows) ∧
      ∀ (context : Context) (info : NodeInfo) (operands : List Node) (params : Params)
        (given : List (List Row)),
        info.output.order = some order →
        mergeKey info.output.key info.name (operands.map (operand context)) = .ok none →
        List.Forall₂ (fun node rows =>
          ((node.operand context).fetch (info.withDefaults params)).outcome = .ok rows)
          operands given →
        given.flatten = rows →
        (mergeRows info.output.key info.output.order info.name (operands.map (operand context))
          (info.withDefaults params)).outcome = .ok (sortRows order rows) ∧
        ((merge info operands).run context params).outcome =
          .ok (truncate info.output.max (.rows (sortRows order rows))) := by
  have hinsert : rows.foldl (fun sorted row => insertOrdered order row sorted) [] =
      sortRows order rows := insertAll_eq_sortRows hexact
  refine ⟨hinsert, fun sorted => isStableSort_iff hexact, ?_⟩
  intro context info operands params given horder hkey hgiven hrows
  have hmerge : (mergeRows info.output.key info.output.order info.name
      (operands.map (operand context)) (info.withDefaults params)).outcome =
      .ok (sortRows order rows) := by
    rw [horder, mergeRows_ordered_eq_ok_iff hkey]
    refine ⟨given, List.forall₂_map_left_iff.mpr hgiven, ?_⟩
    rw [hrows, ← insertAll_eq_sortRows hexact]
  refine ⟨hmerge, ?_⟩
  rw [run, operandsOf_eq_map, Execution.outcome_bind_eq_ok_iff]
  exact ⟨sortRows order rows, hmerge, rfl⟩

/-- Two lists of rows, with ties and with a row that lacks the field. -/
theorem Node.run_merge_eq_sortRows_users :
    let order : OrderBy := { field := "age", direction := .desc }
    let first : List Row := [[("name", .string "a")], [("name", .string "b"), ("age", .integer 1)]]
    let second : List Row :=
      [[("name", .string "c"), ("age", .integer 2)], [("name", .string "d"), ("age", .integer 1)]]
    let context := Context.answering [("first", first), ("second", second)]
    let operands : List Node := [.leaf { name := "first" } (.compiled "first" [] []),
      .leaf { name := "second" } (.compiled "second" [] [])]
    ((merge { name := "first|second", output := { order := some order } } operands).run context
      []).outcome = .ok (.rows (sortRows order (first ++ second))) ∧
    (sortRows order (first ++ second)).map (fun row => row.get? "name") =
      ["c", "b", "d", "a"].map fun name => some (.string name) := by
  intro order first second context operands
  have hexact : ∀ row ∈ first ++ second, order.IsExactOn row := by
    intro row hrow x
    fin_cases hrow <;> simp [OrderBy.value, Table.get?, order]
  refine ⟨((run_merge_eq_sortRows hexact).2.2 context _ operands [] [first, second] rfl rfl
    ?_ rfl).2, by cbv⟩
  exact .cons (by cbv) (.cons (by cbv) .nil)

end QueryTerms
