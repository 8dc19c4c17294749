import Mathlib
import QueryTerms.Proofs.Query.Values
import QueryTerms.Proofs.Row.Sorting
import QueryTerms.Proofs.Sql.Rendering

/-!
# Ordered rows from a limited statement

A query puts its rows in order and then cuts them to a number of rows.  A leaf that declares a
paging limit hands this number to its statement as well, and there it counts before the rows are in
order.  The first rows of what the statement gives, in order, need not be the first rows of all.

**Limits.**  `NodeInfo.limit?` is the limit that a statement runs under, and it parts the rows of a
table into `rowsWithin` and `rowsBeyond`.

**Leaves.**  `LeafCall.IsAnswered` is what a database is asked for: the rows of a table within the
limit.  Where the leaf leaves rows as they come, these are its result (`LeafCall.outcome_run`).

**Queries.**  `Query.select_ordered_iff` says when the first rows in order are the result.
`Query.select_paged_iff` says it for a limit that comes from the query itself.
-/

namespace QueryTerms

/-! ## Limits -/

/-- The number of rows that a bound value limits a statement to.  Only whole numbers do, and a
negative one stands for no limit. -/
def Bound.limit? : Bound → Option ℕ
  | .int n => if 0 ≤ n.toInt then some n.toInt.toNat else none
  | _ => none

/-- The limit that a statement runs under: what the paging parameter of its leaf is bound to. -/
def NodeInfo.limit? (info : NodeInfo) (bound : Table String Bound) : Option ℕ :=
  (info.paging.bind fun paging => bound.get? paging.limit).bind Bound.limit?

/-- A number is bound as a limit. -/
lemma Bound.limit?_ofNat {n : ℕ} (hn : n < 2 ^ 63) :
    (Bound.int (Int64.ofNat n)).limit? = some n := by
  rw [Bound.limit?, Int64.toInt_ofNat_of_lt hn, if_pos (Int.natCast_nonneg n), Int.toNat_natCast]

/-- What a statement gives of a table under a limit. -/
def rowsWithin : Option ℕ → List Row → List Row
  | some limit, rows => rows.take limit
  | none, rows => rows

/-- What it leaves out. -/
def rowsBeyond : Option ℕ → List Row → List Row
  | some limit, rows => rows.drop limit
  | none, _ => []

section Limits

variable {limit : Option ℕ} {rows : List Row}

lemma rowsWithin_append_rowsBeyond (limit : Option ℕ) (rows : List Row) :
    rowsWithin limit rows ++ rowsBeyond limit rows = rows := by
  cases limit with
  | none => exact List.append_nil rows
  | some limit => exact List.take_append_drop limit rows

lemma mem_of_mem_rowsWithin {row : Row} (h : row ∈ rowsWithin limit rows) : row ∈ rows := by
  rw [← rowsWithin_append_rowsBeyond limit rows]
  exact List.mem_append_left _ h

end Limits

/-! ## Leaves -/

/-- Rows without names to take apart stay as they are when there is nothing else to do. -/
lemma Shaping.apply_eq_self {shaping : Shaping} {rows : List Row} (htypes : shaping.types = [])
    (htransform : shaping.transform = none)
    (hflat : shaping.nested = true →
      ∀ row ∈ rows, UnnestPlan.ofRow shaping.separator row = {}) :
    shaping.apply rows = rows := by
  have hplan : shaping.plan rows = {} := by
    cases rows with
    | nil => rfl
    | cons first rest =>
      rw [Shaping.plan]
      split
      · next hnested => exact hflat hnested first List.mem_cons_self
      · rfl
  have hrow : shaping.shapeRow {} = id := by
    funext row
    rw [Shaping.shapeRow, htypes]
    rfl
  rw [Shaping.apply, hplan, hrow, List.map_id, htransform]

namespace LeafCall

/-- The leaf returns rows by columns and leaves them as they come: it declares no types, has no
transform, and finds no name to take apart. -/
structure IsPlain (context : Context) (call : LeafCall) (rows : List Row) : Prop where
  many_rows : call.info.output.rows = .many
  many_columns : call.info.output.columns = .many
  types : call.info.output.types = []
  transform : context.transforms call.source.id = none
  flat : call.info.output.nested = true →
    ∀ row ∈ rows, UnnestPlan.ofRow context.config.nestedSeparator row = {}

/-- The leaf has one statement to send, which is answered with the rows of a table within the limit
that it runs under. -/
def IsAnswered (context : Context) (call : LeafCall) (limit : Option ℕ) (rows : List Row) : Prop :=
  ∃ sql rendered cursor, call.source.statement context = .ok sql ∧
    batchedParam call.source.id call.info (call.values context) = .ok none ∧
    Sql.render context.database.literal sql (call.values context) call.info.params =
      .ok rendered ∧
    call.info.limit? rendered.bound = limit ∧
    context.database.execute rendered.sql rendered.bound = .ok cursor ∧
    cursor.rows = rowsWithin limit rows

/-- The leaf limits its statement to its own length: the statement has a place for the limit, which
is bound as a number, and no value for it arrives. -/
structure LimitsItself (context : Context) (call : LeafCall) (param : String) : Prop where
  paging : call.info.paging = some ⟨param⟩
  mentions : ∀ sql, call.source.statement context = .ok sql → Sql.mentions sql param = true
  numeric : Sql.boundType call.info.params param = .int ∨
    Sql.boundType call.info.params param = .any
  unset : (call.info.withDefaults call.params).get? param = none

variable {context : Context} {call : LeafCall} {limit : Option ℕ} {rows : List Row}

/-- What a plain leaf returns is what it is answered with. -/
theorem outcome_run (hplain : call.IsPlain context rows)
    (hanswered : call.IsAnswered context limit rows) :
    (call.run context).outcome = .ok (.rows (rowsWithin limit rows)) := by
  obtain ⟨sql, rendered, cursor, hsql, hbatched, hrendered, -, hcursor, hrows⟩ := hanswered
  have hsend : (sendLeaf context call.source.id sql call.info (call.values context)).outcome =
      .ok cursor := by
    rw [sendLeaf, Execution.liftM_bind_of_ok hrendered, Execution.send, hcursor]
  have hfetch : cursor.fetch call.info.output.rows call.info.output.columns =
      .rows (rowsWithin limit rows) := by
    rw [hplain.many_rows, hplain.many_columns, Cursor.fetch, hrows]
  have hshape : (shapingOf context call.source.id call.info).apply (rowsWithin limit rows) =
      rowsWithin limit rows :=
    Shaping.apply_eq_self hplain.types hplain.transform fun hnested row hrow =>
      hplain.flat hnested row (mem_of_mem_rowsWithin hrow)
  rw [LeafCall.values] at hbatched
  rw [LeafCall.run, runLeaf, Execution.liftM_bind_of_ok hsql, runStatement,
    Execution.liftM_bind_of_ok hbatched, Execution.outcome_bind_eq_ok_iff]
  refine ⟨_, Execution.outcome_bind_eq_ok_iff.mpr ⟨cursor, hsend, rfl⟩, ?_⟩
  rw [hfetch]
  exact congrArg (fun rows => Except.ok (Shaped.rows rows)) hshape

/-- A leaf that limits itself is limited to its own length. -/
theorem IsAnswered.limit_eq {param : String} {n : ℕ} (h : call.IsAnswered context limit rows)
    (hlimits : call.LimitsItself context param) (hmax : call.info.output.max = some n)
    (hn : n < 2 ^ 63) : limit = some n := by
  obtain ⟨sql, rendered, -, hsql, -, hrendered, rfl, -⟩ := h
  obtain ⟨bound, hbound, hrendered⟩ := bind_eq_ok_iff.mp hrendered
  cases hrendered
  have hvalue : (call.values context).get? param = some (.integer (Int64.ofNat n)) := by
    rw [LeafCall.values, get?_effectiveParams, hlimits.unset, NodeInfo.pagingValue?,
      hlimits.paging, hmax]
    simp
  -- The placeholder is bound, and as the number that its value is.
  have hmem : param ∈ bound.keys := by
    refine ((Sql.keys_foldlM_bindPlaceholder hbound List.nodup_nil).2 param).mpr (.inr ⟨?_, ?_⟩)
    · exact List.contains_iff_mem.mp (hlimits.mentions sql hsql)
    · exact ⟨_, hvalue, rfl⟩
  obtain ⟨scalar, hscalar⟩ :=
    Table.exists_get?_eq_some_iff.mpr hmem
  obtain ⟨value, hsame, hbind⟩ := Sql.get?_foldlM_bindPlaceholder hbound hscalar
  rw [hvalue] at hsame
  cases hsame
  have hint : scalar = .int (Int64.ofNat n) := by
    rcases hlimits.numeric with htype | htype <;> rw [htype] at hbind <;> cases hbind <;> rfl
  rw [NodeInfo.limit?, hlimits.paging, Option.bind_some, hscalar, hint, Option.bind_some,
    Bound.limit?_ofNat hn]

end LeafCall

/-! ## Queries -/

namespace Query

/-- The query is a plain leaf, which is answered with the rows of a table within a limit. -/
structure ReadsTable (query : Query) (call : LeafCall) (limit : Option ℕ) (rows : List Row) :
    Prop where
  root : query.root = .leaf call.info call.source
  ungrouped : call.info.output.grouped = false
  plain : call.IsPlain query.resolver.context rows
  answered : call.IsAnswered query.resolver.context limit rows

variable {query : Query} {call : LeafCall} {field : String} {direction : Direction} {n : ℕ}
  {limit : Option ℕ} {rows : List Row}

/-- The rows of the table within the limit are finished, and nothing else happens to them. -/
lemma ReadsTable.outcome_select (h : query.ReadsTable call limit rows) :
    (query.select call.params).outcome =
      .ok (finish call.info (.rows (rowsWithin limit rows))) := by
  have hrun : (query.root.run query.resolver.context call.params).outcome =
      .ok (finish call.info (.rows (rowsWithin limit rows))) := by
    rw [h.root, Node.run]
    exact Execution.outcome_bind_eq_ok_iff.mpr
      ⟨_, LeafCall.outcome_run h.plain h.answered, rfl⟩
  rw [select, Execution.outcome_bind_eq_ok_iff]
  refine ⟨_, hrun, ?_⟩
  rw [h.root, Node.info, h.ungrouped]
  rfl

/-- The leaf knows the order and the length that have been set. -/
lemma ReadsTable.output_eq
    (h : ((query.order field direction).max n).ReadsTable call limit rows) :
    call.info.output =
      { query.root.info.output with order := some ⟨field, direction⟩, max := some n } := by
  have hinfo : call.info = ((query.order field direction).max n).root.info := by
    rw [h.root, Node.info]
  rw [hinfo]
  simp only [max, order, mapOutput, mapInfo, Node.info_withInfo]

/-- Rows are put in order after the limit of the statement has cut them. -/
lemma ReadsTable.outcome_select_ordered
    (h : ((query.order field direction).max n).ReadsTable call limit rows) :
    (((query.order field direction).max n).select call.params).outcome =
      .ok (.rows ((sortRows ⟨field, direction⟩ (rowsWithin limit rows)).take n)) := by
  rw [h.outcome_select, finish, h.output_eq]
  rfl

lemma ReadsTable.outcome_select_ordered_iff {sorted : List Row}
    (h : ((query.order field direction).max n).ReadsTable call limit rows)
    (hexact : ∀ row ∈ rows, OrderBy.IsExactOn ⟨field, direction⟩ row)
    (hsorted : IsStableSort ⟨field, direction⟩ rows sorted) :
    (((query.order field direction).max n).select call.params).outcome =
        .ok (.rows (sorted.take n)) ↔
      OrderBy.Suffices ⟨field, direction⟩ n (rowsWithin limit rows) (rowsBeyond limit rows) := by
  have hsplit := rowsWithin_append_rowsBeyond limit rows
  rw [h.outcome_select_ordered, (isStableSort_iff hexact).mp hsorted, Except.ok.injEq,
    Shaped.rows.injEq]
  rw [← hsplit] at hexact
  rw [← take_sortRows_append_iff hexact, hsplit]
  exact eq_comm

end Query

/-! ## A table with ids -/

/-- A row for each id. -/
def rowsWithIds (ids : List Int64) : List Row := ids.map fun id => [("id", .integer id)]

lemma isExactOn_rowsWithIds (ids : List Int64) (direction : Direction) :
    ∀ row ∈ rowsWithIds ids, OrderBy.IsExactOn ⟨"id", direction⟩ row := by
  intro row hrow
  obtain ⟨id, -, rfl⟩ := List.mem_map.mp hrow
  exact fun x heq => nomatch heq

lemma ofRow_rowsWithIds (ids : List Int64) :
    ∀ row ∈ rowsWithIds ids, UnnestPlan.ofRow "." row = {} := by
  intro row hrow
  obtain ⟨id, -, rfl⟩ := List.mem_map.mp hrow
  cbv

/-- A database that holds one table, and answers every statement with its rows within the limit that
the parameter is bound to. -/
def Database.ofTable (param : String) (rows : List Row) : Database where
  execute _ bound := .ok { rows := rowsWithin ((bound.get? param).bind Bound.limit?) rows }

/-- One leaf over a table of orders, with a place for the limit in its statement. -/
def recentOrders (rows : List Row) : Resolver where
  store := ((Catalog.mk [] []).addCompiled "recent" { paging := some ⟨"limit"⟩ }
    "SELECT id FROM orders LIMIT :limit").toStore
  database := .ofTable "limit" rows

/-- The leaf reads the table up to the length that is asked for. -/
lemma exists_readsTable_recentOrders {n : ℕ} {rows : List Row} (hn : n < 2 ^ 63)
    (hflat : ∀ row ∈ rows, UnnestPlan.ofRow "." row = {}) (field : String)
    (direction : Direction) :
    ∃ query call, (recentOrders rows).resolve "recent" = .ok query ∧
      ((query.order field direction).max n).ReadsTable call (some n) rows := by
  let info : NodeInfo := { name := "recent", paging := some ⟨"limit"⟩ }
  let source : LeafSource := .compiled "recent" [] []
  let query : Query :=
    { resolver := recentOrders rows, term := .leaf "recent", root := .leaf info source }
  let call : LeafCall :=
    ⟨((query.order field direction).max n).root.info, source, [], []⟩
  have hlimit : call.info.limit? [("limit", .int (Int64.ofNat n))] = some n :=
    Bound.limit?_ofNat hn
  refine ⟨query, call, by cbv, rfl, rfl, ⟨rfl, rfl, rfl, rfl, fun _ => hflat⟩, ?_⟩
  exact ⟨_, ⟨"SELECT id FROM orders LIMIT :limit", [("limit", .int (Int64.ofNat n))]⟩, _,
    by cbv, by cbv, by cbv, hlimit, rfl, congrArg (rowsWithin · rows) hlimit⟩

namespace Query

variable {query : Query} {call : LeafCall} {field : String} {direction : Direction} {n : ℕ}
  {limit : Option ℕ} {rows : List Row}

/-- **When the rows are the first ones in order.**  A table is read up to the limit that the
statement of a leaf runs under, and what is read is put in order and cut.  This gives the first rows
of the whole table, stably sorted, exactly if the rows within the limit suffice to know them. -/
theorem select_ordered_iff
    (h : ((query.order field direction).max n).ReadsTable call limit rows)
    (hexact : ∀ row ∈ rows, OrderBy.IsExactOn ⟨field, direction⟩ row) :
    let asked := (query.order field direction).max n
    let order : OrderBy := ⟨field, direction⟩
    (asked.select call.params).outcome =
        .ok (.rows ((sortRows order (rowsWithin limit rows)).take n)) ∧
      IsStableSort order rows (sortRows order rows) ∧
      ∀ sorted, IsStableSort order rows sorted →
        ((asked.select call.params).outcome = .ok (.rows (sorted.take n)) ↔
          order.Suffices n (rowsWithin limit rows) (rowsBeyond limit rows)) := by
  refine ⟨h.outcome_select_ordered, isStableSort_sortRows hexact, fun sorted hsorted => ?_⟩
  exact h.outcome_select_ordered_iff hexact hsorted

/-- The two first rows of three are within the limit, and the other one precedes none of them. -/
theorem select_ordered_recent :
    let rows := rowsWithIds [2, 3, 5]
    ∃ query call, (recentOrders rows).resolve "recent" = .ok query ∧
      ((query.order "id" .asc).max 2).ReadsTable call (some 2) rows ∧
      IsStableSort ⟨"id", .asc⟩ rows rows ∧
      (((query.order "id" .asc).max 2).select call.params).outcome = .ok (.rows (rows.take 2)) := by
  intro rows
  obtain ⟨query, call, hquery, hreads⟩ :=
    exists_readsTable_recentOrders (n := 2) (by decide) (ofRow_rowsWithIds [2, 3, 5]) "id" .asc
  have hexact := isExactOn_rowsWithIds [2, 3, 5] .asc
  have hsort : IsStableSort ⟨"id", .asc⟩ rows rows := (isStableSort_iff hexact).mpr (by cbv)
  refine ⟨query, call, hquery, hreads, hsort, ?_⟩
  exact ((select_ordered_iff hreads hexact).2.2 rows hsort).mpr (.inr ⟨by decide, by decide⟩)

/-- **The order comes too late.**  One row is asked for, so that the statement gives the first row
it comes to, which is not the first one in order. -/
theorem select_recent_unordered :
    let rows := rowsWithIds [3, 1]
    ∃ query call, (recentOrders rows).resolve "recent" = .ok query ∧
      ((query.order "id" .asc).max 1).ReadsTable call (some 1) rows ∧
      IsStableSort ⟨"id", .asc⟩ rows (rowsWithIds [1, 3]) ∧
      (((query.order "id" .asc).max 1).select call.params).outcome =
        .ok (.rows (rowsWithIds [3])) ∧
      (((query.order "id" .asc).max 1).select call.params).outcome ≠
        .ok (.rows ((rowsWithIds [1, 3]).take 1)) := by
  intro rows
  obtain ⟨query, call, hquery, hreads⟩ :=
    exists_readsTable_recentOrders (n := 1) (by decide) (ofRow_rowsWithIds [3, 1]) "id" .asc
  have hexact := isExactOn_rowsWithIds [3, 1] .asc
  have hgiven : (((query.order "id" .asc).max 1).select call.params).outcome =
      .ok (.rows (rowsWithIds [3])) := by
    rw [hreads.outcome_select_ordered]
    cbv
  refine ⟨query, call, hquery, hreads, (isStableSort_iff hexact).mpr (by cbv), hgiven, ?_⟩
  rw [hgiven]
  simp [rowsWithIds]

/-- **A limit of one's own.**  Where the query itself sets the limit of the statement, its result is
right exactly if the table begins with the rows that come first in order. -/
theorem select_paged_iff {param : String} {sorted : List Row}
    (h : ((query.order field direction).max n).ReadsTable call limit rows)
    (hlimits : call.LimitsItself query.resolver.context param) (hn : n < 2 ^ 63)
    (hexact : ∀ row ∈ rows, OrderBy.IsExactOn ⟨field, direction⟩ row)
    (hsorted : IsStableSort ⟨field, direction⟩ rows sorted) :
    (((query.order field direction).max n).select call.params).outcome =
        .ok (.rows (sorted.take n)) ↔
      ∀ later ∈ rows.drop n, ∀ row ∈ rows.take n,
        OrderBy.precedes ⟨field, direction⟩ later row = false := by
  have hmax : call.info.output.max = some n := by rw [h.output_eq]
  obtain rfl := h.answered.limit_eq hlimits hmax hn
  rw [h.outcome_select_ordered_iff hexact hsorted]
  exact suffices_take_drop_iff

end Query

end QueryTerms
