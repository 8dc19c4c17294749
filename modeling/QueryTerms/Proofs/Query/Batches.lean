import Mathlib
import QueryTerms.Proofs.Query.Operand
import QueryTerms.Proofs.Table

/-!
# Leaves in batches

A leaf whose parameter has too many values is sent in several statements.  Where the rows of a
statement add up over the values of that parameter, nobody can tell the difference from the result.

**Parts.**  `chunks` cuts a list into parts of bounded length and loses nothing (`isSplit_chunks`).

**Results.**  Joining the results of two lists of rows is the result of both together
(`concat_fetch`), except for a single value, where a null cannot be told from no row.

**Rendering.**  The values of a list are in the text of a statement and never bound, so that a
statement can be rendered with all parts of a list or with none of them
(`Sql.render_set_array`).

**Running.**  `runBatches_eq_foldl` and `runBatches_eq` for the statements of all parts,
`runLeaf_batches` for the leaf.
-/

namespace QueryTerms

/-! ## Parts -/

/-- The parts make up the list, none of them empty and none longer than `size`. -/
structure IsSplit {α : Type} (size : Nat) (items : List α) (parts : List (List α)) : Prop where
  flatten : parts.flatten = items
  ne_nil : ∀ part ∈ parts, part ≠ []
  length_le : ∀ part ∈ parts, part.length ≤ size

/-- Each step takes at least one item and at most `size` of them. -/
lemma isSplit_chunks {α : Type} {size : Nat} (hsize : 1 ≤ size) (items : List α) :
    IsSplit size items (chunks size items) := by
  induction items using chunks.induct size with
  | case1 =>
    rw [chunks]
    exact ⟨rfl, nofun, nofun⟩
  | case2 item rest ih =>
    rw [chunks]
    refine ⟨?_, ?_, ?_⟩
    · rw [List.flatten_cons, ih.flatten, List.cons_append, List.take_append_drop]
    · exact List.forall_mem_cons.mpr ⟨List.cons_ne_nil _ _, ih.ne_nil⟩
    · refine List.forall_mem_cons.mpr ⟨?_, ih.length_le⟩
      have hlength := List.length_take_le (size - 1) rest
      rw [List.length_cons]
      omega

lemma IsSplit.parts_ne_nil {α : Type} {size : Nat} {items : List α} {parts : List (List α)}
    (h : IsSplit size items parts) (hitems : items ≠ []) : parts ≠ [] := by
  rintro rfl
  exact hitems h.flatten.symm

lemma IsSplit.infix_of_mem {α : Type} {size : Nat} {items part : List α} {parts : List (List α)}
    (h : IsSplit size items parts) (hmem : part ∈ parts) : part <:+: items := by
  rw [← h.flatten]
  exact List.infix_of_mem_flatten hmem

/-! ## Results -/

/-- Fetching reads the rows of a result and nothing else. -/
lemma fetch_eq_of_rows {first second : Cursor} (h : first.rows = second.rows)
    (rows columns : Cardinality) : first.fetch rows columns = second.fetch rows columns := by
  cases rows <;> cases columns <;> simp only [Cursor.fetch, h]

/-- **Joined results are results of joined rows**, unless a single value is asked for. -/
lemma concat_fetch {rows columns : Cardinality} (hshape : ¬ (rows = .one ∧ columns = .one))
    (front back : List Row) :
    concat (Cursor.fetch { rows := front } rows columns)
        (Cursor.fetch { rows := back } rows columns) =
      Cursor.fetch { rows := front ++ back } rows columns := by
  cases rows with
  | one =>
    cases columns with
    | one => exact absurd ⟨rfl, rfl⟩ hshape
    | many =>
      cases front with
      | nil => rfl
      | cons row rest => rfl
  | many =>
    cases columns with
    | one => simp only [Cursor.fetch, concat, List.filterMap_append]
    | many => rfl

/-! ## Rendering -/

/-- The declaration without a batch. -/
def ParamSpec.unbatched (spec : ParamSpec) : ParamSpec := { spec with batch := none }

/-- The node with no batch declared. -/
def NodeInfo.unbatched (info : NodeInfo) : NodeInfo :=
  { info with params := info.params.map fun (name, spec) => (name, spec.unbatched) }

lemma get?_unbatched (name : String) (specs : ParamSpecs) :
    Table.get? name (specs.map fun (name, spec) => (name, spec.unbatched)) =
      (specs.get? name).map ParamSpec.unbatched := by
  induction specs with
  | nil => rfl
  | cons entry rest ih =>
    obtain ⟨own, spec⟩ := entry
    rw [List.map_cons, Table.get?_cons, Table.get?_cons, ih]
    split <;> rfl

/-- Batches say nothing about values. -/
lemma effectiveParams_unbatched (info : NodeInfo) (config : Config) (params : Params) :
    effectiveParams info.unbatched config params = effectiveParams info config params := by
  have hdefaults : (info.unbatched.params.filterMap fun (name, spec) =>
        spec.default.map fun value => (name, value)) =
      info.params.filterMap fun (name, spec) => spec.default.map fun value => (name, value) := by
    rw [NodeInfo.unbatched, List.filterMap_map]
    rfl
  rw [effectiveParams, hdefaults]
  rfl

namespace Sql

variable {values : Params} {param sql : String} {items part : List Value} {specs : ParamSpecs}

/-- The values of a list are not bound. -/
lemma bindPlaceholder_set_array (hitems : values.get? param = some (.array items))
    (part : List Value) (specs : ParamSpecs) :
    bindPlaceholder (values.set param (.array part)) specs = bindPlaceholder values specs := by
  funext bound name
  rw [bindPlaceholder, bindPlaceholder, Table.get?_set]
  by_cases hname : param = name
  · rw [if_pos hname, ← hname, hitems]
  · rw [if_neg hname]

/-- The type of a parameter decides how its value is bound. -/
lemma bindPlaceholder_unbatched (values : Params) (info : NodeInfo) :
    bindPlaceholder values info.unbatched.params = bindPlaceholder values info.params := by
  have htype : ∀ name, ((info.unbatched.params.get? name).map ParamSpec.type).getD .any =
      ((info.params.get? name).map ParamSpec.type).getD .any := by
    intro name
    rw [NodeInfo.unbatched, get?_unbatched, Option.map_map]
    rfl
  funext bound name
  simp only [bindPlaceholder, htype]

lemma render_unbatched (literal : Value → String) (sql : String) (values : Params)
    (info : NodeInfo) :
    render literal sql values info.unbatched.params = render literal sql values info.params := by
  rw [render, bindPlaceholder_unbatched]
  rfl

/-- The text of a statement with its parameters filled in. -/
def filled (literal : Value → String) (sql : String) (values : Params) : String :=
  String.ofList ((tokens sql.toList).flatMap (renderToken literal values))

/-- **Whether a statement can be rendered does not depend on the values of a list**, nor does what
is bound. -/
lemma render_set_array (literal : Value → String) (sql : String) (specs : ParamSpecs)
    (hitems : values.get? param = some (.array items)) :
    (∃ cause, ∀ part, render literal sql (values.set param (.array part)) specs = .error cause) ∨
      ∃ bound, ∀ part, render literal sql (values.set param (.array part)) specs =
        .ok ⟨filled literal sql (values.set param (.array part)), bound⟩ := by
  cases hbound : (placeholders sql.toList).foldlM (bindPlaceholder values specs) [] with
  | error cause =>
    refine .inl ⟨cause, fun part => ?_⟩
    rw [render, bindPlaceholder_set_array hitems, hbound]
    rfl
  | ok bound =>
    refine .inr ⟨bound, fun part => ?_⟩
    rw [render, bindPlaceholder_set_array hitems, hbound]
    rfl

end Sql

/-! ## Running -/

section RunBatches

variable {run : Params → Execution Shaped} {values : Params} {param : String}
  {items : List Value} {result : List Value → Shaped} {statement : List Value → Statement}

lemma runBatches_eq_fail {cause : QueryError}
    (hrun : ∀ part, run (values.set param (.array part)) = .fail cause)
    {parts : List (List Value)} (hparts : parts ≠ []) :
    runBatches run values param parts = .fail cause := by
  cases parts with
  | nil => exact absurd rfl hparts
  | cons first rest =>
    rw [runBatches, hrun first]
    rfl

/-- The loop, by induction on the parts that are left. -/
lemma foldlM_concat_eq {parts : List (List Value)}
    (hrun : ∀ part ∈ parts,
      run (values.set param (.array part)) = ⟨.ok (result part), [statement part]⟩)
    (start : Shaped) :
    parts.foldlM (fun result part => do
        return concat result (← run (values.set param (.array part)))) start =
      ⟨.ok ((parts.map result).foldl concat start), parts.map statement⟩ := by
  induction parts generalizing start with
  | nil => rfl
  | cons part rest ih =>
    obtain ⟨hpart, hrest⟩ := List.forall_mem_cons.mp hrun
    have hstep : (do return concat start (← run (values.set param (.array part)))) =
        (⟨.ok (concat start (result part)), [statement part]⟩ : Execution Shaped) :=
      Execution.bind_pure_eq_ok_iff.mpr ⟨_, hpart, rfl⟩
    rw [List.foldlM_cons]
    exact Execution.bind_eq_ok_iff.mpr ⟨_, _, _, hstep, ih hrest _, rfl⟩

/-- The results of all parts are joined, one statement for each part. -/
lemma runBatches_eq_foldl {first : List Value} {rest : List (List Value)}
    (hrun : ∀ part ∈ first :: rest,
      run (values.set param (.array part)) = ⟨.ok (result part), [statement part]⟩) :
    runBatches run values param (first :: rest) =
      ⟨.ok ((rest.map result).foldl concat (result first)), (first :: rest).map statement⟩ := by
  obtain ⟨hfirst, hrest⟩ := List.forall_mem_cons.mp hrun
  exact Execution.bind_eq_ok_iff.mpr ⟨_, _, _, hfirst, foldlM_concat_eq hrest _, rfl⟩

/-- What has been joined so far is the result of all values that have been sent. -/
lemma foldl_concat_eq
    (hconcat : ∀ front back, front ≠ [] → back ≠ [] → front ++ back <:+: items →
      concat (result front) (result back) = result (front ++ back))
    {sent : List Value} (hsent : sent ≠ []) {parts : List (List Value)}
    (hparts : ∀ part ∈ parts, part ≠ []) (hwithin : sent ++ parts.flatten <:+: items) :
    (parts.map result).foldl concat (result sent) = result (sent ++ parts.flatten) := by
  induction parts generalizing sent with
  | nil =>
    rw [List.flatten_nil, List.append_nil]
    rfl
  | cons part rest ih =>
    obtain ⟨hpart, hrest⟩ := List.forall_mem_cons.mp hparts
    rw [List.flatten_cons, ← List.append_assoc] at hwithin ⊢
    have hboth : sent ++ part <:+: items :=
      (List.prefix_append (sent ++ part) rest.flatten).isInfix.trans hwithin
    rw [List.map_cons, List.foldl_cons, hconcat sent part hsent hpart hboth]
    exact ih (List.append_ne_nil_of_left_ne_nil hsent part) hrest hwithin

/-- **All parts together** give the result of the whole list, one statement for each part. -/
theorem runBatches_eq
    (hrun : ∀ part, part ≠ [] → part <:+: items →
      run (values.set param (.array part)) = ⟨.ok (result part), [statement part]⟩)
    (hconcat : ∀ front back, front ≠ [] → back ≠ [] → front ++ back <:+: items →
      concat (result front) (result back) = result (front ++ back))
    {size : Nat} {parts : List (List Value)} (hparts : IsSplit size items parts)
    (hitems : items ≠ []) :
    runBatches run values param parts = ⟨.ok (result items), parts.map statement⟩ := by
  obtain ⟨first, rest, rfl⟩ := List.exists_cons_of_ne_nil (hparts.parts_ne_nil hitems)
  obtain ⟨hfirst, hrest⟩ := List.forall_mem_cons.mp hparts.ne_nil
  have hflatten : first ++ rest.flatten = items := hparts.flatten
  have hjoined := foldl_concat_eq hconcat hfirst hrest (hflatten ▸ List.infix_refl _)
  rw [runBatches_eq_foldl fun part hpart =>
    hrun part (hparts.ne_nil part hpart) (hparts.infix_of_mem hpart), hjoined, hflatten]

end RunBatches

/-- The database gives rows for every part of a list of values, and they add up: the rows of two
parts together are the rows of the one followed by those of the other. -/
structure AddsUp (context : Context) (sql : String) (info : NodeInfo) (values : Params)
    (param : String) (items : List Value) (rows : List Value → List Row) : Prop where
  answers : ∀ part rendered, part ≠ [] → part <:+: items →
    Sql.render context.database.literal sql (values.set param (.array part)) info.params =
      .ok rendered →
    ∃ cursor, context.database.execute rendered.sql rendered.bound = .ok cursor ∧
      cursor.rows = rows part
  append : ∀ front back, front ≠ [] → back ≠ [] → front ++ back <:+: items →
    rows (front ++ back) = rows front ++ rows back

section RunOnce

variable {context : Context} {info : NodeInfo} {values : Params} {sql param : String}
  {items : List Value} {rows : List Value → List Row}

/-- A statement that is rendered gives the rows of its part. -/
lemma runOnce_eq_ok (leaf : String) (hadds : AddsUp context sql info values param items rows)
    {rendered : Sql.Rendered} {part : List Value} (hpart : part ≠ []) (hwithin : part <:+: items)
    (hrender : Sql.render context.database.literal sql (values.set param (.array part))
      info.params = .ok rendered) :
    runOnce context leaf sql info (values.set param (.array part)) =
      ⟨.ok (Cursor.fetch { rows := rows part } info.output.rows info.output.columns),
        [⟨rendered.sql, rendered.bound⟩]⟩ := by
  obtain ⟨cursor, hcursor, hrows⟩ := hadds.answers part rendered hpart hwithin hrender
  refine Execution.bind_pure_eq_ok_iff.mpr ⟨cursor, ?_, fetch_eq_of_rows hrows _ _⟩
  refine Execution.liftM_bind_eq_ok_iff.mpr ⟨rendered, hrender, ?_⟩
  rw [Execution.send, hcursor]

lemma runOnce_eq_fail (leaf : String) {cause : QueryError}
    (hrender : Sql.render context.database.literal sql values info.params = .error cause) :
    runOnce context leaf sql info values = .fail cause := by
  rw [runOnce, sendLeaf, Execution.liftM_bind_of_error hrender]
  rfl

end RunOnce

/-- The parameter has more values than its batch, and no other one has. -/
structure IsBatched (info : NodeInfo) (values : Params) (param : String) (size : Nat)
    (items : List Value) : Prop where
  nodup : info.params.keys.Nodup
  declared : ∃ spec, info.params.get? param = some spec ∧ spec.batch = some size
  given : values.get? param = some (.array items)
  long : max size 1 < items.length
  others : ∀ entry ∈ info.params, entry.1 ≠ param → batchOf values entry.1 entry.2 = none

lemma IsBatched.items_ne_nil {info : NodeInfo} {values : Params} {param : String} {size : Nat}
    {items : List Value} (h : IsBatched info values param size items) : items ≠ [] := by
  rintro rfl
  exact absurd h.long (Nat.not_lt_zero _)

lemma IsBatched.batchedParam_eq {info : NodeInfo} {values : Params} {param : String} {size : Nat}
    {items : List Value} (h : IsBatched info values param size items) (leaf : String) :
    batchedParam leaf info values = .ok (some ⟨param, max size 1, items⟩) := by
  obtain ⟨spec, hspec, hbatch⟩ := h.declared
  have hown : batchOf values param spec = some ⟨param, max size 1, items⟩ := by
    rw [batchOf, hbatch, h.given]
    exact if_pos h.long
  obtain ⟨front, back, hsplit, hfront⟩ := Table.get?_eq_some_iff.mp hspec
  have hback : param ∉ Table.keys back := by
    have hnodup := h.nodup
    rw [hsplit, Table.keys, List.map_append, List.nodup_append] at hnodup
    exact (List.nodup_cons.mp hnodup.2.1).1
  have hnone : ∀ part : ParamSpecs, part ⊆ info.params → param ∉ part.keys →
      part.filterMap (fun (name, spec) => batchOf values name spec) = [] := by
    intro part hsubset hpart
    refine List.filterMap_eq_nil_iff.mpr fun entry hentry => h.others entry (hsubset hentry) ?_
    rintro rfl
    exact hpart (List.mem_map_of_mem hentry)
  rw [hsplit] at hnone
  have hinBack : back ⊆ front ++ (param, spec) :: back :=
    List.subset_append_of_subset_right _ (List.subset_cons_self _ _)
  rw [batchedParam, hsplit, List.filterMap_append,
    hnone front (List.subset_append_left _ _) hfront, List.filterMap_cons,
    hnone back hinBack hback, List.nil_append]
  simp only [hown]

section RunLeaf

variable {context : Context} {info : NodeInfo} {source : LeafSource} {params values : Params}
  {leaf sql param : String} {size : Nat} {items : List Value} {rows : List Value → List Row}

/-- Without batches there is nothing to be sent in batches. -/
lemma batchedParam_unbatched : batchedParam leaf info.unbatched values = .ok none := by
  have hfiltered : info.unbatched.params.filterMap
      (fun (name, spec) => batchOf values name spec) = [] := by
    rw [NodeInfo.unbatched, List.filterMap_map]
    exact List.filterMap_eq_nil_iff.mpr fun _ _ => rfl
  rw [batchedParam, hfiltered]

/-- Without batches one statement is sent with all values. -/
lemma runStatement_unbatched :
    runStatement context leaf sql info.unbatched params =
      runOnce context leaf sql info (effectiveParams info context.config params) >>= fun result =>
        pure (shapeResult (shapingOf context leaf info) result) := by
  rw [runStatement, batchedParam_unbatched, effectiveParams_unbatched, runOnce, sendLeaf,
    Sql.render_unbatched]
  rfl

/-- With batches one statement is sent for each part. -/
lemma runStatement_of_isBatched
    (h : IsBatched info (effectiveParams info context.config params) param size items) :
    runStatement context leaf sql info params =
      runBatches (runOnce context leaf sql info) (effectiveParams info context.config params)
        param (chunks (max size 1) items) >>= fun result =>
        pure (shapeResult (shapingOf context leaf info) result) := by
  rw [runStatement, h.batchedParam_eq]
  rfl

/-- The statements carry the parts of a list, each statement one part. -/
def SendsParts (context : Context) (sql : String) (info : NodeInfo) (values : Params)
    (param : String) (parts : List (List Value)) (sent : List Statement) : Prop :=
  List.Forall₂ (fun part statement =>
    Sql.render context.database.literal sql (values.set param (.array part)) info.params =
      .ok ⟨statement.sql, statement.bound⟩) parts sent

/-- If the statement cannot be rendered for one part, it cannot for any, nor for the whole list. -/
lemma runStatement_eq_fail (leaf : String) {cause : QueryError}
    (h : IsBatched info (effectiveParams info context.config params) param size items)
    (hrender : ∀ part, Sql.render context.database.literal sql
      ((effectiveParams info context.config params).set param (.array part)) info.params =
        .error cause) :
    runStatement context leaf sql info params = .fail cause ∧
      runStatement context leaf sql info.unbatched params = .fail cause := by
  have hrun := fun part => runOnce_eq_fail leaf (hrender part)
  have hparts : chunks (max size 1) items ≠ [] :=
    (isSplit_chunks (Nat.le_max_right size 1) items).parts_ne_nil h.items_ne_nil
  constructor
  · rw [runStatement_of_isBatched h, runBatches_eq_fail hrun hparts]
    rfl
  · have hwhole := hrun items
    rw [Table.set_eq_self h.given] at hwhole
    rw [runStatement_unbatched, hwhole]
    rfl

/-- Otherwise the result is the same, in several statements or in one. -/
lemma runStatement_eq_ok (leaf : String) {bound : Table String Bound}
    (h : IsBatched info (effectiveParams info context.config params) param size items)
    (hshape : ¬ (info.output.rows = .one ∧ info.output.columns = .one))
    (hadds : AddsUp context sql info (effectiveParams info context.config params) param items rows)
    {text : List Value → String}
    (hrender : ∀ part, Sql.render context.database.literal sql
      ((effectiveParams info context.config params).set param (.array part)) info.params =
        .ok ⟨text part, bound⟩) :
    ∃ result, runStatement context leaf sql info params =
        ⟨.ok result, (chunks (max size 1) items).map fun part => ⟨text part, bound⟩⟩ ∧
      runStatement context leaf sql info.unbatched params =
        ⟨.ok result, [⟨text items, bound⟩]⟩ := by
  have hpart := fun (part : List Value) hne hwithin =>
    runOnce_eq_ok leaf hadds hne hwithin (hrender part)
  have hconcat : ∀ front back, front ≠ [] → back ≠ [] → front ++ back <:+: items →
      concat (Cursor.fetch { rows := rows front } info.output.rows info.output.columns)
          (Cursor.fetch { rows := rows back } info.output.rows info.output.columns) =
        Cursor.fetch { rows := rows (front ++ back) } info.output.rows info.output.columns := by
    intro front back hfront hback hwithin
    rw [concat_fetch hshape, hadds.append front back hfront hback hwithin]
  have hall := runBatches_eq hpart hconcat (isSplit_chunks (Nat.le_max_right size 1) items)
    h.items_ne_nil
  have hone := hpart items h.items_ne_nil (List.infix_refl items)
  rw [Table.set_eq_self h.given] at hone
  rw [runStatement_of_isBatched h, runStatement_unbatched]
  exact ⟨_, Execution.bind_pure_eq_ok_iff.mpr ⟨_, hall, rfl⟩,
    Execution.bind_pure_eq_ok_iff.mpr ⟨_, hone, rfl⟩⟩

lemma runLeaf_of_statement (hsql : source.statement context = .ok sql) :
    runLeaf context info source params = runStatement context source.id sql info params := by
  rw [runLeaf, hsql]
  rfl

/-- Either the statement of a leaf cannot be had or rendered, and the leaf fails with and without
batches, or it can be rendered with every part of the list. -/
lemma runLeaf_eq_fail_or
    (h : IsBatched info (effectiveParams info context.config params) param size items) :
    (∃ cause, runLeaf context info source params = .fail cause ∧
      runLeaf context info.unbatched source params = .fail cause ∧
      (source.statement context = .error cause ∨ ∃ sql, source.statement context = .ok sql ∧
        Sql.render context.database.literal sql (effectiveParams info context.config params)
          info.params = .error cause)) ∨
    ∃ sql bound, source.statement context = .ok sql ∧ ∀ part,
      Sql.render context.database.literal sql
        ((effectiveParams info context.config params).set param (.array part)) info.params =
          .ok ⟨Sql.filled context.database.literal sql
            ((effectiveParams info context.config params).set param (.array part)), bound⟩ := by
  cases hsql : source.statement context with
  | error cause =>
    have hfail := fun info => Execution.liftM_bind_of_error hsql fun sql =>
      runStatement context source.id sql info params
    exact .inl ⟨cause, hfail info, hfail info.unbatched, .inl rfl⟩
  | ok sql =>
    rw [runLeaf_of_statement hsql, runLeaf_of_statement hsql]
    obtain ⟨cause, hrender⟩ | ⟨bound, hrender⟩ :=
      Sql.render_set_array context.database.literal sql info.params h.given
    · obtain ⟨hbatched, hwhole⟩ := runStatement_eq_fail source.id h hrender
      have hvalues := hrender items
      rw [Table.set_eq_self h.given] at hvalues
      exact .inl ⟨cause, hbatched, hwhole, .inr ⟨sql, rfl, hvalues⟩⟩
    · exact .inr ⟨sql, bound, rfl, hrender⟩

/-- **A leaf gives the same with and without batches.**  Either its statement cannot be had or
rendered, and nothing is sent; or the result is the same, and the statements that are sent carry
parts of the list. -/
theorem runLeaf_batches
    (h : IsBatched info (effectiveParams info context.config params) param size items)
    (hshape : ¬ (info.output.rows = .one ∧ info.output.columns = .one))
    (hadds : ∀ sql, source.statement context = .ok sql →
      AddsUp context sql info (effectiveParams info context.config params) param items rows) :
    (∃ cause, runLeaf context info source params = .fail cause ∧
      runLeaf context info.unbatched source params = .fail cause ∧
      (source.statement context = .error cause ∨ ∃ sql, source.statement context = .ok sql ∧
        Sql.render context.database.literal sql (effectiveParams info context.config params)
          info.params = .error cause)) ∨
    ∃ result sql parts, source.statement context = .ok sql ∧
      (runLeaf context info source params).outcome = .ok result ∧
      (runLeaf context info.unbatched source params).outcome = .ok result ∧
      IsSplit (max size 1) items parts ∧
      SendsParts context sql info (effectiveParams info context.config params) param parts
        (runLeaf context info source params).statements := by
  obtain hfails | ⟨sql, bound, hsql, hrender⟩ := runLeaf_eq_fail_or h
  · exact .inl hfails
  · obtain ⟨result, hbatched, hwhole⟩ :=
      runStatement_eq_ok source.id h hshape (hadds sql hsql) hrender
    rw [runLeaf_of_statement hsql, runLeaf_of_statement hsql, hbatched, hwhole]
    refine .inr ⟨result, sql, chunks (max size 1) items, hsql, rfl, rfl,
      isSplit_chunks (Nat.le_max_right size 1) items, ?_⟩
    rw [SendsParts, List.forall₂_map_right_iff, List.forall₂_same]
    exact fun part _ => hrender part

end RunLeaf

/-- Three users by their ids, two ids in one statement. -/
theorem runLeaf_batches_users :
    let user : Value → Row := fun id => [("user.id", id)]
    let first := Value.integer 1
    let second := Value.integer 2
    let third := Value.integer 3
    let context := Context.answering
      [("SELECT IN (1)", [user first]), ("SELECT IN (2)", [user second]),
        ("SELECT IN (3)", [user third]), ("SELECT IN (1,2)", [user first, user second]),
        ("SELECT IN (2,3)", [user second, user third]),
        ("SELECT IN (1,2,3)", [user first, user second, user third])]
    let source : LeafSource := .compiled "SELECT IN (:ids)" [] []
    let info : NodeInfo := { name := "users", params := [("ids", { batch := some 2 })] }
    let ids := [first, second, third]
    let params := [("ids", Value.array ids)]
    let result := Shaped.rows (ids.map fun id => [("user", .object [("id", id)])])
    runLeaf context info source params =
        ⟨.ok result, [⟨"SELECT IN (1,2)", []⟩, ⟨"SELECT IN (3)", []⟩]⟩ ∧
      (runLeaf context info.unbatched source params).outcome = .ok result := by
  intro user first second third context source info ids params result
  have hrun : runLeaf context info source params =
      ⟨.ok result, [⟨"SELECT IN (1,2)", []⟩, ⟨"SELECT IN (3)", []⟩]⟩ := by cbv
  have hvalues : effectiveParams info context.config params = params := by cbv
  have hbatched : IsBatched info (effectiveParams info context.config params) "ids" 2 ids := by
    rw [hvalues]
    exact ⟨by decide, ⟨_, rfl, rfl⟩, rfl, by decide, by simp [info]⟩
  have hshape : ¬ (info.output.rows = .one ∧ info.output.columns = .one) := by decide
  have hadds : ∀ sql, source.statement context = .ok sql →
      AddsUp context sql info (effectiveParams info context.config params) "ids" ids
        (List.map user) := by
    rintro _ ⟨⟩
    rw [hvalues]
    refine ⟨fun part rendered hpart hwithin hrender => ?_, fun _ _ _ _ _ => List.map_append⟩
    have hcases : part = [first] ∨ part = [second] ∨ part = [third] ∨ part = [first, second] ∨
        part = [second, third] ∨ part = [first, second, third] := by
      simp only [ids, List.infix_cons_iff, List.prefix_cons_iff, List.prefix_nil, List.infix_nil,
        hpart, false_or] at hwithin
      aesop
    rcases hcases with rfl | rfl | rfl | rfl | rfl | rfl
    all_goals
      cbv at hrender
      cases hrender
      exact ⟨_, rfl, rfl⟩
  obtain ⟨cause, hfail, -⟩ | ⟨shaped, _, _, -, hbatches, hwhole, -⟩ :=
    runLeaf_batches hbatched hshape hadds
  · rw [hrun] at hfail
    cases hfail
  · rw [hrun] at hbatches
    cases hbatches
    exact ⟨hrun, hwhole⟩

end QueryTerms
