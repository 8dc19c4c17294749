import Mathlib
import QueryTerms.Proofs.Query.Nodes
import QueryTerms.Proofs.Query.Operand

/-!
# Which leaves a node runs

A composite node sends nothing itself.  It runs its operands, some of them for the key values of
rows that it has got already, and these run theirs, down to leaves.

**Statements.**  What an execution sends is what its steps send (`mem_statements_bind_iff`,
`mem_statements_foldlM_iff`).

**Joins.**  For each join, which operand sends a statement, and what must have succeeded before:
`mem_statements_mergeRows_iff` and its siblings.

**Calls.**  `Node.Calls` says which of the nodes right below are run, and which key list is handed
to them; `Node.mem_statements_run_iff`.

**Leaves.**  `Node.Reaches` follows the calls down to a leaf and collects the key lists on the way.
A node sends exactly what the leaves send that it reaches (`Node.mem_statements_iff_reaches`).
-/

namespace QueryTerms

/-! ## Statements -/

namespace Execution

variable {α β : Type} {statement : Statement}

lemma outcome_bind_eq_ok_iff {run : Execution α} {next : α → Execution β} {result : β} :
    (run >>= next).outcome = .ok result ↔
      ∃ value, run.outcome = .ok value ∧ (next value).outcome = .ok result := by
  obtain ⟨outcome, sent⟩ := run
  cases outcome with
  | error cause => simp [error_bind]
  | ok value => simp [ok_bind]

/-- What two steps send. -/
lemma mem_statements_bind_iff {run : Execution α} {next : α → Execution β} :
    statement ∈ (run >>= next).statements ↔
      statement ∈ run.statements ∨
        ∃ value, run.outcome = .ok value ∧ statement ∈ (next value).statements := by
  obtain ⟨outcome, sent⟩ := run
  cases outcome with
  | error cause => simp [error_bind]
  | ok value => simp [ok_bind]

/-- A step that sends nothing adds nothing. -/
lemma statements_bind_silent {run : Execution α} {next : α → Execution β}
    (hsilent : ∀ value, (next value).statements = []) :
    (run >>= next).statements = run.statements := by
  obtain ⟨outcome, sent⟩ := run
  cases outcome with
  | error cause => rfl
  | ok value => rw [ok_bind, hsilent, List.append_nil]

lemma mem_statements_bind_silent_iff {run : Execution α} {next : α → Execution β}
    (hsilent : ∀ value, (next value).statements = []) :
    statement ∈ (run >>= next).statements ↔ statement ∈ run.statements := by
  rw [statements_bind_silent hsilent]

lemma mem_statements_liftM_bind_iff {outcome : Except QueryError α} {next : α → Execution β} :
    statement ∈ ((liftM outcome : Execution α) >>= next).statements ↔
      ∃ value, outcome = .ok value ∧ statement ∈ (next value).statements := by
  exact mem_statements_bind_iff.trans (or_iff_right List.not_mem_nil)

lemma statements_liftM_bind_silent {outcome : Except QueryError α} {next : α → Execution β}
    (hsilent : ∀ value, (next value).statements = []) :
    ((liftM outcome : Execution α) >>= next).statements = [] := by
  cases outcome with
  | error cause => rfl
  | ok value => exact hsilent value

/-- What steps over a list send: each step is taken after the ones before it have succeeded. -/
lemma mem_statements_foldlM_iff {step : β → α → Execution β} {items : List α} {start : β} :
    statement ∈ (items.foldlM step start).statements ↔
      ∃ front item back state, items = front ++ item :: back ∧
        (front.foldlM step start).outcome = .ok state ∧
        statement ∈ (step state item).statements := by
  induction items generalizing start with
  | nil => simp [pure_eq]
  | cons first rest ih =>
    rw [List.foldlM_cons, mem_statements_bind_iff]
    constructor
    · rintro (hfirst | ⟨next, hnext, hrest⟩)
      · exact ⟨[], first, rest, start, rfl, rfl, hfirst⟩
      · obtain ⟨front, item, back, state, rfl, hstate, hmem⟩ := ih.mp hrest
        refine ⟨first :: front, item, back, state, rfl, ?_, hmem⟩
        rw [List.foldlM_cons, outcome_bind_eq_ok_iff]
        exact ⟨next, hnext, hstate⟩
    · rintro ⟨front, item, back, state, hitems, hstate, hmem⟩
      cases front with
      | nil =>
        cases hitems
        cases hstate
        exact .inl hmem
      | cons other front =>
        cases hitems
        rw [List.foldlM_cons, outcome_bind_eq_ok_iff] at hstate
        obtain ⟨next, hnext, hstate⟩ := hstate
        exact .inr ⟨next, hnext, ih.mpr ⟨front, item, back, state, rfl, hstate, hmem⟩⟩

end Execution

/-! ## Joins -/

section Joins

open Execution

variable {statement : Statement} {key : String} {fields : KeyFields} {params : Params}
  {operand base : Operand} {operands : List Operand} {rows : List Row}

lemma mem_statements_fetchByKey_iff :
    statement ∈ (operand.fetchByKey key params).statements ↔
      statement ∈ (operand.fetch params).statements := by
  rw [Operand.fetchByKey]
  exact mem_statements_bind_silent_iff fun _ => rfl

/-- The operands of a union are fetched in turn. -/
lemma mem_statements_fetchAll_iff :
    statement ∈ (fetchAll params operands).statements ↔
      ∃ front operand back results, operands = front ++ operand :: back ∧
        (fetchAll params front).outcome = .ok results ∧
        statement ∈ (operand.fetch params).statements := by
  induction operands with
  | nil => simp [fetchAll, pure_eq]
  | cons first rest ih =>
    rw [fetchAll, mem_statements_bind_iff]
    constructor
    · rintro (hfirst | ⟨rows, hrows, hrest⟩)
      · exact ⟨[], first, rest, [], rfl, rfl, hfirst⟩
      · rw [mem_statements_bind_silent_iff fun _ => rfl] at hrest
        obtain ⟨front, operand, back, results, rfl, hresults, hmem⟩ := ih.mp hrest
        refine ⟨first :: front, operand, back, (first, rows) :: results, rfl, ?_, hmem⟩
        rw [fetchAll, outcome_bind_eq_ok_iff]
        exact ⟨rows, hrows, outcome_bind_eq_ok_iff.mpr ⟨results, hresults, rfl⟩⟩
    · rintro ⟨front, operand, back, results, hoperands, hresults, hmem⟩
      cases front with
      | nil =>
        cases hoperands
        exact .inl hmem
      | cons other front =>
        cases hoperands
        rw [fetchAll, outcome_bind_eq_ok_iff] at hresults
        obtain ⟨rows, hrows, hresults⟩ := hresults
        obtain ⟨others, hothers, -⟩ := outcome_bind_eq_ok_iff.mp hresults
        refine .inr ⟨rows, hrows, ?_⟩
        rw [mem_statements_bind_silent_iff fun _ => rfl]
        exact ih.mpr ⟨front, operand, back, others, rfl, hothers, hmem⟩

/-- A union whose key is not settled asks nobody. -/
lemma mem_statements_mergeRows_iff {declared : Option String} {order : Option OrderBy}
    {name : String} :
    statement ∈ (mergeRows declared order name operands params).statements ↔
      ∃ key, mergeKey declared name operands = .ok key ∧
        statement ∈ (fetchAll params operands).statements := by
  rw [mergeRows, mem_statements_liftM_bind_iff]
  refine exists_congr fun key => and_congr_right fun _ => mem_statements_bind_silent_iff ?_
  intro results
  cases key with
  | none => rfl
  | some key => exact statements_liftM_bind_silent fun _ => rfl

lemma mem_statements_attachOperand_iff :
    statement ∈ (attachOperand fields key params rows operand).statements ↔
      statement ∈ (operand.fetch params).statements := by
  rw [attachOperand, mem_statements_bind_silent_iff fun _ => rfl]
  exact mem_statements_fetchByKey_iff

/-- The base of a left join is asked first, the others for the keys of its rows. -/
lemma mem_statements_attachRows_iff :
    statement ∈ (attachRows key base operands params).statements ↔
      statement ∈ (base.fetch params).statements ∨
      ∃ rows values front operand back attached, (base.fetch params).outcome = .ok rows ∧
        rows ≠ [] ∧ collectValues (base.keyFields key) base.name rows = .ok values ∧
        operands = front ++ operand :: back ∧
        (front.foldlM (attachOperand (base.keyFields key) key (restrictedTo params key values))
          rows).outcome = .ok attached ∧
        statement ∈ (operand.fetch (restrictedTo params key values)).statements := by
  rw [attachRows, mem_statements_bind_iff]
  refine or_congr_right ⟨?_, ?_⟩
  · rintro ⟨rows, hrows, hmem⟩
    by_cases hempty : rows = []
    · subst hempty
      cases hmem
    · rw [if_neg (by simpa using hempty), mem_statements_liftM_bind_iff] at hmem
      obtain ⟨values, hvalues, hmem⟩ := hmem
      obtain ⟨front, operand, back, attached, rfl, hattached, hmem⟩ :=
        mem_statements_foldlM_iff.mp hmem
      exact ⟨rows, values, front, operand, back, attached, hrows, hempty, hvalues, rfl, hattached,
        mem_statements_attachOperand_iff.mp hmem⟩
  · rintro ⟨rows, values, front, operand, back, attached, hrows, hempty, hvalues, rfl, hattached,
      hmem⟩
    refine ⟨rows, hrows, ?_⟩
    rw [if_neg (by simpa using hempty), mem_statements_liftM_bind_iff]
    exact ⟨values, hvalues, mem_statements_foldlM_iff.mpr
      ⟨front, operand, back, attached, rfl, hattached, mem_statements_attachOperand_iff.mpr hmem⟩⟩

lemma mem_statements_filterStep_iff {limit : Nat} :
    statement ∈ (filterStep key limit base operand params rows).statements ↔
      ∃ values, collectValues (base.keyFields key) base.name rows = .ok values ∧
        values.length ≤ limit ∧
        statement ∈ (operand.fetch (restrictedTo params key values)).statements := by
  rw [filterStep, mem_statements_liftM_bind_iff]
  refine exists_congr fun values => and_congr_right fun _ => ?_
  by_cases hlimit : limit < values.length
  · rw [if_pos hlimit]
    exact ⟨nofun, fun h => absurd h.1 (Nat.not_le_of_lt hlimit)⟩
  · rw [if_neg hlimit, mem_statements_bind_silent_iff fun _ => rfl,
      mem_statements_fetchByKey_iff, and_iff_right (Nat.le_of_not_lt hlimit)]

/-- The operands of a chain are asked in turn, as long as there are rows. -/
lemma mem_statements_filterFrom_iff {limit : Nat} :
    statement ∈ (filterFrom key limit base params operands rows).statements ↔
      ∃ front operand back left values, operands = front ++ operand :: back ∧
        (filterFrom key limit base params front rows).outcome = .ok left ∧ left ≠ [] ∧
        collectValues (base.keyFields key) base.name left = .ok values ∧ values.length ≤ limit ∧
        statement ∈ (operand.fetch (restrictedTo params key values)).statements := by
  induction operands generalizing rows with
  | nil => simp [filterFrom, pure_eq]
  | cons first rest ih =>
    by_cases hempty : rows = []
    · -- A chain without rows asks nobody, and has no rows after any operand.
      subst hempty
      constructor
      · intro hmem
        cases hmem
      · rintro ⟨front, operand, back, left, values, -, hleft, hne, -⟩
        have hnone : filterFrom key limit base params front [] = pure [] := by
          cases front <;> rfl
        rw [hnone] at hleft
        cases hleft
        exact absurd rfl hne
    · rw [filterFrom, if_neg (by simpa using hempty), mem_statements_bind_iff]
      constructor
      · rintro (hfirst | ⟨narrowed, hnarrowed, hrest⟩)
        · obtain ⟨values, hvalues, hlimit, hmem⟩ := mem_statements_filterStep_iff.mp hfirst
          exact ⟨[], first, rest, rows, values, rfl, rfl, hempty, hvalues, hlimit, hmem⟩
        · obtain ⟨front, operand, back, left, values, rfl, hleft, hasked⟩ := ih.mp hrest
          refine ⟨first :: front, operand, back, left, values, rfl, ?_, hasked⟩
          rw [filterFrom, if_neg (by simpa using hempty), outcome_bind_eq_ok_iff]
          exact ⟨narrowed, hnarrowed, hleft⟩
      · rintro ⟨front, operand, back, left, values, hoperands, hleft, hne, hvalues, hlimit, hmem⟩
        cases front with
        | nil =>
          cases hoperands
          cases hleft
          exact .inl (mem_statements_filterStep_iff.mpr ⟨values, hvalues, hlimit, hmem⟩)
        | cons other front =>
          cases hoperands
          rw [filterFrom, if_neg (by simpa using hempty), outcome_bind_eq_ok_iff] at hleft
          obtain ⟨narrowed, hnarrowed, hleft⟩ := hleft
          exact .inr ⟨narrowed, hnarrowed, ih.mpr
            ⟨front, operand, back, left, values, rfl, hleft, hne, hvalues, hlimit, hmem⟩⟩

lemma mem_statements_nestChild_iff {name : String} {nested : Nested} :
    statement ∈ (nestChild name params rows nested).statements ↔
      ∃ values, collectValues nested.join.parent name rows = .ok values ∧
        statement ∈
          (nested.operand.fetch (restrictedTo params nested.join.param values)).statements := by
  rw [nestChild, mem_statements_liftM_bind_iff]
  refine exists_congr fun values => and_congr_right fun _ => mem_statements_bind_silent_iff ?_
  exact fun fetched => statements_liftM_bind_silent fun _ => rfl

/-- The parent is asked first, the children for what its rows hold by then. -/
lemma mem_statements_nestRows_iff {children : List Nested} :
    statement ∈ (nestRows base children params).statements ↔
      statement ∈ (base.fetch params).statements ∨
      ∃ rows front nested back filled values, (base.fetch params).outcome = .ok rows ∧
        rows ≠ [] ∧ children = front ++ nested :: back ∧
        (front.foldlM (nestChild base.name params) rows).outcome = .ok filled ∧
        collectValues nested.join.parent base.name filled = .ok values ∧
        statement ∈
          (nested.operand.fetch (restrictedTo params nested.join.param values)).statements := by
  rw [nestRows, mem_statements_bind_iff]
  refine or_congr_right ⟨?_, ?_⟩
  · rintro ⟨rows, hrows, hmem⟩
    by_cases hempty : rows = []
    · subst hempty
      cases hmem
    · rw [if_neg (by simpa using hempty), mem_statements_bind_silent_iff fun _ => rfl] at hmem
      obtain ⟨front, nested, back, filled, rfl, hfilled, hmem⟩ := mem_statements_foldlM_iff.mp hmem
      obtain ⟨values, hvalues, hmem⟩ := mem_statements_nestChild_iff.mp hmem
      exact ⟨rows, front, nested, back, filled, values, hrows, hempty, rfl, hfilled, hvalues, hmem⟩
  · rintro ⟨rows, front, nested, back, filled, values, hrows, hempty, rfl, hfilled, hvalues, hmem⟩
    refine ⟨rows, hrows, ?_⟩
    rw [if_neg (by simpa using hempty), mem_statements_bind_silent_iff fun _ => rfl]
    exact mem_statements_foldlM_iff.mpr ⟨front, nested, back, filled, rfl, hfilled,
      mem_statements_nestChild_iff.mpr ⟨values, hvalues, hmem⟩⟩

end Joins

/-! ## Calls -/

/-- An element of an image, with what is before it and behind it, comes from an element. -/
lemma exists_of_map_eq_append_cons {α β : Type} {f : α → β} {items : List α} {front back : List β}
    {value : β} (h : items.map f = front ++ value :: back) :
    ∃ before item after, items = before ++ item :: after ∧ before.map f = front ∧
      f item = value := by
  obtain ⟨before, rest, rfl, hfront, hrest⟩ := List.map_eq_append_iff.mp h
  obtain ⟨item, after, rfl, hitem, -⟩ := List.map_eq_cons_iff.mp hrest
  exact ⟨before, item, after, rfl, hfront, hitem⟩

/-- What a node hands to a node below it: its own parameters, with a key list in them where the node
below is asked for the keys of rows. -/
def NodeInfo.handOn (info : NodeInfo) (params : Params) : Option (String × List Value) → Params
  | none => info.withDefaults params
  | some (param, values) => restrictedTo (info.withDefaults params) param values

namespace Node

/-- A node that is run with parameters runs a node right below it, and hands it a key list or none.

The base of a join is run first and without a key list; operands after the base are handed the keys
that the rows have when their turn comes. -/
inductive Calls (context : Context) :
    Node → Params → Node → Option (String × List Value) → Prop
  | merge {info : NodeInfo} {front back : List Node} {node : Node} {params : Params}
      {key : Option String} {results : List (Operand × List Row)} :
      mergeKey info.output.key info.name ((front ++ node :: back).map (operand context)) = .ok key →
      (fetchAll (info.withDefaults params) (front.map (operand context))).outcome = .ok results →
      Calls context (.merge info (front ++ node :: back)) params node none
  | attachBase {info : NodeInfo} {key : String} {base : Node} {joined : List Node}
      {params : Params} :
      Calls context (.attach info key base joined) params base none
  | attach {info : NodeInfo} {key : String} {base node : Node} {front back : List Node}
      {params : Params} {rows attached : List Row} {values : List Value} :
      ((base.operand context).fetch (info.withDefaults params)).outcome = .ok rows →
      rows ≠ [] →
      collectValues (base.info.keyFields key) base.info.name rows = .ok values →
      ((front.map (operand context)).foldlM (attachOperand (base.info.keyFields key) key
        (restrictedTo (info.withDefaults params) key values)) rows).outcome = .ok attached →
      Calls context (.attach info key base (front ++ node :: back)) params node
        (some (key, values))
  | filterBase {info : NodeInfo} {key : String} {base : Node} {narrowing : List Node}
      {params : Params} :
      Calls context (.filter info key narrowing base) params base none
  /-- The operands behind it in the term have narrowed the rows before. -/
  | filter {info : NodeInfo} {key : String} {base node : Node} {front back : List Node}
      {params : Params} {rows left : List Row} {values : List Value} :
      ((base.operand context).fetch (info.withDefaults params)).outcome = .ok rows →
      (filterFrom key context.config.filterKeyLimit (base.operand context)
        (info.withDefaults params) (back.reverse.map (operand context)) rows).outcome = .ok left →
      left ≠ [] →
      collectValues (base.info.keyFields key) base.info.name left = .ok values →
      values.length ≤ context.config.filterKeyLimit →
      Calls context (.filter info key (front ++ node :: back) base) params node
        (some (key, values))
  | treeBase {info : NodeInfo} {base : Node} {nested : List (NestJoin × Node)} {params : Params} :
      Calls context (.tree info base nested) params base none
  | tree {info : NodeInfo} {base node : Node} {join : NestJoin}
      {front back : List (NestJoin × Node)} {params : Params} {rows filled : List Row}
      {values : List Value} :
      ((base.operand context).fetch (info.withDefaults params)).outcome = .ok rows →
      rows ≠ [] →
      ((nestedOf context front).foldlM (nestChild base.info.name (info.withDefaults params))
        rows).outcome = .ok filled →
      collectValues join.parent base.info.name filled = .ok values →
      Calls context (.tree info base (front ++ (join, node) :: back)) params node
        (some (join.param, values))

section Run

open Execution

variable {context : Context} {params : Params} {statement : Statement} {node child : Node}
  {handed : Option (String × List Value)}

lemma Calls.mem_children (h : node.Calls context params child handed) :
    child ∈ node.children := by
  cases h <;> simp [children]

lemma mem_statements_operand_iff :
    statement ∈ ((node.operand context).fetch params).statements ↔
      statement ∈ (node.run context params).statements := by
  rw [operand, NodeInfo.toOperand]
  refine mem_statements_bind_silent_iff fun result => ?_
  rw [rowsOf]
  split <;> rfl

/-- A leaf sends its statement, and finishing the result sends nothing. -/
lemma mem_statements_run_leaf_iff {info : NodeInfo} {source : LeafSource} :
    statement ∈ ((leaf info source).run context params).statements ↔
      statement ∈ (runLeaf context info source (info.withDefaults params)).statements := by
  rw [run]
  exact mem_statements_bind_silent_iff fun _ => rfl

lemma exists_calls_of_merge {info : NodeInfo} {operands : List Node}
    (h : statement ∈ ((merge info operands).run context params).statements) :
    ∃ child handed, (merge info operands).Calls context params child handed ∧
      statement ∈ (child.run context (info.handOn params handed)).statements := by
  rw [run, mem_statements_bind_silent_iff fun _ => rfl, mem_statements_mergeRows_iff,
    operandsOf_eq_map] at h
  obtain ⟨key, hkey, h⟩ := h
  obtain ⟨front, operand, back, results, hsplit, hresults, h⟩ := mem_statements_fetchAll_iff.mp h
  obtain ⟨before, node, after, rfl, rfl, rfl⟩ := exists_of_map_eq_append_cons hsplit
  exact ⟨node, none, .merge hkey hresults, mem_statements_operand_iff.mp h⟩

lemma exists_calls_of_attach {info : NodeInfo} {key : String} {base : Node} {joined : List Node}
    (h : statement ∈ ((attach info key base joined).run context params).statements) :
    ∃ child handed, (attach info key base joined).Calls context params child handed ∧
      statement ∈ (child.run context (info.handOn params handed)).statements := by
  rw [run, mem_statements_bind_silent_iff fun _ => rfl, mem_statements_attachRows_iff,
    operandsOf_eq_map] at h
  rcases h with h | ⟨rows, values, front, operand, back, attached, hrows, hne, hvalues, hsplit,
    hattached, h⟩
  · exact ⟨base, none, .attachBase, mem_statements_operand_iff.mp h⟩
  · obtain ⟨before, node, after, rfl, rfl, rfl⟩ := exists_of_map_eq_append_cons hsplit
    exact ⟨node, some (key, values), .attach hrows hne hvalues hattached,
      mem_statements_operand_iff.mp h⟩

lemma exists_calls_of_filter {info : NodeInfo} {key : String} {base : Node} {narrowing : List Node}
    (h : statement ∈ ((filter info key narrowing base).run context params).statements) :
    ∃ child handed, (filter info key narrowing base).Calls context params child handed ∧
      statement ∈ (child.run context (info.handOn params handed)).statements := by
  rw [run, mem_statements_bind_silent_iff fun _ => rfl, filterRows, mem_statements_bind_iff,
    operandsOf_eq_map] at h
  rcases h with h | ⟨rows, hrows, h⟩
  · exact ⟨base, none, .filterBase, mem_statements_operand_iff.mp h⟩
  · obtain ⟨front, operand, back, left, values, hsplit, hleft, hne, hvalues, hlimit, hasked⟩ :=
      mem_statements_filterFrom_iff.mp h
    rw [← List.map_reverse] at hsplit
    obtain ⟨before, node, after, hnarrowing, rfl, rfl⟩ := exists_of_map_eq_append_cons hsplit
    -- The operands are asked from the last one to the first one.
    rw [List.reverse_eq_iff, List.reverse_append, List.reverse_cons,
      List.append_assoc] at hnarrowing
    subst hnarrowing
    rw [← List.reverse_reverse before] at hleft
    exact ⟨node, some (key, values), .filter hrows hleft hne hvalues hlimit,
      mem_statements_operand_iff.mp hasked⟩

lemma exists_calls_of_tree {info : NodeInfo} {base : Node} {nested : List (NestJoin × Node)}
    (h : statement ∈ ((tree info base nested).run context params).statements) :
    ∃ child handed, (tree info base nested).Calls context params child handed ∧
      statement ∈ (child.run context (info.handOn params handed)).statements := by
  rw [run, mem_statements_bind_silent_iff fun _ => rfl, mem_statements_nestRows_iff] at h
  rcases h with h | ⟨rows, front, operand, back, filled, values, hrows, hne, hsplit, hfilled,
    hvalues, h⟩
  · exact ⟨base, none, .treeBase, mem_statements_operand_iff.mp h⟩
  · rw [nestedOf_eq_map] at hsplit
    obtain ⟨before, ⟨join, node⟩, after, rfl, rfl, rfl⟩ := exists_of_map_eq_append_cons hsplit
    rw [← nestedOf_eq_map] at hfilled
    exact ⟨node, some (join.param, values), .tree hrows hne hfilled hvalues,
      mem_statements_operand_iff.mp h⟩

/-- What a node below is called for is sent. -/
lemma Calls.mem_statements (hcall : node.Calls context params child handed)
    (h : statement ∈ (child.run context (node.info.handOn params handed)).statements) :
    statement ∈ (node.run context params).statements := by
  cases hcall with
  | merge hkey hresults =>
    rw [run, mem_statements_bind_silent_iff fun _ => rfl, mem_statements_mergeRows_iff,
      operandsOf_eq_map]
    refine ⟨_, hkey, mem_statements_fetchAll_iff.mpr ?_⟩
    exact ⟨_, _, _, _, by rw [List.map_append, List.map_cons], hresults,
      mem_statements_operand_iff.mpr h⟩
  | attachBase =>
    rw [run, mem_statements_bind_silent_iff fun _ => rfl, mem_statements_attachRows_iff]
    exact .inl (mem_statements_operand_iff.mpr h)
  | attach hrows hne hvalues hattached =>
    rw [run, mem_statements_bind_silent_iff fun _ => rfl, mem_statements_attachRows_iff,
      operandsOf_eq_map]
    exact .inr ⟨_, _, _, _, _, _, hrows, hne, hvalues, by rw [List.map_append, List.map_cons],
      hattached, mem_statements_operand_iff.mpr h⟩
  | filterBase =>
    rw [run, mem_statements_bind_silent_iff fun _ => rfl, filterRows, mem_statements_bind_iff]
    exact .inl (mem_statements_operand_iff.mpr h)
  | @filter _ _ _ _ front _ _ _ _ _ hrows hleft hne hvalues hlimit =>
    rw [run, mem_statements_bind_silent_iff fun _ => rfl, filterRows, mem_statements_bind_iff,
      operandsOf_eq_map]
    refine .inr ⟨_, hrows, mem_statements_filterFrom_iff.mpr ?_⟩
    refine ⟨_, _, (front.map (operand context)).reverse, _, _, ?_, hleft, hne, hvalues, hlimit,
      mem_statements_operand_iff.mpr h⟩
    rw [List.map_append, List.map_cons, List.reverse_append, List.reverse_cons, List.append_assoc,
      List.singleton_append, List.map_reverse]
  | treeBase =>
    rw [run, mem_statements_bind_silent_iff fun _ => rfl, mem_statements_nestRows_iff]
    exact .inl (mem_statements_operand_iff.mpr h)
  | @tree _ _ _ join _ back _ _ _ _ hrows hne hfilled hvalues =>
    rw [run, mem_statements_bind_silent_iff fun _ => rfl, mem_statements_nestRows_iff]
    refine .inr ⟨_, _, { join, operand := child.operand context }, nestedOf context back, _, _,
      hrows, hne, ?_, hfilled, hvalues, mem_statements_operand_iff.mpr h⟩
    rw [nestedOf_eq_map, nestedOf_eq_map, nestedOf_eq_map, List.map_append, List.map_cons]

/-- **A composite node sends what the nodes send that it calls**, and nothing else. -/
theorem mem_statements_run_iff (hcomposite : ∀ info source, node ≠ .leaf info source) :
    statement ∈ (node.run context params).statements ↔
      ∃ child handed, node.Calls context params child handed ∧
        statement ∈ (child.run context (node.info.handOn params handed)).statements := by
  refine ⟨fun h => ?_, fun ⟨_, _, hcall, h⟩ => hcall.mem_statements h⟩
  cases node with
  | leaf info source => exact absurd rfl (hcomposite info source)
  | merge info operands => exact exists_calls_of_merge h
  | attach info key base joined => exact exists_calls_of_attach h
  | filter info key narrowing base => exact exists_calls_of_filter h
  | tree info base nested => exact exists_calls_of_tree h

end Run

end Node

/-! ## Leaves -/

/-- A leaf that is run: the parameters that it gets, and the key lists that have been handed down on
the way to it, the innermost one first. -/
structure LeafCall where
  info : NodeInfo
  source : LeafSource
  handed : Table String (List Value)
  params : Params

namespace LeafCall

/-- The run of the leaf. -/
def run (context : Context) (call : LeafCall) : Execution Shaped :=
  runLeaf context call.info call.source (call.info.withDefaults call.params)

/-- The values that the statement of the leaf is rendered with, before batching. -/
def values (context : Context) (call : LeafCall) : Params :=
  effectiveParams call.info context.config (call.info.withDefaults call.params)

end LeafCall

/-- A node that is run with parameters runs a leaf, through any number of calls. -/
inductive Node.Reaches (context : Context) : Node → Params → LeafCall → Prop
  | here (info : NodeInfo) (source : LeafSource) (params : Params) :
      Reaches context (.leaf info source) params ⟨info, source, [], params⟩
  | through {node child : Node} {params : Params} {handed : Option (String × List Value)}
      {call : LeafCall} :
      node.Calls context params child handed →
      Reaches context child (node.info.handOn params handed) call →
      Reaches context node params { call with handed := call.handed ++ handed.toList }

namespace Node

variable {context : Context} {params : Params} {statement : Statement} {node : Node}

/-- **A node sends what the leaves send that it reaches**, each with the parameters it is reached
with. -/
theorem mem_statements_iff_reaches :
    statement ∈ (node.run context params).statements ↔
      ∃ call, node.Reaches context params call ∧ statement ∈ (call.run context).statements := by
  constructor
  · intro h
    induction node using induction_on_children generalizing params with
    | step node ih =>
      by_cases hleaf : ∃ info source, node = .leaf info source
      · obtain ⟨info, source, rfl⟩ := hleaf
        exact ⟨_, .here info source params, mem_statements_run_leaf_iff.mp h⟩
      · have hcomposite : ∀ info source, node ≠ .leaf info source :=
          fun info source heq => hleaf ⟨info, source, heq⟩
        obtain ⟨child, handed, hcall, h⟩ := (mem_statements_run_iff hcomposite).mp h
        obtain ⟨call, hreaches, h⟩ := ih child hcall.mem_children h
        exact ⟨_, .through hcall hreaches, h⟩
  · rintro ⟨call, hreaches, h⟩
    induction hreaches with
    | here info source params => exact mem_statements_run_leaf_iff.mpr h
    | through hcall _ ih => exact hcall.mem_statements (ih h)

end Node

end QueryTerms
