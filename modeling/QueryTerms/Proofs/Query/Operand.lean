import QueryTerms.Proofs.Outcome
import QueryTerms.Query.Run

/-!
# Nodes as operands

A join sees the nodes below it as operands.  The evaluator turns them into operands one after
another while it recurses; here each is the operand of its node, and the run of a join is taken
apart into the run of its operands and the finishing of its result.

**Operands.**  `Node.operand`, with `operandsOf_eq_map` and `nestedOf_eq_map`.

**Runs.**  `run_merge_eq_ok_iff`, `run_attach_eq_ok_iff`, `run_filter_eq_ok_iff` and
`run_tree_eq_ok_iff`.

**Examples.**  `Context.answering` is a database that knows a few statements by heart.
-/

namespace QueryTerms

variable {context : Context} {info : NodeInfo} {params : Params} {result : Shaped}
  {sent : List Statement}

namespace Node

/-! ## Operands -/

/-- The node as an operand. -/
def operand (context : Context) (node : Node) : Operand := node.info.toOperand (node.run context)

lemma operandsOf_eq_map (nodes : List Node) :
    operandsOf context nodes = nodes.map (operand context) := by
  induction nodes with
  | nil => rw [operandsOf, List.map_nil]
  | cons node rest ih => rw [operandsOf, ih, List.map_cons, operand]

lemma nestedOf_eq_map (children : List (NestJoin × Node)) :
    nestedOf context children =
      children.map fun child => { join := child.1, operand := child.2.operand context } := by
  induction children with
  | nil => rw [nestedOf, List.map_nil]
  | cons child rest ih => rw [nestedOf, ih, List.map_cons, operand]

/-! ## Runs -/

lemma run_merge_eq_ok_iff {operands : List Node} :
    (merge info operands).run context params = ⟨.ok result, sent⟩ ↔
      ∃ rows, mergeRows info.output.key info.output.order info.name
          (operands.map (operand context)) (info.withDefaults params) = ⟨.ok rows, sent⟩ ∧
        truncate info.output.max (.rows rows) = result := by
  rw [run, operandsOf_eq_map]
  exact Execution.bind_pure_eq_ok_iff

lemma run_attach_eq_ok_iff {key : String} {base : Node} {joined : List Node} :
    (attach info key base joined).run context params = ⟨.ok result, sent⟩ ↔
      ∃ rows, attachRows key (base.operand context) (joined.map (operand context))
          (info.withDefaults params) = ⟨.ok rows, sent⟩ ∧
        finish info (.ofRows rows base.info.output.rows) = result := by
  rw [run, operandsOf_eq_map]
  exact Execution.bind_pure_eq_ok_iff

lemma run_filter_eq_ok_iff {key : String} {narrowing : List Node} {base : Node} :
    (filter info key narrowing base).run context params = ⟨.ok result, sent⟩ ↔
      ∃ rows, filterRows key context.config.filterKeyLimit (narrowing.map (operand context))
          (base.operand context) (info.withDefaults params) = ⟨.ok rows, sent⟩ ∧
        finish info (.rows rows) = result := by
  rw [run, operandsOf_eq_map]
  exact Execution.bind_pure_eq_ok_iff

lemma run_tree_eq_ok_iff {base : Node} {children : List (NestJoin × Node)} :
    (tree info base children).run context params = ⟨.ok result, sent⟩ ↔
      ∃ rows, nestRows (base.operand context)
          (children.map fun child => { join := child.1, operand := child.2.operand context })
          (info.withDefaults params) = ⟨.ok rows, sent⟩ ∧
        finish info (.ofRows rows base.info.output.rows) = result := by
  rw [run, nestedOf_eq_map]
  exact Execution.bind_pure_eq_ok_iff

end Node

/-! ## Examples -/

/-- A database that answers each statement with fixed rows, over a store in which the statement of
a leaf is its id. -/
def Context.answering (answers : Table String (List Row)) : Context where
  database.execute sql _ :=
    match answers.get? sql with
    | some rows => .ok { rows }
    | none => .error "unknown statement"
  store :=
    { interface id := .error (.notFound id)
      statement id := .ok id
      definition id := .error (.notFound id)
      aliasExtent := 0 }
  transforms _ := none
  config := {}

/-- A compiled leaf that declares one key. -/
def Node.keyed (id key field : String) : Node :=
  .leaf { name := id, keys := [(key, .single field)] } (.compiled id [] [])

end QueryTerms
