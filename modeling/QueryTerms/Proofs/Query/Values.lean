import Mathlib
import QueryTerms.Proofs.Query.Batches
import QueryTerms.Proofs.Query.Built
import QueryTerms.Proofs.Query.Calls
import QueryTerms.Proofs.Table

/-!
# Where the values of a leaf come from

The value of a parameter is settled on the way from the caller to a leaf.  Joins hand key lists down
and overrule everything; values to fall back on, the paging limit, declared defaults and global
parameters stand back.

**One leaf.**  `get?_effectiveParams` and `get?_handOn` say what each step of the way does to a
single parameter.

**The way down.**  `Node.Reaches.get?_params`: what arrives at a leaf is the innermost key list that
was handed down for the parameter, else what the caller has given.

**Statements.**  The values are what the statements of a leaf are rendered with, but for the one
parameter that is sent in batches (`LeafCall.Renders`).

**Queries.**  `Query.values_of_built` puts these together for every query that can come about.
-/

namespace QueryTerms

/-! ## One leaf -/

namespace NodeInfo

/-- The node's own length as a 64-bit number, where the parameter is its paging limit. -/
def pagingValue? (info : NodeInfo) (param : String) : Option Value :=
  match info.paging, info.output.max with
  | some paging, some max =>
    if paging.limit = param then some (.integer (Int64.ofNat max)) else none
  | _, _ => none

/-- The default that the node declares for the parameter. -/
def declaredDefault? (info : NodeInfo) (param : String) : Option Value :=
  info.params.findSome? fun (name, spec) => if name = param then spec.default else none

end NodeInfo

section Leaf

variable {info : NodeInfo} {params : Params} {param : String}

lemma get?_setNew_or {key : String} {value : Value} :
    (params.setNew key value).get? param =
      (params.get? param).or (if key = param then some value else none) := by
  rw [Table.get?_setNew]
  split
  · next heq =>
    subst heq
    cases params.get? key <;> rfl
  · rw [Option.or_none]

lemma get?_declared :
    Table.get? param (info.params.filterMap fun (name, spec) =>
      spec.default.map fun value => (name, value)) = info.declaredDefault? param := by
  rw [NodeInfo.declaredDefault?]
  induction info.params with
  | nil => rfl
  | cons entry rest ih =>
    obtain ⟨name, spec⟩ := entry
    cases hdefault : spec.default with
    | none => simp [hdefault, ih]
    | some value =>
      by_cases hname : name = param <;> simp [hdefault, hname, Table.get?_cons, ih]

/-- What a leaf makes of the values that arrive: each source adds what is still missing. -/
lemma get?_effectiveParams (config : Config) :
    (effectiveParams info config params).get? param =
      ((((params.get? param).or (info.pagingValue? param)).or (info.declaredDefault? param)).or
        (config.globalParams.get? param)) := by
  rw [effectiveParams, Table.get?_extendNew, Table.get?_extendNew, get?_declared,
    NodeInfo.pagingValue?]
  congr 2
  cases info.paging with
  | none => exact (Option.or_none).symm
  | some paging =>
    cases info.output.max with
    | none => exact (Option.or_none).symm
    | some max => exact get?_setNew_or

lemma get?_withDefaults :
    (info.withDefaults params).get? param = (params.get? param).or (info.defaults.get? param) :=
  Table.get?_extendNew param params info.defaults

/-- What is handed on: a key list overrules, the node's own values stand back. -/
lemma get?_handOn {handed : Option (String × List Value)} :
    (info.handOn params handed).get? param =
      ((Table.get? param handed.toList).map Value.array).or
        ((params.get? param).or (info.defaults.get? param)) := by
  cases handed with
  | none => exact get?_withDefaults
  | some entry =>
    obtain ⟨name, values⟩ := entry
    rw [NodeInfo.handOn, restrictedTo, Table.get?_set, Option.toList_some, Table.get?_cons,
      Table.get?_nil, get?_withDefaults]
    split <;> rfl

end Leaf

/-! ## The way down -/

namespace Node

variable {context : Context} {node : Node} {params : Params} {call : LeafCall} {param : String}

/-- Through nodes without values of their own, key lists and the caller's values arrive. -/
lemma Reaches.get?_params (hreaches : node.Reaches context params call)
    (hnode : node.HasNoDefaults) :
    call.info.defaults = [] ∧
      call.params.get? param =
        ((call.handed.get? param).map Value.array).or (params.get? param) := by
  induction hreaches with
  | here info source params => exact ⟨hnode.here, rfl⟩
  | through hcall _ ih =>
    obtain ⟨hdefaults, hparams⟩ := ih (hnode.forall_children _ hcall.mem_children)
    refine ⟨hdefaults, ?_⟩
    rw [hparams, get?_handOn, hnode.here, Table.get?_nil, Option.or_none, Table.get?_append]
    cases Table.get? param _ <;> rfl

/-- What a leaf is run with, when only the root has values to fall back on. -/
lemma Reaches.get?_withDefaults (hreaches : node.Reaches context params call)
    (hnode : ∀ child ∈ node.children, child.HasNoDefaults) :
    (call.info.withDefaults call.params).get? param =
      ((call.handed.get? param).map Value.array).or
        ((params.get? param).or (node.info.defaults.get? param)) := by
  cases hreaches with
  | here info source params => exact QueryTerms.get?_withDefaults
  | through hcall hbelow =>
    obtain ⟨hdefaults, hparams⟩ := hbelow.get?_params (hnode _ hcall.mem_children)
    rw [QueryTerms.get?_withDefaults, hdefaults, Table.get?_nil, Option.or_none, hparams,
      get?_handOn, Table.get?_append]
    cases Table.get? param _ <;> rfl

end Node

/-! ## Statements -/

/-- The statement is that of the leaf, rendered with its values: with all of them as they are, or
with a part of one list. -/
inductive LeafCall.Renders (context : Context) (call : LeafCall) (statement : Statement) : Prop
  | whole {sql : String} (hsql : call.source.statement context = .ok sql)
      (hrender : Sql.render context.database.literal sql (call.values context) call.info.params =
        .ok ⟨statement.sql, statement.bound⟩)
  | part {sql param : String} {items part : List Value}
      (hsql : call.source.statement context = .ok sql)
      (hitems : (call.values context).get? param = some (.array items)) (hpart : part <:+: items)
      (hrender : Sql.render context.database.literal sql
        ((call.values context).set param (.array part)) call.info.params =
          .ok ⟨statement.sql, statement.bound⟩)

section Statements

open Execution

variable {context : Context} {info : NodeInfo} {values : Params} {statement : Statement}
  {leaf sql : String}

lemma mem_statements_sendLeaf_iff :
    statement ∈ (sendLeaf context leaf sql info values).statements ↔
      Sql.render context.database.literal sql values info.params =
        .ok ⟨statement.sql, statement.bound⟩ := by
  rw [sendLeaf, mem_statements_liftM_bind_iff]
  constructor
  · rintro ⟨rendered, hrendered, h⟩
    cases List.mem_singleton.mp h
    exact hrendered
  · exact fun hrendered => ⟨_, hrendered, List.mem_singleton_self _⟩

lemma mem_statements_runOnce_iff :
    statement ∈ (runOnce context leaf sql info values).statements ↔
      Sql.render context.database.literal sql values info.params =
        .ok ⟨statement.sql, statement.bound⟩ :=
  (mem_statements_bind_silent_iff fun _ => rfl).trans mem_statements_sendLeaf_iff

/-- In batches, each statement is sent for a part. -/
lemma exists_part_of_mem_runBatches {run : Params → Execution Shaped} {param : String}
    {parts : List (List Value)} (hne : parts ≠ [])
    (h : statement ∈ (runBatches run values param parts).statements) :
    ∃ part ∈ parts, statement ∈ (run (values.set param (.array part))).statements := by
  cases parts with
  | nil => exact absurd rfl hne
  | cons first rest =>
    rw [runBatches, mem_statements_bind_iff] at h
    rcases h with h | ⟨result, -, h⟩
    · exact ⟨first, List.mem_cons_self, h⟩
    · obtain ⟨front, part, back, state, rfl, -, h⟩ := mem_statements_foldlM_iff.mp h
      rw [mem_statements_bind_silent_iff fun _ => rfl] at h
      exact ⟨part, List.mem_cons_of_mem _ (List.mem_append_right _ List.mem_cons_self), h⟩

/-- A parameter that is sent in batches has a list for its value, longer than a batch. -/
lemma get?_of_batchedParam {batched : Batched}
    (h : batchedParam leaf info values = .ok (some batched)) :
    values.get? batched.param = some (.array batched.items) ∧ 1 ≤ batched.size ∧
      batched.items ≠ [] := by
  have hmem : batched ∈ info.params.filterMap fun (param, spec) => batchOf values param spec := by
    rw [batchedParam] at h
    split at h
    · cases h
    · next only heq =>
      cases h
      rw [heq]
      exact List.mem_singleton_self _
    · cases h
  obtain ⟨⟨param, spec⟩, -, hbatch⟩ := List.mem_filterMap.mp hmem
  simp only [batchOf] at hbatch
  split at hbatch
  · next size items _ hvalue =>
    split at hbatch
    · next hlong =>
      cases hbatch
      refine ⟨hvalue, Nat.le_max_right size 1, ?_⟩
      rintro rfl
      exact absurd hlong (Nat.not_lt_zero _)
    · cases hbatch
  · cases hbatch

/-- The statement of the leaf, sent once or in batches. -/
def LeafCall.send (context : Context) (call : LeafCall) (sql : String) :
    Option Batched → Execution Shaped
  | none => runOnce context call.source.id sql call.info (call.values context)
  | some batched =>
    runBatches (runOnce context call.source.id sql call.info) (call.values context) batched.param
      (chunks batched.size batched.items)

lemma LeafCall.mem_statements_run_iff {call : LeafCall} :
    statement ∈ (call.run context).statements ↔
      ∃ sql batched, call.source.statement context = .ok sql ∧
        batchedParam call.source.id call.info (call.values context) = .ok batched ∧
        statement ∈ (call.send context sql batched).statements := by
  rw [LeafCall.run, runLeaf, mem_statements_liftM_bind_iff]
  refine exists_congr fun sql => ?_
  rw [exists_and_left]
  refine and_congr_right fun _ => ?_
  rw [runStatement, mem_statements_liftM_bind_iff]
  refine exists_congr fun batched => and_congr_right fun _ => ?_
  cases batched with
  | none => exact mem_statements_bind_silent_iff fun _ => rfl
  | some batched => exact mem_statements_bind_silent_iff fun _ => rfl

/-- **What a leaf sends is its statement, rendered with its values.** -/
theorem LeafCall.renders_of_mem {call : LeafCall} (h : statement ∈ (call.run context).statements) :
    call.Renders context statement := by
  obtain ⟨sql, batched, hsql, hbatched, h⟩ := LeafCall.mem_statements_run_iff.mp h
  cases batched with
  | none => exact .whole hsql (mem_statements_runOnce_iff.mp h)
  | some batched =>
    obtain ⟨hvalues, hsize, hitems⟩ := get?_of_batchedParam hbatched
    have hsplit := isSplit_chunks hsize batched.items
    obtain ⟨part, hpart, h⟩ := exists_part_of_mem_runBatches (hsplit.parts_ne_nil hitems) h
    exact .part hsql hvalues (hsplit.infix_of_mem hpart) (mem_statements_runOnce_iff.mp h)

end Statements

/-! ## Queries -/

namespace Query

/-- The sources of a parameter's value, what counts first coming first: the innermost key list, the
caller, the values to fall back on, the paging limit, the declared default, the global parameter. -/
def sources (query : Query) (params : Params) (call : LeafCall) (param : String) :
    List (Option Value) :=
  [(call.handed.get? param).map Value.array, params.get? param,
    query.root.info.defaults.get? param, call.info.pagingValue? param,
    call.info.declaredDefault? param, query.resolver.config.globalParams.get? param]

/-- The query runs the leaf, through any number of joins. -/
def Runs (query : Query) (params : Params) (call : LeafCall) : Prop :=
  query.root.Reaches query.resolver.context params call

/-- The statement is sent, be the result wanted as a whole, as one row, or as what a write gives. -/
def Sends (query : Query) (params : Params) (statement : Statement) : Prop :=
  statement ∈ (query.select params).statements ∨
    statement ∈ (query.selectFirst params).statements ∨
    statement ∈ (query.run params).statements

variable {query : Query} {params : Params} {statement : Statement}

open Execution

/-- Selecting sends what the leaves send that the query runs. -/
lemma mem_statements_select_iff :
    statement ∈ (query.select params).statements ↔
      ∃ call, query.Runs params call ∧
        statement ∈ (call.run query.resolver.context).statements := by
  rw [select, mem_statements_bind_silent_iff]
  · exact Node.mem_statements_iff_reaches
  · intro result
    split
    · cases groupResult query.root.info result <;> rfl
    · rfl

lemma mem_statements_selectFirst_iff :
    statement ∈ (query.selectFirst params).statements ↔
      statement ∈ (query.select params).statements := by
  refine mem_statements_bind_silent_iff fun result => ?_
  cases result <;> rfl

/-- Writing through a leaf renders its statement once, with all values. -/
lemma renders_of_mem_write
    (h : statement ∈ (query.root.write query.resolver.context params).statements) :
    ∃ call, query.Runs params call ∧ call.Renders query.resolver.context statement := by
  unfold Runs
  generalize query.root = root at h ⊢
  cases root with
  | leaf info source =>
    rw [Node.write, writeLeaf, mem_statements_liftM_bind_iff] at h
    obtain ⟨sql, hsql, h⟩ := h
    rw [mem_statements_bind_silent_iff fun _ => rfl] at h
    exact ⟨_, .here info source params, .whole hsql (mem_statements_sendLeaf_iff.mp h)⟩
  | merge info operands => cases h
  | attach info key base joined => cases h
  | filter info key narrowing base => cases h
  | tree info base nested => cases h

lemma statements_map {α β : Type} (f : α → β) (run : Execution α) :
    (f <$> run).statements = run.statements := by
  rw [← bind_pure_comp]
  obtain ⟨outcome, sent⟩ := run
  cases outcome with
  | error cause => rfl
  | ok value => exact List.append_nil sent

lemma renders_of_sends (h : query.Sends params statement) :
    ∃ call, query.Runs params call ∧ call.Renders query.resolver.context statement := by
  have hselect : statement ∈ (query.select params).statements →
      ∃ call, query.Runs params call ∧ call.Renders query.resolver.context statement := by
    intro h
    obtain ⟨call, hruns, h⟩ := mem_statements_select_iff.mp h
    exact ⟨call, hruns, LeafCall.renders_of_mem h⟩
  rcases h with h | h | h
  · exact hselect h
  · exact hselect (mem_statements_selectFirst_iff.mp h)
  · rw [run] at h
    split at h
    · rw [statements_map] at h
      exact hselect h
    · rw [statements_map] at h
      exact renders_of_mem_write h

lemma findSome?_cons_id {value : Option Value} {rest : List (Option Value)} :
    (value :: rest).findSome? id = value.or (rest.findSome? id) := by
  cases value <;> rfl

/-- **Which value a parameter has at a leaf.**  Every statement of a query is rendered with the
values of a leaf that it runs, and there the first source that has a value for the parameter gives
it; where none has, it has no value. -/
theorem values_of_built (hquery : query.IsBuilt) (params : Params) :
    (∀ statement, query.Sends params statement →
      ∃ call, query.Runs params call ∧ call.Renders query.resolver.context statement) ∧
    ∀ call, query.Runs params call → ∀ param,
      (call.values query.resolver.context).get? param =
        (query.sources params call param).findSome? id := by
  refine ⟨fun statement => renders_of_sends, fun call hruns param => ?_⟩
  rw [LeafCall.values, get?_effectiveParams, hruns.get?_withDefaults hquery.hasNoDefaults, sources]
  simp only [findSome?_cons_id, List.findSome?_nil, Option.or_none, Option.or_assoc]
  rfl

/-- Users with their orders: the key list comes from the join, the state from the values to fall
back on, the limit from the paging of the orders, the year from a declared default. -/
theorem values_of_built_orders :
    let users : Interface := { keys := [("user", .single "id")] }
    let orders : Interface :=
      { keys := [("user", .single "user_id")]
        params := [("state", { default := some (.string "open") }),
          ("year", { default := some (.integer 2024) })]
        output := { max := some 2 }
        paging := some ⟨"limit"⟩ }
    let store := (((Catalog.mk [] []).addCompiled "users" users "users").addCompiled "orders" orders
      "orders (:user) :state :limit :year").toStore
    let resolver : Resolver := { (Context.answering [("users", [[("id", .integer 1)]]),
      ("orders (1) :state :limit :year", [])]) with store }
    ∃ built, resolver.resolve "users+orders" = .ok built ∧
      let query := built.params [("state", .string "any")]
      (query.select []).statements =
        [⟨"users", []⟩, ⟨"orders (1) :state :limit :year",
          [("state", .text "any"), ("limit", .int 2), ("year", .int 2024)]⟩] ∧
      (∀ statement, query.Sends [] statement →
        ∃ call, query.Runs [] call ∧ call.Renders query.resolver.context statement) ∧
      ∀ call, query.Runs [] call → ∀ param,
        (call.values query.resolver.context).get? param =
          (query.sources [] call param).findSome? id := by
  intro users orders store resolver
  have hresolve : ∃ built, resolver.resolve "users+orders" = .ok built ∧
      ((built.params [("state", .string "any")]).select []).statements =
        [⟨"users", []⟩, ⟨"orders (1) :state :limit :year",
          [("state", .text "any"), ("limit", .int 2), ("year", .int 2024)]⟩] := by
    refine ⟨_, by cbv, ?_⟩
    cbv
  obtain ⟨built, hbuilt, hsent⟩ := hresolve
  exact ⟨built, hbuilt, hsent, values_of_built (.params [("state", .string "any")]
    (.resolve hbuilt)) []⟩

end Query

end QueryTerms
