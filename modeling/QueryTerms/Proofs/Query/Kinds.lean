import Mathlib
import QueryTerms.Proofs.Query.Values

/-!
# Leaves that write, inside a query

A leaf declares whether its statement reads or writes, and a query writes if its root is declared
to.  Writing through anything but a leaf is refused; but a composite root is never declared to
write, and what is run below it is run for its rows.

**Sending.**  A leaf that is run sends a statement if it can be had and rendered
(`LeafCall.exists_sent_iff`), whatever the leaf is declared to do.

**Composites.**  `Query.run_of_composite` says what running a composite query is, and
`Query.spares_writes_iff` when it keeps the statements of leaves that write to itself.
-/

namespace QueryTerms

/-! ## Sending -/

/-- The statement of the leaf can be had, at most one parameter is to be sent in batches, and the
values can be filled in. -/
def LeafCall.IsRenderable (context : Context) (call : LeafCall) : Prop :=
  ∃ sql batched rendered, call.source.statement context = .ok sql ∧
    batchedParam call.source.id call.info (call.values context) = .ok batched ∧
    Sql.render context.database.literal sql (call.values context) call.info.params = .ok rendered

section Sending

open Execution

variable {context : Context} {call : LeafCall} {statement : Statement}

/-- In batches, the statement for the first part is sent in any case. -/
lemma mem_runBatches_of_mem_first {run : Params → Execution Shaped} {values : Params}
    {param : String} {first : List Value} {rest : List (List Value)}
    (h : statement ∈ (run (values.set param (.array first))).statements) :
    statement ∈ (runBatches run values param (first :: rest)).statements := by
  rw [runBatches, mem_statements_bind_iff]
  exact .inl h

/-- A statement that can be rendered with a list can be rendered with every other list. -/
lemma exists_render_set_array {literal : Value → String} {sql param : String} {values : Params}
    {specs : ParamSpecs} {items part : List Value} {rendered : Sql.Rendered}
    (other : List Value) (hitems : values.get? param = some (.array items))
    (h : Sql.render literal sql (values.set param (.array part)) specs = .ok rendered) :
    ∃ again, Sql.render literal sql (values.set param (.array other)) specs = .ok again := by
  obtain ⟨cause, hfails⟩ | ⟨bound, hrenders⟩ := Sql.render_set_array literal sql specs hitems
  · rw [hfails] at h
    cases h
  · exact ⟨_, hrenders other⟩

/-- **A leaf that is run sends a statement if it has one to send.**  What it is declared to do does
not count. -/
theorem LeafCall.exists_sent_iff :
    (∃ statement, statement ∈ (call.run context).statements) ↔ call.IsRenderable context := by
  constructor
  · rintro ⟨statement, h⟩
    obtain ⟨sql, batched, hsql, hbatched, h⟩ := LeafCall.mem_statements_run_iff.mp h
    cases batched with
    | none => exact ⟨sql, none, _, hsql, hbatched, mem_statements_runOnce_iff.mp h⟩
    | some batch =>
      obtain ⟨hvalues, hsize, hitems⟩ := get?_of_batchedParam hbatched
      have hparts := (isSplit_chunks hsize batch.items).parts_ne_nil hitems
      obtain ⟨part, -, h⟩ := exists_part_of_mem_runBatches hparts h
      obtain ⟨rendered, hrendered⟩ :=
        exists_render_set_array batch.items hvalues (mem_statements_runOnce_iff.mp h)
      rw [Table.set_eq_self hvalues] at hrendered
      exact ⟨sql, some batch, rendered, hsql, hbatched, hrendered⟩
  · rintro ⟨sql, batched, rendered, hsql, hbatched, hrendered⟩
    suffices h : ∃ statement, statement ∈ (call.send context sql batched).statements by
      obtain ⟨statement, h⟩ := h
      exact ⟨statement, LeafCall.mem_statements_run_iff.mpr ⟨sql, batched, hsql, hbatched, h⟩⟩
    cases batched with
    | none =>
      exact ⟨⟨rendered.sql, rendered.bound⟩, mem_statements_runOnce_iff.mpr hrendered⟩
    | some batch =>
      obtain ⟨hvalues, hsize, hitems⟩ := get?_of_batchedParam hbatched
      have hparts := (isSplit_chunks hsize batch.items).parts_ne_nil hitems
      obtain ⟨first, rest, hchunks⟩ := List.exists_cons_of_ne_nil hparts
      rw [← Table.set_eq_self hvalues] at hrendered
      obtain ⟨again, hagain⟩ := exists_render_set_array first hvalues hrendered
      refine ⟨⟨again.sql, again.bound⟩, ?_⟩
      rw [LeafCall.send, hchunks]
      exact mem_runBatches_of_mem_first (mem_statements_runOnce_iff.mpr hagain)

end Sending

/-! ## Composites -/

namespace Query

variable {query : Query}

/-- Running a composite query is selecting from it. -/
lemma run_of_composite (hquery : query.IsBuilt) (hterm : ∀ id, query.term ≠ .leaf id)
    (params : Params) : query.run params = Outcome.selected <$> query.select params := by
  rw [run, (hquery.kind_of_composite hterm).2]

/-- What is sent by a composite query is what its leaves send, those that write among them. -/
lemma mem_statements_run_iff (hquery : query.IsBuilt) (hterm : ∀ id, query.term ≠ .leaf id)
    {params : Params} {statement : Statement} :
    statement ∈ (query.run params).statements ↔
      ∃ call, query.Runs params call ∧
        statement ∈ (call.run query.resolver.context).statements := by
  rw [run_of_composite hquery hterm, statements_map, mem_statements_select_iff]

/-- No leaf that is declared to write has its statement sent. -/
def SparesWrites (query : Query) (params : Params) : Prop :=
  ∀ call, query.Runs params call → call.info.kind ≠ .read →
    ∀ statement ∈ (call.run query.resolver.context).statements,
      statement ∉ (query.run params).statements

/-- **When a composite query does not write.**  It is run for its rows in any case, and no leaf that
writes has its statement sent exactly if none of those that are run has one that can be rendered. -/
theorem spares_writes_iff (hquery : query.IsBuilt) (hterm : ∀ id, query.term ≠ .leaf id)
    (params : Params) :
    query.run params = Outcome.selected <$> query.select params ∧
      (query.SparesWrites params ↔
        ∀ call, query.Runs params call → call.info.kind ≠ .read →
          ¬ call.IsRenderable query.resolver.context) := by
  refine ⟨run_of_composite hquery hterm params, ?_⟩
  refine forall_congr' fun call => forall_congr' fun hruns => forall_congr' fun _ => ?_
  rw [← LeafCall.exists_sent_iff, not_exists]
  refine forall_congr' fun statement => ⟨fun hspared hsent => ?_, fun hnone hsent => ?_⟩
  · exact hspared hsent ((mem_statements_run_iff hquery hterm).mpr ⟨call, hruns, hsent⟩)
  · exact absurd hsent hnone

/-- Of two leaves one writes, and it is spared, as its statement is not in the store. -/
theorem spares_writes_users :
    let store := ((Catalog.mk [] []).addCompiled "users" {} "SELECT users").addDefinition "purge"
      { interface := { kind := .delete }, fragments := {} }
    let resolver : Resolver :=
      { (Context.answering [("SELECT users", [])]) with store := store.toStore }
    ∃ query, resolver.resolve "users|purge" = .ok query ∧
      query.run [] = Outcome.selected <$> query.select [] ∧
      (query.SparesWrites [] ↔
        ∀ call, query.Runs [] call → call.info.kind ≠ .read →
          ¬ call.IsRenderable query.resolver.context) := by
  intro store resolver
  have hresolve : ∃ query, resolver.resolve "users|purge" = .ok query ∧
      query.term = .merge [.leaf "users", .leaf "purge"] := ⟨_, by cbv, rfl⟩
  obtain ⟨query, hquery, hterm⟩ := hresolve
  have hcomposite : ∀ id, query.term ≠ .leaf id := by
    intro id heq
    rw [hterm] at heq
    cases heq
  exact ⟨query, hquery, spares_writes_iff (.resolve hquery) hcomposite []⟩

/-- **A composite query can write.**  The second operand of a union is a leaf that deletes; running
the union sends its statement, and reports what was selected. -/
theorem run_composite_writes :
    let store := ((Catalog.mk [] []).addCompiled "users" {} "SELECT users").addCompiled "purge"
      { kind := .delete } "DELETE users"
    let resolver : Resolver :=
      { (Context.answering [("SELECT users", []), ("DELETE users", [])]) with
        store := store.toStore }
    ∃ query call, resolver.resolve "users|purge" = .ok query ∧
      (∀ id, query.term ≠ .leaf id) ∧ query.Runs [] call ∧ call.info.kind = .delete ∧
      (call.run query.resolver.context).statements = [⟨"DELETE users", []⟩] ∧
      (query.run []).statements = [⟨"SELECT users", []⟩, ⟨"DELETE users", []⟩] ∧
      (query.run []).outcome = .ok (.selected (.rows [])) := by
  intro store resolver
  let users : Node := .leaf { name := "users" } (.compiled "users" [] [])
  let info : NodeInfo := { name := "purge", kind := .delete }
  let purge : LeafSource := .compiled "purge" [] []
  let query : Query :=
    { resolver, term := .merge [.leaf "users", .leaf "purge"]
      root := .merge { name := "users|purge" } [users, .leaf info purge] }
  have hcalls : query.root.Calls resolver.context [] (.leaf info purge) none :=
    @Node.Calls.merge _ _ [users] [] _ _ none [(users.operand resolver.context, [])]
      (by cbv) (by cbv)
  have hruns : query.Runs [] ⟨info, purge, [], []⟩ := .through hcalls (.here info purge [])
  have hcomposite : ∀ id, query.term ≠ .leaf id := by
    intro id heq
    cases heq
  exact ⟨query, _, by cbv, hcomposite, hruns, rfl, by cbv, by cbv, by cbv⟩

end Query

end QueryTerms
