import Mathlib
import QueryTerms.Proofs.Query.Values

/-!
# Which executions batch sizes bind

A parameter that is declared with a batch size takes a list of any length, and the statement is
rendered with parts of it that are no longer.  This is so where a leaf is read.  A write is rendered
once, with all its values as they are.

**Rounds.**  `LeafCall.rounds` are the values that a leaf is rendered with when it is read, one
round after another.  None of them has a list that is longer than its batch
(`LeafCall.within_of_mem_rounds`), and the statements are their renderings, up to the first one that
fails (`LeafCall.sendsInTurn_run`).

**Too many lists.**  Where two lists are longer than their batches, there are no rounds, and the
read fails (`LeafCall.run_of_exceeds`).

**Binding.**  `LeafCall.BindsBatches` says of an execution that it stays within the batches.
`Query.binds_batches_iff` says it of all reads, and of a write exactly if the lists are no longer
than their batches from the beginning.
-/

namespace QueryTerms

/-! ## Rounds -/

namespace NodeInfo

/-- The parameter has a list that is longer than the batch declared for it. -/
def Exceeds (info : NodeInfo) (values : Params) (param : String) : Prop :=
  ∃ spec size items, (param, spec) ∈ info.params ∧ spec.batch = some size ∧
    values.get? param = some (.array items) ∧ max size 1 < items.length

/-- No list is longer than the batch declared for its parameter. -/
def Within (info : NodeInfo) (values : Params) : Prop :=
  ∀ param spec size items, (param, spec) ∈ info.params → spec.batch = some size →
    values.get? param = some (.array items) → items.length ≤ max size 1

/-- The lists that are longer than their batches, in the order of declaration. -/
def exceeding (info : NodeInfo) (values : Params) : List Batched :=
  info.params.filterMap fun (param, spec) => batchOf values param spec

end NodeInfo

/-- The values that the statement of a leaf is rendered with when it is read, round after round. -/
def LeafCall.rounds (context : Context) (call : LeafCall) : List Params :=
  match batchedParam call.source.id call.info (call.values context) with
  | .error _ => []
  | .ok none => [call.values context]
  | .ok (some batched) =>
    (chunks batched.size batched.items).map fun part =>
      (call.values context).set batched.param (.array part)

section Exceeding

variable {info : NodeInfo} {values : Params} {param leaf : String} {batched : Batched}

lemma batchOf_eq_some_iff {spec : ParamSpec} :
    batchOf values param spec = some batched ↔
      ∃ size items, spec.batch = some size ∧ values.get? param = some (.array items) ∧
        max size 1 < items.length ∧ batched = ⟨param, max size 1, items⟩ := by
  constructor
  · intro h
    rw [batchOf] at h
    split at h
    · next size items hbatch hvalue =>
      split at h
      · next hlong =>
        cases h
        exact ⟨size, items, hbatch, hvalue, hlong, rfl⟩
      · cases h
    · cases h
  · rintro ⟨size, items, hbatch, hvalue, hlong, rfl⟩
    rw [batchOf, hbatch, hvalue]
    exact if_pos hlong

namespace NodeInfo

lemma mem_exceeding_iff :
    batched ∈ info.exceeding values ↔
      ∃ spec, (batched.param, spec) ∈ info.params ∧
        batchOf values batched.param spec = some batched := by
  rw [exceeding, List.mem_filterMap]
  constructor
  · rintro ⟨⟨param, spec⟩, hmem, hbatch⟩
    obtain ⟨size, items, -, -, -, rfl⟩ := batchOf_eq_some_iff.mp hbatch
    exact ⟨spec, hmem, hbatch⟩
  · rintro ⟨spec, hmem, hbatch⟩
    exact ⟨_, hmem, hbatch⟩

lemma exceeds_iff :
    info.Exceeds values param ↔ param ∈ (info.exceeding values).map Batched.param := by
  rw [List.mem_map]
  constructor
  · rintro ⟨spec, size, items, hmem, hbatch, hvalue, hlong⟩
    exact ⟨⟨param, max size 1, items⟩, mem_exceeding_iff.mpr ⟨spec, hmem,
      batchOf_eq_some_iff.mpr ⟨size, items, hbatch, hvalue, hlong, rfl⟩⟩, rfl⟩
  · rintro ⟨batched, hbatched, rfl⟩
    obtain ⟨spec, hmem, hbatch⟩ := mem_exceeding_iff.mp hbatched
    obtain ⟨size, items, hsize, hvalue, hlong, -⟩ := batchOf_eq_some_iff.mp hbatch
    exact ⟨spec, size, items, hmem, hsize, hvalue, hlong⟩

lemma within_iff_forall_not_exceeds :
    info.Within values ↔ ∀ param, ¬ info.Exceeds values param := by
  constructor
  · rintro h param ⟨spec, size, items, hmem, hbatch, hvalue, hlong⟩
    exact absurd (h param spec size items hmem hbatch hvalue) (Nat.not_le_of_lt hlong)
  · intro h param spec size items hmem hbatch hvalue
    exact Nat.le_of_not_lt fun hlong => h param ⟨spec, size, items, hmem, hbatch, hvalue, hlong⟩

/-- A part of the only list that is too long fits into its batch, and the other lists do anyway. -/
lemma within_set (honly : info.exceeding values = [batched]) {part : List Value}
    (hlength : part.length ≤ batched.size) (hpart : part.length ≤ batched.items.length) :
    info.Within (values.set batched.param (.array part)) := by
  intro param spec size items hmem hbatch hvalue
  rw [Table.get?_set] at hvalue
  have hown : ∀ items, values.get? param = some (.array items) →
      items.length ≤ max size 1 ∨ batched = ⟨param, max size 1, items⟩ := by
    intro items hitems
    by_cases hlong : max size 1 < items.length
    · refine .inr (List.mem_singleton.mp ?_).symm
      rw [← honly]
      exact mem_exceeding_iff.mpr ⟨spec, hmem,
        batchOf_eq_some_iff.mpr ⟨size, items, hbatch, hitems, hlong, rfl⟩⟩
    · exact .inl (Nat.le_of_not_lt hlong)
  by_cases hparam : batched.param = param
  · rw [if_pos hparam] at hvalue
    cases hvalue
    have hbatched : batched ∈ info.exceeding values := honly ▸ List.mem_singleton_self _
    obtain ⟨other, -, hother⟩ := mem_exceeding_iff.mp hbatched
    obtain ⟨own, all, -, hall, -, heq⟩ := batchOf_eq_some_iff.mp hother
    rw [hparam] at hall
    rcases hown all hall with hshort | hsame
    · rw [heq] at hpart
      exact hpart.trans hshort
    · rw [hsame] at hlength
      exact hlength
  · rw [if_neg hparam] at hvalue
    rcases hown items hvalue with hshort | hsame
    · exact hshort
    · rw [hsame] at hparam
      exact absurd rfl hparam

end NodeInfo

lemma batchedParam_eq_none_iff :
    batchedParam leaf info values = .ok none ↔ info.exceeding values = [] := by
  rw [batchedParam, ← NodeInfo.exceeding]
  cases info.exceeding values with
  | nil => simp
  | cons first rest => cases rest <;> simp

lemma batchedParam_eq_some_iff :
    batchedParam leaf info values = .ok (some batched) ↔ info.exceeding values = [batched] := by
  rw [batchedParam, ← NodeInfo.exceeding]
  cases info.exceeding values with
  | nil => simp
  | cons first rest => cases rest <;> simp

/-- Two lists that are too long are not sent in batches. -/
lemma batchedParam_of_exceeds {first second : String} (hne : first ≠ second)
    (hfirst : info.Exceeds values first) (hsecond : info.Exceeds values second) :
    batchedParam leaf info values =
      .error (.schema (.severalBatches leaf ((info.exceeding values).map Batched.param))) := by
  rw [NodeInfo.exceeds_iff] at hfirst hsecond
  rw [batchedParam, ← NodeInfo.exceeding]
  cases hall : info.exceeding values with
  | nil =>
    rw [hall] at hfirst
    cases hfirst
  | cons one rest =>
    cases rest with
    | nil =>
      rw [hall, List.map_singleton, List.mem_singleton] at hfirst hsecond
      exact absurd (hfirst.trans hsecond.symm) hne
    | cons other others => rfl

/-- **No round has a list that is longer than its batch.** -/
lemma LeafCall.within_of_mem_rounds {context : Context} {call : LeafCall} {round : Params}
    (h : round ∈ call.rounds context) : call.info.Within round := by
  rw [rounds] at h
  split at h
  · cases h
  · next hbatched =>
    rw [List.mem_singleton.mp h, NodeInfo.within_iff_forall_not_exceeds]
    intro param hexceeds
    rw [NodeInfo.exceeds_iff, batchedParam_eq_none_iff.mp hbatched] at hexceeds
    cases hexceeds
  · next batched hbatched =>
    obtain ⟨part, hpart, rfl⟩ := List.mem_map.mp h
    have hsplit := isSplit_chunks (get?_of_batchedParam hbatched).2.1 batched.items
    exact NodeInfo.within_set (batchedParam_eq_some_iff.mp hbatched) (hsplit.length_le part hpart)
      (hsplit.infix_of_mem hpart).length_le

end Exceeding

/-! ## Statements in turn -/

/-- The statements are renderings of the given values, one after another, up to some of them. -/
def SendsInTurn (context : Context) (sql : String) (info : NodeInfo) (rounds : List Params)
    (sent : List Statement) : Prop :=
  List.Forall₂ (fun round statement =>
    Sql.render context.database.literal sql round info.params =
      .ok ⟨statement.sql, statement.bound⟩) (rounds.take sent.length) sent

section Turns

open Execution

variable {context : Context} {info : NodeInfo} {values round : Params} {rounds : List Params}
  {leaf sql : String} {α β : Type}

/-- The execution renders the values and sends the statement, or fails before that. -/
def RendersOnce (context : Context) (sql : String) (info : NodeInfo) (values : Params)
    (run : Execution α) : Prop :=
  (∃ cause, run = .fail cause) ∨
    ∃ statement, Sql.render context.database.literal sql values info.params =
      .ok ⟨statement.sql, statement.bound⟩ ∧ run.statements = [statement]

lemma RendersOnce.bind_silent {run : Execution α} (h : RendersOnce context sql info values run)
    {next : α → Execution β} (hsilent : ∀ value, (next value).statements = []) :
    RendersOnce context sql info values (run >>= next) := by
  obtain ⟨cause, rfl⟩ | ⟨statement, hrender, hsent⟩ := h
  · exact .inl ⟨cause, rfl⟩
  · exact .inr ⟨statement, hrender, (statements_bind_silent hsilent).trans hsent⟩

lemma rendersOnce_sendLeaf : RendersOnce context sql info values
    (sendLeaf context leaf sql info values) := by
  cases hrender : Sql.render context.database.literal sql values info.params with
  | error cause => exact .inl ⟨cause, liftM_bind_of_error hrender _⟩
  | ok rendered =>
    refine .inr ⟨⟨rendered.sql, rendered.bound⟩, hrender, ?_⟩
    rw [sendLeaf, liftM_bind_of_ok hrender]
    rfl

lemma rendersOnce_runOnce : RendersOnce context sql info values
    (runOnce context leaf sql info values) :=
  rendersOnce_sendLeaf.bind_silent fun _ => rfl

lemma RendersOnce.sendsInTurn {run : Execution α} (h : RendersOnce context sql info values run) :
    SendsInTurn context sql info [values] run.statements := by
  obtain ⟨cause, rfl⟩ | ⟨statement, hrender, hsent⟩ := h
  · exact .nil
  · rw [hsent]
    exact .cons hrender .nil

/-- One more round in front, after which the others come if it succeeds. -/
lemma RendersOnce.sendsInTurn_bind {run : Execution α}
    (h : RendersOnce context sql info round run) {next : α → Execution β}
    (hnext : ∀ result, SendsInTurn context sql info rounds (next result).statements) :
    SendsInTurn context sql info (round :: rounds) (run >>= next).statements := by
  obtain ⟨cause, rfl⟩ | ⟨statement, hrender, hsent⟩ := h
  · exact .nil
  · obtain ⟨outcome, sent⟩ := run
    obtain rfl : sent = [statement] := hsent
    cases outcome with
    | error cause => exact .cons hrender .nil
    | ok value => exact .cons hrender (hnext value)

/-- **In batches, each part is a round**, by induction on the parts that are left. -/
lemma sendsInTurn_runBatches {param : String} {parts : List (List Value)} (hne : parts ≠ []) :
    SendsInTurn context sql info (parts.map fun part => values.set param (.array part))
      (runBatches (runOnce context leaf sql info) values param parts).statements := by
  obtain ⟨first, rest, rfl⟩ := List.exists_cons_of_ne_nil hne
  refine rendersOnce_runOnce.sendsInTurn_bind fun result => ?_
  induction rest generalizing result with
  | nil => exact .nil
  | cons part others ih =>
    rw [List.map_cons, List.foldlM_cons]
    exact (rendersOnce_runOnce.bind_silent fun _ => rfl).sendsInTurn_bind fun next =>
      ih (List.cons_ne_nil first others) next

end Turns

/-! ## Reading and writing -/

namespace LeafCall

/-- Writes through the leaf. -/
def write (context : Context) (call : LeafCall) : Execution Nat :=
  writeLeaf context call.info call.source (call.info.withDefaults call.params)

/-- An execution of a leaf that renders the given values stays within the batches: it sends their
renderings in turn, none with a list that is longer than its batch, and if two lists are too long,
it fails with the names of all of these and sends nothing. -/
structure BindsBatches {α : Type} (context : Context) (call : LeafCall) (rounds : List Params)
    (run : Execution α) : Prop where
  rendered : ∀ sql, call.source.statement context = .ok sql →
    SendsInTurn context sql call.info rounds run.statements
  unsent : ∀ cause, call.source.statement context = .error cause → run = .fail cause
  within : ∀ round ∈ rounds.take run.statements.length, call.info.Within round
  several : ∀ sql first second, call.source.statement context = .ok sql → first ≠ second →
    call.info.Exceeds (call.values context) first →
    call.info.Exceeds (call.values context) second →
    ∃ names, run = .fail (.schema (.severalBatches call.source.id names)) ∧
      ∀ name, name ∈ names ↔ call.info.Exceeds (call.values context) name

variable {context : Context} {call : LeafCall} {sql : String}

open Execution

/-- What is sent when a leaf is read. -/
lemma sendsInTurn_run (hsql : call.source.statement context = .ok sql) :
    SendsInTurn context sql call.info (call.rounds context) (call.run context).statements := by
  rw [run, runLeaf_of_statement hsql, runStatement, rounds, values]
  cases hbatched : batchedParam call.source.id call.info
      (effectiveParams call.info context.config (call.info.withDefaults call.params)) with
  | error cause => exact .nil
  | ok batched =>
    cases batched with
    | none => exact (rendersOnce_runOnce.bind_silent fun _ => rfl).sendsInTurn
    | some batched =>
      obtain ⟨-, hsize, hitems⟩ := get?_of_batchedParam hbatched
      have hparts := (isSplit_chunks hsize batched.items).parts_ne_nil hitems
      rw [liftM_bind_of_ok rfl, statements_bind_silent fun _ => rfl]
      exact sendsInTurn_runBatches hparts

lemma run_of_exceeds (hsql : call.source.statement context = .ok sql) {first second : String}
    (hne : first ≠ second) (hfirst : call.info.Exceeds (call.values context) first)
    (hsecond : call.info.Exceeds (call.values context) second) :
    call.run context = .fail (.schema (.severalBatches call.source.id
      ((call.info.exceeding (call.values context)).map Batched.param))) := by
  rw [run, runLeaf_of_statement hsql, runStatement]
  exact liftM_bind_of_error (batchedParam_of_exceeds hne hfirst hsecond) _

/-- **Batch sizes bind every read.** -/
theorem bindsBatches_run : call.BindsBatches context (call.rounds context) (call.run context) where
  rendered _ := sendsInTurn_run
  unsent _ hsql := liftM_bind_of_error hsql _
  within _ hround := within_of_mem_rounds (List.mem_of_mem_take hround)
  several _ _ _ hsql hne hfirst hsecond :=
    ⟨_, run_of_exceeds hsql hne hfirst hsecond, fun _ => NodeInfo.exceeds_iff.symm⟩

lemma write_of_statement (hsql : call.source.statement context = .ok sql) :
    call.write context = sendLeaf context call.source.id sql call.info (call.values context) >>=
      fun cursor => pure cursor.affected := by
  rw [write, writeLeaf, liftM_bind_of_ok hsql]
  rfl

lemma rendersOnce_write (hsql : call.source.statement context = .ok sql) :
    RendersOnce context sql call.info (call.values context) (call.write context) := by
  rw [write_of_statement hsql]
  exact rendersOnce_sendLeaf.bind_silent fun _ => rfl

/-- What is sent by a write. -/
lemma sendsInTurn_write (call : LeafCall) (hsql : call.source.statement context = .ok sql) :
    SendsInTurn context sql call.info [call.values context] (call.write context).statements :=
  (rendersOnce_write hsql).sendsInTurn

/-- A write stays within the batches if the lists that it is given do. -/
lemma bindsBatches_write (hwithin : call.info.Within (call.values context)) :
    call.BindsBatches context [call.values context] (call.write context) where
  rendered _ hsql := call.sendsInTurn_write hsql
  unsent _ hsql := liftM_bind_of_error hsql _
  within round hround := by
    rwa [List.mem_singleton.mp (List.mem_of_mem_take hround)]
  several _ first _ _ _ hfirst _ :=
    absurd hfirst (NodeInfo.within_iff_forall_not_exceeds.mp hwithin first)

/-- A write that sends its statement does so with all values. -/
lemma within_of_bindsBatches_write {rendered : Sql.Rendered}
    (hsql : call.source.statement context = .ok sql)
    (hrender : Sql.render context.database.literal sql (call.values context) call.info.params =
      .ok rendered)
    (h : call.BindsBatches context [call.values context] (call.write context)) :
    call.info.Within (call.values context) := by
  have hsent : ⟨rendered.sql, rendered.bound⟩ ∈ (call.write context).statements := by
    rw [write_of_statement hsql, mem_statements_bind_silent_iff fun _ => rfl]
    exact mem_statements_sendLeaf_iff.mpr hrender
  obtain ⟨first, rest, heq⟩ := List.exists_cons_of_ne_nil (List.ne_nil_of_mem hsent)
  refine h.within _ ?_
  rw [heq]
  exact List.mem_cons_self

end LeafCall

/-! ## Queries -/

namespace Query

lemma run_of_kind_ne {query : Query} {params : Params} (h : query.root.info.kind ≠ .read) :
    query.run params = Outcome.affected <$> query.root.write query.resolver.context params := by
  rw [run]
  split
  · contradiction
  · rfl

/-- **What batch sizes bind.**  When rows are selected, every leaf that is run stays within its
batches, and nothing but leaves sends statements; running a query that reads is selecting.  A query
that writes renders the statement of its leaf once.  It stays within the batches if no list that it
is given is longer than its batch, and if it sends the statement, exactly then. -/
theorem binds_batches_iff (query : Query) (params : Params) :
    let context := query.resolver.context
    (∀ statement, statement ∈ (query.select params).statements ↔
      ∃ call, query.Runs params call ∧ statement ∈ (call.run context).statements) ∧
    (∀ call, query.Runs params call →
      call.BindsBatches context (call.rounds context) (call.run context)) ∧
    (query.root.info.kind = .read →
      query.run params = Outcome.selected <$> query.select params) ∧
    ∀ info source, query.root = .leaf info source → info.kind ≠ .read →
      let call : LeafCall := ⟨info, source, [], params⟩
      query.run params = Outcome.affected <$> call.write context ∧
      (∀ sql, source.statement context = .ok sql →
        SendsInTurn context sql info [call.values context] (call.write context).statements) ∧
      (call.info.Within (call.values context) →
        call.BindsBatches context [call.values context] (call.write context)) ∧
      ∀ sql rendered, source.statement context = .ok sql →
        Sql.render context.database.literal sql (call.values context) info.params = .ok rendered →
        (call.BindsBatches context [call.values context] (call.write context) ↔
          call.info.Within (call.values context)) := by
  intro context
  refine ⟨fun _ => mem_statements_select_iff, fun call _ => call.bindsBatches_run, fun hkind => ?_,
    fun info source hroot hkind => ?_⟩
  · rw [run, hkind]
  · refine ⟨?_, fun sql => LeafCall.sendsInTurn_write ⟨info, source, [], params⟩,
      LeafCall.bindsBatches_write, fun sql rendered hsql hrender =>
        ⟨LeafCall.within_of_bindsBatches_write hsql hrender, LeafCall.bindsBatches_write⟩⟩
    have hwrites : query.root.info.kind ≠ .read := by rwa [hroot]
    rw [run_of_kind_ne hwrites, hroot]
    rfl

/-- Two ids are deleted by a statement whose batch has two. -/
theorem binds_batches_purge :
    let info : NodeInfo :=
      { name := "purge", kind := .delete, params := [("ids", { batch := some 2 })] }
    let source : LeafSource := .compiled "purge" [] []
    let store := ((Catalog.mk [] []).addCompiled "purge"
      { kind := .delete, params := [("ids", { batch := some 2 })] } "DELETE IN (:ids)").toStore
    let resolver : Resolver := { (Context.answering [("DELETE IN (1,2)", [])]) with store }
    let params : Params := [("ids", .array [.integer 1, .integer 2])]
    let call : LeafCall := ⟨info, source, [], params⟩
    let context := resolver.context
    ∃ query, resolver.resolve "purge" = .ok query ∧ query.resolver = resolver ∧
      query.root = .leaf info source ∧ query.Runs params call ∧
      call.BindsBatches context (call.rounds context) (call.run context) ∧
      query.run params = Outcome.affected <$> call.write context ∧
      call.info.Within (call.values context) ∧
      call.BindsBatches context [call.values context] (call.write context) := by
  intro info source store resolver params call context
  let query : Query := ⟨resolver, .leaf "purge", .leaf info source⟩
  have hwithin : call.info.Within (call.values context) := by
    have hvalues : call.values context = params := by cbv
    rw [hvalues, NodeInfo.within_iff_forall_not_exceeds]
    intro param hexceeds
    rw [NodeInfo.exceeds_iff] at hexceeds
    cases hexceeds
  have hruns : query.Runs params call := .here info source params
  obtain ⟨-, hreads, -, hwrites⟩ := query.binds_batches_iff params
  obtain ⟨hrun, -, hbinds, hiff⟩ := hwrites info source rfl (by decide)
  exact ⟨query, by cbv, rfl, rfl, hruns, hreads call hruns, hrun,
    (hiff "DELETE IN (:ids)" _ (by cbv) (by cbv)).mp (hbinds hwithin), hbinds hwithin⟩

/-- **A write is not bound.**  A statement that deletes takes two lists with batches of one.  If the
first one has two values, selecting sends a statement for each of them, and running sends them
together; if both have two values, selecting fails, and running sends them all. -/
theorem run_exceeds_batches :
    let each : ParamSpec := { batch := some 1 }
    let sql := "DELETE :a :b"
    let params : ParamSpecs := [("a", each), ("b", each)]
    let info : NodeInfo := { name := "purge", kind := .delete, params }
    let source : LeafSource := .compiled "purge" [] []
    let store := ((Catalog.mk [] []).addCompiled "purge" { kind := .delete, params } sql).toStore
    let resolver : Resolver := { (Context.answering [("DELETE 1 3", []), ("DELETE 2 3", []),
      ("DELETE 1,2 3", []), ("DELETE 1,2 3,4", [])]) with store }
    let given (items : List Value) : Params :=
      [("a", .array [.integer 1, .integer 2]), ("b", .array items)]
    let call (items : List Value) : LeafCall := ⟨info, source, [], given items⟩
    let single := [Value.integer 3]
    let double := [Value.integer 3, .integer 4]
    let context := resolver.context
    ∃ query, resolver.resolve "purge" = .ok query ∧ query.root = .leaf info source ∧
      (query.select (given single)).statements =
        [⟨"DELETE 1 3", []⟩, ⟨"DELETE 2 3", []⟩] ∧
      (query.run (given single)).statements = [⟨"DELETE 1,2 3", []⟩] ∧
      ¬ (call single).BindsBatches context [(call single).values context]
        ((call single).write context) ∧
      query.select (given double) =
        .fail (.schema (.severalBatches "purge" ["a", "b"])) ∧
      query.run (given double) = ⟨.ok (.affected 0), [⟨"DELETE 1,2 3,4", []⟩]⟩ := by
  intro each sql params info source store resolver given call single double context
  refine ⟨⟨resolver, .leaf "purge", .leaf info source⟩, by cbv, rfl, by cbv, by cbv, fun h => ?_,
    by cbv, by cbv⟩
  have hsent : ((call single).write context).statements =
      [⟨"DELETE 1,2 3", []⟩] := by cbv
  have hvalues : (call single).values context = given single := by cbv
  have hwithin := h.within
  rw [hsent, hvalues, List.length_singleton, List.take_succ_cons, List.take_zero,
    List.forall_mem_singleton] at hwithin
  have hlong := hwithin "a" each 1 [.integer 1, .integer 2] List.mem_cons_self rfl rfl
  exact absurd hlong (by decide)

end Query

end QueryTerms
