import Mathlib
import QueryTerms.Proofs.Query.Operand
import QueryTerms.Proofs.Table
import QueryTerms.Query.Build

/-!
# Which statements a restriction gets into

A node is restricted to the values of a parameter by restricting leaves below it.  Whether the
restriction then stands in the statement that a leaf sends depends on the leaf, and not on the nodes
above it.

**Who is reached.**  `Node.reached` lists the leaves below a node that a restriction is handed down
to, each with the fields that are handed down.  Restricting the node restricts these, one by one:
`reached_bindFields`.

**Who takes it.**  A compiled leaf takes a restriction unless its own statement mentions the
parameter; a leaf in fragments, unless the parameter is declared (`Reached.takes`).  The restriction
itself declares it, so that leaves in fragments take only the first one (`has_of_mem_reached`).

**Statements.**  `Node.bind_restricts_iff`.
-/

namespace QueryTerms

/-! ## Texts -/

/-- The text stands somewhere in the statement. -/
def StandsIn (part sql : String) : Prop := part.toList <:+: sql.toList

instance (part sql : String) : Decidable (StandsIn part sql) :=
  inferInstanceAs (Decidable (part.toList <:+: sql.toList))

namespace StandsIn

variable {part sql : String}

lemma refl (part : String) : StandsIn part part := List.infix_refl _

lemma append_left (h : StandsIn part sql) (before : String) : StandsIn part (before ++ sql) := by
  rw [StandsIn, String.toList_append]
  exact h.trans (List.suffix_append _ _).isInfix

lemma append_right (h : StandsIn part sql) (after : String) : StandsIn part (sql ++ after) := by
  rw [StandsIn, String.toList_append]
  exact h.trans (List.prefix_append _ _).isInfix

lemma intercalate {parts : List String} (h : part ∈ parts) (sep : String) :
    StandsIn part (String.intercalate sep parts) := by
  induction parts with
  | nil => cases h
  | cons first rest ih =>
    cases rest with
    | nil =>
      rw [List.mem_singleton.mp h, String.intercalate_singleton]
      exact refl first
    | cons second others =>
      rw [String.intercalate_cons_cons]
      rcases List.mem_cons.mp h with rfl | h
      · exact ((refl part).append_right _).append_right _
      · exact (ih h).append_left _

end StandsIn

/-! ## Who is reached -/

/-- A leaf that a restriction is handed down to, with the fields that are handed down. -/
structure Reached where
  info : NodeInfo
  source : LeafSource
  fields : KeyFields

lemma NodeInfo.has_declare_iff (info : NodeInfo) (param name : String) :
    (info.declare param).params.has name = true ↔ name = param ∨ info.params.has name = true := by
  simp only [declare, Table.has_iff_mem_keys, Table.mem_keys_setNew, or_comm]

/-- The leaf with the restriction. -/
def Reached.bind (param : String) (leaf : Reached) : Reached where
  info := leaf.info.declare param
  source := leaf.source.bind param leaf.fields (leaf.info.params.has param)
  fields := leaf.fields

namespace Node

mutual

/-- The leaves that a restriction of the node is handed down to: the leaf itself, those of all
operands of a union or an intersection, those of the base of the other two. -/
def reached (param : String) (fields : KeyFields) : Node → List Reached
  | .leaf info source => [⟨info, source, fields⟩]
  | .merge _ operands => reachedAll param fields operands
  | .attach _ _ base _ => base.reached param (handedDown param fields base.info)
  | .filter _ _ narrowing base =>
    reachedAll param fields narrowing ++ base.reached param (handedDown param fields base.info)
  | .tree _ base _ => base.reached param (handedDown param fields base.info)

def reachedAll (param : String) (fields : KeyFields) : List Node → List Reached
  | [] => []
  | node :: rest =>
    node.reached param (handedDown param fields node.info) ++ reachedAll param fields rest

end

/-- The leaves that are reached where the fields may be left out. -/
def reachedBy (param : String) (fields : Option KeyFields) (node : Node) : List Reached :=
  node.reached param (fields.getD (node.info.keyFields param))

variable {param : String}

lemma keys_info_bindFields (fields : KeyFields) (node : Node) :
    (node.bindFields param fields).info.keys = node.info.keys := by
  cases node <;> rfl

lemma handedDown_bindFields (fields own : KeyFields) (node : Node) :
    handedDown param own (node.bindFields param fields).info = handedDown param own node.info := by
  rw [handedDown, handedDown, NodeInfo.keyFields, NodeInfo.keyFields, keys_info_bindFields]

mutual

/-- **A node is restricted by restricting the leaves that are reached**, each with the fields that
are handed down to it. -/
theorem reached_bindFields : ∀ (node : Node) (fields : KeyFields),
    (node.bindFields param fields).reached param fields =
      (node.reached param fields).map (Reached.bind param)
  | .leaf info source, fields => by
    rw [bindFields, reached, reached, List.map_singleton, Reached.bind]
  | .merge info operands, fields => by
    rw [bindFields, reached, reached, reachedAll_bindAll]
  | .attach info key base joined, fields => by
    rw [bindFields, reached, reached, handedDown_bindFields, reached_bindFields]
  | .filter info key narrowing base, fields => by
    rw [bindFields, reached, reached, handedDown_bindFields, reached_bindFields,
      reachedAll_bindAll, List.map_append]
  | .tree info base nested, fields => by
    rw [bindFields, reached, reached, handedDown_bindFields, reached_bindFields]

/-- So are several nodes. -/
theorem reachedAll_bindAll : ∀ (nodes : List Node) (fields : KeyFields),
    reachedAll param fields (bindAll param fields nodes) =
      (reachedAll param fields nodes).map (Reached.bind param)
  | [], _ => by rw [bindAll, reachedAll, List.map_nil]
  | node :: rest, fields => by
    rw [bindAll, reachedAll, reachedAll, handedDown_bindFields, reached_bindFields,
      reachedAll_bindAll, List.map_append]

end

mutual

/-- A leaf that is reached declares the parameter from then on, whatever is handed down to it the
next time. -/
theorem has_of_mem_reached : ∀ (node : Node) (fields again : KeyFields),
    ∀ leaf ∈ (node.bindFields param fields).reached param again, leaf.info.params.has param = true
  | .leaf info source, fields, again => by
    rw [bindFields, reached]
    exact List.forall_mem_singleton.mpr ((info.has_declare_iff param param).mpr (.inl rfl))
  | .merge info operands, fields, again => by
    rw [bindFields, reached]
    exact has_of_mem_reachedAll operands fields again
  | .attach info key base joined, fields, again => by
    rw [bindFields, reached]
    exact has_of_mem_reached base _ _
  | .filter info key narrowing base, fields, again => by
    rw [bindFields, reached]
    exact List.forall_mem_append.mpr
      ⟨has_of_mem_reachedAll narrowing fields again, has_of_mem_reached base _ _⟩
  | .tree info base nested, fields, again => by
    rw [bindFields, reached]
    exact has_of_mem_reached base _ _

/-- So does a leaf that is reached in any of several nodes. -/
theorem has_of_mem_reachedAll : ∀ (nodes : List Node) (fields again : KeyFields),
    ∀ leaf ∈ reachedAll param again (bindAll param fields nodes),
      leaf.info.params.has param = true
  | [], _, _ => by
    rw [bindAll, reachedAll]
    exact fun _ h => absurd h List.not_mem_nil
  | node :: rest, fields, again => by
    rw [bindAll, reachedAll]
    exact List.forall_mem_append.mpr
      ⟨has_of_mem_reached node _ _, has_of_mem_reachedAll rest fields again⟩

end

end Node

/-! ## Statements -/

section Compiled

variable {database : Database} {bindings : List Binding} {binding : Binding} {sql : String}

lemma wrapBindings_append_of_mentions (h : Sql.mentions sql binding.param = true) :
    wrapBindings database (bindings ++ [binding]) sql = wrapBindings database bindings sql := by
  have hfilter : [binding].filter (fun binding => !Sql.mentions sql binding.param) = [] := by
    rw [List.filter_cons_of_neg (by simp [h]), List.filter_nil]
  rw [wrapBindings, wrapBindings, List.filter_append, hfilter, List.append_nil]

lemma standsIn_wrapBindings (hmem : binding ∈ bindings)
    (h : Sql.mentions sql binding.param = false) :
    StandsIn (boundCondition database binding) (wrapBindings database bindings sql) := by
  have hfilter : binding ∈ bindings.filter fun binding => !Sql.mentions sql binding.param :=
    List.mem_filter.mpr ⟨hmem, by rw [h]; rfl⟩
  rw [wrapBindings, if_neg (by simpa using List.ne_nil_of_mem hfilter)]
  exact (StandsIn.intercalate (List.mem_map_of_mem hfilter) _).append_left _

end Compiled

namespace Fragments

variable {parts : Fragments}

lemma standsIn_conjunction {conditions : List String} {condition : String}
    (h : condition ∈ conditions) : StandsIn condition (conjunction conditions) := by
  have hmem : "(" ++ condition ++ ")" ∈ conditions.map fun condition => "(" ++ condition ++ ")" :=
    List.mem_map_of_mem h
  have hgroup : StandsIn condition ("(" ++ condition ++ ")") :=
    ((StandsIn.refl condition).append_left _).append_right _
  exact hgroup.trans (StandsIn.intercalate hmem " AND ")

lemma standsIn_toSql? {condition sql : String} (h : condition ∈ parts.conditions)
    (hsql : parts.toSql? = some sql) : StandsIn condition sql := by
  have hclause : StandsIn condition
      (clause " WHERE " parts.conditions (conjunction parts.conditions)) := by
    rw [clause, if_neg (by simpa using List.ne_nil_of_mem h)]
    exact (standsIn_conjunction h).append_left _
  rw [toSql?] at hsql
  split at hsql
  · cases hsql
  · cases hsql
    exact (((hclause.append_left _).append_right _).append_right _).append_right _

/-- Fields are only added to what is selected. -/
lemma exists_foldl_selectField (names : List String) (parts : Fragments) :
    ∃ added, names.foldl selectField parts = { parts with select := parts.select ++ added } := by
  induction names generalizing parts with
  | nil => exact ⟨[], by rw [List.append_nil]; rfl⟩
  | cons name rest ih =>
    obtain ⟨added, hadded⟩ := ih (parts.selectField name)
    rw [List.foldl_cons, hadded, selectField]
    split
    · exact ⟨added, rfl⟩
    · exact ⟨name :: added, by simp⟩

/-- A restriction adds fields that are selected and one condition. -/
lemma exists_restrict (parts : Fragments) (param : String) (fields : KeyFields) :
    ∃ added, parts.restrict param fields = { parts with
      select := parts.select ++ added
      conditions := parts.conditions ++ [condition param fields] } := by
  obtain ⟨added, hadded⟩ := exists_foldl_selectField fields.fields parts
  exact ⟨added, by rw [restrict, hadded]⟩

lemma condition_mem_restrict (param : String) (fields : KeyFields) :
    condition param fields ∈ (parts.restrict param fields).conditions :=
  List.mem_append_right _ (List.mem_singleton_self _)

lemma exists_toSql?_restrict {sql : String} (h : parts.toSql? = some sql) (param : String)
    (fields : KeyFields) :
    ∃ restricted, (parts.restrict param fields).toSql? = some restricted := by
  have hselect : parts.select ≠ [] := by
    intro hnil
    rw [toSql?, if_pos (List.isEmpty_iff.mpr hnil)] at h
    cases h
  obtain ⟨added, hadded⟩ := parts.exists_restrict param fields
  have hrestricted : parts.select ++ added ≠ [] := List.append_ne_nil_of_left_ne_nil hselect added
  rw [hadded, toSql?, if_neg (by simpa using hrestricted)]
  exact ⟨_, rfl⟩

end Fragments

namespace LeafSource

variable {context : Context} {id : String} {children : Table String ChildBinding}
  {bindings : List Binding}

lemma statement_compiled {sql : String} (h : context.store.statement id = .ok sql) :
    (compiled id children bindings).statement context =
      .ok (wrapBindings context.database bindings sql) := by
  rw [statement, h]

lemma statement_compiled_of_error {cause : StoreError}
    (h : context.store.statement id = .error cause) :
    (compiled id children bindings).statement context = .error (.store cause) := by
  rw [statement, h]

end LeafSource

/-- How a leaf spells a restriction in its statement. -/
def LeafSource.condition (database : Database) (param : String) (fields : KeyFields) :
    LeafSource → String
  | .compiled _ _ _ => boundCondition database { param, fields }
  | .fragments _ _ => Fragments.condition param fields

namespace Reached

variable {context : Context} {param : String} {leaf : Reached}

/-- Whether a leaf takes a restriction to a parameter into its statement: a compiled leaf if its own
statement does not mention the parameter, one in fragments if the parameter is not declared. -/
def takes (context : Context) (param : String) (leaf : Reached) : Bool :=
  match leaf.source with
  | .compiled id _ _ =>
    match context.store.statement id with
    | .ok sql => !Sql.mentions sql param
    | .error _ => false
  | .fragments _ _ => !leaf.info.params.has param

/-- The restriction as the leaf spells it. -/
def condition (context : Context) (param : String) (leaf : Reached) : String :=
  leaf.source.condition context.database param leaf.fields

/-- The statement of a leaf that takes the restriction holds it. -/
lemma standsIn_statement_bind (htakes : leaf.takes context param = true) {restricted : String}
    (h : (leaf.bind param).source.statement context = .ok restricted) :
    StandsIn (leaf.condition context param) restricted := by
  obtain ⟨info, source, fields⟩ := leaf
  cases source with
  | compiled id children bindings =>
    simp only [takes] at htakes
    rw [bind, LeafSource.bind] at h
    cases hown : context.store.statement id with
    | error cause =>
      rw [LeafSource.statement_compiled_of_error hown] at h
      cases h
    | ok sql =>
      rw [hown] at htakes
      rw [LeafSource.statement_compiled hown] at h
      cases h
      refine standsIn_wrapBindings ?_ (by simpa using htakes)
      split
      · next hcontains => exact List.contains_iff_mem.mp hcontains
      · exact List.mem_append_right _ (List.mem_singleton_self _)
  | fragments id parts =>
    have hdeclared : info.params.has param = false := by simpa [takes] using htakes
    simp only [bind, LeafSource.bind, hdeclared, LeafSource.statement] at h
    split at h
    · next sql hsql =>
      cases h
      exact Fragments.standsIn_toSql? (Fragments.condition_mem_restrict param fields) hsql
    · cases h

/-- A leaf that does not take the restriction sends the same statement as before. -/
lemma statement_bind_of_not_takes (htakes : leaf.takes context param = false) :
    (leaf.bind param).source.statement context = leaf.source.statement context := by
  obtain ⟨info, source, fields⟩ := leaf
  cases source with
  | compiled id children bindings =>
    simp only [takes] at htakes
    rw [bind, LeafSource.bind]
    cases hown : context.store.statement id with
    | error cause =>
      rw [LeafSource.statement_compiled_of_error hown, LeafSource.statement_compiled_of_error hown]
    | ok sql =>
      rw [hown] at htakes
      have hmentions : Sql.mentions sql param = true := by simpa using htakes
      rw [LeafSource.statement_compiled hown, LeafSource.statement_compiled hown]
      split
      · rfl
      · rw [wrapBindings_append_of_mentions hmentions]
  | fragments id parts =>
    have hdeclared : info.params.has param = true := by simpa [takes] using htakes
    rw [bind, LeafSource.bind, hdeclared, if_pos rfl]

/-- A leaf that has a statement keeps having one. -/
lemma exists_statement_bind {sql : String} (h : leaf.source.statement context = .ok sql) :
    ∃ restricted, (leaf.bind param).source.statement context = .ok restricted := by
  cases htakes : leaf.takes context param with
  | false => exact ⟨sql, (statement_bind_of_not_takes htakes).trans h⟩
  | true =>
    obtain ⟨info, source, fields⟩ := leaf
    cases source with
    | compiled id children bindings =>
      cases hown : context.store.statement id with
      | error cause =>
        rw [LeafSource.statement_compiled_of_error hown] at h
        cases h
      | ok own =>
        rw [bind, LeafSource.bind]
        exact ⟨_, LeafSource.statement_compiled hown⟩
    | fragments id parts =>
      have hdeclared : info.params.has param = false := by simpa [takes] using htakes
      rw [LeafSource.statement] at h
      simp only [bind, LeafSource.bind, hdeclared, LeafSource.statement]
      split at h
      · next own hown =>
        obtain ⟨restricted, hrestricted⟩ := Fragments.exists_toSql?_restrict hown param fields
        exact ⟨restricted, by simp [hrestricted]⟩
      · cases h

/-- What a restriction to a parameter makes of a leaf that it reaches. -/
structure Restricts (context : Context) (param : String) (before after : Reached) : Prop where
  fields_eq : after.fields = before.fields
  declared_iff : ∀ name, after.info.params.has name = true ↔
    name = param ∨ before.info.params.has name = true
  has_statement : ∀ sql, before.source.statement context = .ok sql →
    ∃ restricted, after.source.statement context = .ok restricted
  standsIn_iff : ∀ restricted, after.source.statement context = .ok restricted →
    (StandsIn (before.condition context param) restricted ↔
      before.takes context param = true ∨
        ∃ sql, before.source.statement context = .ok sql ∧
          StandsIn (before.condition context param) sql)
  unchanged : before.takes context param = false →
    after.source.statement context = before.source.statement context

lemma restricts_bind (leaf : Reached) : leaf.Restricts context param (leaf.bind param) where
  fields_eq := rfl
  declared_iff := leaf.info.has_declare_iff param
  has_statement _ := exists_statement_bind
  standsIn_iff restricted hrestricted := by
    cases htakes : leaf.takes context param with
    | true => simp [standsIn_statement_bind htakes hrestricted]
    | false =>
      rw [statement_bind_of_not_takes htakes] at hrestricted
      simp [hrestricted]
  unchanged := statement_bind_of_not_takes

end Reached

/-- **A restriction stands in the statements of the leaves that take it**, or that held it before;
all other leaves send what they sent before.  Below any node, with any fields and after any other
restrictions, these are the compiled leaves that do not mention the parameter themselves and the
leaves in fragments that do not declare it; a leaf that was restricted to it before declares it. -/
theorem Node.bind_restricts_iff (context : Context) (node : Node) (param : String)
    (fields : Option KeyFields) :
    List.Forall₂ (Reached.Restricts context param) (node.reachedBy param fields)
        ((node.bind param fields).reachedBy param fields) ∧
      ∀ again, ∀ leaf ∈ (node.bind param fields).reachedBy param again,
        leaf.info.params.has param = true := by
  refine ⟨?_, fun again => has_of_mem_reached node _ _⟩
  have hkeys : (node.bind param fields).info.keyFields param = node.info.keyFields param := by
    rw [bind, NodeInfo.keyFields, NodeInfo.keyFields, keys_info_bindFields]
  rw [reachedBy, reachedBy, hkeys, bind, reached_bindFields, List.forall₂_map_right_iff,
    List.forall₂_same]
  exact fun leaf _ => leaf.restricts_bind

/-- The compiled operand and the one in fragments hold the restriction; the one in fragments that
declares the parameter sends what it sent before. -/
theorem Node.bind_restricts_operands :
    let context := Context.answering []
    let parts : Fragments := { select := ["id"], source := some "users" }
    let keys : KeyMap := [("user", .single "id")]
    let node := Node.merge { name := "all" } [keyed "users" "user" "id",
      .leaf { name := "plain", keys } (.fragments "plain" parts),
      .leaf { name := "declared", keys, params := [("user", {})] } (.fragments "declared" parts)]
    ∃ compiled plain declared, (node.bind "user" none).reachedBy "user" none =
        [compiled, plain, declared] ∧
      (∀ sql, compiled.source.statement context = .ok sql →
        StandsIn "bound.\"id\" IN (:user)" sql) ∧
      (∀ sql, plain.source.statement context = .ok sql → StandsIn "id IN (:user)" sql) ∧
      declared.source.statement context = .ok "SELECT id FROM users" := by
  intro context parts keys node
  have hbefore : node.reachedBy "user" none =
      [⟨{ name := "users", keys }, .compiled "users" [] [], .single "id"⟩,
        ⟨{ name := "plain", keys }, .fragments "plain" parts, .single "id"⟩,
        ⟨{ name := "declared", keys, params := [("user", {})] }, .fragments "declared" parts,
          .single "id"⟩] := rfl
  have hrestricts := (bind_restricts_iff context node "user" none).1
  rw [hbefore, List.forall₂_cons_left_iff] at hrestricts
  obtain ⟨compiled, others, hcompiled, hothers, hafter⟩ := hrestricts
  obtain ⟨plain, last, hplain, hlast, rfl⟩ := List.forall₂_cons_left_iff.mp hothers
  obtain ⟨declared, none, hdeclared, hnone, rfl⟩ := List.forall₂_cons_left_iff.mp hlast
  obtain rfl := List.forall₂_nil_left_iff.mp hnone
  refine ⟨compiled, plain, declared, hafter, fun sql hsql => ?_, fun sql hsql => ?_, ?_⟩
  · have hmentions : Sql.mentions "users" "user" = false := by cbv
    have htakes : Reached.takes (.answering []) "user"
        ⟨{ name := "users", keys }, .compiled "users" [] [], .single "id"⟩ = true :=
      congrArg not hmentions
    exact (hcompiled.standsIn_iff sql hsql).mpr (.inl htakes)
  · exact (hplain.standsIn_iff sql hsql).mpr (.inl rfl)
  · exact hdeclared.unchanged rfl

/-- **The second restriction to a parameter gets lost.**  A leaf in fragments that does not mention
the parameter and does not declare it takes the restriction of its key, but not the one of another
field; the same statement, compiled, takes both. -/
theorem Node.bind_other_field :
    let keys : KeyMap := [("user", .single "id")]
    let parts : Fragments := { select := ["id", "name"], source := some "users" }
    let catalog : Catalog :=
      { compiled := [("members", { keys }, "SELECT id, name FROM users")]
        definitions := [("users", ⟨parts, { keys }⟩)] }
    let context := { Context.answering [] with store := catalog.toStore }
    let sent : Node → List (Except QueryError String) := fun node =>
      let twice := (node.bind "user" none).bind "user" (some (.single "name"))
      (twice.reachedBy "user" (some (.single "name"))).map fun leaf =>
        leaf.source.statement context
    let once := "SELECT id, name FROM users WHERE (id IN (:user))"
    let both := "SELECT * FROM (SELECT id, name FROM users) AS bound " ++
      "WHERE bound.\"id\" IN (:user) AND bound.\"name\" IN (:user)"
    ∃ users members, build catalog.toStore (.leaf "users") = .ok users ∧
      build catalog.toStore (.leaf "members") = .ok members ∧
      Sql.mentions "SELECT id, name FROM users" "user" = false ∧
      sent members = [.ok both] ∧ sent users = [.ok once] ∧
      ¬ StandsIn "name IN (:user)" once := by
  intro keys parts catalog context sent once both
  refine ⟨.leaf (.ofInterface "users" { keys }) (.fragments "users" parts),
    .leaf (.ofInterface "members" { keys }) (.compiled "members" [] []), rfl, rfl, by cbv, ?_, rfl,
    by decide +kernel⟩
  have hwrapped : wrapBindings (Context.answering []).database
      [⟨"user", .single "id"⟩, ⟨"user", .single "name"⟩] "SELECT id, name FROM users" =
        "SELECT * FROM (SELECT id, name FROM users) AS bound " ++
          "WHERE bound.\"id\" IN (:user) AND bound.\"name\" IN (:user)" := by
    cbv
  exact congrArg (fun sql => [Except.ok sql]) hwrapped

end QueryTerms
