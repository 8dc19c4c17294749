import Mathlib
import QueryTerms.Proofs.Query.Nodes
import QueryTerms.Resolver

/-!
# Resolved and adjusted queries

A query is resolved from a term and then adjusted: restricted, ordered, cut, given values to fall
back on.  Adjusting reaches the root, and by restrictions the nodes below it; what a composite node
has been made with stays otherwise.

**Built.**  `Query.IsBuilt` are the queries that can come about.

**Below the root.**  No node below the root has values to fall back on
(`Query.IsBuilt.hasNoDefaults`).

**The root.**  A composite root is always declared to read, whatever its leaves are declared to do
(`Query.IsBuilt.kind_of_composite`).
-/

namespace QueryTerms

/-- A query that was resolved from a term and then adjusted any number of times. -/
inductive Query.IsBuilt : Query → Prop
  | resolve {resolver : Resolver} {text : String} {query : Query} :
      resolver.resolve text = .ok query → IsBuilt query
  | bind {query : Query} (param : String) (field : Option String) :
      IsBuilt query → IsBuilt (query.bind param field)
  | key {query : Query} (field : String) : IsBuilt query → IsBuilt (query.key field)
  | order {query : Query} (field : String) (direction : Direction) :
      IsBuilt query → IsBuilt (query.order field direction)
  | group {query : Query} (grouped : Bool) : IsBuilt query → IsBuilt (query.group grouped)
  | max {query : Query} (count : Nat) : IsBuilt query → IsBuilt (query.max count)
  | params {query : Query} (values : Params) : IsBuilt query → IsBuilt (query.params values)

/-! ## Nodes -/

namespace Node

/-- Neither the node nor any node below it has values to fall back on. -/
inductive HasNoDefaults : Node → Prop
  | intro {node : Node} (here : node.info.defaults = [])
      (under : ∀ child ∈ node.children, child.HasNoDefaults) : node.HasNoDefaults

lemma HasNoDefaults.here {node : Node} : node.HasNoDefaults → node.info.defaults = []
  | .intro here _ => here

lemma HasNoDefaults.forall_children {node : Node} :
    node.HasNoDefaults → ∀ child ∈ node.children, child.HasNoDefaults
  | .intro _ under => under

/-- A node that runs a statement of its own. -/
def IsLeaf : Node → Prop
  | .leaf _ _ => True
  | _ => False

section Bind

variable {param : String} {fields : KeyFields} {node child : Node}

/-- Below a restricted node lie the same nodes, some of them restricted. -/
lemma exists_of_mem_children_bindFields (h : child ∈ (node.bindFields param fields).children) :
    ∃ old ∈ node.children, child = old ∨ ∃ given, child = old.bindFields param given := by
  have hall : ∀ {nodes : List Node}, child ∈ bindAll param fields nodes →
      ∃ old ∈ nodes, child = old ∨ ∃ given, child = old.bindFields param given := by
    intro nodes hmem
    rw [bindAll_eq_map, List.mem_map] at hmem
    obtain ⟨old, hold, rfl⟩ := hmem
    exact ⟨old, hold, .inr ⟨_, rfl⟩⟩
  cases node with
  | leaf info source => cases h
  | merge info operands => exact hall h
  | attach info key base joined =>
    rcases List.mem_cons.mp h with rfl | h
    · exact ⟨base, List.mem_cons_self, .inr ⟨_, rfl⟩⟩
    · exact ⟨child, List.mem_cons_of_mem _ h, .inl rfl⟩
  | filter info key narrowing base =>
    rw [bindFields, children, bindAll_concat] at h
    exact hall h
  | tree info base nested =>
    rcases List.mem_cons.mp h with rfl | h
    · exact ⟨base, List.mem_cons_self, .inr ⟨_, rfl⟩⟩
    · exact ⟨child, List.mem_cons_of_mem _ h, .inl rfl⟩

lemma HasNoDefaults.bindFields (h : node.HasNoDefaults) (fields : KeyFields) :
    (node.bindFields param fields).HasNoDefaults := by
  induction node using induction_on_children generalizing fields with
  | step node ih =>
    refine .intro ?_ fun child hchild => ?_
    · rw [info_bindFields]
      exact h.here
    · obtain ⟨old, hold, rfl | ⟨given, rfl⟩⟩ := exists_of_mem_children_bindFields hchild
      · exact h.forall_children child hold
      · exact ih old hold (h.forall_children old hold) given

lemma children_withInfo (info : NodeInfo) (node : Node) :
    (node.withInfo info).children = node.children := by
  cases node <;> rfl

lemma info_withInfo (info : NodeInfo) (node : Node) : (node.withInfo info).info = info := by
  cases node <;> rfl

lemma isLeaf_withInfo_iff {info : NodeInfo} : (node.withInfo info).IsLeaf ↔ node.IsLeaf := by
  cases node <;> rfl

lemma isLeaf_bindFields_iff : (node.bindFields param fields).IsLeaf ↔ node.IsLeaf := by
  cases node <;> rfl

end Bind

end Node

/-! ## Building -/

section Build

variable {store : Store} {scope : Option String} {name : String} {operands : List Node}
  {node : Node}

/-- A composite node as it is made: it has no values to fall back on, and is declared to read. -/
structure Node.IsFresh (node : Node) : Prop where
  composite : ¬ node.IsLeaf
  defaults : node.info.defaults = []
  kind : node.info.kind = .read

lemma isFresh_of_mergeNode (h : mergeNode name operands = .ok node) : node.IsFresh := by
  obtain ⟨_, -, h⟩ := bind_eq_ok_iff.mp h
  cases h
  exact ⟨not_false, rfl, rfl⟩

lemma isFresh_of_attachNode (h : attachNode name operands = .ok node) : node.IsFresh := by
  obtain ⟨_, -, h⟩ := bind_eq_ok_iff.mp h
  obtain ⟨_, -, h⟩ := bind_eq_ok_iff.mp h
  cases h
  exact ⟨not_false, rfl, rfl⟩

lemma isFresh_of_filterNode (h : filterNode name operands = .ok node) : node.IsFresh := by
  obtain ⟨_, -, h⟩ := bind_eq_ok_iff.mp h
  obtain ⟨_, -, h⟩ := bind_eq_ok_iff.mp h
  cases h
  exact ⟨not_false, rfl, rfl⟩

lemma defaults_of_buildLeaf {id : String} (h : buildLeaf store scope id = .ok node) :
    node.info.defaults = [] := by
  rw [buildLeaf] at h
  generalize leafCandidates scope id = candidates at h
  induction candidates with
  | nil => cases h
  | cons candidate rest ih =>
    obtain ⟨found, -, h⟩ := bind_eq_ok_iff.mp h
    cases found with
    | none => exact ih h
    | some entry =>
      cases h
      rfl

/-- The node of an operator is made afresh from the nodes of its operands. -/
lemma exists_operands_of_buildIn {term : Term} {terms : List Term}
    (hterm : term = .merge terms ∨ term = .attach terms ∨ term = .filter terms)
    (h : buildIn store scope term = .ok node) :
    ∃ operands, List.Forall₂ (fun term node => buildIn store scope term = .ok node)
        terms operands ∧ node.IsFresh ∧ node.IsMadeFrom operands := by
  rcases hterm with rfl | rfl | rfl <;> rw [buildIn] at h <;>
    obtain ⟨operands, hoperands, hnode⟩ := bind_eq_ok_iff.mp h <;>
    refine ⟨operands, buildAll_eq_ok_iff.mp hoperands, ?_⟩
  · exact ⟨isFresh_of_mergeNode hnode, isMadeFrom_of_mergeNode hnode⟩
  · exact ⟨isFresh_of_attachNode hnode, isMadeFrom_of_attachNode hnode⟩
  · exact ⟨isFresh_of_filterNode hnode, isMadeFrom_of_filterNode hnode⟩

lemma hasNoDefaults_of_isMadeFrom (hfresh : node.IsFresh) (h : node.IsMadeFrom operands)
    (hoperands : ∀ operand ∈ operands, operand.HasNoDefaults) : node.HasNoDefaults := by
  refine .intro hfresh.defaults fun child hchild => ?_
  obtain ⟨operand, hmem, rfl | ⟨param, fields, rfl⟩⟩ := exists_of_forall₂_right h.children hchild
  · exact hoperands child hmem
  · exact (hoperands operand hmem).bindFields _

lemma hasNoDefaults_of_forall₂ {terms : List Term}
    (h : List.Forall₂ (fun term node => buildIn store scope term = .ok node) terms operands)
    (hall : ∀ term ∈ terms, ∀ {scope : Option String} {node : Node},
      buildIn store scope term = .ok node → node.HasNoDefaults) :
    ∀ operand ∈ operands, operand.HasNoDefaults := by
  intro operand hmem
  obtain ⟨term, hterm, hbuilt⟩ := exists_of_forall₂_right h hmem
  exact hall term hterm hbuilt

/-- **What is built has no values to fall back on.** -/
theorem hasNoDefaults_of_buildIn {term : Term} (h : buildIn store scope term = .ok node) :
    node.HasNoDefaults := by
  induction term using Term.induction_on_members generalizing scope node with
  | leaf id =>
    rw [buildIn] at h
    obtain ⟨info, source, rfl⟩ := exists_leaf_of_buildLeaf h
    exact .intro (defaults_of_buildLeaf h) fun _ hmem => absurd hmem List.not_mem_nil
  | merge terms ih =>
    obtain ⟨operands, hoperands, hfresh, hmade⟩ := exists_operands_of_buildIn (.inl rfl) h
    exact hasNoDefaults_of_isMadeFrom hfresh hmade (hasNoDefaults_of_forall₂ hoperands ih)
  | attach terms ih =>
    obtain ⟨operands, hoperands, hfresh, hmade⟩ := exists_operands_of_buildIn (.inr (.inl rfl)) h
    exact hasNoDefaults_of_isMadeFrom hfresh hmade (hasNoDefaults_of_forall₂ hoperands ih)
  | filter terms ih =>
    obtain ⟨operands, hoperands, hfresh, hmade⟩ := exists_operands_of_buildIn (.inr (.inr rfl)) h
    exact hasNoDefaults_of_isMadeFrom hfresh hmade (hasNoDefaults_of_forall₂ hoperands ih)
  | tree id terms ih =>
    rw [buildIn] at h
    obtain ⟨leaf, hleaf, h⟩ := bind_eq_ok_iff.mp h
    obtain ⟨⟨base, children⟩, hchildren, h⟩ := bind_eq_ok_iff.mp h
    cases h
    obtain ⟨nodes, hnodes, hmade⟩ := isMadeFrom_of_children hleaf hchildren
    have hdefaults := defaults_of_buildLeaf hleaf
    obtain ⟨info, source, rfl⟩ := exists_leaf_of_buildLeaf hleaf
    obtain ⟨⟨other, rfl⟩, -⟩ := buildChildren_eq_ok hchildren
    refine hasNoDefaults_of_isMadeFrom ⟨not_false, rfl, rfl⟩ hmade
      (List.forall_mem_cons.mpr ⟨?_, ?_⟩)
    · exact .intro hdefaults fun _ hmem => absurd hmem List.not_mem_nil
    · exact hasNoDefaults_of_forall₂ hnodes ih

/-- A leaf for an id, a composite that is declared to read for any other term. -/
def Node.StandsFor (node : Node) : Term → Prop
  | .leaf _ => node.IsLeaf
  | _ => ¬ node.IsLeaf ∧ node.info.kind = .read

lemma standsFor_of_buildIn {term : Term} (h : buildIn store scope term = .ok node) :
    node.StandsFor term := by
  cases term with
  | leaf id =>
    rw [buildIn] at h
    obtain ⟨info, source, rfl⟩ := exists_leaf_of_buildLeaf h
    exact trivial
  | merge terms =>
    obtain ⟨-, -, hfresh, -⟩ := exists_operands_of_buildIn (.inl rfl) h
    exact ⟨hfresh.composite, hfresh.kind⟩
  | attach terms =>
    obtain ⟨-, -, hfresh, -⟩ := exists_operands_of_buildIn (.inr (.inl rfl)) h
    exact ⟨hfresh.composite, hfresh.kind⟩
  | filter terms =>
    obtain ⟨-, -, hfresh, -⟩ := exists_operands_of_buildIn (.inr (.inr rfl)) h
    exact ⟨hfresh.composite, hfresh.kind⟩
  | tree id terms =>
    rw [buildIn] at h
    obtain ⟨leaf, -, h⟩ := bind_eq_ok_iff.mp h
    obtain ⟨⟨base, children⟩, -, h⟩ := bind_eq_ok_iff.mp h
    cases h
    exact ⟨not_false, rfl⟩

lemma Node.StandsFor.congr {node other : Node} {term : Term} (h : node.StandsFor term)
    (hleaf : other.IsLeaf ↔ node.IsLeaf) (hkind : other.info.kind = node.info.kind) :
    other.StandsFor term := by
  cases term with
  | leaf id => exact hleaf.mpr h
  | _ => exact ⟨fun hother => h.1 (hleaf.mp hother), hkind.trans h.2⟩

end Build

/-! ## Queries -/

namespace Query

lemma exists_build_of_resolve {resolver : Resolver} {text : String} {query : Query}
    (h : resolver.resolve text = .ok query) :
    resolver.parse text = .ok query.term ∧ buildIn resolver.store none query.term = .ok query.root ∧
      query.resolver = resolver := by
  rw [Resolver.resolve] at h
  split at h
  · cases h
  · next term hparse =>
    obtain ⟨root, hroot, h⟩ := bind_eq_ok_iff.mp h
    cases h
    exact ⟨hparse, hroot, rfl⟩

/-- Apart from a restriction, adjusting leaves the nodes below the root as they are. -/
lemma children_mapInfo (query : Query) (change : NodeInfo → NodeInfo) :
    (query.mapInfo change).root.children = query.root.children := by
  rw [mapInfo, Node.children_withInfo]

/-- No node below the root of a query has values to fall back on. -/
theorem IsBuilt.hasNoDefaults {query : Query} (h : query.IsBuilt) :
    ∀ child ∈ query.root.children, child.HasNoDefaults := by
  induction h with
  | resolve hresolve =>
    exact (hasNoDefaults_of_buildIn (exists_build_of_resolve hresolve).2.1).forall_children
  | bind param field _ ih =>
    intro child hchild
    obtain ⟨old, hold, rfl | ⟨given, rfl⟩⟩ := Node.exists_of_mem_children_bindFields hchild
    · exact ih child hold
    · exact (ih old hold).bindFields given
  | key field _ ih => exact (children_mapInfo _ _).symm ▸ ih
  | order field direction _ ih => exact (children_mapInfo _ _).symm ▸ ih
  | group grouped _ ih => exact (children_mapInfo _ _).symm ▸ ih
  | max count _ ih => exact (children_mapInfo _ _).symm ▸ ih
  | params values _ ih => exact (children_mapInfo _ _).symm ▸ ih

lemma standsFor_mapInfo {query : Query} {change : NodeInfo → NodeInfo}
    (h : query.root.StandsFor query.term) (hkind : ∀ info, (change info).kind = info.kind) :
    (query.mapInfo change).root.StandsFor (query.mapInfo change).term := by
  refine h.congr Node.isLeaf_withInfo_iff ?_
  rw [mapInfo, Node.info_withInfo, hkind]

/-- Adjusting keeps the term, and the root stands for it. -/
lemma IsBuilt.standsFor {query : Query} (h : query.IsBuilt) :
    query.root.StandsFor query.term := by
  induction h with
  | resolve hresolve => exact standsFor_of_buildIn (exists_build_of_resolve hresolve).2.1
  | @bind query param field _ ih =>
    have hinfo : (query.bind param field).root.info = query.root.info.declare param :=
      Node.info_bindFields query.root
    refine Node.StandsFor.congr ih Node.isLeaf_bindFields_iff ?_
    rw [hinfo]
    rfl
  | key field _ ih => exact standsFor_mapInfo ih fun _ => rfl
  | order field direction _ ih => exact standsFor_mapInfo ih fun _ => rfl
  | group grouped _ ih => exact standsFor_mapInfo ih fun _ => rfl
  | max count _ ih => exact standsFor_mapInfo ih fun _ => rfl
  | params values _ ih => exact standsFor_mapInfo ih fun _ => rfl

/-- **A composite root is declared to read**, whatever the leaves below it are declared to do. -/
theorem IsBuilt.kind_of_composite {query : Query} (h : query.IsBuilt)
    (hterm : ∀ id, query.term ≠ .leaf id) :
    ¬ query.root.IsLeaf ∧ query.root.info.kind = .read := by
  have hstands := h.standsFor
  cases hquery : query.term with
  | leaf id => exact absurd hquery (hterm id)
  | _ =>
    rw [hquery] at hstands
    exact hstands

end Query

end QueryTerms
