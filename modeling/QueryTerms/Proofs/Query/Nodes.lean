import Mathlib
import QueryTerms.Proofs.Key
import QueryTerms.Proofs.Outcome
import QueryTerms.Proofs.Query.Restricting
import QueryTerms.Proofs.Term.Canonical
import QueryTerms.Query.Build

/-!
# What a node knows of the nodes below it

When a term is built, a composite node takes over the keys and parameters of nodes below it, and
some of these are restricted before that, others after.  What it knows stays true of them.

**Nodes below.**  `Node.children` are the nodes right below a node; proofs about nodes go by
`Node.induction_on_children`.

**Knowing.**  `Node.Coheres` says that a node's keys and parameters are those of its base, or of all
its operands together; `Node.IsCoherent` says it of all nodes below, too.  Restricting keeps it
(`isCoherent_bindFields`).

**Building.**  A composite is made from its operands, each restricted or left alone
(`Node.IsMadeFrom`).  What is built is coherent and has `Term.nodeCount` nodes:
`coherent_and_counted_of_buildIn`.
-/

namespace QueryTerms

namespace Node

/-! ## Nodes below -/

lemma sizeOfAll_append (nodes more : List Node) :
    sizeOfAll (nodes ++ more) = sizeOfAll nodes + sizeOfAll more := by
  induction nodes with
  | nil => rw [List.nil_append, sizeOfAll, Nat.zero_add]
  | cons node rest ih => rw [List.cons_append, sizeOfAll, sizeOfAll, ih, Nat.add_assoc]

lemma sizeOfNested_eq (nested : List (NestJoin × Node)) :
    sizeOfNested nested = sizeOfAll (nested.map Prod.snd) := by
  induction nested with
  | nil => rw [sizeOfNested, List.map_nil, sizeOfAll]
  | cons child rest ih => rw [sizeOfNested, List.map_cons, sizeOfAll, ih]

/-- A node, and those below it. -/
lemma size_eq (node : Node) : node.size = sizeOfAll node.children + 1 := by
  cases node with
  | leaf info source => rw [size, children, sizeOfAll]
  | merge info operands => rw [size, children, Nat.add_comm]
  | attach info key base joined => rw [size, children, sizeOfAll]; omega
  | filter info key narrowing base =>
    rw [size, children, sizeOfAll_append, sizeOfAll, sizeOfAll]; omega
  | tree info base nested => rw [size, children, sizeOfAll, sizeOfNested_eq]; omega

lemma size_pos (node : Node) : 0 < node.size := by
  rw [size_eq]
  exact Nat.succ_pos _

lemma size_le_sizeOfAll {node : Node} {nodes : List Node} (h : node ∈ nodes) :
    node.size ≤ sizeOfAll nodes := by
  induction nodes with
  | nil => cases h
  | cons first rest ih =>
    rw [sizeOfAll]
    rcases List.mem_cons.mp h with rfl | h
    · exact Nat.le_add_right _ _
    · exact (ih h).trans (Nat.le_add_left _ _)

lemma sizeOfAll_congr {nodes others : List Node} (h : nodes.map size = others.map size) :
    sizeOfAll nodes = sizeOfAll others := by
  induction nodes generalizing others with
  | nil => rw [List.map_eq_nil_iff.mp h.symm]
  | cons node rest ih =>
    obtain ⟨other, more, rfl, hnode, hrest⟩ := List.map_eq_cons_iff.mp h.symm
    rw [sizeOfAll, sizeOfAll, hnode, ih hrest.symm]

/-- Induction over a node and the nodes below it. -/
@[elab_as_elim]
theorem induction_on_children {P : Node → Prop} (node : Node)
    (step : ∀ node, (∀ child ∈ node.children, P child) → P node) : P node := by
  induction hsize : node.size using Nat.strong_induction_on generalizing node with
  | _ size ih =>
    refine step node fun child hchild => ih child.size ?_ child rfl
    rw [← hsize, size_eq node]
    exact Nat.lt_succ_of_le (size_le_sizeOfAll hchild)

/-! ## Knowing -/

end Node

/-- The keys and parameters of all operands together; the first declaration of a key counts. -/
structure NodeInfo.IsUnionOf (info : NodeInfo) (operands : List NodeInfo) : Prop where
  ne_nil : operands ≠ []
  keys : info.keys = unionKeys (operands.map NodeInfo.keys)
  first : ∀ key, info.keys.get? key = operands.findSome? fun operand => operand.keys.get? key
  params : ∀ name, info.params.has name = true ↔
    ∃ operand ∈ operands, operand.params.has name = true

/-- The keys and parameters of a base. -/
structure NodeInfo.Follows (info base : NodeInfo) : Prop where
  keys : info.keys = base.keys
  params : info.params.keys = base.params.keys

section Declare

variable {info base : NodeInfo}

lemma NodeInfo.Follows.declare (h : info.Follows base) (param : String) :
    (info.declare param).Follows (base.declare param) where
  keys := h.keys
  params := by
    have hhas : info.params.has param = base.params.has param := by
      rw [Bool.eq_iff_iff, Table.has_iff_mem_keys, Table.has_iff_mem_keys, h.params]
    rw [NodeInfo.declare, NodeInfo.declare, Table.setNew, Table.setNew, hhas]
    split
    · exact h.params
    · rw [Table.keys, Table.keys, List.map_append, List.map_append]
      exact congrArg (· ++ _) h.params

lemma NodeInfo.IsUnionOf.declare {operands : List NodeInfo} (h : info.IsUnionOf operands)
    (param : String) :
    (info.declare param).IsUnionOf (operands.map fun operand => operand.declare param) where
  ne_nil := by simpa using h.ne_nil
  keys := by rw [List.map_map]; exact h.keys
  first key := by rw [List.findSome?_map]; exact h.first key
  params name := by
    obtain ⟨operand, hoperand⟩ := List.exists_mem_of_ne_nil operands h.ne_nil
    simp only [List.mem_map, exists_exists_and_eq_and, has_declare_iff, h.params]
    constructor
    · rintro (hname | ⟨other, hother, hhas⟩)
      · exact ⟨operand, hoperand, .inl hname⟩
      · exact ⟨other, hother, .inr hhas⟩
    · rintro ⟨other, hother, hname | hhas⟩
      · exact .inl hname
      · exact .inr ⟨other, hother, hhas⟩

end Declare

namespace Node

/-- The node's keys and parameters are those of the nodes right below it, or of its base. -/
def Coheres : Node → Prop
  | .leaf _ _ => True
  | .merge info operands => info.IsUnionOf (operands.map Node.info)
  | .attach info _ base _ => info.Follows base.info
  | .filter info _ narrowing base => info.IsUnionOf ((narrowing ++ [base]).map Node.info)
  | .tree info base _ => info.Follows base.info

/-- The node coheres, and so do all nodes below it. -/
inductive IsCoherent : Node → Prop
  | intro {node : Node} (here : node.Coheres) (below : ∀ child ∈ node.children, child.IsCoherent) :
    node.IsCoherent

lemma IsCoherent.coheres {node : Node} : node.IsCoherent → node.Coheres
  | .intro here _ => here

lemma IsCoherent.forall_children {node : Node} :
    node.IsCoherent → ∀ child ∈ node.children, child.IsCoherent
  | .intro _ below => below

section Bind

variable {param : String} {fields : KeyFields}

lemma bindAll_eq_map (nodes : List Node) :
    bindAll param fields nodes =
      nodes.map fun node => node.bindFields param (handedDown param fields node.info) := by
  induction nodes with
  | nil => rw [bindAll, List.map_nil]
  | cons node rest ih => rw [bindAll, ih, List.map_cons]

/-- The base of an intersection is restricted as its other operands are. -/
lemma bindAll_concat (nodes : List Node) (base : Node) :
    bindAll param fields nodes ++ [base.bindFields param (handedDown param fields base.info)] =
      bindAll param fields (nodes ++ [base]) := by
  rw [bindAll_eq_map, bindAll_eq_map, List.map_append, List.map_singleton]

lemma info_bindFields (node : Node) :
    (node.bindFields param fields).info = node.info.declare param := by
  cases node <;> rfl

lemma map_info_bindAll (nodes : List Node) :
    (bindAll param fields nodes).map Node.info =
      (nodes.map Node.info).map fun info => info.declare param := by
  rw [bindAll_eq_map, List.map_map, List.map_map]
  exact List.map_congr_left fun node _ => info_bindFields node

/-- **A restriction tells the nodes above of itself.** -/
theorem isCoherent_bindFields {node : Node} (h : node.IsCoherent) (fields : KeyFields) :
    (node.bindFields param fields).IsCoherent := by
  induction node using induction_on_children generalizing fields with
  | step node ih =>
    have hbelow := h.forall_children
    have hhere := h.coheres
    cases node with
    | leaf info source => exact .intro trivial fun _ hmem => absurd hmem List.not_mem_nil
    | merge info operands =>
      refine .intro ?_ ?_
      · rw [bindFields, Coheres, map_info_bindAll]
        exact hhere.declare param
      · rw [bindFields, children, bindAll_eq_map, List.forall_mem_map]
        exact fun child hchild => ih child hchild (hbelow child hchild) _
    | attach info key base joined =>
      obtain ⟨hbase, hjoined⟩ := List.forall_mem_cons.mp hbelow
      refine .intro ?_ ?_
      · rw [bindFields, Coheres, info_bindFields]
        exact hhere.declare param
      · exact List.forall_mem_cons.mpr ⟨ih base List.mem_cons_self hbase _, hjoined⟩
    | filter info key narrowing base =>
      refine .intro ?_ ?_
      · rw [bindFields, Coheres, bindAll_concat, map_info_bindAll]
        exact hhere.declare param
      · rw [bindFields, children, bindAll_concat, bindAll_eq_map, List.forall_mem_map]
        exact fun child hchild => ih child hchild (hbelow child hchild) _
    | tree info base nested =>
      obtain ⟨hbase, hnested⟩ := List.forall_mem_cons.mp hbelow
      refine .intro ?_ ?_
      · rw [bindFields, Coheres, info_bindFields]
        exact hhere.declare param
      · exact List.forall_mem_cons.mpr ⟨ih base List.mem_cons_self hbase _, hnested⟩

end Bind

lemma isCoherent_bind {node : Node} (h : node.IsCoherent) (param : String)
    (fields : Option KeyFields) : (node.bind param fields).IsCoherent :=
  isCoherent_bindFields h _

lemma size_bindFields (node : Node) (param : String) (fields : KeyFields) :
    (node.bindFields param fields).size = node.size := by
  induction node using induction_on_children generalizing fields with
  | step node ih =>
    have hall : ∀ nodes : List Node, (∀ child ∈ nodes, child ∈ node.children) →
        sizeOfAll (bindAll param fields nodes) = sizeOfAll nodes := by
      intro nodes hnodes
      refine sizeOfAll_congr ?_
      rw [bindAll_eq_map, List.map_map]
      exact List.map_congr_left fun child hchild => ih child (hnodes child hchild) _
    cases node with
    | leaf info source => rfl
    | merge info operands => rw [bindFields, size, size, hall operands fun _ hmem => hmem]
    | attach info key base joined => rw [bindFields, size, size, ih base List.mem_cons_self]
    | filter info key narrowing base =>
      rw [bindFields, size, size, ih base (List.mem_append_right _ List.mem_cons_self),
        hall narrowing fun _ hmem => List.mem_append_left _ hmem]
    | tree info base nested => rw [bindFields, size, size, ih base List.mem_cons_self]

lemma size_bind (node : Node) (param : String) (fields : Option KeyFields) :
    (node.bind param fields).size = node.size :=
  size_bindFields node param _

end Node

/-! ## Counting -/

namespace Term

mutual

/-- The number of nodes that a term stands for: a tree has one for itself and one for its id. -/
def nodeCount : Term → Nat
  | .leaf _ => 1
  | .merge terms => nodeCountOfAll terms + 1
  | .attach terms => nodeCountOfAll terms + 1
  | .filter terms => nodeCountOfAll terms + 1
  | .tree _ children => nodeCountOfAll children + 2

def nodeCountOfAll : List Term → Nat
  | [] => 0
  | term :: rest => term.nodeCount + nodeCountOfAll rest

end

end Term

/-! ## Building -/

section Linking

variable {parent child node : Node} {label : String} {join : NestJoin}

/-- A link leaves the parent as it is, or changes the fragments of a leaf. -/
lemma link_parent (h : link parent child label = .ok (node, join)) :
    node = parent ∨ ∃ info id parts others, parent = .leaf info (.fragments id parts) ∧
      node = .leaf info (.fragments id others) := by
  have hbyKey : linkByKey parent child label = .ok (node, join) →
      node = parent ∨ ∃ info id parts others, parent = .leaf info (.fragments id parts) ∧
        node = .leaf info (.fragments id others) := by
    intro h
    rw [linkByKey] at h
    obtain ⟨key, -, h⟩ := bind_eq_ok_iff.mp h
    split at h
    · cases h
      exact .inr ⟨_, _, _, _, rfl, rfl⟩
    · cases h
      exact .inl rfl
  unfold link at h
  split at h
  · split at h
    · cases h
      exact .inl rfl
    · exact hbyKey h
  · exact hbyKey h

/-- A link changes what a parent selects, not what it is known by. -/
lemma link_info (h : link parent child label = .ok (node, join)) : node.info = parent.info := by
  rcases link_parent h with rfl | ⟨info, id, parts, others, rfl, rfl⟩ <;> rfl

lemma exists_leaf_of_link {info : NodeInfo} {source : LeafSource}
    (h : link (.leaf info source) child label = .ok (node, join)) :
    ∃ other, node = .leaf info other := by
  rcases link_parent h with rfl | ⟨_, id, parts, others, heq, rfl⟩
  · exact ⟨source, rfl⟩
  · cases heq
    exact ⟨_, rfl⟩

end Linking

section Build

variable {store : Store} {scope : Option String}

lemma exists_leaf_of_buildLeaf {id : String} {node : Node}
    (h : buildLeaf store scope id = .ok node) : ∃ info source, node = .leaf info source := by
  rw [buildLeaf] at h
  generalize leafCandidates scope id = candidates at h
  induction candidates with
  | nil => cases h
  | cons candidate rest ih =>
    obtain ⟨found, -, h⟩ := bind_eq_ok_iff.mp h
    cases found with
    | none => exact ih h
    | some entry =>
      cases h
      exact ⟨_, _, rfl⟩

lemma buildAll_eq_ok_iff {terms : List Term} {nodes : List Node} :
    buildAll store scope terms = .ok nodes ↔
      List.Forall₂ (fun term node => buildIn store scope term = .ok node) terms nodes := by
  induction terms generalizing nodes with
  | nil =>
    rw [buildAll, List.forall₂_nil_left_iff, Except.ok.injEq, eq_comm]
  | cons term rest ih =>
    rw [buildAll, bind_eq_ok_iff, List.forall₂_cons_left_iff]
    constructor
    · rintro ⟨node, hnode, h⟩
      obtain ⟨others, hothers, h⟩ := bind_eq_ok_iff.mp h
      cases h
      exact ⟨node, others, hnode, ih.mp hothers, rfl⟩
    · rintro ⟨node, others, hnode, hothers, rfl⟩
      exact ⟨node, hnode, bind_eq_ok_iff.mpr ⟨others, ih.mpr hothers, rfl⟩⟩

/-- Children are built one after another, and restricted to what they are joined on. -/
lemma buildChildren_eq_ok {info : NodeInfo} {source : LeafSource} {terms : List Term}
    {base : Node} {children : List (NestJoin × Node)}
    (h : buildChildren store (.leaf info source) terms = .ok (base, children)) :
    (∃ other, base = .leaf info other) ∧
      List.Forall₂ (fun term child => ∃ node, buildIn store (some info.name) term = .ok node ∧
        child.2 = node.bind child.1.param (some child.1.child)) terms children := by
  induction terms generalizing source children with
  | nil =>
    cases h
    exact ⟨⟨source, rfl⟩, .nil⟩
  | cons term rest ih =>
    rw [buildChildren] at h
    obtain ⟨node, hnode, h⟩ := bind_eq_ok_iff.mp h
    obtain ⟨⟨parent, join⟩, hlink, h⟩ := bind_eq_ok_iff.mp h
    obtain ⟨⟨last, others⟩, hothers, h⟩ := bind_eq_ok_iff.mp h
    cases h
    obtain ⟨other, rfl⟩ := exists_leaf_of_link hlink
    obtain ⟨hlast, hrest⟩ := ih hothers
    exact ⟨hlast, .cons ⟨node, hnode, rfl⟩ hrest⟩

/-! ### What composite nodes are made of -/

lemma isUnionOf_unionInfo (name : String) {operands : List Node} (hne : operands ≠ []) :
    (unionInfo name operands).IsUnionOf (operands.map Node.info) where
  ne_nil := by simpa using hne
  keys := by rw [List.map_map]; rfl
  first key := by rw [unionInfo, get?_unionKeys, List.findSome?_map, List.findSome?_map]; rfl
  params param := by
    rw [unionInfo, Table.has, Table.get?_foldl_extendNew, Table.get?_nil, Option.none_or,
      List.isSome_findSome?, List.any_eq_true]
    simp [Table.has]

lemma follows_baseInfo (name : String) (base : Node) : (baseInfo name base).Follows base.info :=
  ⟨rfl, rfl⟩

lemma mergeNode_of_ne_nil (name : String) {operands : List Node} (h : operands ≠ []) :
    mergeNode name operands = .ok (.merge (unionInfo name operands) operands) := by
  cases operands with
  | nil => exact absurd rfl h
  | cons first rest => rfl

lemma attachNode_cons (name : String) (base : Node) (rest : List Node) :
    attachNode name (base :: rest) = (do
      let key ← operandKey name (base :: rest)
      return .attach (baseInfo name base) key base (rest.map (Node.bind key none))) := rfl

lemma filterNode_concat (name : String) (narrowing : List Node) (base : Node) :
    filterNode name (narrowing ++ [base]) = (do
      let key ← operandKey name (narrowing ++ [base])
      return .filter (unionInfo name (narrowing.map (Node.bind key none) ++ [base])) key
        (narrowing.map (Node.bind key none)) base) := by
  cases narrowing with
  | nil => rfl
  | cons first rest =>
    rw [List.cons_append, filterNode, someOperand, ok_bind_eq]
    simp only [← List.cons_append, List.dropLast_concat, List.getLast_append_singleton]

/-! ### All that is built -/

/-- A node that coheres, over operands each of which may have been restricted for it. -/
structure Node.IsMadeFrom (node : Node) (operands : List Node) : Prop where
  coheres : node.Coheres
  children : List.Forall₂ (fun operand child =>
    child = operand ∨ ∃ param fields, child = operand.bind param fields) operands node.children

lemma isCoherent_of_isMadeFrom {node : Node} {operands : List Node} (h : node.IsMadeFrom operands)
    (hoperands : ∀ operand ∈ operands, operand.IsCoherent) : node.IsCoherent := by
  refine .intro h.coheres fun child hchild => ?_
  obtain ⟨operand, hmem, rfl | ⟨param, fields, rfl⟩⟩ := exists_of_forall₂_right h.children hchild
  · exact hoperands child hmem
  · exact Node.isCoherent_bind (hoperands operand hmem) param fields

lemma size_of_isMadeFrom {node : Node} {operands : List Node} (h : node.IsMadeFrom operands) :
    node.size = Node.sizeOfAll operands + 1 := by
  have hsizes : node.children.map Node.size = operands.map Node.size := by
    rw [eq_comm, ← List.forall₂_eq_eq_eq, List.forall₂_map_left_iff, List.forall₂_map_right_iff]
    refine h.children.imp fun operand child hchild => ?_
    obtain rfl | ⟨param, fields, rfl⟩ := hchild
    · rfl
    · rw [Node.size_bind]
  rw [Node.size_eq, Node.sizeOfAll_congr hsizes]

section Operands

variable {name : String} {operands : List Node} {node : Node}

lemma isMadeFrom_of_mergeNode (h : mergeNode name operands = .ok node) :
    node.IsMadeFrom operands := by
  by_cases hne : operands = []
  · rw [hne] at h
    cases h
  · rw [mergeNode_of_ne_nil name hne] at h
    cases h
    exact ⟨isUnionOf_unionInfo name hne, List.forall₂_same.mpr fun _ _ => .inl rfl⟩

lemma isMadeFrom_of_attachNode (h : attachNode name operands = .ok node) :
    node.IsMadeFrom operands := by
  cases operands with
  | nil => cases h
  | cons base rest =>
    rw [attachNode_cons] at h
    obtain ⟨key, -, h⟩ := bind_eq_ok_iff.mp h
    cases h
    refine ⟨follows_baseInfo name base, .cons (.inl rfl) ?_⟩
    rw [List.forall₂_map_right_iff, List.forall₂_same]
    exact fun operand _ => .inr ⟨key, none, rfl⟩

lemma isMadeFrom_of_filterNode (h : filterNode name operands = .ok node) :
    node.IsMadeFrom operands := by
  rcases List.eq_nil_or_concat operands with rfl | ⟨narrowing, base, rfl⟩
  · cases h
  · rw [List.concat_eq_append, filterNode_concat] at *
    obtain ⟨key, -, h⟩ := bind_eq_ok_iff.mp h
    cases h
    refine ⟨isUnionOf_unionInfo name (by simp), List.rel_append ?_ (.cons (.inl rfl) .nil)⟩
    rw [List.forall₂_map_right_iff, List.forall₂_same]
    exact fun operand _ => .inr ⟨key, none, rfl⟩

end Operands

lemma isMadeFrom_of_children {id : String} {terms : List Term} {leaf base : Node}
    {children : List (NestJoin × Node)} (hleaf : buildLeaf store scope id = .ok leaf)
    (hchildren : buildChildren store leaf terms = .ok (base, children)) :
    ∃ nodes, List.Forall₂ (fun term node => buildIn store (some leaf.info.name) term = .ok node)
        terms nodes ∧
      (Node.tree { baseInfo leaf.info.name base with scope := some leaf.info.name } base
        children).IsMadeFrom (base :: nodes) := by
  obtain ⟨leafInfo, source, rfl⟩ := exists_leaf_of_buildLeaf hleaf
  obtain ⟨-, h⟩ := buildChildren_eq_ok hchildren
  obtain ⟨nodes, hnodes, hbound⟩ := forall₂_exists_iff.mp h
  refine ⟨nodes, hnodes, ⟨rfl, rfl⟩, .cons (.inl rfl) ?_⟩
  rw [List.forall₂_map_right_iff]
  exact hbound.imp fun node child hchild => .inr ⟨_, _, hchild⟩

lemma coherent_and_counted_of_forall₂ {terms : List Term} {nodes : List Node}
    (h : List.Forall₂ (fun term node => buildIn store scope term = .ok node) terms nodes)
    (hall : ∀ term ∈ terms, ∀ {scope : Option String} {node : Node},
      buildIn store scope term = .ok node → node.IsCoherent ∧ node.size = term.nodeCount) :
    (∀ node ∈ nodes, node.IsCoherent) ∧ Node.sizeOfAll nodes = Term.nodeCountOfAll terms := by
  induction h with
  | nil => exact ⟨fun _ hmem => absurd hmem List.not_mem_nil, rfl⟩
  | cons hnode _ ih =>
    obtain ⟨hfirst, hrest⟩ := List.forall_mem_cons.mp hall
    obtain ⟨hcoherent, hsize⟩ := hfirst hnode
    obtain ⟨hothers, hsizes⟩ := ih hrest
    exact ⟨List.forall_mem_cons.mpr ⟨hcoherent, hothers⟩, congrArg₂ (· + ·) hsize hsizes⟩

/-- **What is built knows what it stands on, and has the nodes that the term calls for.** -/
theorem coherent_and_counted_of_buildIn {term : Term} {node : Node}
    (h : buildIn store scope term = .ok node) : node.IsCoherent ∧ node.size = term.nodeCount := by
  -- an operator and the nodes of its operands, however it links them
  have hoperator : ∀ {terms : List Term} {compose : List Node → Except QueryError Node}
      {scope : Option String} {node : Node},
      (do compose (← buildAll store scope terms)) = .ok node →
      (∀ {operands : List Node}, compose operands = .ok node → node.IsMadeFrom operands) →
      (∀ term ∈ terms, ∀ {scope : Option String} {node : Node},
        buildIn store scope term = .ok node → node.IsCoherent ∧ node.size = term.nodeCount) →
      node.IsCoherent ∧ node.size = Term.nodeCountOfAll terms + 1 := by
    intro terms compose scope node h hmade ih
    obtain ⟨operands, hoperands, hnode⟩ := bind_eq_ok_iff.mp h
    obtain ⟨hcoherent, hsize⟩ :=
      coherent_and_counted_of_forall₂ (buildAll_eq_ok_iff.mp hoperands) ih
    rw [size_of_isMadeFrom (hmade hnode), hsize]
    exact ⟨isCoherent_of_isMadeFrom (hmade hnode) hcoherent, rfl⟩
  induction term using Term.induction_on_members generalizing scope node with
  | leaf id =>
    rw [buildIn] at h
    obtain ⟨info, source, rfl⟩ := exists_leaf_of_buildLeaf h
    exact ⟨.intro trivial fun _ hmem => absurd hmem List.not_mem_nil, rfl⟩
  | merge terms ih =>
    rw [buildIn] at h
    exact hoperator h isMadeFrom_of_mergeNode ih
  | attach terms ih =>
    rw [buildIn] at h
    exact hoperator h isMadeFrom_of_attachNode ih
  | filter terms ih =>
    rw [buildIn] at h
    exact hoperator h isMadeFrom_of_filterNode ih
  | tree id terms ih =>
    rw [buildIn] at h
    obtain ⟨leaf, hleaf, h⟩ := bind_eq_ok_iff.mp h
    obtain ⟨⟨base, children⟩, hchildren, h⟩ := bind_eq_ok_iff.mp h
    cases h
    obtain ⟨nodes, hnodes, hmade⟩ := isMadeFrom_of_children hleaf hchildren
    obtain ⟨hcoherent, hsize⟩ := coherent_and_counted_of_forall₂ hnodes ih
    obtain ⟨info, source, rfl⟩ := exists_leaf_of_buildLeaf hleaf
    obtain ⟨⟨other, rfl⟩, -⟩ := buildChildren_eq_ok hchildren
    refine ⟨isCoherent_of_isMadeFrom hmade (List.forall_mem_cons.mpr ⟨?_, hcoherent⟩), ?_⟩
    · exact .intro trivial fun _ hmem => absurd hmem List.not_mem_nil
    · rw [size_of_isMadeFrom hmade, Node.sizeOfAll, Node.size, hsize, Term.nodeCount]
      omega

end Build

end QueryTerms
