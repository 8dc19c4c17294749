import Mathlib
import QueryTerms.Proofs.Query.Built

/-!
# Which trees keep their children apart

The rows of every child of a tree go into a field of the parent's rows, which is named after the
child's first id.  Nothing keeps that name from being taken: by another child, or by a field that a
later child joins on.

**Fields.**  `KeepsApart` says of the joins of one tree that no name is taken twice.  Just then no
child changes what another one has nested or what another one joins on: `keepsApart_iff_spares`.

**Nodes.**  `Node.KeepsChildren` says it of a node and all nodes below it.  Restrictions make no
difference to it (`keepsChildren_bindFields_iff`).

**Terms.**  `Term.KeepsChildren` says the same in terms of labels and of the fields on which the
leaf of a tree's id joins a child.  What is built from a term keeps its children if and only if the
term does: `Query.keepsChildren_iff`.
-/

namespace QueryTerms

/-! ## Fields -/

/-- Every child has a field of its own, which no join reads. -/
structure KeepsApart (joins : List NestJoin) : Prop where
  distinct : (joins.map NestJoin.field).Nodup
  apart : ∀ join ∈ joins, ∀ other ∈ joins, join.field ∉ other.parent.fields

lemma keepsApart_nil : KeepsApart [] := ⟨List.nodup_nil, nofun⟩

namespace NestJoin

/-- Nesting a child never changes what another one has nested. -/
def SparesRows (join other : NestJoin) : Prop :=
  ∀ (groups : Table KeyValue (List Row)) (row : Row),
    Table.get? other.field (nestRow join groups row) = row.get? other.field

/-- Nesting a child never changes the value that another one joins on. -/
def SparesValue (join other : NestJoin) : Prop :=
  ∀ (groups : Table KeyValue (List Row)) (row : Row),
    other.parent.valueOf (nestRow join groups row) = other.parent.valueOf row

variable {join other : NestJoin}

lemma get?_nestRow_of_ne {field : String} (h : join.field ≠ field)
    (groups : Table KeyValue (List Row)) (row : Row) :
    Table.get? field (nestRow join groups row) = row.get? field := by
  rw [nestRow, Table.get?_set, if_neg h]

lemma sparesRows_iff : join.SparesRows other ↔ join.field ≠ other.field := by
  refine ⟨fun h heq => ?_, get?_nestRow_of_ne⟩
  -- a row without any fields has one afterwards
  have hnone := h [] []
  rw [nestRow, Table.get?_set, if_pos heq] at hnone
  cases hnone

lemma sparesValue_iff : join.SparesValue other ↔ join.field ∉ other.parent.fields := by
  refine ⟨fun h hmem => ?_, fun hnot groups row => KeyFields.valueOf_congr fun field hfield => ?_⟩
  · -- a row that lacks this field of the key only has the key afterwards
    let row : Row := (other.parent.fields.filter (· ≠ join.field)).map fun field => (field, .null)
    have hkeys : row.keys = other.parent.fields.filter (· ≠ join.field) := by
      rw [Table.keys, List.map_map]
      exact List.map_id _
    have hbefore : ¬ (other.parent.valueOf row).isSome := by
      rw [valueOf_isSome_iff]
      intro hall
      have hthere := hall _ hmem
      rw [hkeys, List.mem_filter] at hthere
      simp at hthere
    have hafter : (other.parent.valueOf (nestRow join [] row)).isSome := by
      rw [valueOf_isSome_iff]
      intro field hfield
      rw [nestRow, Table.mem_keys_set, hkeys, List.mem_filter]
      by_cases heq : field = join.field
      · exact .inl heq
      · exact .inr ⟨hfield, by simpa using heq⟩
    exact hbefore (h [] row ▸ hafter)
  · exact get?_nestRow_of_ne (fun heq => hnot (heq ▸ hfield)) groups row

end NestJoin

/-- **Children are kept apart exactly where none of them changes what another one has or reads.** -/
theorem keepsApart_iff_spares {joins : List NestJoin} :
    KeepsApart joins ↔ joins.Pairwise NestJoin.SparesRows ∧
      ∀ join ∈ joins, ∀ other ∈ joins, join.SparesValue other := by
  simp only [NestJoin.sparesValue_iff]
  have hdistinct : (joins.map NestJoin.field).Nodup ↔ joins.Pairwise NestJoin.SparesRows := by
    rw [List.Nodup, List.pairwise_map]
    exact List.Pairwise.iff fun _ _ => NestJoin.sparesRows_iff.symm
  exact ⟨fun h => ⟨hdistinct.mp h.distinct, h.apart⟩, fun h => ⟨hdistinct.mpr h.1, h.2⟩⟩

/-! ## Nodes -/

namespace Node

/-- How the children of a tree join its base; other nodes have none. -/
def joins : Node → List NestJoin
  | .tree _ _ nested => nested.map Prod.fst
  | _ => []

/-- The node keeps its children apart, and so do all nodes below it. -/
inductive KeepsChildren : Node → Prop
  | intro {node : Node} (here : KeepsApart node.joins)
      (below : ∀ child ∈ node.children, child.KeepsChildren) : node.KeepsChildren

lemma keepsChildren_iff_below {node : Node} :
    node.KeepsChildren ↔ KeepsApart node.joins ∧ ∀ child ∈ node.children, child.KeepsChildren :=
  ⟨fun ⟨here, below⟩ => ⟨here, below⟩, fun h => .intro h.1 h.2⟩

section Bind

variable {param : String} {fields : KeyFields} {node : Node}

lemma joins_bindFields (node : Node) : (node.bindFields param fields).joins = node.joins := by
  cases node <;> rfl

/-- Below a restricted node lie the same nodes in the same order, some of them restricted. -/
lemma forall₂_children_bindFields (node : Node) :
    List.Forall₂ (fun old new => new = old ∨ ∃ given, new = old.bindFields param given)
      node.children (node.bindFields param fields).children := by
  have hsame : ∀ nodes : List Node, List.Forall₂
      (fun old new => new = old ∨ ∃ given, new = old.bindFields param given) nodes nodes :=
    fun nodes => List.forall₂_same.mpr fun _ _ => .inl rfl
  have hall : ∀ nodes : List Node, List.Forall₂
      (fun old new => new = old ∨ ∃ given, new = old.bindFields param given) nodes
      (bindAll param fields nodes) := by
    intro nodes
    rw [bindAll_eq_map, List.forall₂_map_right_iff, List.forall₂_same]
    exact fun _ _ => .inr ⟨_, rfl⟩
  cases node with
  | leaf info source => exact .nil
  | merge info operands => exact hall operands
  | attach info key base joined => exact .cons (.inr ⟨_, rfl⟩) (hsame joined)
  | filter info key narrowing base =>
    rw [bindFields, children, children, bindAll_concat]
    exact hall (narrowing ++ [base])
  | tree info base nested => exact .cons (.inr ⟨_, rfl⟩) (hsame _)

/-- **Restrictions make no difference to the nesting below.** -/
theorem keepsChildren_bindFields_iff :
    (node.bindFields param fields).KeepsChildren ↔ node.KeepsChildren := by
  induction node using induction_on_children generalizing fields with
  | step node ih =>
    rw [keepsChildren_iff_below, keepsChildren_iff_below, joins_bindFields]
    refine and_congr_right fun _ => forall_mem_iff_of_forall₂ (forall₂_children_bindFields node) ?_
    rintro old hold new (rfl | ⟨given, rfl⟩)
    · exact Iff.rfl
    · exact ih old hold

lemma keepsChildren_leaf (info : NodeInfo) (source : LeafSource) :
    (Node.leaf info source).KeepsChildren :=
  .intro keepsApart_nil nofun

end Bind

end Node

/-! ## Terms -/

/-- In this way a base joins the child that a term stands for. -/
def JoinsOn (store : Store) (base : Node) (term : Term) (join : NestJoin) : Prop :=
  ∃ child next, buildIn store (some base.info.name) term = .ok child ∧
    link base child term.label = .ok (next, join)

mutual

/-- In every tree of the term the children have labels of their own, and the leaf of the tree's id
joins none of them on a field that is labelled like a child. -/
def Term.KeepsChildren (store : Store) (scope : Option String) : Term → Prop
  | .leaf _ => True
  | .merge terms => Term.AllKeepChildren store scope terms
  | .attach terms => Term.AllKeepChildren store scope terms
  | .filter terms => Term.AllKeepChildren store scope terms
  | .tree id children =>
    (children.map Term.label).Nodup ∧
      ∀ base, buildLeaf store scope id = .ok base →
        (∀ child ∈ children, ∀ join, JoinsOn store base child join →
          ∀ other ∈ children, other.label ∉ join.parent.fields) ∧
        Term.AllKeepChildren store (some base.info.name) children

def Term.AllKeepChildren (store : Store) (scope : Option String) : List Term → Prop
  | [] => True
  | term :: rest => term.KeepsChildren store scope ∧ Term.AllKeepChildren store scope rest

end

section Terms

variable {store : Store} {scope : Option String} {term : Term} {terms : List Term}

lemma Term.allKeepChildren_iff :
    Term.AllKeepChildren store scope terms ↔
      ∀ member ∈ terms, member.KeepsChildren store scope := by
  induction terms with
  | nil => exact ⟨fun _ => nofun, fun _ => trivial⟩
  | cons first rest ih => rw [Term.AllKeepChildren, List.forall_mem_cons, ih]

/-! ### Links -/

/-- The two nodes are known by the same, and join any child in the same way. -/
structure Node.LinksLike (node other : Node) : Prop where
  info : node.info = other.info
  join : ∀ {child : Node} {label : String} {join : NestJoin},
    (∃ next, link node child label = .ok (next, join)) →
      ∃ next, link other child label = .ok (next, join)

lemma Node.LinksLike.refl (node : Node) : node.LinksLike node := ⟨rfl, id⟩

/-- What a link makes a parent select changes no other link. -/
lemma linksLike_of_link {parent child node : Node} {label : String} {join : NestJoin}
    (h : link parent child label = .ok (node, join)) : node.LinksLike parent := by
  rcases link_parent h with rfl | ⟨info, id, parts, others, rfl, rfl⟩
  · exact ⟨rfl, id⟩
  · refine ⟨rfl, fun ⟨next, hnext⟩ => ?_⟩
    obtain ⟨key, hkey, hnext⟩ := bind_eq_ok_iff.mp hnext
    cases hnext
    exact ⟨_, bind_eq_ok_iff.mpr ⟨key, hkey, rfl⟩⟩

lemma field_of_link {parent child node : Node} {label : String} {join : NestJoin}
    (h : link parent child label = .ok (node, join)) : join.field = label := by
  have hbyKey : linkByKey parent child label = .ok (node, join) → join.field = label := by
    intro h
    obtain ⟨key, -, h⟩ := bind_eq_ok_iff.mp h
    split at h <;> cases h <;> rfl
  unfold link at h
  split at h
  · split at h
    · cases h
      rfl
    · exact hbyKey h
  · exact hbyKey h

lemma JoinsOn.field_eq {base : Node} {join : NestJoin} (h : JoinsOn store base term join) :
    join.field = term.label := by
  obtain ⟨child, next, -, hlink⟩ := h
  exact field_of_link hlink

lemma JoinsOn.unique {base : Node} {join other : NestJoin} (h : JoinsOn store base term join)
    (hother : JoinsOn store base term other) : join = other := by
  obtain ⟨child, next, hchild, hlink⟩ := h
  obtain ⟨_, _, hchild', hlink'⟩ := hother
  cases hchild.symm.trans hchild'
  cases hlink.symm.trans hlink'
  rfl

/-- Children are joined as the leaf of the tree's id joins them, and restricted accordingly. -/
lemma forall₂_joinsOn_of_buildChildren {leaf parent base : Node}
    {children : List (NestJoin × Node)} (hparent : parent.LinksLike leaf)
    (h : buildChildren store parent terms = .ok (base, children)) :
    List.Forall₂ (fun term child => JoinsOn store leaf term child.1 ∧
      ∃ node param fields, buildIn store (some leaf.info.name) term = .ok node ∧
        child.2 = node.bindFields param fields) terms children := by
  induction terms generalizing parent children with
  | nil =>
    cases h
    exact .nil
  | cons term rest ih =>
    rw [buildChildren] at h
    obtain ⟨node, hnode, h⟩ := bind_eq_ok_iff.mp h
    obtain ⟨⟨next, join⟩, hlink, h⟩ := bind_eq_ok_iff.mp h
    obtain ⟨⟨last, others⟩, hothers, h⟩ := bind_eq_ok_iff.mp h
    cases h
    rw [hparent.info] at hnode
    obtain ⟨selected, hjoin⟩ := hparent.join ⟨next, hlink⟩
    have hnext := linksLike_of_link hlink
    refine .cons ⟨⟨node, selected, hnode, hjoin⟩, node, _, _, hnode, rfl⟩ (ih ?_ hothers)
    exact ⟨hnext.info.trans hparent.info, fun hlinks => hparent.join (hnext.join hlinks)⟩

/-! ### Building -/

lemma joins_of_operator
    (hterm : term = .merge terms ∨ term = .attach terms ∨ term = .filter terms) {node : Node}
    (h : buildIn store scope term = .ok node) : node.joins = [] := by
  rcases hterm with rfl | rfl | rfl <;> rw [buildIn] at h <;>
    obtain ⟨operands, -, hnode⟩ := bind_eq_ok_iff.mp h <;>
    obtain ⟨_, -, hnode⟩ := bind_eq_ok_iff.mp hnode
  · cases hnode
    rfl
  · obtain ⟨_, -, hnode⟩ := bind_eq_ok_iff.mp hnode
    cases hnode
    rfl
  · obtain ⟨_, -, hnode⟩ := bind_eq_ok_iff.mp hnode
    cases hnode
    rfl

/-- An operator keeps what its operands keep. -/
lemma keepsChildren_of_operator
    (hterm : term = .merge terms ∨ term = .attach terms ∨ term = .filter terms) {node : Node}
    (h : buildIn store scope term = .ok node)
    (hterms : ∀ member ∈ terms, ∀ {operand : Node}, buildIn store scope member = .ok operand →
      (operand.KeepsChildren ↔ member.KeepsChildren store scope)) :
    node.KeepsChildren ↔ ∀ member ∈ terms, member.KeepsChildren store scope := by
  obtain ⟨operands, hoperands, -, hmade⟩ := exists_operands_of_buildIn hterm h
  rw [Node.keepsChildren_iff_below, joins_of_operator hterm h, and_iff_right keepsApart_nil,
    forall_mem_iff_of_forall₂ hmade.children]
  · exact forall_mem_iff_of_forall₂ hoperands fun member hmem operand => hterms member hmem
  · rintro operand - child (rfl | ⟨param, fields, rfl⟩)
    · exact Iff.rfl
    · exact Node.keepsChildren_bindFields_iff

/-- A tree is apart if its labels are, from each other and from the fields it joins on. -/
lemma keepsApart_iff_labels {leaf : Node} {children : List (NestJoin × Node)}
    (h : List.Forall₂ (fun term child => JoinsOn store leaf term child.1) terms children) :
    KeepsApart (children.map Prod.fst) ↔ (terms.map Term.label).Nodup ∧
      ∀ child ∈ terms, ∀ join, JoinsOn store leaf child join →
        ∀ other ∈ terms, other.label ∉ join.parent.fields := by
  have hlabels : (children.map Prod.fst).map NestJoin.field = terms.map Term.label := by
    rw [List.map_map, eq_comm, ← List.forall₂_eq_eq_eq, List.forall₂_map_left_iff,
      List.forall₂_map_right_iff]
    exact h.imp fun _ _ hjoins => hjoins.field_eq.symm
  constructor
  · intro hapart
    refine ⟨hlabels ▸ hapart.distinct, fun term hterm join hjoin other hother => ?_⟩
    obtain ⟨child, hchild, hown⟩ := exists_of_forall₂_right h.flip hterm
    obtain ⟨named, hnamed, hlabel⟩ := exists_of_forall₂_right h.flip hother
    rw [hjoin.unique hown, ← JoinsOn.field_eq hlabel]
    exact hapart.apart _ (List.mem_map_of_mem hnamed) _ (List.mem_map_of_mem hchild)
  · rintro ⟨hdistinct, hapart⟩
    refine ⟨hlabels ▸ hdistinct, List.forall_mem_map.mpr fun named hnamed =>
      List.forall_mem_map.mpr fun child hchild => ?_⟩
    obtain ⟨term, hterm, hown⟩ := exists_of_forall₂_right h hchild
    obtain ⟨other, hother, hlabel⟩ := exists_of_forall₂_right h hnamed
    rw [JoinsOn.field_eq hlabel]
    exact hapart term hterm _ hown other hother

/-- **What is built keeps its children if and only if the term does.** -/
theorem keepsChildren_of_buildIn_iff {node : Node} (h : buildIn store scope term = .ok node) :
    node.KeepsChildren ↔ term.KeepsChildren store scope := by
  induction term using Term.induction_on_members generalizing scope node with
  | leaf id =>
    rw [buildIn] at h
    obtain ⟨info, source, rfl⟩ := exists_leaf_of_buildLeaf h
    rw [Term.KeepsChildren]
    exact iff_of_true (Node.keepsChildren_leaf info source) trivial
  | merge terms ih =>
    rw [Term.KeepsChildren, Term.allKeepChildren_iff]
    exact keepsChildren_of_operator (.inl rfl) h fun member hmem _ => ih member hmem
  | attach terms ih =>
    rw [Term.KeepsChildren, Term.allKeepChildren_iff]
    exact keepsChildren_of_operator (.inr (.inl rfl)) h fun member hmem _ => ih member hmem
  | filter terms ih =>
    rw [Term.KeepsChildren, Term.allKeepChildren_iff]
    exact keepsChildren_of_operator (.inr (.inr rfl)) h fun member hmem _ => ih member hmem
  | tree id terms ih =>
    rw [buildIn] at h
    obtain ⟨leaf, hleaf, h⟩ := bind_eq_ok_iff.mp h
    obtain ⟨⟨base, children⟩, hchildren, h⟩ := bind_eq_ok_iff.mp h
    cases h
    have hnested := forall₂_joinsOn_of_buildChildren (.refl leaf) hchildren
    have hapart := keepsApart_iff_labels (hnested.imp fun _ _ hchild => hchild.1)
    have hbelow : (∀ child ∈ children, child.2.KeepsChildren) ↔
        ∀ term ∈ terms, term.KeepsChildren store (some leaf.info.name) := by
      refine forall_mem_iff_of_forall₂ hnested fun term hterm child hchild => ?_
      obtain ⟨-, node, param, fields, hnode, heq⟩ := hchild
      rw [heq, Node.keepsChildren_bindFields_iff]
      exact ih term hterm hnode
    have hbase : base.KeepsChildren := by
      obtain ⟨info, source, rfl⟩ := exists_leaf_of_buildLeaf hleaf
      obtain ⟨⟨other, rfl⟩, -⟩ := buildChildren_eq_ok hchildren
      exact Node.keepsChildren_leaf info other
    rw [Term.KeepsChildren, Node.keepsChildren_iff_below, Node.joins, Node.children,
      List.forall_mem_cons, List.forall_mem_map, hapart, hbelow, and_iff_right hbase, hleaf]
    simp only [Except.ok.injEq, forall_eq', Term.allKeepChildren_iff, and_assoc]

end Terms

/-- **Which queries keep the children of their trees.**  A query that a text resolves to has a field
of its own for every child of every tree, apart from the fields of all joins, exactly where the term
of the text keeps its children; and just then no child of a tree changes what another one has nested
or what another one joins on. -/
theorem Query.keepsChildren_iff {resolver : Resolver} {text : String} {query : Query}
    (h : resolver.resolve text = .ok query) :
    (query.root.KeepsChildren ↔ query.term.KeepsChildren resolver.store none) ∧
      ∀ joins : List NestJoin, KeepsApart joins ↔ joins.Pairwise NestJoin.SparesRows ∧
        ∀ join ∈ joins, ∀ other ∈ joins, join.SparesValue other :=
  ⟨keepsChildren_of_buildIn_iff (exists_build_of_resolve h).2.1, fun _ => keepsApart_iff_spares⟩

/-- Users with their orders and notes. -/
theorem Query.keepsChildren_notes :
    let byUser (field : String) : Interface := { keys := [("user", .single field)] }
    let catalog : Catalog :=
      { compiled := [("users", byUser "id", "users"), ("orders", byUser "user_id", "orders(:user)"),
          ("notes", byUser "user_id", "notes(:user)")] }
    let resolver : Resolver := { (Context.answering []) with store := catalog.toStore }
    ∃ query, resolver.resolve "users(orders,notes)" = .ok query ∧ query.root.KeepsChildren ∧
      query.term.KeepsChildren resolver.store none := by
  intro byUser catalog resolver
  let join (label : String) : NestJoin :=
    { field := label, param := "user", parent := .single "id", child := .single "user_id",
      hidden := false }
  let leaf (name field : String) (params : ParamSpecs) (bindings : List Binding) : Node :=
    .leaf { name, params, keys := [("user", .single field)] } (.compiled name [] bindings)
  let child (name : String) : NestJoin × Node :=
    (join name, leaf name "user_id" [("user", {})] [⟨"user", .single "user_id"⟩])
  let users := leaf "users" "id" [] []
  let query : Query :=
    { resolver, term := .tree "users" [.leaf "orders", .leaf "notes"]
      root := .tree { baseInfo "users" users with scope := some "users" } users
        [child "orders", child "notes"] }
  have hresolve : resolver.resolve "users(orders,notes)" = .ok query := by cbv
  have hkeeps : query.root.KeepsChildren := by
    refine .intro ⟨by decide, by decide⟩ fun node hnode => ?_
    simp only [query, Node.children, List.map_cons, List.map_nil, List.mem_cons, List.not_mem_nil,
      or_false] at hnode
    rcases hnode with rfl | rfl | rfl <;> exact Node.keepsChildren_leaf _ _
  exact ⟨query, hresolve, hkeeps, (keepsChildren_iff hresolve).1.mp hkeeps⟩

/-- **A child is lost.**  Orders with notes and orders alone have one label; the rows of the second
child take the place of the first one's, and the notes are gone. -/
theorem Query.not_keepsChildren_orders :
    let byUser (field : String) : Interface := { keys := [("user", .single field)] }
    let catalog : Catalog :=
      { compiled := [("users", byUser "id", "users"), ("orders", byUser "user_id", "orders(:user)"),
          ("notes", byUser "user_id", "notes(:user)")] }
    let order : Row := [("user_id", .integer 1), ("total", .integer 7)]
    let note : Row := [("user_id", .integer 1), ("note", .string "late")]
    let answers := [("users", [[("id", .integer 1)]]), ("orders(1)", [order]), ("notes(1)", [note])]
    let resolver : Resolver := { (Context.answering answers) with store := catalog.toStore }
    ∃ query, resolver.resolve "users(orders+notes,orders)" = .ok query ∧
      ¬ query.root.KeepsChildren ∧
      (query.run []).outcome = .ok (.selected (.rows
        [[("id", .integer 1), ("orders", .array [.object [("total", .integer 7)]])]])) := by
  intro byUser catalog order note answers resolver
  have hresolve : ∃ query, resolver.resolve "users(orders+notes,orders)" = .ok query ∧
      query.root.joins.map NestJoin.field = ["orders", "orders"] ∧
      (query.run []).outcome = .ok (.selected (.rows
        [[("id", .integer 1), ("orders", .array [.object [("total", .integer 7)]])]])) :=
    ⟨_, by cbv, by cbv, by cbv⟩
  obtain ⟨query, hquery, hfields, hrun⟩ := hresolve
  refine ⟨query, hquery, fun hkeeps => ?_, hrun⟩
  have hdistinct := (Node.keepsChildren_iff_below.mp hkeeps).1.distinct
  rw [hfields] at hdistinct
  exact absurd hdistinct (by decide)

end QueryTerms
