import Mathlib
import QueryTerms.Proofs.Query.Built
import QueryTerms.Proofs.Term.Loops
import QueryTerms.Proofs.Term.Renaming

/-!
# Aliases and the leaves that declare them

The id of a tree is looked up twice.  While the text is read, the aliases for the tree's children
are those that are declared under the id as it is written.  When the term is built, the leaf of the
tree may be another one, found under the id of the enclosing tree with a dot and the id behind it.

**Trees in texts.**  `HoldsTree` says that there is a tree in a text, and in which scope it is
built: outside of all trees, or inside one for whose id some leaf has been chosen.

**Trees in queries.**  `Query.HoldsTreeOver` says that a query has a tree over some leaf, and which
texts its children have been read from.  Every tree of the text that a query is resolved from is
there: `exists_holdsTreeOver`.

**Aliases.**  A child is read as the id that it stands for under the written id of its tree.  That
is what the chosen leaf declares if and only if both lookups agree on it, as they do where the leaf
is found under the written id: `Query.child_stands_iff`.
-/

namespace QueryTerms

open Term

/-- The id that an id stands for where these aliases are declared. -/
def standsFor (aliases : Table String String) (id : String) : String := (aliases.get? id).getD id

/-! ## Trees in texts -/

/-- In a text that is read in a scope, there is a tree `id(parts)` in the scope `place`. -/
inductive HoldsTree (resolver : Resolver) (id : List Char) (parts : List (List Char))
    (place : Option String) : Option String → List Char → Prop
  | here {text atom inner : List Char} (hatom : atom ∈ atomTexts text)
      (hgroup : groupOf? atom = some (id, inner)) (hid : id ≠ [])
      (hparts : splitTop ',' inner = parts) : HoldsTree resolver id parts place place text
  | group {scope : Option String} {text atom inner : List Char} (hatom : atom ∈ atomTexts text)
      (hgroup : groupOf? atom = some ([], inner))
      (h : HoldsTree resolver id parts place scope inner) :
      HoldsTree resolver id parts place scope text
  | child {scope : Option String} {text atom name inner part : List Char} {leaf : Node}
      (hatom : atom ∈ atomTexts text) (hgroup : groupOf? atom = some (name, inner))
      (hname : name ≠ [])
      (hleaf : buildLeaf resolver.store scope (String.ofList name) = .ok leaf)
      (hpart : part ∈ splitTop ',' inner)
      (h : HoldsTree resolver id parts place (some leaf.info.name)
        (substituteAlias resolver.aliases name part)) :
      HoldsTree resolver id parts place scope text

/-- In a term that is built in a scope, there is a tree of this id and these children in the scope
`place`. -/
inductive Term.HasTree (store : Store) (id : String) (children : List Term)
    (place : Option String) : Option String → Term → Prop
  | here : HasTree store id children place place (.tree id children)
  | operand {scope : Option String} {op : Operator} {terms : List Term} {member : Term}
      (hmem : member ∈ terms) (h : HasTree store id children place scope member) :
      HasTree store id children place scope (op.compose terms)
  | child {scope : Option String} {name : String} {terms : List Term} {member : Term} {leaf : Node}
      (hleaf : buildLeaf store scope name = .ok leaf) (hmem : member ∈ terms)
      (h : HasTree store id children place (some leaf.info.name) member) :
      HasTree store id children place scope (.tree name terms)

/-! ### Reading -/

section Reading

variable {aliases : Aliases} {nested : Reader} {text atom id inner : List Char} {term : Term}

/-- What is read of operands makes up what is read of the whole. -/
lemma exists_operand_of_readOperands {op : Operator} {next : Reader} {P : Term → Prop}
    (hP : ∀ terms, P (op.compose terms) → ∀ member ∈ terms, P member)
    (h : readOperands op.sign op.compose next text = .ok term) (hterm : P term) {part : List Char}
    (hpart : part ∈ splitTop op.sign text) : ∃ member, next part = .ok member ∧ P member := by
  rw [readOperands] at h
  split at h
  · next single hsingle =>
    rw [hsingle, List.mem_singleton, eq_of_splitTop_eq_singleton hsingle] at hpart
    exact ⟨term, hpart ▸ h, hterm⟩
  · obtain ⟨-, -, h⟩ := bind_eq_ok_iff.mp h
    obtain ⟨terms, hterms, rfl⟩ := map_eq_ok_iff.mp h
    obtain ⟨member, hmem, hread⟩ := exists_of_forall₂_right (mapM_eq_ok_iff.mp hterms).flip hpart
    exact ⟨member, hread, hP terms hterm member hmem⟩

/-- All atoms of a text are read, as operands of what is read of the text. -/
lemma exists_atom_of_readLevel {P : Term → Prop}
    (hP : ∀ (op : Operator) terms, P (op.compose terms) → ∀ member ∈ terms, P member)
    (h : readLevel aliases nested text = .ok term) (hterm : P term)
    (hatom : atom ∈ atomTexts text) :
    ∃ member, readAtom aliases nested atom = .ok member ∧ P member := by
  obtain ⟨union, hunion, hatom⟩ := List.mem_flatMap.mp hatom
  obtain ⟨join, hjoin, hatom⟩ := List.mem_flatMap.mp hatom
  obtain ⟨_, hread, hmember⟩ := exists_operand_of_readOperands (hP .merge) h hterm hunion
  obtain ⟨_, hread, hmember⟩ := exists_operand_of_readOperands (hP .attach) hread hmember hjoin
  exact exists_operand_of_readOperands (hP .filter) hread hmember hatom

lemma readAtom_of_groupOf? (h : groupOf? atom = some (id, inner)) :
    readAtom aliases nested atom = readGroup aliases nested (Text.trim atom) id inner := by
  rw [groupOf?] at h
  split at h
  · next inner hclose =>
    cases h
    have htrim := eq_of_closeGroup hclose
    rw [readAtom_of_trim_group (fun hmem => ?_) (depthAfter_of_closeGroup hclose) htrim, ← htrim]
    have hne := List.mem_takeWhile_imp hmem
    simp at hne
  · cases h

/-- A group without an id is read as what stands in it. -/
lemma read_of_unnamed (h : groupOf? atom = some ([], inner))
    (hread : readAtom aliases nested atom = .ok term) : nested inner = .ok term := by
  rw [readAtom_of_groupOf? h] at hread
  by_cases hblank : Text.isBlankText inner = true
  · rw [readGroup_of_blank hblank] at hread
    cases hread
  rw [readGroup_of_unnamed hblank rfl] at hread
  obtain ⟨-, -, hread⟩ := bind_eq_ok_iff.mp hread
  split at hread
  · next single hsingle =>
    rwa [eq_of_splitTop_eq_singleton hsingle] at hread
  · cases hread

/-- A group with an id is read as a tree, part by part. -/
lemma read_of_named (h : groupOf? atom = some (id, inner)) (hid : id ≠ [])
    (hread : readAtom aliases nested atom = .ok term) :
    ∃ children, term = .tree (String.ofList id) children ∧
      List.Forall₂ (fun part child => nested (substituteAlias aliases id part) = .ok child)
        (splitTop ',' inner) children := by
  have hne : ¬ id.isEmpty = true := by simpa using hid
  rw [readAtom_of_groupOf? h] at hread
  by_cases hblank : Text.isBlankText inner = true
  · rw [readGroup_of_blank hblank] at hread
    cases hread
  rw [readGroup_of_named hblank hne] at hread
  obtain ⟨-, -, hread⟩ := bind_eq_ok_iff.mp hread
  obtain ⟨name, hname, hread⟩ := bind_eq_ok_iff.mp hread
  obtain ⟨children, hchildren, rfl⟩ := map_eq_ok_iff.mp hread
  obtain ⟨-, rfl⟩ := readId_eq_ok_iff.mp hname
  refine ⟨children, rfl, ?_⟩
  simpa only [partText, if_neg hne] using mapM_eq_ok_iff.mp hchildren

end Reading

/-! ## Trees in queries -/

section Building

variable {store : Store} {scope : Option String} {id : String} {terms : List Term} {node : Node}

/-- The leaf that is chosen is one that the store has under a candidate. -/
lemma exists_candidate_of_buildLeaf (h : buildLeaf store scope id = .ok node) :
    ∃ name ∈ leafCandidates scope id, ∃ source interface,
      resolveLeaf store name = .ok (some (source, interface)) ∧
        node = .leaf (.ofInterface name interface) source := by
  rw [buildLeaf] at h
  generalize leafCandidates scope id = candidates at h ⊢
  induction candidates with
  | nil => cases h
  | cons candidate rest ih =>
    obtain ⟨found, hfound, h⟩ := bind_eq_ok_iff.mp h
    cases found with
    | none =>
      obtain ⟨name, hname, hnode⟩ := ih h
      exact ⟨name, List.mem_cons_of_mem _ hname, hnode⟩
    | some entry =>
      cases h
      exact ⟨candidate, List.mem_cons_self, entry.1, entry.2, hfound, rfl⟩

/-- Both lookups of one id find the same aliases. -/
lemma aliasesOf_of_resolveLeaf {source : LeafSource} {interface : Interface}
    (h : resolveLeaf store id = .ok (some (source, interface))) :
    store.aliasesOf id = interface.aliases := by
  rw [resolveLeaf] at h
  rw [Store.aliasesOf]
  split at h
  · next hinterface =>
    cases h
    rw [hinterface]
  · next hinterface =>
    rw [hinterface]
    split at h
    · next hdefinition =>
      cases h
      rw [hdefinition]
    · cases h
    · cases h
  · cases h

lemma exists_build_member (op : Operator) (h : buildIn store scope (op.compose terms) = .ok node)
    {member : Term} (hmem : member ∈ terms) : ∃ below, buildIn store scope member = .ok below := by
  have hterm : op.compose terms = .merge terms ∨ op.compose terms = .attach terms ∨
      op.compose terms = .filter terms := by
    cases op
    · exact .inl rfl
    · exact .inr (.inl rfl)
    · exact .inr (.inr rfl)
  obtain ⟨operands, hoperands, -⟩ := exists_operands_of_buildIn hterm h
  obtain ⟨below, -, hbelow⟩ := exists_of_forall₂_right hoperands.flip hmem
  exact ⟨below, hbelow⟩

/-- The children of a tree are built in the scope of its leaf. -/
lemma exists_leaf_of_build_tree (h : buildIn store scope (.tree id terms) = .ok node) :
    ∃ leaf, buildLeaf store scope id = .ok leaf ∧
      ∀ member ∈ terms, ∃ below, buildIn store (some leaf.info.name) member = .ok below := by
  rw [buildIn] at h
  obtain ⟨leaf, hleaf, h⟩ := bind_eq_ok_iff.mp h
  obtain ⟨⟨base, children⟩, hchildren, -⟩ := bind_eq_ok_iff.mp h
  obtain ⟨nodes, hnodes, -⟩ := isMadeFrom_of_children hleaf hchildren
  refine ⟨leaf, hleaf, fun member hmem => ?_⟩
  obtain ⟨below, -, hbelow⟩ := exists_of_forall₂_right hnodes.flip hmem
  exact ⟨below, hbelow⟩

end Building

/-- All atoms of a text are built in the scope of the text, and hold no trees but those of the
whole. -/
lemma exists_built_atom {store : Store} {aliases : Aliases} {nested : Reader}
    {scope : Option String} {text atom : List Char} {term : Term} {node : Node}
    (hread : readLevel aliases nested text = .ok term)
    (hbuild : buildIn store scope term = .ok node) (hatom : atom ∈ atomTexts text) :
    ∃ member below, readAtom aliases nested atom = .ok member ∧
      buildIn store scope member = .ok below ∧
      ∀ {id : String} {children : List Term} {place : Option String},
        member.HasTree store id children place scope →
          term.HasTree store id children place scope := by
  let P (member : Term) : Prop := (∃ below, buildIn store scope member = .ok below) ∧
    ∀ {id : String} {children : List Term} {place : Option String},
      member.HasTree store id children place scope → term.HasTree store id children place scope
  have hP : ∀ (op : Operator) terms, P (op.compose terms) → ∀ member ∈ terms, P member := by
    rintro op terms ⟨⟨below, hbelow⟩, hlift⟩ member hmem
    exact ⟨exists_build_member op hbelow hmem, fun htree => hlift (.operand hmem htree)⟩
  obtain ⟨member, hmember, ⟨below, hbelow⟩, hlift⟩ :=
    exists_atom_of_readLevel hP hread ⟨⟨node, hbuild⟩, id⟩ hatom
  exact ⟨member, below, hmember, hbelow, hlift⟩

/-- The children of a tree over this leaf, as they are read from the parts in its parentheses and
built in the scope of the leaf. -/
def ReadsChildren (resolver : Resolver) (id : List Char) (leaf : Node) (parts : List (List Char))
    (children : List Term) : Prop :=
  List.Forall₂ (fun part child =>
    (∃ node, buildIn resolver.store (some leaf.info.name) child = .ok node) ∧
      ∃ levels, readNested resolver.aliases levels (substituteAlias resolver.aliases id part) =
        .ok child) parts children

/-- **Every tree of a text is one of its term.** -/
theorem exists_hasTree {resolver : Resolver} {id text : List Char} {parts : List (List Char)}
    {place scope : Option String} (htree : HoldsTree resolver id parts place scope text)
    {levels : Nat} {term : Term} (hread : readNested resolver.aliases levels text = .ok term)
    {node : Node} (hbuild : buildIn resolver.store scope term = .ok node) :
    ∃ leaf children, buildLeaf resolver.store place (String.ofList id) = .ok leaf ∧
      term.HasTree resolver.store (String.ofList id) children place scope ∧
      ReadsChildren resolver id leaf parts children := by
  induction htree generalizing levels term node with
  | here hatom hgroup hid hparts =>
    obtain _ | levels := levels
    · cases hread
    obtain ⟨member, below, hmember, hbelow, hlift⟩ := exists_built_atom hread hbuild hatom
    obtain ⟨children, rfl, hchildren⟩ := read_of_named hgroup hid hmember
    obtain ⟨leaf, hleaf, hbuilt⟩ := exists_leaf_of_build_tree hbelow
    refine ⟨leaf, children, hleaf, hlift .here, ?_⟩
    have hboth := (List.forall₂_and_left _ _).mpr ⟨hbuilt, hchildren.flip⟩
    exact hparts ▸ hboth.flip.imp fun part child h => ⟨h.1, levels, h.2⟩
  | group hatom hgroup _ ih =>
    obtain _ | levels := levels
    · cases hread
    obtain ⟨member, below, hmember, hbelow, hlift⟩ := exists_built_atom hread hbuild hatom
    obtain ⟨leaf, children, hleaf, htree, hchildren⟩ :=
      ih (read_of_unnamed hgroup hmember) hbelow
    exact ⟨leaf, children, hleaf, hlift htree, hchildren⟩
  | child hatom hgroup hname hown hpart _ ih =>
    obtain _ | levels := levels
    · cases hread
    obtain ⟨member, below, hmember, hbelow, hlift⟩ := exists_built_atom hread hbuild hatom
    obtain ⟨terms, rfl, hterms⟩ := read_of_named hgroup hname hmember
    obtain ⟨_, hleaf, hbuilt⟩ := exists_leaf_of_build_tree hbelow
    cases hown.symm.trans hleaf
    obtain ⟨child, hmem, hchild⟩ := exists_of_forall₂_right hterms.flip hpart
    obtain ⟨inside, hinside⟩ := hbuilt child hmem
    obtain ⟨leaf, children, hleaf, htree, hchildren⟩ := ih hchild hinside
    exact ⟨leaf, children, hleaf, hlift (.child hown hmem htree), hchildren⟩

/-! ## Aliases -/

/-- The query has a tree `id(parts)` in the scope `place`.  The leaf of its id is the one that the
store has under `name`, with this interface, and its children have been read from the parts. -/
structure Query.HoldsTreeOver (query : Query) (id : List Char) (parts : List (List Char))
    (place : Option String) (name : String) (source : LeafSource) (interface : Interface) :
    Prop where
  candidate : name ∈ leafCandidates place (String.ofList id)
  found : resolveLeaf query.resolver.store name = .ok (some (source, interface))
  chosen : buildLeaf query.resolver.store place (String.ofList id) =
    .ok (.leaf (.ofInterface name interface) source)
  children : ∃ children,
    query.term.HasTree query.resolver.store (String.ofList id) children place none ∧
      ReadsChildren query.resolver id (.leaf (.ofInterface name interface) source) parts children

/-- **Every tree of a text is one of the query that the text resolves to.** -/
theorem exists_holdsTreeOver {resolver : Resolver} {text : String} {query : Query}
    (hresolve : resolver.resolve text = .ok query) {spread : List Char}
    (hspread : IsReadAs text spread) {id : List Char} {parts : List (List Char)}
    {place : Option String} (htree : HoldsTree resolver id parts place none spread) :
    ∃ name source interface, query.HoldsTreeOver id parts place name source interface := by
  obtain ⟨hparse, hbuild, rfl⟩ := Query.exists_build_of_resolve hresolve
  rw [Resolver.parse, hspread.parseWith_eq] at hparse
  obtain ⟨leaf, children, hleaf, hterm, hchildren⟩ := exists_hasTree htree hparse hbuild
  obtain ⟨name, hname, source, interface, hfound, rfl⟩ := exists_candidate_of_buildLeaf hleaf
  exact ⟨name, source, interface, hname, hfound, hleaf, children, hterm, hchildren⟩

/-- A bare id is replaced by what it stands for under the id of its tree as it is written. -/
lemma substituteAlias_eq_standsFor {resolver : Resolver} {id part : List Char} {child : String}
    (hchild : isValidId child.toList = true) (htrim : Text.trim part = child.toList) :
    substituteAlias resolver.aliases id part =
      (standsFor (resolver.store.aliasesOf (String.ofList id)) child).toList := by
  have htrim : Text.trim part = child.toList ++ [] := by rw [htrim, List.append_nil]
  rw [substituteAlias_of_id hchild (.inl rfl) htrim, List.append_nil, String.ofList_toList]
  rfl

/-- **Which children follow the leaf of their tree.**  Every tree of a text that resolves is one of
the query, over the leaf that is chosen for its id.  A child that is written as a bare id is read as
what it stands for with that leaf exactly where it stands for the same under the written id of the
tree, as all children do if the leaf is found under that id. -/
theorem Query.child_stands_iff {resolver : Resolver} {text : String} {query : Query}
    (hresolve : resolver.resolve text = .ok query) {spread : List Char}
    (hspread : IsReadAs text spread) {id : List Char} {parts : List (List Char)}
    {place : Option String} (htree : HoldsTree resolver id parts place none spread) :
    ∃ name source interface, query.HoldsTreeOver id parts place name source interface ∧
      (∀ part ∈ parts, ∀ child : String, isValidId child.toList = true →
        Text.trim part = child.toList →
        (substituteAlias resolver.aliases id part = (standsFor interface.aliases child).toList ↔
          standsFor (resolver.store.aliasesOf (String.ofList id)) child =
            standsFor interface.aliases child)) ∧
      (name = String.ofList id →
        resolver.store.aliasesOf (String.ofList id) = interface.aliases) := by
  obtain ⟨name, source, interface, hover⟩ := exists_holdsTreeOver hresolve hspread htree
  refine ⟨name, source, interface, hover, fun part _ child hchild htrim => ?_, ?_⟩
  · rw [substituteAlias_eq_standsFor hchild htrim, String.toList_inj]
  · rintro rfl
    have hfound := hover.found
    rw [(exists_build_of_resolve hresolve).2.2] at hfound
    exact aliasesOf_of_resolveLeaf hfound

/-- The orders of a user, with their items, in the scope of the user. -/
lemma holdsTree_orders {resolver : Resolver} {leaf : Node}
    (hleaf : buildLeaf resolver.store none "user" = .ok leaf)
    (hplain : resolver.aliases.target? "user" "orders" = none) :
    HoldsTree resolver "orders".toList ["items".toList] (some leaf.info.name) none
      "user(orders(items))".toList := by
  have houter : groupOf? "user(orders(items))".toList =
      some ("user".toList, "orders(items)".toList) := by decide
  have hinner : groupOf? "orders(items)".toList = some ("orders".toList, "items".toList) := by
    decide
  have htext : substituteAlias resolver.aliases "user".toList "orders(items)".toList =
      "orders(items)".toList := by
    have htrim : Text.trim "orders(items)".toList = "orders".toList ++ "(items)".toList := by decide
    rw [substituteAlias_of_id (by decide) (.inr rfl) htrim, String.ofList_toList,
      String.ofList_toList, Aliases.idUnder, hplain]
    rfl
  have hpart : "orders(items)".toList ∈ splitTop ',' "orders(items)".toList := by decide
  refine .child (by decide) houter (by decide) (by rwa [String.ofList_toList]) hpart ?_
  rw [htext]
  exact .here (by decide) hinner (by decide) (by decide)

lemma isReadAs_orders : IsReadAs "user(orders(items))" "user(orders(items))".toList where
  balanced := by decide
  distributes := distribute_of_not_infix (by decide)

/-- The leaf of the inner tree is found under its written id, and its alias counts. -/
theorem Query.child_stands_lines :
    let byUser (field : String) (aliases : Table String String) : Interface :=
      { keys := [("user", .single field)], aliases }
    let catalog : Catalog :=
      { compiled := [("user", byUser "id" [], "users"),
          ("orders", byUser "user_id" [("items", "lines")], "orders"),
          ("lines", byUser "buyer_id" [], "lines")] }
    let resolver : Resolver := { (Context.answering []) with store := catalog.toStore }
    ∃ query, resolver.resolve "user(orders(items))" = .ok query ∧
      query.term = .tree "user" [.tree "orders" [.leaf "lines"]] ∧
      substituteAlias resolver.aliases "orders".toList "items".toList = "lines".toList := by
  intro byUser catalog resolver
  have hresolve : ∃ query, resolver.resolve "user(orders(items))" = .ok query ∧
      query.term = .tree "user" [.tree "orders" [.leaf "lines"]] := ⟨_, by cbv, rfl⟩
  obtain ⟨query, hquery, hterm⟩ := hresolve
  have hleaf : buildLeaf resolver.store none "user" =
      .ok (.leaf (.ofInterface "user" (byUser "id" [])) (.compiled "user" [] [])) := by cbv
  have htree := holdsTree_orders hleaf (by cbv)
  obtain ⟨name, source, interface, hover, hstands, hagree⟩ :=
    child_stands_iff hquery isReadAs_orders htree
  have hstore := congrArg Resolver.store (exists_build_of_resolve hquery).2.2
  have hchosen := hover.chosen
  have hfound := hover.found
  rw [hstore] at hchosen hfound
  have hown : (buildLeaf resolver.store (some "user") "orders").map (fun leaf => leaf.info.name) =
      .ok "orders" := by cbv
  obtain rfl : name = "orders" := by
    have hname := congrArg (Except.map fun leaf : Node => leaf.info.name) hchosen
    exact (Except.ok.inj (hown.symm.trans hname)).symm
  refine ⟨query, hquery, hterm, ?_⟩
  have hlines : standsFor (resolver.store.aliasesOf "orders") "items" = "lines" := by cbv
  have halike := hagree rfl
  rw [(hstands _ List.mem_cons_self "items" (by decide) (by decide)).mpr (halike ▸ rfl), ← halike]
  exact congrArg String.toList hlines

/-- **A leaf's alias does not count.**  The orders of a user are a leaf of their own, whose items
are lines; but the alias is looked up for orders outside of users, and the items stay items. -/
theorem Query.child_stands_items :
    let byUser (field : String) (aliases : Table String String) : Interface :=
      { keys := [("user", .single field)], aliases }
    let catalog : Catalog :=
      { compiled := [("user", byUser "id" [], "users"),
          ("user.orders", byUser "user_id" [("items", "lines")], "orders"),
          ("items", byUser "buyer_id" [], "items"), ("lines", byUser "buyer_id" [], "lines")] }
    let resolver : Resolver := { (Context.answering []) with store := catalog.toStore }
    ∃ query source interface, resolver.resolve "user(orders(items))" = .ok query ∧
      HoldsTree resolver "orders".toList ["items".toList] (some "user") none
        "user(orders(items))".toList ∧
      buildLeaf resolver.store (some "user") "orders" =
        .ok (.leaf (.ofInterface "user.orders" interface) source) ∧
      resolveLeaf resolver.store "user.orders" = .ok (some (source, interface)) ∧
      interface.aliases.get? "items" = some "lines" ∧
      query.term = .tree "user" [.tree "orders" [.leaf "items"]] := by
  intro byUser catalog resolver
  have hleaf : buildLeaf resolver.store none "user" =
      .ok (.leaf (.ofInterface "user" (byUser "id" [])) (.compiled "user" [] [])) := by cbv
  exact ⟨_, .compiled "user.orders" [] [], byUser "user_id" [("items", "lines")], by cbv,
    holdsTree_orders hleaf (by cbv), by cbv, by cbv, rfl, rfl⟩

end QueryTerms
