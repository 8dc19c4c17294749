import Mathlib
import QueryTerms.Proofs.Query.Arena

/-!
# The shape of a query in its arena

Whatever a term and however often its query is restricted: its cells form a tree with the root last
and everything else before what it is part of, and every cell knows the keys and parameters of the
cells below it.

**The shape.**  `Arena.IsTree` says that every cell but the last one stands right below one cell, a
later one, which it names as its parent; `Cell.Knows` says what a cell knows.

**Holding.**  `Arena.Holds` says that a node is laid out at a place.  Each cell of a node is the
last cell of a node below it (`Holds.exists_of_lt`), so that what is true of a node right where it
is laid out is true of all cells.

**Building.**  `build_isTree`.
-/

namespace QueryTerms

/-- A cell knows the keys and parameters of the cells right below, or of its base. -/
def Cell.Knows (arena : Arena) (cell : Cell) : Prop :=
  match cell.kind with
  | .leaf _ => True
  | .merge ids => cell.info.IsUnionOf (ids.map fun id => (arena.node id).info)
  | .attach _ ids => ∃ base ∈ ids.head?, cell.info.Follows (arena.node base).info
  | .filter _ ids => cell.info.IsUnionOf (ids.map fun id => (arena.node id).info)
  | .tree base _ => cell.info.Follows (arena.node base).info

/-- The cells form a tree, the root last and every other cell before the one that it is below. -/
structure Arena.IsTree (arena : Arena) (root : Nat) : Prop where
  root_last : root + 1 = arena.length
  root_parent : ∃ cell, arena[root]? = some cell ∧ cell.parent = none
  operand_lt : ∀ (id : Nat) (cell : Cell), arena[id]? = some cell →
    ∀ operand ∈ cell.kind.operands, operand < id
  operand_parent : ∀ (id : Nat) (cell : Cell), arena[id]? = some cell →
    ∀ operand ∈ cell.kind.operands, ∃ below, arena[operand]? = some below ∧ below.parent = some id
  /-- Every cell but the root is an operand once. -/
  operands : (arena.flatMap fun cell => cell.kind.operands).Perm (List.range root)
  knows : ∀ (id : Nat) (cell : Cell), arena[id]? = some cell → cell.Knows arena

namespace Arena

open Node

/-! ## Holding -/

/-- The node is laid out from place `start` on. -/
def Holds (arena : Arena) (start : Nat) (parent : Option Nat) (node : Node) : Prop :=
  ∃ pre post : Arena, arena = pre ++ node.cells start parent ++ post ∧ pre.length = start

def HoldsAll (arena : Arena) (start : Nat) (parent : Option Nat) (nodes : List Node) : Prop :=
  ∃ pre post : Arena, arena = pre ++ cellsOfAll start parent nodes ++ post ∧ pre.length = start

section Holds

variable {arena : Arena} {start : Nat} {parent : Option Nat} {node : Node} {nodes : List Node}

lemma Holds.getElem? (h : arena.Holds start parent node) :
    arena[node.place start]? = some (node.cell start parent) := by
  obtain ⟨pre, post, rfl, hpre⟩ := h
  exact getElem?_place hpre

lemma Holds.children (h : arena.Holds start parent node) :
    arena.HoldsAll start (some (node.place start)) node.children := by
  obtain ⟨pre, post, rfl, hpre⟩ := h
  refine ⟨pre, node.cell start parent :: post, ?_, hpre⟩
  rw [layout_eq]

lemma HoldsAll.head (h : arena.HoldsAll start parent (node :: nodes)) :
    arena.Holds start parent node := by
  obtain ⟨pre, post, rfl, hpre⟩ := h
  refine ⟨pre, cellsOfAll (start + node.size) parent nodes ++ post, ?_, hpre⟩
  rw [cellsOfAll, ← List.append_assoc pre, List.append_assoc (pre ++ _)]

lemma HoldsAll.tail (h : arena.HoldsAll start parent (node :: nodes)) :
    arena.HoldsAll (start + node.size) parent nodes := by
  obtain ⟨pre, post, rfl, hpre⟩ := h
  refine ⟨pre ++ node.cells start parent, post, ?_, ?_⟩
  · rw [cellsOfAll, ← List.append_assoc pre]
  · rw [List.length_append, hpre, length_cells]

/-- The infos of nodes that are held, read at their places. -/
lemma HoldsAll.map_info (h : arena.HoldsAll start parent nodes) :
    (placesOf start nodes).map (fun id => (arena.node id).info) = nodes.map Node.info := by
  obtain ⟨pre, post, rfl, hpre⟩ := h
  have hinfo := map_info_node hpre nodes parent post
  rwa [List.map_map] at hinfo

lemma HoldsAll.of_mem_placesOf (h : arena.HoldsAll start parent nodes) {id : Nat}
    (hid : id ∈ placesOf start nodes) : id < start + sizeOfAll nodes ∧
      ∃ below, arena[id]? = some below ∧ below.parent = parent := by
  induction nodes generalizing start with
  | nil => cases hid
  | cons node rest ih =>
    have hplace := node.place_add_one start
    rw [sizeOfAll]
    rcases List.mem_cons.mp hid with rfl | hid
    · exact ⟨by omega, _, h.head.getElem?, rfl⟩
    · obtain ⟨hlt, hbelow⟩ := ih h.tail hid
      exact ⟨by omega, hbelow⟩

/-- Every cell among those of a node is the last cell of a node below it. -/
lemma Holds.exists_of_lt (h : arena.Holds start parent node) (hcoherent : node.IsCoherent)
    {id : Nat} (hle : start ≤ id) (hlt : id < start + node.size) :
    ∃ first above below, arena.Holds first above below ∧ below.IsCoherent ∧
      below.place first = id := by
  induction node using induction_on_children generalizing start parent with
  | step node ih =>
    have hall : ∀ {nodes : List Node} {first : Nat} {above : Option Nat},
        arena.HoldsAll first above nodes → (∀ child ∈ nodes, child ∈ node.children) →
        first ≤ id → id < first + sizeOfAll nodes →
        ∃ first above below, arena.Holds first above below ∧ below.IsCoherent ∧
          below.place first = id := by
      intro nodes
      induction nodes with
      | nil =>
        intro first above _ _ hfirst hid
        rw [sizeOfAll] at hid
        omega
      | cons child rest ihrest =>
        intro first above hholds hmem hfirst hid
        obtain ⟨hchild, hrest⟩ := List.forall_mem_cons.mp hmem
        by_cases hhere : id < first + child.size
        · exact ih child hchild hholds.head (hcoherent.forall_children child hchild) hfirst hhere
        · rw [sizeOfAll] at hid
          exact ihrest hholds.tail hrest (by omega) (by omega)
    by_cases heq : id = node.place start
    · exact ⟨start, parent, node, h, hcoherent, heq.symm⟩
    · have hplace := node.place_add_one start
      rw [place] at heq hplace
      exact hall h.children (fun _ hmem => hmem) hle (by omega)

/-- A node that coheres knows, where it is laid out, what it stands on. -/
lemma Holds.knows (h : arena.Holds start parent node) (hcoheres : node.Coheres) :
    (node.cell start parent).Knows arena := by
  have hinfo := h.children.map_info
  cases node with
  | leaf info source => trivial
  | merge info operands =>
    change info.IsUnionOf _
    rw [hinfo]
    exact hcoheres
  | attach info key base joined =>
    have hbase : (arena.node (base.place start)).info = base.info := (List.cons.inj hinfo).1
    refine ⟨_, rfl, ?_⟩
    rw [hbase]
    exact hcoheres
  | filter info key narrowing base =>
    change info.IsUnionOf _
    rw [hinfo]
    exact hcoheres
  | tree info base nested =>
    have hbase : (arena.node (base.place start)).info = base.info := (List.cons.inj hinfo).1
    change info.Follows (arena.node (base.place start)).info
    rw [hbase]
    exact hcoheres

/-! ## One tree -/

lemma operands_cellsOfAll_perm {nodes : List Node}
    (hall : ∀ node ∈ nodes, ∀ start parent,
      ((node.cells start parent).flatMap fun cell => cell.kind.operands).Perm
        (List.range' start (sizeOfAll node.children))) (start : Nat) (parent : Option Nat) :
    (((cellsOfAll start parent nodes).flatMap fun cell => cell.kind.operands) ++
      placesOf start nodes).Perm (List.range' start (sizeOfAll nodes)) := by
  induction nodes generalizing start with
  | nil => simp [cellsOfAll, placesOf, sizeOfAll]
  | cons node rest ih =>
    obtain ⟨hnode, hrest⟩ := List.forall_mem_cons.mp hall
    generalize hbelow : ((node.cells start parent).flatMap fun cell => cell.kind.operands) = below
    generalize hafter : ((cellsOfAll (start + node.size) parent rest).flatMap
      fun cell => cell.kind.operands) = after
    have hfirst : (below ++ [node.place start]).Perm (List.range' start node.size) := by
      rw [size_eq, List.range'_concat, Nat.one_mul, ← place, ← hbelow]
      exact (hnode start parent).append_right _
    have hmiddle : (below ++ after ++ node.place start :: placesOf (start + node.size) rest).Perm
        ((below ++ [node.place start]) ++ (after ++ placesOf (start + node.size) rest)) := by
      rw [List.append_assoc, List.append_assoc, List.singleton_append]
      exact List.perm_middle.append_left below
    have hboth := hfirst.append (hafter ▸ ih hrest (start + node.size))
    rw [List.range'_append_1, ← sizeOfAll] at hboth
    rw [cellsOfAll, List.flatMap_append, hbelow, hafter, placesOf]
    exact hmiddle.trans hboth

/-- Every cell of a node but its last one is an operand once. -/
lemma operands_cells_perm (node : Node) (start : Nat) (parent : Option Nat) :
    ((node.cells start parent).flatMap fun cell => cell.kind.operands).Perm
      (List.range' start (sizeOfAll node.children)) := by
  induction node using induction_on_children generalizing start parent with
  | step node ih =>
    rw [Node.cells, List.flatMap_append, List.flatMap_singleton, Node.cell, operands_kindOver]
    exact operands_cellsOfAll_perm ih start _

/-- The cells of a coherent node form a tree. -/
theorem isTree_cells {node : Node} (h : node.IsCoherent) :
    IsTree (node.cells 0 none) (node.place 0) := by
  have hholds : Holds (node.cells 0 none) 0 none node := ⟨[], [], by simp, rfl⟩
  -- each cell, as the last one of a node
  have hcell : ∀ (id : Nat) (cell : Cell), (node.cells 0 none)[id]? = some cell →
      ∃ first above below, Holds (node.cells 0 none) first above below ∧ below.IsCoherent ∧
        below.place first = id ∧ cell = below.cell first above := by
    intro id cell hget
    have hlt := (List.getElem?_eq_some_iff.mp hget).1
    rw [length_cells] at hlt
    obtain ⟨first, above, below, hbelow, hcoherent, rfl⟩ :=
      hholds.exists_of_lt h (Nat.zero_le id) (by omega)
    rw [hbelow.getElem?, Option.some.injEq] at hget
    exact ⟨first, above, below, hbelow, hcoherent, rfl, hget.symm⟩
  refine ⟨?_, ⟨_, hholds.getElem?, rfl⟩, ?_, ?_, ?_, ?_⟩
  · rw [place_add_one, length_cells, Nat.zero_add]
  · intro id cell hget operand hoperand
    obtain ⟨first, above, below, hbelow, -, rfl, rfl⟩ := hcell id cell hget
    rw [Node.cell, operands_kindOver] at hoperand
    exact (hbelow.children.of_mem_placesOf hoperand).1
  · intro id cell hget operand hoperand
    obtain ⟨first, above, below, hbelow, -, rfl, rfl⟩ := hcell id cell hget
    rw [Node.cell, operands_kindOver] at hoperand
    exact (hbelow.children.of_mem_placesOf hoperand).2
  · rw [place, Nat.zero_add, List.range_eq_range']
    exact operands_cells_perm node 0 none
  · intro id cell hget
    obtain ⟨first, above, below, hbelow, hcoherent, rfl, rfl⟩ := hcell id cell hget
    exact hbelow.knows hcoherent.coheres

end Holds

/-! ## Building -/

lemma isCoherent_bindEach {node : Node} (h : node.IsCoherent)
    (binds : List (String × Option KeyFields)) : (node.bindEach binds).IsCoherent := by
  induction binds generalizing node with
  | nil => exact h
  | cons bind rest ih => exact ih (isCoherent_bind h bind.1 bind.2)

lemma size_bindEach (node : Node) (binds : List (String × Option KeyFields)) :
    (node.bindEach binds).size = node.size := by
  induction binds generalizing node with
  | nil => rfl
  | cons bind rest ih => exact (ih (node.bind bind.1 bind.2)).trans (size_bind node bind.1 bind.2)

/-- **The shape of a query.**  A term that can be built has its query in an arena, in the cells of
the node that is built.  However often the query is restricted, these are as many as the term calls
for, and they form a tree. -/
theorem build_isTree {store : Store} {term : Term} {node : Node}
    (h : QueryTerms.build store term = .ok node) :
    ∃ root arena, Arena.build store term = .ok (root, arena) ∧
      ∀ binds : List (String × Option KeyFields),
        bindEach root binds arena = (node.bindEach binds).cells 0 none ∧
          (bindEach root binds arena).length = term.nodeCount ∧
          (bindEach root binds arena).IsTree root := by
  obtain ⟨hcoherent, hsize⟩ := coherent_and_counted_of_buildIn h
  refine ⟨node.place 0, node.cells 0 none, by rw [build_eq, h]; rfl, fun binds => ?_⟩
  have htree := isTree_cells (isCoherent_bindEach hcoherent binds)
  rw [place_congr (size_bindEach node binds) 0] at htree
  rw [bindEach_cells, length_cells, size_bindEach]
  exact ⟨rfl, hsize, htree⟩

/-- Users with their orders under them and their profiles attached, in five cells. -/
theorem build_isTree_users :
    let declaring (field : String) : Interface × String :=
      ({ keys := [("user", .single field)] }, "")
    let store := (Catalog.mk [("users", declaring "id"), ("orders", declaring "user_id"),
      ("profile", declaring "owner")] []).toStore
    let term := Term.attach [.tree "users" [.leaf "orders"], .leaf "profile"]
    ∃ node, QueryTerms.build store term = .ok node ∧ ∃ root arena,
      Arena.build store term = .ok (root, arena) ∧
        ∀ binds : List (String × Option KeyFields),
          bindEach root binds arena = (node.bindEach binds).cells 0 none ∧
            (bindEach root binds arena).length = 5 ∧ (bindEach root binds arena).IsTree root := by
  intro declaring store term
  have hbuild : ∃ node, QueryTerms.build store term = .ok node := ⟨_, by cbv⟩
  obtain ⟨node, hnode⟩ := hbuild
  exact ⟨node, hnode, build_isTree hnode⟩

end Arena

end QueryTerms
