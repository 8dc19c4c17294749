import Mathlib
import QueryTerms.Proofs.Query.Nodes

/-!
# Queries in an arena

The nodes of a query can be kept in one list, each naming those below it by their places.  A node is
then added after the nodes below it, which are told of their parent, and later restrictions change
cells where they are.

**Arenas.**  `Arena.push` adds a cell, `Arena.bindAt` restricts one and those below it, and
`Arena.build` puts a term into an arena.

**Layout.**  `Node.cells` are the cells of a node, those of the nodes below first.

**Agreement.**  Restricting in an arena is restricting the node that is laid out there
(`bindAt_cells`), and what is put into an arena is the node that is built (`add_eq`, `build_eq`).
-/

namespace QueryTerms

/-! ## Arenas -/

/-- How the result of a cell comes about.  The base of a left join is its first operand, that of an
intersection its last one. -/
inductive CellKind where
  | leaf (source : LeafSource)
  | merge (operands : List Nat)
  | attach (key : String) (operands : List Nat)
  | filter (key : String) (operands : List Nat)
  | tree (base : Nat) (children : List (NestJoin × Nat))

namespace CellKind

/-- The places of the cells right below. -/
def operands : CellKind → List Nat
  | .leaf _ => []
  | .merge ids => ids
  | .attach _ ids => ids
  | .filter _ ids => ids
  | .tree base children => base :: children.map Prod.snd

/-- The places of those cells right below that a restriction is handed down to. -/
def targets : CellKind → List Nat
  | .leaf _ => []
  | .merge ids => ids
  | .attach _ ids => ids.take 1
  | .filter _ ids => ids
  | .tree base _ => [base]

/-- A leaf is restricted itself. -/
def restrict (param : String) (fields : KeyFields) (declared : Bool) : CellKind → CellKind
  | .leaf source => .leaf (source.bind param fields declared)
  | other => other

end CellKind

/-- How the result of a node comes about whose nodes below are at the given places. -/
def Node.kindOver (ids : List Nat) : Node → CellKind
  | .leaf _ source => .leaf source
  | .merge _ _ => .merge ids
  | .attach _ key _ _ => .attach key ids
  | .filter _ key _ _ => .filter key ids
  | .tree _ _ nested => .tree (ids.headD 0) ((nested.map Prod.fst).zip ids.tail)

/-- A node with the places of the nodes below and above it. -/
structure Cell where
  info : NodeInfo
  kind : CellKind
  parent : Option Nat

namespace Cell

/-- The cell as a node with nothing below it. -/
def outline (cell : Cell) : Node :=
  match cell.kind with
  | .leaf source => .leaf cell.info source
  | _ => .merge cell.info []

/-- The cell with what a leaf selects. -/
def take (node : Node) (cell : Cell) : Cell :=
  match node with
  | .leaf _ source => { cell with kind := .leaf source }
  | _ => cell

end Cell

abbrev Arena := List Cell

namespace Arena

/-- The outline of the cell at a place. -/
def node (arena : Arena) (id : Nat) : Node :=
  match arena[id]? with
  | some cell => cell.outline
  | none => .merge { name := "" } []

/-- Tells the cells at some places of their parent. -/
def adopt (parent : Nat) (ids : List Nat) (arena : Arena) : Arena :=
  ids.foldl (fun arena id => arena.modify id fun cell => { cell with parent := some parent }) arena

/-- Adds a cell at the end. -/
def push (info : NodeInfo) (kind : CellKind) (arena : Arena) : Nat × Arena :=
  (arena.length, adopt arena.length kind.operands (arena ++ [⟨info, kind, none⟩]))

/-! ### Restricting -/

mutual

/-- Restricts the node at a place; cells below come before it. -/
def bindAt (param : String) (fields : Option KeyFields) (id : Nat) (arena : Arena) : Arena :=
  match arena[id]? with
  | none => arena
  | some cell =>
    let own := fields.getD (cell.info.keyFields param)
    let declared := cell.info.params.has param
    let arena := arena.modify id fun cell =>
      { cell with kind := cell.kind.restrict param own declared }
    (bindAllAt param own id cell.kind.targets arena).modify id fun cell =>
      { cell with info := cell.info.declare param }
termination_by (id, 1, 0)

def bindAllAt (param : String) (fields : KeyFields) (parent : Nat) (ids : List Nat)
    (arena : Arena) : Arena :=
  match ids with
  | [] => arena
  | id :: rest =>
    if id < parent then
      let handed := if (arena.node id).info.keys.has param then none else some fields
      bindAllAt param fields parent rest (bindAt param handed id arena)
    else arena
termination_by (parent, 0, ids.length)

end

/-- Restricts the node at a place again and again. -/
def bindEach (id : Nat) (binds : List (String × Option KeyFields)) (arena : Arena) : Arena :=
  binds.foldl (fun arena bind => bindAt bind.1 bind.2 id arena) arena

/-! ### Building -/

/-- Adds a union. -/
def addMerge (name : String) (ids : List Nat) (arena : Arena) : Except QueryError (Nat × Arena) :=
  if ids = [] then .error (.schema .noOperands)
  else .ok (arena.push (unionInfo name (ids.map arena.node)) (.merge ids))

/-- Adds a left join. -/
def addAttach (name : String) (ids : List Nat) (arena : Arena) : Except QueryError (Nat × Arena) :=
  if ids = [] then .error (.schema .noOperands)
  else do
    let key ← operandKey name (ids.map arena.node)
    let arena := ids.tail.foldl (fun arena id => bindAt key none id arena) arena
    return arena.push (baseInfo name (arena.node (ids.headD 0))) (.attach key ids)

/-- Adds an intersection. -/
def addFilter (name : String) (ids : List Nat) (arena : Arena) : Except QueryError (Nat × Arena) :=
  if ids = [] then .error (.schema .noOperands)
  else do
    let key ← operandKey name (ids.map arena.node)
    let arena := ids.dropLast.foldl (fun arena id => bindAt key none id arena) arena
    return arena.push (unionInfo name (ids.map arena.node)) (.filter key ids)

mutual

/-- Adds the node of a term. -/
def add (store : Store) (scope : Option String) :
    Term → Arena → Except QueryError (Nat × Arena)
  | .leaf id, arena => do
    let leaf ← buildLeaf store scope id
    return arena.push leaf.info (leaf.kindOver [])
  | .merge terms, arena => do
    let (ids, arena) ← addAll store scope terms arena
    arena.addMerge (Term.merge terms).canonical ids
  | .attach terms, arena => do
    let (ids, arena) ← addAll store scope terms arena
    arena.addAttach (Term.attach terms).canonical ids
  | .filter terms, arena => do
    let (ids, arena) ← addAll store scope terms arena
    arena.addFilter (Term.filter terms).canonical ids
  | .tree id terms, arena => do
    let leaf ← buildLeaf store scope id
    let (base, arena) := arena.push leaf.info (leaf.kindOver [])
    let (children, arena) ← addChildren store leaf.info.name base terms arena
    let info := { baseInfo leaf.info.name (arena.node base) with scope := some leaf.info.name }
    return arena.push info (.tree base children)

/-- Adds the nodes of terms, from left to right. -/
def addAll (store : Store) (scope : Option String) :
    List Term → Arena → Except QueryError (List Nat × Arena)
  | [], arena => .ok ([], arena)
  | term :: rest, arena => do
    let (id, arena) ← add store scope term arena
    let (ids, arena) ← addAll store scope rest arena
    return (id :: ids, arena)

/-- Adds the children of a tree whose base is at a place. -/
def addChildren (store : Store) (scope : String) (base : Nat) :
    List Term → Arena → Except QueryError (List (NestJoin × Nat) × Arena)
  | [], arena => .ok ([], arena)
  | term :: rest, arena => do
    let (id, arena) ← add store (some scope) term arena
    let (parent, join) ← link (arena.node base) (arena.node id) term.label
    let arena := bindAt join.param (some join.child) id (arena.modify base (Cell.take parent))
    let (children, arena) ← addChildren store scope base rest arena
    return ((join, id) :: children, arena)

end

/-- Puts the node of a term into an empty arena. -/
def build (store : Store) (term : Term) : Except QueryError (Nat × Arena) := add store none term []

end Arena

/-! ## Layout -/

namespace Node

/-- Where a node is whose cells begin at place `start`: it comes last. -/
def place (start : Nat) (node : Node) : Nat := start + sizeOfAll node.children

/-- Where nodes are that are laid out one after another. -/
def placesOf (start : Nat) : List Node → List Nat
  | [] => []
  | node :: rest => node.place start :: placesOf (start + node.size) rest

/-- The cell of a node whose cells begin at place `start`. -/
def cell (start : Nat) (parent : Option Nat) (node : Node) : Cell :=
  ⟨node.info, node.kindOver (placesOf start node.children), parent⟩

mutual

/-- The cells of a node, from place `start` on. -/
def cells (start : Nat) (parent : Option Nat) (node : Node) : Arena :=
  cellsOfAll start (some (node.place start)) node.children ++ [node.cell start parent]
termination_by (node.size, 0)
decreasing_by exact Prod.Lex.left _ _ (by rw [size_eq]; exact Nat.lt_succ_self _)

/-- The cells of nodes, one after another, all with one parent. -/
def cellsOfAll (start : Nat) (parent : Option Nat) : List Node → Arena
  | [] => []
  | node :: rest => node.cells start parent ++ cellsOfAll (start + node.size) parent rest
termination_by nodes => (sizeOfAll nodes, 1)
decreasing_by
  · rw [sizeOfAll, Prod.lex_def]
    omega
  · rw [sizeOfAll]
    exact Prod.Lex.left _ _ (Nat.lt_add_of_pos_left node.size_pos)

end

/-- Restricts the node again and again. -/
def bindEach (binds : List (String × Option KeyFields)) (node : Node) : Node :=
  binds.foldl (fun node restriction => node.bind restriction.1 restriction.2) node

lemma place_add_one (start : Nat) (node : Node) : node.place start + 1 = start + node.size := by
  rw [place, size_eq, Nat.add_assoc]

lemma placesOf_append (start : Nat) (nodes more : List Node) :
    placesOf start (nodes ++ more) =
      placesOf start nodes ++ placesOf (start + sizeOfAll nodes) more := by
  induction nodes generalizing start with
  | nil => rfl
  | cons node rest ih =>
    rw [List.cons_append, placesOf, placesOf, ih, sizeOfAll, Nat.add_assoc, List.cons_append]

lemma cellsOfAll_append (start : Nat) (parent : Option Nat) (nodes more : List Node) :
    cellsOfAll start parent (nodes ++ more) =
      cellsOfAll start parent nodes ++ cellsOfAll (start + sizeOfAll nodes) parent more := by
  induction nodes generalizing start with
  | nil => rw [List.nil_append, cellsOfAll, List.nil_append, sizeOfAll, Nat.add_zero]
  | cons node rest ih =>
    rw [List.cons_append, cellsOfAll, cellsOfAll, ih, sizeOfAll, Nat.add_assoc, List.append_assoc]

lemma length_placesOf (start : Nat) (nodes : List Node) :
    (placesOf start nodes).length = nodes.length := by
  induction nodes generalizing start with
  | nil => rfl
  | cons node rest ih => rw [placesOf, List.length_cons, ih, List.length_cons]

lemma length_cellsOfAll_of_forall {nodes : List Node}
    (h : ∀ node ∈ nodes, ∀ start parent, (node.cells start parent).length = node.size) (start : Nat)
    (parent : Option Nat) : (cellsOfAll start parent nodes).length = sizeOfAll nodes := by
  induction nodes generalizing start with
  | nil => rw [cellsOfAll, List.length_nil, sizeOfAll]
  | cons node rest ih =>
    obtain ⟨hnode, hrest⟩ := List.forall_mem_cons.mp h
    rw [cellsOfAll, List.length_append, hnode, ih hrest, sizeOfAll]

lemma length_cells (node : Node) (start : Nat) (parent : Option Nat) :
    (node.cells start parent).length = node.size := by
  induction node using induction_on_children generalizing start parent with
  | step node ih =>
    rw [cells, List.length_append, length_cellsOfAll_of_forall ih, List.length_singleton, size_eq]

lemma length_cellsOfAll (nodes : List Node) (start : Nat) (parent : Option Nat) :
    (cellsOfAll start parent nodes).length = sizeOfAll nodes :=
  length_cellsOfAll_of_forall (fun node _ => node.length_cells) start parent

/-! ### Places only depend on sizes -/

lemma place_congr {node other : Node} (h : node.size = other.size) (start : Nat) :
    node.place start = other.place start := by
  have hplace := node.place_add_one start
  have hother := other.place_add_one start
  omega

lemma placesOf_congr {nodes others : List Node} (h : nodes.map size = others.map size)
    (start : Nat) : placesOf start nodes = placesOf start others := by
  induction nodes generalizing others start with
  | nil => rw [List.map_eq_nil_iff.mp h.symm]
  | cons node rest ih =>
    obtain ⟨other, more, rfl, hnode, hrest⟩ := List.map_eq_cons_iff.mp h.symm
    rw [placesOf, placesOf, place_congr hnode.symm, hnode, ih hrest.symm]

lemma map_size_bindAll (param : String) (fields : KeyFields) (nodes : List Node) :
    (bindAll param fields nodes).map size = nodes.map size := by
  rw [bindAll_eq_map, List.map_map]
  exact List.map_congr_left fun node _ => size_bindFields node param _

lemma map_size_map_bind (param : String) (fields : Option KeyFields) (nodes : List Node) :
    (nodes.map (bind param fields)).map size = nodes.map size := by
  rw [List.map_map]
  exact List.map_congr_left fun node _ => size_bind node param fields

end Node

namespace Arena

open Node

section Middle

variable {α : Type} {front : List α} {id : Nat}

lemma getElem?_middle (h : front.length = id) (item : α) (back : List α) :
    (front ++ item :: back)[id]? = some item := by
  subst h
  simp

lemma modify_middle (h : front.length = id) (item : α) (back : List α) (change : α → α) :
    (front ++ item :: back).modify id change = front ++ change item :: back := by
  subst h
  simp [List.modify_eq_take_cons_drop]

end Middle

section Layout

variable {pre post : Arena} {start : Nat} {parent : Option Nat} {node : Node}

lemma layout_eq (pre post : Arena) (start : Nat) (parent : Option Nat) (node : Node) :
    pre ++ node.cells start parent ++ post =
      (pre ++ cellsOfAll start (some (node.place start)) node.children) ++
        node.cell start parent :: post := by
  rw [Node.cells]
  simp only [List.append_assoc, List.singleton_append]

lemma length_below (hpre : pre.length = start) (node : Node) (parent : Option Nat) :
    (pre ++ cellsOfAll start parent node.children).length = node.place start := by
  rw [List.length_append, hpre, length_cellsOfAll, place]

lemma getElem?_place (hpre : pre.length = start) :
    (pre ++ node.cells start parent ++ post)[node.place start]? =
      some (node.cell start parent) := by
  rw [layout_eq]
  exact getElem?_middle (length_below hpre node _) _ _

/-- Changing the cell of a node leaves the cells below it alone. -/
lemma modify_place (hpre : pre.length = start) (change : Cell → Cell) :
    (pre ++ node.cells start parent ++ post).modify (node.place start) change =
      (pre ++ cellsOfAll start (some (node.place start)) node.children) ++
        change (node.cell start parent) :: post := by
  rw [layout_eq]
  exact modify_middle (length_below hpre node _) _ _ change

lemma info_outline (cell : Cell) : cell.outline.info = cell.info := by
  obtain ⟨info, kind, parent⟩ := cell
  cases kind <;> rfl

lemma info_node_place (hpre : pre.length = start) (node : Node) (parent : Option Nat)
    (post : Arena) :
    (Arena.node (pre ++ node.cells start parent ++ post) (node.place start)).info = node.info := by
  rw [Arena.node, getElem?_place hpre]
  exact info_outline _

/-- What an arena knows of nodes that are laid out in it. -/
lemma map_info_node (hpre : pre.length = start) (nodes : List Node) (parent : Option Nat)
    (post : Arena) :
    ((placesOf start nodes).map (Arena.node (pre ++ cellsOfAll start parent nodes ++ post))).map
      Node.info = nodes.map Node.info := by
  induction nodes generalizing pre start with
  | nil => rfl
  | cons node rest ih =>
    have hnext : (pre ++ node.cells start parent).length = start + node.size := by
      rw [List.length_append, hpre, length_cells]
    have hrest := ih hnext
    rw [placesOf, List.map_cons, List.map_cons, List.map_cons, cellsOfAll, ← List.append_assoc,
      hrest, List.append_assoc (pre ++ node.cells start parent), info_node_place hpre]

/-! ### Restricting -/

end Layout

/-! ### Restricting -/

section Bind

variable {param : String} {fields : KeyFields}

/-- Some of the nodes right below are restricted with a node, and the other ones come after them. -/
lemma exists_targets (node : Node) (param : String) (fields : KeyFields) :
    ∃ targets others, node.children = targets ++ others ∧
      (node.bindFields param fields).children = bindAll param fields targets ++ others ∧
      ∀ start, (node.kindOver (placesOf start node.children)).targets = placesOf start targets := by
  cases node with
  | leaf info source => exact ⟨[], [], rfl, rfl, fun _ => rfl⟩
  | merge info operands =>
    exact ⟨operands, [], (List.append_nil _).symm, (List.append_nil _).symm, fun _ => rfl⟩
  | attach info key base joined => exact ⟨[base], joined, rfl, rfl, fun _ => rfl⟩
  | filter info key narrowing base =>
    refine ⟨narrowing ++ [base], [], (List.append_nil _).symm, ?_, fun _ => rfl⟩
    rw [List.append_nil, ← bindAll_concat]
    rfl
  | tree info base nested => exact ⟨[base], nested.map Prod.snd, rfl, rfl, fun _ => rfl⟩

lemma kindOver_bindFields (node : Node) (ids : List Nat) :
    (node.bindFields param fields).kindOver ids =
      (node.kindOver ids).restrict param fields (node.info.params.has param) := by
  cases node <;> rfl

/-- The cell of a restricted node. -/
lemma cell_bindFields (node : Node) (start : Nat) (parent : Option Nat) :
    (node.bindFields param fields).cell start parent =
      { node.cell start parent with
        info := node.info.declare param
        kind := (node.kindOver (placesOf start node.children)).restrict param fields
          (node.info.params.has param) } := by
  obtain ⟨targets, others, hchildren, hbound, -⟩ := exists_targets node param fields
  have hplaces : placesOf start (node.bindFields param fields).children =
      placesOf start node.children := by
    refine placesOf_congr ?_ start
    rw [hchildren, hbound, List.map_append, List.map_append, map_size_bindAll]
  rw [Node.cell, hplaces, kindOver_bindFields, info_bindFields]
  rfl

/-- Restricting in an arena where the node is laid out lays out the restricted node. -/
def BindsAt (param : String) (node : Node) : Prop :=
  ∀ {pre : Arena} {start : Nat}, pre.length = start →
    ∀ (post : Arena) (parent : Option Nat) (fields : Option KeyFields),
      bindAt param fields (node.place start) (pre ++ node.cells start parent ++ post) =
        pre ++ (node.bind param fields).cells start parent ++ post

lemma bindAllAt_cells {nodes : List Node} (hall : ∀ node ∈ nodes, BindsAt param node)
    {pre post : Arena} {start id : Nat} (hpre : pre.length = start)
    (hid : start + sizeOfAll nodes ≤ id) (parent : Option Nat) :
    bindAllAt param fields id (placesOf start nodes)
        (pre ++ cellsOfAll start parent nodes ++ post) =
      pre ++ cellsOfAll start parent (bindAll param fields nodes) ++ post := by
  induction nodes generalizing pre start with
  | nil => rw [placesOf, bindAllAt, bindAll]
  | cons node rest ih =>
    obtain ⟨hnode, hrest⟩ := List.forall_mem_cons.mp hall
    have hlt : node.place start < id := by
      have hplace := node.place_add_one start
      rw [sizeOfAll] at hid
      omega
    have hhanded : (if node.info.keys.has param then none else some fields : Option KeyFields).getD
        (node.info.keyFields param) = handedDown param fields node.info := by
      rw [handedDown]
      split <;> rfl
    generalize hbound : node.bindFields param (handedDown param fields node.info) = bound
    have hsize : bound.size = node.size := by rw [← hbound, size_bindFields]
    have hnext : (pre ++ bound.cells start parent).length = start + node.size := by
      rw [List.length_append, hpre, length_cells, hsize]
    calc bindAllAt param fields id (placesOf start (node :: rest))
          (pre ++ cellsOfAll start parent (node :: rest) ++ post)
        = bindAllAt param fields id (placesOf (start + node.size) rest)
            (bindAt param (if node.info.keys.has param then none else some fields)
              (node.place start) (pre ++ node.cells start parent ++
                (cellsOfAll (start + node.size) parent rest ++ post))) := by
          rw [placesOf, bindAllAt, if_pos hlt, cellsOfAll, ← List.append_assoc pre,
            List.append_assoc (pre ++ _), info_node_place hpre]
      _ = bindAllAt param fields id (placesOf (start + node.size) rest)
            (pre ++ bound.cells start parent ++ cellsOfAll (start + node.size) parent rest ++
              post) := by
          rw [hnode hpre, Node.bind, hhanded, hbound, ← List.append_assoc (pre ++ _)]
      _ = pre ++ bound.cells start parent ++
            cellsOfAll (start + node.size) parent (bindAll param fields rest) ++ post :=
          ih hrest hnext (by rw [sizeOfAll] at hid; omega)
      _ = pre ++ cellsOfAll start parent (bindAll param fields (node :: rest)) ++ post := by
          rw [bindAll, cellsOfAll, hbound, hsize, ← List.append_assoc pre]

/-- **Restricting in an arena is restricting the node that is laid out there.** -/
theorem bindAt_cells (param : String) (node : Node) : BindsAt param node := by
  induction node using induction_on_children with
  | step node ih =>
    intro pre start hpre post parent fields
    rw [Node.bind]
    generalize hown : fields.getD (node.info.keyFields param) = own
    obtain ⟨targets, others, hchildren, hbound, htargets⟩ := exists_targets node param own
    have hplace : (node.bindFields param own).place start = node.place start :=
      place_congr (size_bindFields node param own) start
    have hsizes : sizeOfAll (bindAll param own targets) = sizeOfAll targets :=
      sizeOfAll_congr (map_size_bindAll param own targets)
    have hsum : start + sizeOfAll targets ≤ node.place start := by
      rw [place, hchildren, sizeOfAll_append]
      omega
    have hall : ∀ child ∈ targets, BindsAt param child := fun child hchild =>
      ih child (by rw [hchildren]; exact List.mem_append_left _ hchild)
    -- the kind of the cell, then the nodes that the restriction is handed down to
    rw [bindAt, getElem?_place hpre]
    dsimp only [Node.cell]
    rw [hown, htargets, modify_place hpre, hchildren, cellsOfAll_append, ← List.append_assoc pre,
      List.append_assoc (pre ++ _), bindAllAt_cells hall hpre hsum]
    -- the cell is where it was, behind restricted nodes of the same sizes
    have hlength : (pre ++ cellsOfAll start (some (node.place start)) (bindAll param own targets) ++
        cellsOfAll (start + sizeOfAll targets) (some (node.place start)) others).length =
          node.place start := by
      simp only [List.length_append, hpre, length_cellsOfAll, hsizes]
      rw [place, hchildren, sizeOfAll_append, Nat.add_assoc]
    rw [← List.append_assoc (pre ++ _), modify_middle hlength, layout_eq, hplace, hbound,
      cellsOfAll_append, hsizes, cell_bindFields, List.append_assoc pre]
    rfl

/-- Restrictions one after another. -/
lemma bindEach_cells (binds : List (String × Option KeyFields)) (node : Node) :
    bindEach (node.place 0) binds (node.cells 0 none) = (node.bindEach binds).cells 0 none := by
  induction binds generalizing node with
  | nil => rfl
  | cons bind rest ih =>
    have hbind := bindAt_cells bind.1 node List.length_nil [] none bind.2
    rw [List.nil_append, List.append_nil, List.nil_append, List.append_nil] at hbind
    rw [bindEach, List.foldl_cons, hbind, ← bindEach,
      ← place_congr (size_bind node bind.1 bind.2) 0, ih]
    rfl

end Bind

/-! ### Adding -/

/-- A node at the end of an arena. -/
def grow (arena : Arena) (node : Node) : Nat × Arena :=
  (node.place arena.length, arena ++ node.cells arena.length none)

/-- Nodes at the end of an arena, one after another. -/
def growAll (arena : Arena) (nodes : List Node) : List Nat × Arena :=
  (placesOf arena.length nodes, arena ++ cellsOfAll arena.length none nodes)

section Push

variable {arena : Arena}

lemma operands_kindOver (node : Node) (start : Nat) :
    (node.kindOver (placesOf start node.children)).operands = placesOf start node.children := by
  cases node with
  | tree info base nested =>
    rw [Node.kindOver, CellKind.operands, children, placesOf, List.headD_cons, List.tail_cons,
      List.map_snd_zip]
    rw [length_placesOf, List.length_map, List.length_map]
  | _ => rfl

lemma adopt_cells {pre post : Arena} {start : Nat} (hpre : pre.length = start) (nodes : List Node)
    (old : Option Nat) (parent : Nat) :
    adopt parent (placesOf start nodes) (pre ++ cellsOfAll start old nodes ++ post) =
      pre ++ cellsOfAll start (some parent) nodes ++ post := by
  induction nodes generalizing pre start with
  | nil => rw [placesOf, cellsOfAll, cellsOfAll]; rfl
  | cons node rest ih =>
    have hnext : (pre ++ node.cells start (some parent)).length = start + node.size := by
      rw [List.length_append, hpre, length_cells]
    rw [placesOf, adopt, List.foldl_cons, ← adopt, cellsOfAll, ← List.append_assoc pre,
      List.append_assoc (pre ++ _), modify_place hpre]
    change adopt parent _ (_ ++ node.cell start (some parent) :: _) = _
    rw [← layout_eq, ← List.append_assoc (pre ++ _), ih hnext, cellsOfAll, ← List.append_assoc pre]

/-- A node is added after the nodes below it. -/
lemma push_eq_grow (arena : Arena) (node : Node) :
    push node.info (node.kindOver (placesOf arena.length node.children))
      (arena ++ cellsOfAll arena.length none node.children) = arena.grow node := by
  have hlength : (arena ++ cellsOfAll arena.length none node.children).length =
      node.place arena.length := length_below rfl node none
  rw [push, hlength, operands_kindOver, adopt_cells rfl, grow, Node.cells, ← List.append_assoc]
  rfl

lemma foldl_bindAt_cells {pre : Arena} {start : Nat} (hpre : pre.length = start) (post : Arena)
    (nodes : List Node) (parent : Option Nat) (key : String) :
    (placesOf start nodes).foldl (fun arena id => bindAt key none id arena)
        (pre ++ cellsOfAll start parent nodes ++ post) =
      pre ++ cellsOfAll start parent (nodes.map (Node.bind key none)) ++ post := by
  induction nodes generalizing pre start with
  | nil => rfl
  | cons node rest ih =>
    have hnext : (pre ++ (node.bind key none).cells start parent).length = start + node.size := by
      rw [List.length_append, hpre, length_cells, size_bind]
    rw [placesOf, List.foldl_cons, cellsOfAll, ← List.append_assoc pre,
      List.append_assoc (pre ++ _), bindAt_cells key node hpre, ← List.append_assoc (pre ++ _),
      ih hnext, List.map_cons, cellsOfAll, size_bind, ← List.append_assoc pre]

end Push

section Add

variable {arena : Arena} {name : String}

/-! What is known of operands does not depend on what is below them. -/

lemma unionInfo_congr {operands others : List Node}
    (h : operands.map Node.info = others.map Node.info) :
    unionInfo name operands = unionInfo name others := by
  have hmap : ∀ {β : Type} (known : NodeInfo → β), operands.map (fun node => known node.info) =
      others.map fun node => known node.info := by
    intro β known
    have hknown := congrArg (List.map known) h
    rwa [List.map_map, List.map_map] at hknown
  rw [unionInfo, hmap NodeInfo.keys, hmap NodeInfo.params, unionInfo]

lemma operandKey_congr {operands others : List Node}
    (h : operands.map Node.info = others.map Node.info) :
    operandKey name operands = operandKey name others := by
  have hkeys := congrArg (List.map NodeInfo.keys) h
  simp only [List.map_map] at hkeys
  exact congrArg (commonKeyOfAll name) hkeys

lemma baseInfo_congr {base other : Node} (h : base.info = other.info) :
    baseInfo name base = baseInfo name other := by
  rw [baseInfo, h, baseInfo]

lemma link_congr {child other : Node} (h : child.info = other.info) (parent : Node)
    (label : String) : link parent child label = link parent other label := by
  unfold link linkByKey declaredBinding
  rw [h]

/-- What an arena knows of nodes at its end. -/
lemma map_info_growAll (arena : Arena) (nodes : List Node) :
    ((arena.growAll nodes).1.map (arena.growAll nodes).2.node).map Node.info =
      nodes.map Node.info := by
  have hinfo := map_info_node (rfl : arena.length = _) nodes none []
  rwa [List.append_nil] at hinfo

lemma growAll_fst_ne_nil {nodes : List Node} (h : nodes ≠ []) : (arena.growAll nodes).1 ≠ [] := by
  cases nodes with
  | nil => exact absurd rfl h
  | cons node rest => exact List.cons_ne_nil _ _

/-- A union of nodes that were added. -/
lemma addMerge_eq (nodes : List Node) :
    addMerge name (arena.growAll nodes).1 (arena.growAll nodes).2 =
      arena.grow <$> mergeNode name nodes := by
  by_cases hne : nodes = []
  · rw [hne]
    rfl
  · rw [mergeNode_of_ne_nil name hne, addMerge, if_neg (growAll_fst_ne_nil hne),
      unionInfo_congr (map_info_growAll arena nodes)]
    exact congrArg Except.ok (push_eq_grow arena (.merge (unionInfo name nodes) nodes))

/-- A left join of nodes that were added. -/
lemma addAttach_eq (nodes : List Node) :
    addAttach name (arena.growAll nodes).1 (arena.growAll nodes).2 =
      arena.grow <$> attachNode name nodes := by
  cases nodes with
  | nil => rfl
  | cons base rest =>
    rw [attachNode_cons, addAttach, if_neg (growAll_fst_ne_nil (List.cons_ne_nil base rest)),
      operandKey_congr (map_info_growAll arena (base :: rest))]
    cases operandKey name (base :: rest) with
    | error cause => rfl
    | ok key =>
      have hpre : (arena ++ base.cells arena.length none).length = arena.length + base.size := by
        rw [List.length_append, length_cells]
      have hbound := foldl_bindAt_cells hpre [] rest none key
      have hplaces := placesOf_congr (map_size_map_bind key none rest) (arena.length + base.size)
      have hbase := info_node_place (rfl : arena.length = _) base none
        (cellsOfAll (arena.length + base.size) none (rest.map (Node.bind key none)))
      have hpush := push_eq_grow arena
        (.attach (baseInfo name base) key base (rest.map (Node.bind key none)))
      rw [children, placesOf, hplaces, cellsOfAll, ← List.append_assoc] at hpush
      rw [List.append_nil, List.append_nil] at hbound
      rw [growAll, placesOf, cellsOfAll, ← List.append_assoc]
      refine congrArg Except.ok ?_
      rw [List.tail_cons, List.headD_cons, hbound, baseInfo_congr hbase]
      exact hpush

/-- An intersection of nodes that were added. -/
lemma addFilter_eq (nodes : List Node) :
    addFilter name (arena.growAll nodes).1 (arena.growAll nodes).2 =
      arena.grow <$> filterNode name nodes := by
  rcases List.eq_nil_or_concat nodes with rfl | ⟨narrowing, base, hnodes⟩
  · rfl
  · rw [List.concat_eq_append] at hnodes
    subst hnodes
    rw [filterNode_concat, addFilter, if_neg (growAll_fst_ne_nil (by simp)),
      operandKey_congr (map_info_growAll arena (narrowing ++ [base]))]
    cases operandKey name (narrowing ++ [base]) with
    | error cause => rfl
    | ok key =>
      generalize hbound : narrowing.map (Node.bind key none) = bound
      have hsizes : bound.map size = narrowing.map size := by rw [← hbound, map_size_map_bind]
      have hplaces : placesOf arena.length (narrowing ++ [base]) =
          placesOf arena.length (bound ++ [base]) :=
        placesOf_congr (by rw [List.map_append, List.map_append, hsizes]) _
      have hdrop : (placesOf arena.length (narrowing ++ [base])).dropLast =
          placesOf arena.length narrowing := by
        rw [placesOf_append, placesOf, placesOf, List.dropLast_concat]
      -- all operands are restricted where they are, but for the last one
      have hfold : (placesOf arena.length narrowing).foldl
          (fun arena id => bindAt key none id arena)
            (arena ++ cellsOfAll arena.length none (narrowing ++ [base])) =
          arena ++ cellsOfAll arena.length none (bound ++ [base]) := by
        rw [cellsOfAll_append, cellsOfAll_append, sizeOfAll_congr hsizes, ← List.append_assoc,
          ← List.append_assoc, foldl_bindAt_cells rfl, hbound]
      have hpush := push_eq_grow arena (.filter (unionInfo name (bound ++ [base])) key
        bound base)
      have hinfo := map_info_growAll arena (bound ++ [base])
      rw [ok_bind_eq, ok_bind_eq, hbound, map_pure, ← hpush]
      dsimp only [growAll] at hinfo ⊢
      rw [hdrop, hfold, hplaces, unionInfo_congr hinfo]
      rfl

end Add

section Build

variable {store : Store}

lemma add_operator_eq {arena : Arena} {compose : List Node → Except QueryError Node}
    {join : List Nat → Arena → Except QueryError (Nat × Arena)}
    (hjoin : ∀ nodes, join (arena.growAll nodes).1 (arena.growAll nodes).2 =
      arena.grow <$> compose nodes) (built : Except QueryError (List Node)) :
    (do
      let (ids, arena) ← arena.growAll <$> built
      join ids arena) = arena.grow <$> (built >>= compose) := by
  cases built with
  | error cause => rfl
  | ok nodes => exact hjoin nodes

/-- A term is put into an arena as its node at the end. -/
def AddsNode (store : Store) (term : Term) : Prop :=
  ∀ (scope : Option String) (arena : Arena),
    add store scope term arena = arena.grow <$> buildIn store scope term

lemma addAll_eq {terms : List Term} (hall : ∀ term ∈ terms, AddsNode store term)
    (scope : Option String) (arena : Arena) :
    addAll store scope terms arena = arena.growAll <$> buildAll store scope terms := by
  induction terms generalizing arena with
  | nil =>
    rw [addAll, buildAll, Except.map_ok, growAll, placesOf, cellsOfAll, List.append_nil]
  | cons term rest ih =>
    obtain ⟨hterm, hrest⟩ := List.forall_mem_cons.mp hall
    rw [addAll, buildAll, hterm]
    cases buildIn store scope term with
    | error cause => rfl
    | ok node =>
      rw [Except.map_ok, ok_bind_eq, ok_bind_eq]
      dsimp only [grow]
      rw [ih hrest]
      cases buildAll store scope rest with
      | error cause => rfl
      | ok nodes =>
        rw [Except.map_ok, ok_bind_eq, ok_bind_eq]
        dsimp only [growAll]
        rw [List.length_append, length_cells, List.append_assoc, ← cellsOfAll]
        rfl

lemma cells_leaf (info : NodeInfo) (source : LeafSource) (start : Nat) (parent : Option Nat) :
    (Node.leaf info source).cells start parent = [⟨info, .leaf source, parent⟩] := by
  rw [Node.cells, children, cellsOfAll]
  rfl

/-- An arena with the base of a tree, and children already added, to which more are added. -/
def growChildren (arena : Arena) (added : Arena) (base : Node)
    (nested : List (NestJoin × Node)) : List (NestJoin × Nat) × Arena :=
  ((nested.map Prod.fst).zip (placesOf (arena.length + 1 + added.length) (nested.map Prod.snd)),
    arena ++ base.cells arena.length none ++ added ++
      cellsOfAll (arena.length + 1 + added.length) none (nested.map Prod.snd))

section Child

variable {arena added : Arena} {info : NodeInfo} {start : Nat}

/-- The base of a tree, seen from where a child was added. -/
lemma node_base (source : LeafSource) (added more : Arena) :
    Arena.node (arena ++ ⟨info, .leaf source, none⟩ :: added ++ more) arena.length =
      .leaf info source := by
  rw [Arena.node, List.append_assoc, List.cons_append, getElem?_middle rfl]
  rfl

/-- The base takes over what the join needs, and the child is restricted. -/
lemma bindAt_modify_base (hstart : start = arena.length + 1 + added.length)
    (source other : LeafSource) (node : Node) (param : String) (fields : Option KeyFields) :
    bindAt param fields (node.place start)
        ((arena ++ ⟨info, .leaf source, none⟩ :: added ++ node.cells start none).modify
          arena.length (Cell.take (.leaf info other))) =
      arena ++ ⟨info, .leaf other, none⟩ ::
        (added ++ (node.bind param fields).cells start none) := by
  have hlength : (arena ++ ⟨info, .leaf other, none⟩ :: added).length = start := by
    rw [hstart, List.length_append, List.length_cons]
    omega
  have hbind := bindAt_cells param node hlength [] none fields
  rw [List.append_nil, List.append_nil, List.append_assoc, List.append_assoc, List.cons_append,
    List.cons_append] at hbind
  rw [List.append_assoc, List.cons_append, modify_middle rfl, ← hbind]
  rfl

end Child

/-- The children of a tree are added after its base, which stays where it is. -/
lemma addChildren_eq {terms : List Term} (hall : ∀ term ∈ terms, AddsNode store term)
    (arena added : Arena) (info : NodeInfo) (source : LeafSource) :
    addChildren store info.name arena.length terms (arena ++ ⟨info, .leaf source, none⟩ :: added) =
      (fun built => arena.growChildren added built.1 built.2) <$>
        buildChildren store (.leaf info source) terms := by
  -- every link may change what the base selects, and every child lengthens what was added
  induction terms generalizing source added with
  | nil =>
    rw [addChildren, buildChildren, Except.map_ok]
    simp only [growChildren, List.map_nil, placesOf, cellsOfAll, cells_leaf, List.zip_nil_left,
      List.append_assoc, List.singleton_append, List.append_nil]
  | cons term rest ih =>
    obtain ⟨hterm, hrest⟩ := List.forall_mem_cons.mp hall
    have hstart : (arena ++ ⟨info, .leaf source, none⟩ :: added).length =
        arena.length + 1 + added.length := by
      rw [List.length_append, List.length_cons]
      omega
    rw [addChildren, buildChildren, hterm, Node.info]
    cases buildIn store (some info.name) term with
    | error cause => rfl
    | ok node =>
      have hnode := info_node_place hstart node none []
      rw [List.append_nil] at hnode
      rw [Except.map_ok, ok_bind_eq, ok_bind_eq]
      dsimp only [grow]
      rw [hstart, node_base, link_congr hnode]
      cases hlink : link (.leaf info source) node term.label with
      | error cause => rfl
      | ok linked =>
        obtain ⟨parent, join⟩ := linked
        obtain ⟨other, rfl⟩ := exists_leaf_of_link hlink
        rw [ok_bind_eq, ok_bind_eq]
        dsimp only
        rw [bindAt_modify_base rfl, ih hrest]
        cases buildChildren store (.leaf info other) rest with
        | error cause => rfl
        | ok built =>
          rw [Except.map_ok, ok_bind_eq, ok_bind_eq]
          refine congrArg Except.ok ?_
          simp only [growChildren, List.map_cons, placesOf, cellsOfAll, List.length_append,
            length_cells, List.zip_cons_cons, place_congr (size_bind node join.param _), size_bind,
            ← Nat.add_assoc, ← List.append_assoc]

lemma push_leaf (info : NodeInfo) (source : LeafSource) (arena : Arena) :
    arena.push info (.leaf source) = arena.grow (.leaf info source) := by
  rw [push, grow, cells_leaf]
  rfl

/-- The base of a tree, seen from where all its children were added. -/
lemma node_growChildren (arena : Arena) (info : NodeInfo) (source : LeafSource)
    (nested : List (NestJoin × Node)) :
    (arena.growChildren [] (.leaf info source) nested).2.node arena.length =
      .leaf info source := by
  rw [growChildren, cells_leaf, List.append_nil]
  exact node_base source [] _

/-- A tree is added after its base and its children. -/
lemma push_tree_eq (arena : Arena) (known info : NodeInfo) (source : LeafSource)
    (nested : List (NestJoin × Node)) :
    push known (.tree arena.length (arena.growChildren [] (.leaf info source) nested).1)
        (arena.growChildren [] (.leaf info source) nested).2 =
      arena.grow (.tree known (.leaf info source) nested) := by
  rw [← push_eq_grow, growChildren, children, placesOf, cellsOfAll, List.append_nil,
    List.append_assoc]
  rfl

/-- **What is put into an arena is the node that is built.** -/
theorem add_eq (store : Store) (term : Term) : AddsNode store term := by
  induction term using Term.induction_on_members with
  | leaf id =>
    intro scope arena
    rw [add, buildIn]
    cases hleaf : buildLeaf store scope id with
    | error cause => rfl
    | ok leaf =>
      obtain ⟨info, source, rfl⟩ := exists_leaf_of_buildLeaf hleaf
      exact congrArg Except.ok (push_leaf info source arena)
  | merge terms ih =>
    intro scope arena
    rw [add, buildIn, addAll_eq ih]
    exact add_operator_eq addMerge_eq _
  | attach terms ih =>
    intro scope arena
    rw [add, buildIn, addAll_eq ih]
    exact add_operator_eq addAttach_eq _
  | filter terms ih =>
    intro scope arena
    rw [add, buildIn, addAll_eq ih]
    exact add_operator_eq addFilter_eq _
  | tree id terms ih =>
    intro scope arena
    rw [add, buildIn]
    cases hleaf : buildLeaf store scope id with
    | error cause => rfl
    | ok leaf =>
      obtain ⟨info, source, rfl⟩ := exists_leaf_of_buildLeaf hleaf
      have hchildren := addChildren_eq ih arena [] info source
      rw [ok_bind_eq, ok_bind_eq, Node.kindOver, push_leaf, grow, cells_leaf]
      dsimp only [Node.info]
      rw [place, children, sizeOfAll, Nat.add_zero, hchildren]
      cases hbuilt : buildChildren store (.leaf info source) terms with
      | error cause => rfl
      | ok built =>
        obtain ⟨base, nested⟩ := built
        obtain ⟨⟨other, rfl⟩, -⟩ := buildChildren_eq_ok hbuilt
        rw [Except.map_ok, ok_bind_eq, ok_bind_eq]
        dsimp only
        rw [node_growChildren, push_tree_eq]
        rfl

/-- A query is laid out from the beginning of its arena. -/
theorem build_eq (store : Store) (term : Term) :
    Arena.build store term =
      (fun node => (node.place 0, node.cells 0 none)) <$> QueryTerms.build store term := by
  have h := add_eq store term none []
  rw [Arena.build, QueryTerms.build, h]
  rfl

end Build

end Arena

end QueryTerms
