import Mathlib
import QueryTerms.Proofs.Query.Layout
import QueryTerms.Proofs.Query.Restricting

/-!
# What a restriction changes in a query

A restriction of a node is handed down from cell to cell.  The cells that are reached declare the
parameter, and their leaves take the restriction; nothing else happens to the query.

**Again.**  A leaf in fragments that declares a parameter ignores restrictions to it, and a compiled
leaf has each restriction once.  The same restriction again therefore changes nothing
(`Node.bind_bind`).

**What is added.**  `Cell.restrict` is what happens to a cell that a restriction is handed to, and
`Cell.Extends` says what is kept of it and what is added.

**Who is handed the restriction.**  `Arena.HandsTo` says which cells are reached from another one,
and with which fields; they are that cell and some of those below it (`Arena.IsUnder`).

**Cells of a restricted node.**  Two arenas that hold a node and the restricted node are compared
cell by cell (`Holds.reached`, `Holds.unreached`), by induction on the node.

**Queries.**  `Arena.bindAt_only_adds`.
-/

namespace QueryTerms

/-! ## Again -/

section Again

variable {param : String} {fields : KeyFields}

lemma NodeInfo.declare_of_has {info : NodeInfo} (h : info.params.has param = true) :
    info.declare param = info := by
  rw [declare, Table.setNew, if_pos h]

lemma NodeInfo.declare_declare (info : NodeInfo) (param : String) :
    (info.declare param).declare param = info.declare param :=
  declare_of_has ((info.has_declare_iff param param).mpr (.inl rfl))

/-- The same restriction again, of a leaf that declares the parameter since the first one. -/
lemma LeafSource.bind_bind (source : LeafSource) (declared : Bool) :
    (source.bind param fields declared).bind param fields true =
      source.bind param fields declared := by
  cases source with
  | compiled id children bindings =>
    rw [bind, bind]
    have hcontains : (if bindings.contains ⟨param, fields⟩ then bindings
        else bindings ++ [⟨param, fields⟩]).contains ⟨param, fields⟩ = true := by
      split
      · assumption
      · exact List.contains_iff_mem.mpr (List.mem_append_right _ (List.mem_singleton_self _))
    rw [if_pos hcontains]
  | fragments id parts => rfl

namespace Node

mutual

/-- The same restriction again changes nothing, neither in a node nor below it. -/
theorem bindFields_bindFields : ∀ (node : Node) (fields : KeyFields),
    (node.bindFields param fields).bindFields param fields = node.bindFields param fields
  | .leaf info source, fields => by
    have hdeclared : (info.declare param).params.has param = true :=
      (info.has_declare_iff param param).mpr (.inl rfl)
    rw [bindFields, bindFields, hdeclared, NodeInfo.declare_declare, LeafSource.bind_bind]
  | .merge info operands, fields => by
    rw [bindFields, bindFields, NodeInfo.declare_declare, bindAll_bindAll]
  | .attach info key base joined, fields => by
    rw [bindFields, bindFields, NodeInfo.declare_declare, handedDown_bindFields,
      bindFields_bindFields]
  | .filter info key narrowing base, fields => by
    rw [bindFields, bindFields, NodeInfo.declare_declare, handedDown_bindFields,
      bindFields_bindFields, bindAll_bindAll]
  | .tree info base nested, fields => by
    rw [bindFields, bindFields, NodeInfo.declare_declare, handedDown_bindFields,
      bindFields_bindFields]

/-- Nor does it change any of several nodes. -/
theorem bindAll_bindAll : ∀ (nodes : List Node) (fields : KeyFields),
    bindAll param fields (bindAll param fields nodes) = bindAll param fields nodes
  | [], _ => by rw [bindAll, bindAll]
  | node :: rest, fields => by
    rw [bindAll, bindAll, handedDown_bindFields, bindFields_bindFields, bindAll_bindAll]

end

/-- **The same restriction again changes nothing.** -/
theorem bind_bind (param : String) (fields : Option KeyFields) (node : Node) :
    (node.bind param fields).bind param fields = node.bind param fields := by
  have hkeys : (node.bind param fields).info.keyFields param = node.info.keyFields param := by
    rw [bind, NodeInfo.keyFields, NodeInfo.keyFields, keys_info_bindFields]
  rw [bind, hkeys, bind, bindFields_bindFields]

end Node

end Again

/-! ## What is added -/

/-- Bindings are added to a compiled statement; selected fields and conditions, to fragments. -/
inductive LeafSource.Extends : LeafSource → LeafSource → Prop
  | compiled {id : String} {children : Table String ChildBinding} {bindings others : List Binding}
      (h : bindings <+: others) : Extends (.compiled id children bindings)
        (.compiled id children others)
  | fragments {id : String} {parts : Fragments} {select conditions : List String}
      (hselect : parts.select <+: select) (hconditions : parts.conditions <+: conditions) :
      Extends (.fragments id parts) (.fragments id { parts with select, conditions })

/-- Leaves stay leaves, with something added; other kinds stay as they are. -/
inductive CellKind.Extends : CellKind → CellKind → Prop
  | leaf {source other : LeafSource} (h : source.Extends other) :
      Extends (.leaf source) (.leaf other)
  | composite {kind : CellKind} (h : ∀ source, kind ≠ .leaf source) : Extends kind kind

namespace Cell

/-- A cell that a restriction is handed to. -/
def restrict (param : String) (fields : KeyFields) (cell : Cell) : Cell :=
  { cell with
    info := cell.info.declare param
    kind := cell.kind.restrict param fields (cell.info.params.has param) }

/-- A cell that a restriction to a parameter is handed to keeps its parent, its operands and all
that is known of it, besides declaring the parameter where it did not. -/
structure Extends (param : String) (before after : Cell) : Prop where
  parent : after.parent = before.parent
  operands : after.kind.operands = before.kind.operands
  kind : before.kind.Extends after.kind
  keys : after.info.keys = before.info.keys
  info : after.info = { before.info with params := after.info.params }
  params : after.info.params =
    if before.info.params.has param then before.info.params
    else before.info.params ++ [(param, ({} : ParamSpec))]

end Cell

section Extends

variable {param : String} {fields : KeyFields}

lemma LeafSource.extends_bind (source : LeafSource) (declared : Bool) :
    source.Extends (source.bind param fields declared) := by
  cases source with
  | compiled id children bindings =>
    refine .compiled ?_
    split
    · exact List.prefix_refl _
    · exact List.prefix_append _ _
  | fragments id parts =>
    rw [bind]
    split
    · exact .fragments (List.prefix_refl _) (List.prefix_refl _)
    · obtain ⟨added, hadded⟩ := parts.exists_restrict param fields
      rw [hadded]
      exact .fragments (List.prefix_append _ _) (List.prefix_append _ _)

lemma CellKind.extends_restrict (kind : CellKind) (declared : Bool) :
    kind.Extends (kind.restrict param fields declared) := by
  cases kind with
  | leaf source => exact .leaf (source.extends_bind declared)
  | _ => exact .composite nofun

lemma CellKind.operands_restrict (kind : CellKind) (declared : Bool) :
    (kind.restrict param fields declared).operands = kind.operands := by
  cases kind <;> rfl

lemma Cell.extends_restrict (cell : Cell) : cell.Extends param (cell.restrict param fields) where
  parent := rfl
  operands := cell.kind.operands_restrict _
  kind := cell.kind.extends_restrict _
  keys := rfl
  info := rfl
  params := rfl

end Extends

/-! ## Who is handed the restriction -/

namespace Arena

open Node

/-- The cell at one place is part of what stands at another one. -/
inductive IsUnder (arena : Arena) : Nat → Nat → Prop
  | self (id : Nat) : IsUnder arena id id
  | step {id operand place : Nat} {cell : Cell} (hcell : arena[id]? = some cell)
      (hoperand : operand ∈ cell.kind.operands) (h : IsUnder arena operand place) :
      IsUnder arena id place

/-- A restriction of the cell at `id` to `fields` is handed down to another one, with the fields
that are handed down to that one. -/
inductive HandsTo (arena : Arena) (param : String) : Nat → KeyFields → Nat → KeyFields → Prop
  | self {id : Nat} {cell : Cell} (hcell : arena[id]? = some cell) (fields : KeyFields) :
      HandsTo arena param id fields id fields
  | step {id target place : Nat} {cell inner : Cell} {fields own : KeyFields}
      (hcell : arena[id]? = some cell) (htarget : target ∈ cell.kind.targets)
      (hinner : arena[target]? = some inner)
      (h : HandsTo arena param target (handedDown param fields inner.info) place own) :
      HandsTo arena param id fields place own

/-- What a restriction of the cell at `id` to `fields` makes of an arena: the cells that it is
handed to are restricted, and all other ones are as they were. -/
structure IsRestriction (param : String) (id : Nat) (fields : KeyFields) (arena after : Arena) :
    Prop where
  length_eq : after.length = arena.length
  outside : ∀ place, ¬ arena.IsUnder id place → after[place]? = arena[place]?
  unreached : ∀ place, (∀ own, ¬ arena.HandsTo param id fields place own) →
    after[place]? = arena[place]?
  reached : ∀ place own, arena.HandsTo param id fields place own →
    ∃ cell, arena[place]? = some cell ∧ after[place]? = some (cell.restrict param own) ∧
      cell.Extends param (cell.restrict param own)

section Reach

variable {arena : Arena} {param : String} {id place : Nat} {fields own : KeyFields}

lemma targets_subset_operands (kind : CellKind) : kind.targets ⊆ kind.operands := by
  cases kind with
  | leaf source => exact List.Subset.refl _
  | merge ids => exact List.Subset.refl _
  | attach key ids => exact List.take_subset 1 ids
  | filter key ids => exact List.Subset.refl _
  | tree base nested => exact List.cons_subset_cons base (List.nil_subset _)

lemma HandsTo.isUnder (h : arena.HandsTo param id fields place own) : arena.IsUnder id place := by
  induction h with
  | self hcell fields => exact .self _
  | step hcell htarget _ _ ih => exact .step hcell (targets_subset_operands _ htarget) ih

lemma handsTo_iff : arena.HandsTo param id fields place own ↔
    ∃ cell, arena[id]? = some cell ∧ (place = id ∧ own = fields ∨
      ∃ target ∈ cell.kind.targets, ∃ inner, arena[target]? = some inner ∧
        arena.HandsTo param target (handedDown param fields inner.info) place own) := by
  constructor
  · intro h
    cases h with
    | self hcell fields => exact ⟨_, hcell, .inl ⟨rfl, rfl⟩⟩
    | step hcell htarget hinner h => exact ⟨_, hcell, .inr ⟨_, htarget, _, hinner, h⟩⟩
  · rintro ⟨cell, hcell, ⟨rfl, rfl⟩ | ⟨target, htarget, inner, hinner, h⟩⟩
    · exact .self hcell own
    · exact .step hcell htarget hinner h

end Reach

/-! ## Cells of a restricted node -/

section Bound

variable {arena after : Arena} {param : String} {start place : Nat} {parent : Option Nat}
  {fields own : KeyFields} {node : Node} {nodes more : List Node}

lemma HoldsAll.append (h : arena.HoldsAll start parent (nodes ++ more)) :
    arena.HoldsAll start parent nodes ∧ arena.HoldsAll (start + sizeOfAll nodes) parent more := by
  obtain ⟨pre, post, rfl, hpre⟩ := h
  rw [cellsOfAll_append, ← List.append_assoc]
  refine ⟨⟨pre, _, List.append_assoc _ _ _, hpre⟩, ⟨_, post, rfl, ?_⟩⟩
  rw [List.length_append, hpre, length_cellsOfAll]

lemma HoldsAll.getElem?_eq (h : arena.HoldsAll start parent nodes)
    (hafter : after.HoldsAll start parent nodes) (hle : start ≤ place)
    (hlt : place < start + sizeOfAll nodes) : after[place]? = arena[place]? := by
  have hread : ∀ {arena : Arena}, arena.HoldsAll start parent nodes →
      arena[place]? = (cellsOfAll start parent nodes)[place - start]? := by
    rintro arena ⟨pre, post, rfl, rfl⟩
    rw [List.append_assoc, List.getElem?_append_right hle, List.getElem?_append_left]
    rw [length_cellsOfAll]
    omega
  rw [hread h, hread hafter]

lemma HoldsAll.tail_bindAll
    (h : after.HoldsAll start parent (bindAll param fields (node :: nodes))) :
    after.HoldsAll (start + node.size) parent (bindAll param fields nodes) := by
  have htail := h.tail
  rwa [size_bindFields] at htail

/-- The nodes at some places, before and after the restriction. -/
lemma HoldsAll.exists_at (h : arena.HoldsAll start parent nodes)
    (hafter : after.HoldsAll start parent (bindAll param fields nodes))
    (hplace : place ∈ placesOf start nodes) :
    ∃ child ∈ nodes, ∃ first, child.place first = place ∧ arena.Holds first parent child ∧
      after.Holds first parent (child.bindFields param (handedDown param fields child.info)) := by
  induction nodes generalizing start with
  | nil => cases hplace
  | cons node rest ih =>
    rcases List.mem_cons.mp hplace with rfl | hplace
    · exact ⟨node, List.mem_cons_self, start, rfl, h.head, hafter.head⟩
    · obtain ⟨child, hchild, hholds⟩ := ih h.tail hafter.tail_bindAll hplace
      exact ⟨child, List.mem_cons_of_mem node hchild, hholds⟩

/-- The nodes whose cells are at some places, before and after the restriction. -/
lemma HoldsAll.exists_around (h : arena.HoldsAll start parent nodes)
    (hafter : after.HoldsAll start parent (bindAll param fields nodes)) (hle : start ≤ place)
    (hlt : place < start + sizeOfAll nodes) :
    ∃ child ∈ nodes, ∃ first, child.place first ∈ placesOf start nodes ∧ first ≤ place ∧
      place < first + child.size ∧ arena.Holds first parent child ∧
      after.Holds first parent (child.bindFields param (handedDown param fields child.info)) := by
  induction nodes generalizing start with
  | nil =>
    rw [sizeOfAll] at hlt
    omega
  | cons node rest ih =>
    by_cases hhere : place < start + node.size
    · exact ⟨node, List.mem_cons_self, start, List.mem_cons_self, hle, hhere, h.head, hafter.head⟩
    · rw [sizeOfAll] at hlt
      obtain ⟨child, hchild, first, hfirst, hholds⟩ :=
        ih h.tail hafter.tail_bindAll (by omega) (by omega)
      exact ⟨child, List.mem_cons_of_mem node hchild, first, List.mem_cons_of_mem _ hfirst, hholds⟩

/-- What stands below a restricted node: nodes that are restricted, and others. -/
lemma Holds.exists_targets (h : arena.Holds start parent node)
    (hafter : after.Holds start parent (node.bindFields param fields)) :
    ∃ targets others, node.children = targets ++ others ∧
      (node.cell start parent).kind.targets = placesOf start targets ∧
      arena.HoldsAll start (some (node.place start)) targets ∧
      after.HoldsAll start (some (node.place start)) (bindAll param fields targets) ∧
      arena.HoldsAll (start + sizeOfAll targets) (some (node.place start)) others ∧
      after.HoldsAll (start + sizeOfAll targets) (some (node.place start)) others := by
  obtain ⟨targets, others, hchildren, hbound, htargets⟩ :=
    Arena.exists_targets node param fields
  have hbelow := h.children
  have hbelowAfter := hafter.children
  rw [place_congr (size_bindFields node param fields), hbound] at hbelowAfter
  rw [hchildren] at hbelow
  have hothers := hbelowAfter.append.2
  rw [sizeOfAll_congr (map_size_bindAll param fields targets)] at hothers
  exact ⟨targets, others, hchildren, htargets start, hbelow.append.1, hbelowAfter.append.1,
    hbelow.append.2, hothers⟩

/-- The cells that the restriction is handed to are restricted, each with its fields. -/
lemma Holds.reached (h : arena.Holds start parent node)
    (hafter : after.Holds start parent (node.bindFields param fields))
    (hhands : arena.HandsTo param (node.place start) fields place own) :
    ∃ cell, arena[place]? = some cell ∧ after[place]? = some (cell.restrict param own) := by
  induction node using induction_on_children generalizing start parent fields with
  | step node ih =>
    have hhere := h.getElem?
    obtain ⟨cell, hcell, hcases⟩ := handsTo_iff.mp hhands
    obtain rfl : node.cell start parent = cell := Option.some.inj (hhere.symm.trans hcell)
    rcases hcases with ⟨rfl, rfl⟩ | ⟨target, htarget, inner, hinner, hbelow⟩
    · refine ⟨_, hhere, ?_⟩
      have hplace := hafter.getElem?
      rw [place_congr (size_bindFields node param own), cell_bindFields] at hplace
      exact hplace
    · obtain ⟨targets, others, hchildren, htargets, hheld, hbound, -⟩ := h.exists_targets hafter
      rw [htargets] at htarget
      obtain ⟨child, hchild, first, rfl, hholds, hholdsAfter⟩ := hheld.exists_at hbound htarget
      obtain rfl : child.cell first _ = inner := Option.some.inj (hholds.getElem?.symm.trans hinner)
      exact ih child (hchildren ▸ List.mem_append_left others hchild) hholds hholdsAfter hbelow

/-- The other cells are as they were. -/
lemma Holds.unreached (h : arena.Holds start parent node)
    (hafter : after.Holds start parent (node.bindFields param fields)) (hle : start ≤ place)
    (hlt : place < start + node.size)
    (hhands : ∀ own, ¬ arena.HandsTo param (node.place start) fields place own) :
    after[place]? = arena[place]? := by
  induction node using induction_on_children generalizing start parent fields with
  | step node ih =>
    obtain ⟨targets, others, hchildren, htargets, hheld, hbound, hothers, hothersAfter⟩ :=
      h.exists_targets hafter
    have hne : place ≠ node.place start := by
      rintro rfl
      exact hhands fields (.self h.getElem? fields)
    have hplace := node.place_add_one start
    rw [Node.place, hchildren, sizeOfAll_append] at hplace hne
    by_cases hin : place < start + sizeOfAll targets
    · obtain ⟨child, hchild, first, hfirst, hfrom, hto, hholds, hholdsAfter⟩ :=
        hheld.exists_around hbound hle hin
      refine ih child (hchildren ▸ List.mem_append_left others hchild) hholds hholdsAfter hfrom hto
        fun own hown => hhands own ?_
      exact .step h.getElem? (htargets ▸ hfirst) hholds.getElem? hown
    · exact hothers.getElem?_eq hothersAfter (by omega) (by omega)

/-- Beside a part that is exchanged for one of the same length nothing changes. -/
lemma getElem?_beside {pre part other post : Arena} (hlength : other.length = part.length)
    (h : place < pre.length ∨ pre.length + part.length ≤ place) :
    (pre ++ other ++ post)[place]? = (pre ++ part ++ post)[place]? := by
  rcases h with hbefore | hbehind
  · rw [List.append_assoc, List.append_assoc, List.getElem?_append_left hbefore,
      List.getElem?_append_left hbefore]
  · rw [← List.length_append] at hbehind
    have hsame : (pre ++ other).length = (pre ++ part).length := by
      rw [List.length_append, List.length_append, hlength]
    rw [List.getElem?_append_right hbehind, List.getElem?_append_right (hsame ▸ hbehind), hsame]

/-- **A restriction in an arena only adds.** -/
theorem Holds.isRestriction (h : arena.Holds start parent node) (param : String)
    (fields : Option KeyFields) :
    IsRestriction param (node.place start) (fields.getD (node.info.keyFields param)) arena
      (bindAt param fields (node.place start) arena) := by
  have hheld := h
  obtain ⟨pre, post, rfl, hpre⟩ := h
  have hsize := size_bind node param fields
  have hbound := bindAt_cells param node hpre post parent fields
  have hafter : Holds (bindAt param fields (node.place start)
      (pre ++ node.cells start parent ++ post)) start parent (node.bind param fields) :=
    ⟨pre, post, hbound, hpre⟩
  have hunreached : ∀ place, (∀ own, ¬ HandsTo (pre ++ node.cells start parent ++ post) param
      (node.place start) (fields.getD (node.info.keyFields param)) place own) →
      (bindAt param fields (node.place start) (pre ++ node.cells start parent ++ post))[place]? =
        (pre ++ node.cells start parent ++ post)[place]? := by
    intro place hhands
    by_cases hin : start ≤ place ∧ place < start + node.size
    · exact hheld.unreached hafter hin.1 hin.2 hhands
    · rw [hbound]
      refine getElem?_beside (by rw [length_cells, length_cells, hsize]) ?_
      rw [length_cells, hpre]
      omega
  refine ⟨?_, fun place hunder => ?_, hunreached, fun place own hhands => ?_⟩
  · rw [hbound]
    simp only [List.length_append, length_cells, hsize]
  · exact hunreached place fun own hown => hunder hown.isUnder
  · obtain ⟨cell, hcell, hrestricted⟩ := hheld.reached hafter hhands
    exact ⟨cell, hcell, hrestricted, cell.extends_restrict⟩

/-- The same restriction again changes nothing. -/
lemma Holds.bindAt_bindAt (h : arena.Holds start parent node) (param : String)
    (fields : Option KeyFields) :
    bindAt param fields (node.place start) (bindAt param fields (node.place start) arena) =
      bindAt param fields (node.place start) arena := by
  obtain ⟨pre, post, rfl, hpre⟩ := h
  rw [bindAt_cells param node hpre, ← place_congr (size_bind node param fields),
    bindAt_cells param _ hpre, bind_bind]

end Bound

/-! ## Queries -/

/-- **A restriction only adds, and only once.**  In the query of a term, the same restriction of a
node again changes nothing.  A single one leaves everything as it was that is not part of the node,
and all parents, operands, keys and ways of composition; the cells that it is handed down to declare
the parameter, where they did not, and their leaves get bindings, or fields and conditions, behind
those that they have. -/
theorem bindAt_only_adds {store : Store} {term : Term} {root : Nat} {arena : Arena}
    (hbuild : Arena.build store term = .ok (root, arena)) {id : Nat} (hid : id < arena.length)
    (param : String) (fields : Option KeyFields) :
    bindAt param fields id (bindAt param fields id arena) = bindAt param fields id arena ∧
      ∃ cell, arena[id]? = some cell ∧
        IsRestriction param id (fields.getD (cell.info.keyFields param)) arena
          (bindAt param fields id arena) := by
  rw [build_eq] at hbuild
  obtain ⟨node, hnode, heq⟩ := map_eq_ok_iff.mp hbuild
  cases heq
  have hcoherent := (coherent_and_counted_of_buildIn hnode).1
  have hholds : Holds (node.cells 0 none) 0 none node := ⟨[], [], by simp, rfl⟩
  rw [length_cells] at hid
  obtain ⟨first, above, below, hbelow, -, rfl⟩ :=
    hholds.exists_of_lt hcoherent (Nat.zero_le id) (by omega)
  exact ⟨hbelow.bindAt_bindAt param fields, _, hbelow.getElem?, hbelow.isRestriction param fields⟩

/-- Users and guests with profiles attached: the union of the first two, in the third of five cells,
is restricted by name, which reaches a compiled leaf and one in fragments. -/
theorem bindAt_only_adds_guests :
    let keys : KeyMap := [("user", .single "id")]
    let parts : Fragments := { select := ["id"], source := some "guests" }
    let catalog : Catalog :=
      { compiled := [("users", { keys }, "SELECT id FROM users"),
          ("profile", { keys }, "SELECT id FROM profiles")]
        definitions := [("guests", ⟨parts, { keys }⟩)] }
    let term := Term.attach [.merge [.leaf "users", .leaf "guests"], .leaf "profile"]
    ∃ root arena, Arena.build catalog.toStore term = .ok (root, arena) ∧ arena.length = 5 ∧
      bindAt "name" none 2 (bindAt "name" none 2 arena) = bindAt "name" none 2 arena ∧
      ∃ cell, arena[2]? = some cell ∧ IsRestriction "name" 2 (cell.info.keyFields "name") arena
        (bindAt "name" none 2 arena) := by
  intro keys parts catalog term
  have hbuild : ∃ root arena, Arena.build catalog.toStore term = .ok (root, arena) ∧
      arena.length = 5 := ⟨_, _, by cbv, rfl⟩
  obtain ⟨root, arena, hbuild, hlength⟩ := hbuild
  exact ⟨root, arena, hbuild, hlength, bindAt_only_adds hbuild (by omega) "name" none⟩

end Arena

end QueryTerms
