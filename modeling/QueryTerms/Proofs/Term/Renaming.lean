import QueryTerms.Proofs.Term.Levels
import QueryTerms.Proofs.Term.RoundTrip

/-!
# Aliases rename children

Aliases are put in while a text is read: the text of a child gets the target of its alias in front,
and is read again.  Where all targets are ids, that is a renaming of terms, from the root down.

**Renaming.**  `Term.renamed` gives every direct child of a tree the id that its own id stands for
under the id of the tree, which has been renamed before.  Operands of operators are no direct
children and keep their ids.

**Texts.**  A child that is a leaf or a tree begins with its id and goes on with a parenthesis, if
with anything, so that only the id is replaced (`substituteAlias_print`).

**Reading.**  A reader that `Renames` what stands in parentheses makes one for the level above, as
in reading without aliases: `parseWith_canonical`.
-/

namespace QueryTerms

/-- The id that an id stands for under a parent; outside of trees it stands for itself. -/
def Aliases.idUnder (aliases : Aliases) (parent : Option String) (id : String) : String :=
  match parent with
  | .none => id
  | .some parent => (aliases.target? parent id).getD id

namespace Term

/-! ## Renaming -/

mutual

/-- The term with every direct child of a tree renamed; `parent` is the new id of the tree that it
is a direct child of. -/
def renamed (aliases : Aliases) (parent : Option String) : Term → Term
  | .leaf id => .leaf (aliases.idUnder parent id)
  | .merge terms => .merge (renamedAll aliases none terms)
  | .attach terms => .attach (renamedAll aliases none terms)
  | .filter terms => .filter (renamedAll aliases none terms)
  | .tree id children =>
    .tree (aliases.idUnder parent id)
      (renamedAll aliases (some (aliases.idUnder parent id)) children)

def renamedAll (aliases : Aliases) (parent : Option String) : List Term → List Term
  | [] => []
  | term :: rest => renamed aliases parent term :: renamedAll aliases parent rest

end

/-- A leaf or a tree. -/
def isPlain : Term → Bool
  | .leaf _ => true
  | .tree _ _ => true
  | _ => false

mutual

/-- All direct children of trees are leaves or trees. -/
def hasPlainChildren : Term → Bool
  | .leaf _ => true
  | .merge terms => allHavePlainChildren terms
  | .attach terms => allHavePlainChildren terms
  | .filter terms => allHavePlainChildren terms
  | .tree _ children => children.all isPlain && allHavePlainChildren children

def allHavePlainChildren : List Term → Bool
  | [] => true
  | term :: rest => term.hasPlainChildren && allHavePlainChildren rest

end

/-- The term itself with the id that its own id stands for, and its children as they are. -/
def headUnder (aliases : Aliases) (parent : Option String) : Term → Term
  | .leaf id => .leaf (aliases.idUnder parent id)
  | .tree id children => .tree (aliases.idUnder parent id) children
  | term => term

section Renaming

variable {aliases : Aliases} {parent : Option String} {term : Term} {terms : List Term}

lemma renamedAll_eq_map (aliases : Aliases) (parent : Option String) (terms : List Term) :
    renamedAll aliases parent terms = terms.map (renamed aliases parent) := by
  induction terms with
  | nil => rw [renamedAll, List.map_nil]
  | cons first rest ih => rw [renamedAll, ih, List.map_cons]

lemma renamed_compose (aliases : Aliases) (parent : Option String) (op : Operator)
    (terms : List Term) :
    renamed aliases parent (op.compose terms) =
      op.compose (terms.map (renamed aliases none)) := by
  cases op <;> simp only [Operator.compose, renamed, renamedAll_eq_map]

lemma renamed_tree (aliases : Aliases) (parent : Option String) (id : String)
    (children : List Term) :
    renamed aliases parent (.tree id children) =
      .tree (aliases.idUnder parent id)
        (children.map (renamed aliases (some (aliases.idUnder parent id)))) := by
  rw [renamed, renamedAll_eq_map]

/-- A child is renamed first, and what is below it after that. -/
lemma renamed_headUnder (aliases : Aliases) (parent : Option String) (term : Term) :
    renamed aliases none (headUnder aliases parent term) = renamed aliases parent term := by
  cases term <;> simp only [headUnder, renamed, Aliases.idUnder]

lemma allHavePlainChildren_iff :
    allHavePlainChildren terms = true ↔ ∀ member ∈ terms, member.hasPlainChildren = true := by
  induction terms with
  | nil => simp [allHavePlainChildren]
  | cons first rest ih => simp [allHavePlainChildren, ih]

lemma hasPlainChildren_compose_iff (op : Operator) :
    (op.compose terms).hasPlainChildren = true ↔
      ∀ member ∈ terms, member.hasPlainChildren = true := by
  cases op <;> simp only [Operator.compose, hasPlainChildren, allHavePlainChildren_iff]

lemma hasPlainChildren_tree_iff {id : String} {children : List Term} :
    (Term.tree id children).hasPlainChildren = true ↔
      ∀ child ∈ children, child.isPlain = true ∧ child.hasPlainChildren = true := by
  rw [hasPlainChildren, Bool.and_eq_true, List.all_eq_true, allHavePlainChildren_iff]
  exact forall₂_and.symm

lemma hasPlainChildren_headUnder (h : term.hasPlainChildren = true) :
    (headUnder aliases parent term).hasPlainChildren = true := by
  cases term <;> exact h

lemma isValidId_idUnder (htargets : ∀ {parent child target : String},
    aliases.target? parent child = some target → isValidId target.toList = true) {id : String}
    (hid : isValidId id.toList = true) :
    isValidId (aliases.idUnder parent id).toList = true := by
  cases parent with
  | none => exact hid
  | some parent =>
    rw [Aliases.idUnder]
    cases htarget : aliases.target? parent id with
    | none => exact hid
    | some target => exact htargets htarget

lemma isWellFormed_headUnder (htargets : ∀ {parent child target : String},
    aliases.target? parent child = some target → isValidId target.toList = true)
    (h : term.IsWellFormed) : (headUnder aliases parent term).IsWellFormed := by
  cases term with
  | leaf id =>
    rw [isWellFormed_leaf_iff] at h
    rw [headUnder, isWellFormed_leaf_iff]
    exact isValidId_idUnder htargets h
  | tree id children =>
    rw [isWellFormed_tree_iff] at h
    rw [headUnder, isWellFormed_tree_iff]
    exact ⟨isValidId_idUnder htargets h.1, h.2⟩
  | _ => exact h

end Renaming

/-! ## Texts -/

section Texts

variable {aliases : Aliases} {level : Nat} {text : List Char} {term : Term}

lemma Derives.isBalanced (h : Derives level text term) : IsBalanced text := by
  obtain ⟨derivation, hvalid, -, rfl, -⟩ := h
  exact hvalid.text_isBalanced

lemma Derives.hides_comma (h : Derives level text term) : Hides ',' text := by
  obtain ⟨derivation, hvalid, -, rfl, -⟩ := h
  exact hvalid.text_hides_comma

lemma Derives.isBlankText_eq (h : Derives level text term) : Text.isBlankText text = false := by
  obtain ⟨derivation, hvalid, -, rfl, -⟩ := h
  exact hvalid.isBlankText_text

lemma Derives.hides {op : Operator} (h : Derives (op.level + 1) text term) : Hides op.sign text := by
  obtain ⟨derivation, hvalid, hlevel, rfl, -⟩ := h
  have hop := op.isOperator
  exact hvalid.text_hides hop.isIdChar_eq (hop.tidy.noBlank _ List.mem_cons_self)
    (hop.outbinds.mono hlevel)

lemma print_derives_zero (h : term.IsWellFormed) : Derives 0 term.print term :=
  (print_derives term h).mono (Nat.zero_le _)

/-- The operands of an operator come apart again. -/
lemma splitTop_print_compose {op : Operator} {terms : List Term}
    (h : (op.compose terms).IsWellFormed) :
    splitTop op.sign (op.compose terms).print = terms.map (operandText (op.level + 1)) := by
  have hop := op.isOperator
  obtain ⟨hlength, hterms⟩ := (hop.isWellFormed_iff terms).mp h
  have hderives : ∀ member ∈ terms,
      Derives (op.level + 1) (operandText (op.level + 1) member) member := fun member hmem =>
    operandText_derives (print_derives member (hterms member hmem)) op.level_lt
  rw [hop.print_eq]
  refine splitTop_joinWith hop.tidy.ne_open hop.tidy.ne_close ?_ ?_ ?_
  · exact List.ne_nil_of_length_pos (by rw [List.length_map]; omega)
  · exact List.forall_mem_map.mpr fun member hmem => (hderives member hmem).isBalanced
  · exact List.forall_mem_map.mpr fun member hmem => (hderives member hmem).hides

lemma trim_id {id : List Char} (h : isValidId id = true) : Text.trim id = id := by
  have htrim := Text.trim_between Text.isBlankText_nil Text.isBlankText_nil (isTight_id h)
  rwa [List.nil_append, List.append_nil] at htrim

lemma trim_tree {id : List Char} (h : isValidId id = true) (inner : List Char) :
    Text.trim (id ++ ('(' :: inner ++ [')'])) = id ++ ('(' :: inner ++ [')']) := by
  have htrim := Text.trim_between Text.isBlankText_nil Text.isBlankText_nil (isTight_tree h [] inner)
  rwa [List.nil_append, List.append_nil, List.append_nil] at htrim

lemma trim_group (inner : List Char) :
    Text.trim ('(' :: inner ++ [')']) = '(' :: inner ++ [')'] := by
  have htrim := Text.trim_between Text.isBlankText_nil Text.isBlankText_nil (isTight_group inner)
  rwa [List.nil_append, List.append_nil] at htrim

/-- Only the id in front is replaced. -/
lemma substituteAlias_of_id {parent id rest : List Char} (hid : isValidId id = true)
    (hrest : rest = [] ∨ rest.head? = some '(') (htrim : Text.trim text = id ++ rest) :
    substituteAlias aliases parent text =
      (aliases.idUnder (some (String.ofList parent)) (String.ofList id)).toList ++ rest := by
  have hchars := isIdChar_of_isValidId hid
  have hend : rest.takeWhile isIdChar = [] ∧ rest.dropWhile isIdChar = rest := by
    rcases hrest with rfl | hhead
    · exact ⟨rfl, rfl⟩
    · obtain ⟨others, rfl⟩ := List.head?_eq_some_iff.mp hhead
      exact ⟨rfl, rfl⟩
  have htake : (id ++ rest).takeWhile isIdChar = id := by
    rw [List.takeWhile_append_of_pos hchars, hend.1, List.append_nil]
  have hdrop : (id ++ rest).dropWhile isIdChar = rest := by
    rw [List.dropWhile_append_of_pos hchars, hend.2]
  have hcond : ¬ (id.isEmpty || !(rest.isEmpty || decide (rest.head? = some '('))) = true := by
    have hne := ne_nil_of_isValidId hid
    rcases hrest with rfl | hhead
    · simp [hne]
    · simp [hne, hhead]
  simp only [substituteAlias, htrim, htake, hdrop, if_neg hcond, Aliases.idUnder]
  cases aliases.target? (String.ofList parent) (String.ofList id) with
  | none => rw [Option.getD_none, String.toList_ofList]
  | some target => rw [Option.getD_some]

/-- **A child is renamed in its text.** -/
theorem substituteAlias_print (hwf : term.IsWellFormed) (hplain : term.isPlain = true)
    (parent : String) :
    substituteAlias aliases parent.toList term.print =
      (headUnder aliases (some parent) term).print := by
  cases term with
  | leaf id =>
    have hid := (isWellFormed_leaf_iff id).mp hwf
    have htrim : Text.trim id.toList = id.toList ++ [] := by rw [trim_id hid, List.append_nil]
    rw [print, substituteAlias_of_id hid (.inl rfl) htrim, List.append_nil, String.ofList_toList,
      String.ofList_toList]
    rfl
  | tree id children =>
    have hid := ((isWellFormed_tree_iff id children).mp hwf).1
    rw [headUnder, print_tree, print_tree, substituteAlias_of_id hid (.inr rfl) (trim_tree hid _),
      String.ofList_toList, String.ofList_toList]
  | _ => cases hplain

/-- Parentheses around a term only lead one level down. -/
lemma readAtom_print_group {nested : Reader} (hwf : term.IsWellFormed) :
    readAtom aliases nested ('(' :: term.print ++ [')']) = nested term.print := by
  have hderives := print_derives_zero hwf
  have htrim := trim_group term.print
  rw [readAtom_of_trim_group List.not_mem_nil hderives.isBalanced htrim, Text.trim_nil,
    readGroup_of_nil hderives.hides_comma.splitTop_eq hderives.isBlankText_eq]

/-- A tree is read child by child. -/
lemma readAtom_print_tree {nested : Reader} {id : String} {children terms : List Term}
    (hwf : (Term.tree id children).IsWellFormed)
    (hread : List.Forall₂
      (fun part term => nested (substituteAlias aliases id.toList part) = .ok term)
      (children.map print) terms) :
    readAtom aliases nested (Term.tree id children).print = .ok (.tree id terms) := by
  obtain ⟨hid, hne, hchildren⟩ := (isWellFormed_tree_iff id children).mp hwf
  have hderives : ∀ child ∈ children, Derives 0 child.print child :=
    fun child hmem => print_derives_zero (hchildren child hmem)
  have hbalanced : ∀ part ∈ children.map print, IsBalanced part :=
    List.forall_mem_map.mpr fun child hmem => (hderives child hmem).isBalanced
  have hblank : ∀ part ∈ children.map print, Text.isBlankText part = false :=
    List.forall_mem_map.mpr fun child hmem => (hderives child hmem).isBlankText_eq
  have hsplit : splitTop ',' (joinWith ',' (children.map print)) = children.map print :=
    splitTop_joinWith (by decide) (by decide) (by simpa using hne) hbalanced
      (List.forall_mem_map.mpr fun child hmem => (hderives child hmem).hides_comma)
  have hinner : Text.isBlankText (joinWith ',' (children.map print)) = false := by
    obtain ⟨child, hmem⟩ := List.exists_mem_of_ne_nil children hne
    have hpart : child.print ∈ children.map print := List.mem_map_of_mem hmem
    exact isBlankText_joinWith hpart (hblank _ hpart)
  rw [print_tree, readAtom_of_trim_group (open_notMem_id hid)
    (IsBalanced.joinWith (by decide) (by decide) hbalanced) (trim_tree hid _), trim_id hid,
    readGroup_of_id hid hsplit hinner hblank hread, String.ofList_toList]

end Texts

/-! ## Reading -/

/-- The reader renames what has less than `size` parentheses and is written as an operand of an
operator below `bound`. -/
def Renames (aliases : Aliases) (bound size : Nat) (reader : Reader) : Prop :=
  ∀ term : Term, term.IsWellFormed → term.hasPlainChildren = true →
    (operandText bound term).count '(' < size →
    reader (operandText bound term) = .ok (term.renamed aliases none)

section Renames

variable {aliases : Aliases} {size : Nat} {nested next : Reader}

/-- Operands are renamed one by one. -/
theorem Renames.readOperands {op : Operator} (h : Renames aliases (op.level + 1) size next) :
    Renames aliases op.level size (readOperands op.sign op.compose next) := by
  intro term hwf hplain hcount
  have hop := op.isOperator
  by_cases hstrength : term.strength = op.level
  · obtain ⟨terms, rfl⟩ := hop.exists_of_strength term hstrength
    obtain ⟨hlength, hterms⟩ := (hop.isWellFormed_iff terms).mp hwf
    have hplain := (hasPlainChildren_compose_iff op).mp hplain
    rw [operandText_of_le hstrength.ge] at hcount ⊢
    rw [renamed_compose]
    refine readOperands_of_several (splitTop_print_compose hwf) (by rwa [List.length_map]) ?_ ?_
    · refine List.forall_mem_map.mpr fun member hmem => ?_
      have hderives := print_derives member (hterms member hmem)
      exact (operandText_derives hderives op.level_lt).isBlankText_eq
    · rw [List.forall₂_map_left_iff, List.forall₂_map_right_iff, List.forall₂_same]
      intro member hmem
      refine h member (hterms member hmem) (hplain member hmem) (lt_of_le_of_lt ?_ hcount)
      rw [hop.print_eq]
      exact (infix_joinWith (List.mem_map_of_mem hmem)).sublist.count_le '('
  · -- as an operand of the operator it has no operator of the same strength to show
    have htext : operandText op.level term = operandText (op.level + 1) term := by
      rcases Nat.lt_or_ge term.strength op.level with hlt | hle
      · rw [operandText_of_lt hlt, operandText_of_lt (Nat.lt_succ_of_lt hlt)]
      · have hlt := lt_of_le_of_ne hle (Ne.symm hstrength)
        rw [operandText_of_le hle, operandText_of_le hlt]
    have hderives := operandText_derives (print_derives term hwf) op.level_lt
    rw [htext] at hcount ⊢
    rw [readOperands_of_single hderives.hides.splitTop_eq]
    exact h term hwf hplain hcount

variable (htargets : ∀ {parent child target : String},
  aliases.target? parent child = some target → isValidId target.toList = true)

include htargets

/-- Renaming brings in no parentheses. -/
lemma count_print_headUnder {parent : Option String} {term : Term} (h : term.IsWellFormed) :
    (headUnder aliases parent term).print.count '(' = term.print.count '(' := by
  have hcount : ∀ id : String, isValidId id.toList = true → id.toList.count '(' = 0 :=
    fun id hid => List.count_eq_zero_of_not_mem (open_notMem_id hid)
  cases term with
  | leaf id =>
    have hid := (isWellFormed_leaf_iff id).mp h
    rw [headUnder, print, print, hcount id hid, hcount _ (isValidId_idUnder htargets hid)]
  | tree id children =>
    have hid := ((isWellFormed_tree_iff id children).mp h).1
    simp only [headUnder, print_tree, List.count_append, hcount id hid,
      hcount _ (isValidId_idUnder htargets hid)]
  | _ => rfl

/-- The children of a tree are read as what they are renamed to. -/
lemma forall₂_children (h : Renames aliases 0 size nested) {id : String} {children : List Term}
    (hchildren : ∀ child ∈ children, child.IsWellFormed ∧ child.isPlain = true ∧
      child.hasPlainChildren = true ∧ child.print.count '(' < size) :
    List.Forall₂ (fun part term => nested (substituteAlias aliases id.toList part) = .ok term)
      (children.map print) (children.map (renamed aliases (some id))) := by
  rw [List.forall₂_map_left_iff, List.forall₂_map_right_iff, List.forall₂_same]
  intro child hmem
  obtain ⟨hwf, hplain, hbelow, hcount⟩ := hchildren child hmem
  have hread := h (headUnder aliases (some id) child) (isWellFormed_headUnder htargets hwf)
    (hasPlainChildren_headUnder hbelow)
  rw [operandText_of_le (Nat.zero_le _), renamed_headUnder] at hread
  rw [substituteAlias_print hwf hplain]
  exact hread (by rwa [count_print_headUnder htargets hwf])

/-- What stands in the parentheses of an atom is renamed. -/
theorem Renames.readAtom (h : Renames aliases 0 size nested) :
    Renames aliases 3 (size + 1) (readAtom aliases nested) := by
  intro term hwf hplain hcount
  rcases Nat.lt_or_ge term.strength 3 with hlt | hle
  · rw [operandText_of_lt hlt] at hcount ⊢
    have hread := h term hwf hplain
    rw [operandText_of_le (Nat.zero_le _)] at hread
    rw [readAtom_print_group hwf]
    refine hread ?_
    rw [List.cons_append, List.count_cons_self, List.count_append] at hcount
    omega
  rw [operandText_of_le hle] at hcount ⊢
  cases term with
  | leaf id =>
    have hid := (isWellFormed_leaf_iff id).mp hwf
    rw [print, readAtom_of_trim_id hid (trim_id hid), String.ofList_toList]
    rfl
  | tree id children =>
    obtain ⟨-, -, hchildren⟩ := (isWellFormed_tree_iff id children).mp hwf
    have hplain := hasPlainChildren_tree_iff.mp hplain
    rw [renamed_tree, Aliases.idUnder]
    refine readAtom_print_tree hwf (forall₂_children htargets h fun child hmem => ?_)
    refine ⟨hchildren child hmem, (hplain child hmem).1, (hplain child hmem).2, ?_⟩
    have hpart : child.print ∈ children.map print := List.mem_map_of_mem hmem
    have hwithin : child.print <:+: joinWith ',' (children.map print) := infix_joinWith hpart
    have hle := hwithin.sublist.count_le '('
    rw [print_tree, List.count_append, List.cons_append, List.count_cons_self,
      List.count_append] at hcount
    omega
  | _ => simp [strength] at hle

/-- With one level more than there are parentheses, canonical texts are renamed. -/
theorem renames_readNested (levels : Nat) :
    Renames aliases 0 levels (readNested aliases levels) := by
  induction levels with
  | zero => exact fun _ _ _ hcount => absurd hcount (Nat.not_lt_zero _)
  | succ levels ih =>
    have hatom : Renames aliases (Operator.filter.level + 1) (levels + 1) _ := ih.readAtom htargets
    have hfilter : Renames aliases (Operator.attach.level + 1) (levels + 1) _ := hatom.readOperands
    have hattach : Renames aliases (Operator.merge.level + 1) (levels + 1) _ := hfilter.readOperands
    exact hattach.readOperands

end Renames

/-- **Aliases rename children.**  If all targets are ids and all direct children of trees are leaves
or trees, then the canonical text of a term is read as the term with its children renamed. -/
theorem parseWith_canonical {aliases : Aliases} (htargets : ∀ {parent child target : String},
    aliases.target? parent child = some target → isValidId target.toList = true) {term : Term}
    (hwf : term.IsWellFormed) (hplain : term.hasPlainChildren = true) :
    parseWith aliases term.canonical = .ok (term.renamed aliases none) := by
  have htidy := print_isTidy term hwf
  have hbalance : unbalancedAt? 0 0 term.print = none :=
    (unbalancedAt?_eq_none_iff 0 0 term.print).mpr htidy.balanced
  have hread := renames_readNested htargets (sufficientLevels aliases term.print) term hwf hplain
  rw [operandText_of_le (Nat.zero_le _)] at hread
  rw [parseWith, canonical, String.toList_ofList, hbalance, htidy.distribute_eq]
  refine hread (Nat.lt_succ_of_le ?_)
  exact List.count_le_length.trans (Nat.le_add_right _ _)

/-- A child is renamed before its own children are, an operand is not renamed, and it may have
children that are. -/
theorem parseWith_canonical_nested :
    let aliases : Aliases := .ofList
      [("user", "orders", "purchases"), ("purchases", "items", "lines"), ("orders", "items", "gone")]
    let term : Term := .attach [.tree "user" [.tree "orders" [.leaf "items"], .leaf "items"],
      .merge [.leaf "orders", .tree "user" [.leaf "orders"]]]
    term.canonical = "user(orders(items),items)+(orders|user(orders))" ∧
      parseWith aliases term.canonical =
        .ok (.attach [.tree "user" [.tree "purchases" [.leaf "lines"], .leaf "items"],
          .merge [.leaf "orders", .tree "user" [.leaf "purchases"]]]) := by
  intro aliases term
  have htargets : ∀ {parent child target : String},
      aliases.target? parent child = some target → isValidId target.toList = true := by
    intro parent child target h
    obtain ⟨entry, hentry, rfl⟩ := Option.map_eq_some_iff.mp h
    have hvalid : ∀ entry ∈ [("user", "orders", "purchases"), ("purchases", "items", "lines"),
        ("orders", "items", "gone")], isValidId entry.2.2.toList = true := by decide
    exact hvalid entry (List.mem_of_find?_eq_some hentry)
  refine ⟨by decide, ?_⟩
  rw [parseWith_canonical htargets (by decide) (by decide)]
  rfl

end Term

end QueryTerms
