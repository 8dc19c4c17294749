import QueryTerms.Proofs.Term.Reading

/-!
# Canonical texts are read back

The printer and the reader agree, in two groups.

**Canonical texts derive.**  A canonical text derives from the grammar, on the level of its term's
strength (`print_derives`).  Being tidy, it has no name to spread either, so that it is read.

**Nothing but well-formed terms.**  What the reader accepts is well formed, whatever text an alias
puts in place of a child: `isWellFormed_of_readNested`.  Both together are `parse_canonical`.
-/

namespace QueryTerms.Term

/-! ## Canonical texts derive -/

/-- Parentheses make an atom of an operand that binds too loosely. -/
lemma operandText_derives {term : Term} (h : Derives term.strength term.print term) {bound : Nat}
    (hbound : bound ≤ 3) : Derives bound (operandText bound term) term := by
  rcases Nat.lt_or_ge term.strength bound with hlt | hle
  · rw [operandText_of_lt hlt]
    exact (Derives.group Text.isBlankText_nil (h.mono (Nat.zero_le _))).mono hbound
  · rw [operandText_of_le hle]
    exact h.mono hle

lemma operation_derives (op : Operator) {terms : List Term} (h : (op.compose terms).IsWellFormed)
    (hterms : ∀ member ∈ terms, member.IsWellFormed → Derives member.strength member.print member) :
    Derives op.level (op.compose terms).print (op.compose terms) := by
  have hop := op.isOperator
  obtain ⟨hlength, hmembers⟩ := (hop.isWellFormed_iff terms).mp h
  rw [hop.print_eq]
  refine .operation (by rwa [List.length_map]) ?_
  rw [List.forall₂_map_left_iff, List.forall₂_same]
  intro member hmem
  exact operandText_derives (hterms member hmem (hmembers member hmem)) op.level_lt

/-- **Every canonical text derives from the grammar.** -/
theorem print_derives (term : Term) (h : term.IsWellFormed) :
    Derives term.strength term.print term := by
  induction term using induction_on_members with
  | leaf id =>
    have hleaf := Derives.leaf ((isWellFormed_leaf_iff id).mp h)
    rwa [String.ofList_toList] at hleaf
  | merge terms ih => exact operation_derives .merge h ih
  | attach terms ih => exact operation_derives .attach h ih
  | filter terms ih => exact operation_derives .filter h ih
  | tree id children ih =>
    obtain ⟨hid, hne, hchildren⟩ := (isWellFormed_tree_iff id children).mp h
    have hparts : List.Forall₂ (Derives 0) (children.map print) children := by
      rw [List.forall₂_map_left_iff, List.forall₂_same]
      exact fun member hmem => (ih member hmem (hchildren member hmem)).mono (Nat.zero_le _)
    have htree := Derives.tree Text.isBlankText_nil hid Text.isBlankText_nil (by simpa using hne)
      hparts
    rwa [List.nil_append, List.append_nil, ← print_tree, String.ofList_toList] at htree

/-- Reading undoes writing. -/
lemma parse_print (term : Term) (h : term.IsWellFormed) : parse term.canonical = .ok term := by
  have htidy := print_isTidy term h
  have hbalance : unbalancedAt? 0 0 term.print = none :=
    (unbalancedAt?_eq_none_iff 0 0 term.print).mpr htidy.balanced
  have hderives : Derives 0 term.print term := (print_derives term h).mono (Nat.zero_le _)
  rw [parse, parseWith, canonical, String.toList_ofList, hbalance, htidy.distribute_eq]
  exact reads_readNested _ _ _ hderives (Nat.le_add_right _ _)

/-! ## Nothing but well-formed terms -/

section Accepted

variable {aliases : Aliases} {nested : List Char → Except ParseError Term}

lemma isValidId_of_readId {id : List Char} {name : String} (h : readId id = .ok name) :
    isValidId name.toList = true := by
  obtain ⟨hvalid, rfl⟩ := readId_eq_ok_iff.mp h
  rwa [String.toList_ofList]

/-- Every operand was read, and there are at least two of them, or the text is no composition. -/
lemma isWellFormed_of_readOperands {op : Char} {level : Nat} {compose : List Term → Term}
    (hop : IsOperator op level compose) {next : List Char → Except ParseError Term}
    (hnext : ∀ text term, next text = .ok term → term.IsWellFormed) {text : List Char}
    {term : Term} (h : readOperands op compose next text = .ok term) : term.IsWellFormed := by
  rw [readOperands] at h
  split at h
  · exact hnext text term h
  · next hparts =>
    obtain ⟨-, -, h⟩ := bind_eq_ok_iff.mp h
    obtain ⟨terms, hterms, rfl⟩ := map_eq_ok_iff.mp h
    have hread := mapM_eq_ok_iff.mp hterms
    refine (hop.isWellFormed_iff terms).mpr ⟨?_, fun member hmem => ?_⟩
    · rw [← hread.length_eq]
      exact two_le_length_splitTop hparts
    · obtain ⟨part, -, hpart⟩ := exists_of_forall₂_right hread hmem
      exact hnext part member hpart

variable (hnested : ∀ text term, nested text = .ok term → term.IsWellFormed)
include hnested

/-- A tree has the children that were read, and an id that was checked. -/
lemma isWellFormed_of_readGroup {text id inner : List Char} {term : Term}
    (h : readGroup aliases nested text id inner = .ok term) : term.IsWellFormed := by
  rw [readGroup] at h
  split at h
  · cases h
  · obtain ⟨-, -, h⟩ := bind_eq_ok_iff.mp h
    split at h
    · split at h
      · exact hnested _ term h
      · cases h
    · obtain ⟨name, hname, h⟩ := bind_eq_ok_iff.mp h
      obtain ⟨children, hchildren, rfl⟩ := map_eq_ok_iff.mp h
      have hread := mapM_eq_ok_iff.mp hchildren
      refine (isWellFormed_tree_iff name children).mpr ⟨isValidId_of_readId hname, ?_, ?_⟩
      · rintro rfl
        rw [List.forall₂_nil_right_iff, splitTop_eq] at hread
        cases hread
      · intro member hmem
        obtain ⟨part, -, hpart⟩ := exists_of_forall₂_right hread hmem
        exact hnested _ member hpart

lemma isWellFormed_of_readAtom {text : List Char} {term : Term}
    (h : readAtom aliases nested text = .ok term) : term.IsWellFormed := by
  rw [readAtom] at h
  split at h
  · cases h
  · split at h
    · split at h
      · cases h
      · obtain ⟨name, hname, rfl⟩ := map_eq_ok_iff.mp h
        exact (isWellFormed_leaf_iff name).mpr (isValidId_of_readId hname)
    · split at h
      · exact isWellFormed_of_readGroup hnested h
      · cases h

end Accepted

/-- Whatever is read, at any depth and through any aliases, is well formed. -/
theorem isWellFormed_of_readNested (aliases : Aliases) (levels : Nat) (text : List Char)
    (term : Term) (h : readNested aliases levels text = .ok term) : term.IsWellFormed := by
  induction levels generalizing text term with
  | zero => cases h
  | succ levels ih =>
    refine isWellFormed_of_readOperands isOperator_merge (fun _ _ => ?_) h
    refine isWellFormed_of_readOperands isOperator_attach fun _ _ => ?_
    refine isWellFormed_of_readOperands isOperator_filter fun _ _ => ?_
    exact isWellFormed_of_readAtom ih

lemma isWellFormed_of_parseWith {aliases : Aliases} {text : String} {term : Term}
    (h : parseWith aliases text = .ok term) : term.IsWellFormed := by
  rw [parseWith] at h
  split at h
  · cases h
  · obtain ⟨distributed, -, h⟩ := bind_eq_ok_iff.mp h
    exact isWellFormed_of_readNested aliases _ distributed term h

/-- **The canonical text stands for its term.**  Every well-formed term is read back from it, and
nothing but well-formed terms is ever read, whatever the text and the aliases. -/
theorem parse_canonical :
    (∀ term : Term, term.IsWellFormed → parse term.canonical = .ok term) ∧
    ∀ (aliases : Aliases) (text : String) (term : Term), parseWith aliases text = .ok term →
      term.IsWellFormed ∧ parse term.canonical = .ok term := by
  refine ⟨parse_print, fun aliases text term h => ?_⟩
  have hwf : term.IsWellFormed := isWellFormed_of_parseWith h
  exact ⟨hwf, parse_print term hwf⟩

/-- A union in an intersection, below a tree, keeps its parentheses; an alias may bring in
operators of its own. -/
theorem parse_canonical_nested :
    parse "a(b|c:(d+e),f)+g" = .ok
      (.attach [.tree "a" [.merge [.leaf "b", .filter [.leaf "c", .attach [.leaf "d", .leaf "e"]]],
        .leaf "f"], .leaf "g"]) ∧
    (Term.tree "u" [.merge [.leaf "v", .leaf "w"]]).IsWellFormed ∧
    parse (Term.tree "u" [.merge [.leaf "v", .leaf "w"]]).canonical = .ok
      (.tree "u" [.merge [.leaf "v", .leaf "w"]]) :=
  ⟨parse_canonical.1 (.attach [.tree "a" [.merge [.leaf "b", .filter [.leaf "c",
      .attach [.leaf "d", .leaf "e"]]], .leaf "f"], .leaf "g"]) (by decide),
    parse_canonical.2 (.ofList [("u", "x", " v | w")]) "u( x )" _ (by cbv)⟩

end QueryTerms.Term
