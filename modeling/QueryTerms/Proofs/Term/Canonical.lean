import Mathlib
import QueryTerms.Proofs.Term.Balance
import QueryTerms.Term.Printer

/-!
# Canonical texts

What the printer writes, seen through the eyes of the reader, in two groups.

**Terms.**  `Term.induction_on_members` is the induction over a term and the terms in it.  The three
operators differ in a character and a strength only (`IsOperator`), so that most inductions have
one case for all of them: `Term.induction_on_operators`.

**Tidiness.**  A canonical text is balanced, holds no white space, and no dot in it stands before a
parenthesis or at the end (`IsTidy`).  Joining tidy pieces gives a tidy text, so every canonical
text is tidy: `print_isTidy`.
-/

namespace QueryTerms.Term

/-! ## Terms -/

/-- Induction over a term and the terms in it. -/
@[elab_as_elim]
theorem induction_on_members {P : Term → Prop} (term : Term) (leaf : ∀ id, P (.leaf id))
    (merge : ∀ terms, (∀ member ∈ terms, P member) → P (.merge terms))
    (attach : ∀ terms, (∀ member ∈ terms, P member) → P (.attach terms))
    (filter : ∀ terms, (∀ member ∈ terms, P member) → P (.filter terms))
    (tree : ∀ id children, (∀ member ∈ children, P member) → P (.tree id children)) : P term :=
  @Term.rec P (fun terms => ∀ member ∈ terms, P member) leaf merge attach filter tree
    (fun _ h => absurd h List.not_mem_nil)
    (fun _ _ hfirst hrest => List.forall_mem_cons.mpr ⟨hfirst, hrest⟩) term

instance (term : Term) : Decidable term.IsWellFormed :=
  inferInstanceAs (Decidable (term.isWellFormed = true))

lemma allWellFormed_iff (terms : List Term) :
    allWellFormed terms = true ↔ ∀ member ∈ terms, member.IsWellFormed := by
  induction terms with
  | nil => simp [allWellFormed]
  | cons term rest ih => simp [allWellFormed, ih, IsWellFormed]

lemma isWellFormed_leaf_iff (id : String) :
    (leaf id).IsWellFormed ↔ isValidId id.toList = true := by
  rw [IsWellFormed, isWellFormed]

lemma isWellFormed_tree_iff (id : String) (children : List Term) :
    (tree id children).IsWellFormed ↔
      isValidId id.toList = true ∧ children ≠ [] ∧ ∀ member ∈ children, member.IsWellFormed := by
  simp [IsWellFormed, isWellFormed, allWellFormed_iff, and_assoc]

/-! ## Ids -/

lemma isBlank_of_isIdChar {c : Char} (h : isIdChar c = true) : Text.isBlank c = false := by
  have hcode : 33 ≤ c.toNat ∧ c.toNat < 128 := by
    simp only [isIdChar, Char.isAlphanum, Char.isAlpha, Char.isUpper, Char.isLower, Char.isDigit,
      Bool.or_eq_true, Bool.and_eq_true, decide_eq_true_eq, UInt32.le_iff_toNat_le] at h
    change ((((((65 ≤ c.toNat ∧ c.toNat ≤ 90) ∨ (97 ≤ c.toNat ∧ c.toNat ≤ 122)) ∨
      (48 ≤ c.toNat ∧ c.toNat ≤ 57)) ∨ _) ∨ _) ∨ _) ∨ _ at h
    rcases h with (((((h | h) | h) | rfl) | rfl) | rfl) | rfl
    · omega
    · omega
    · omega
    all_goals decide
  simp only [Text.isBlank, Text.inRanges, Text.blankRanges, List.any_cons, List.any_nil,
    Bool.or_eq_false_iff, Bool.and_eq_false_iff, decide_eq_false_iff_not, and_true]
  omega

lemma ne_paren_of_isIdChar {c : Char} (h : isIdChar c = true) : c ≠ '(' ∧ c ≠ ')' := by
  constructor <;> rintro rfl <;> exact absurd h (by decide)

/-- An id that ends with a dot has a segment that does. -/
lemma exists_segment_getLast?_dot {id : List Char} (h : id.getLast? = some '.') :
    ∃ segment ∈ segments id, segment.getLast? = some '.' := by
  induction id with
  | nil => cases h
  | cons c cs ih =>
    rw [segments]
    cases cs with
    | nil =>
      rw [List.getLast?_singleton, Option.some.injEq] at h
      subst h
      exact ⟨['.'], by simp [segments], rfl⟩
    | cons d ds =>
      rw [List.getLast?_cons_cons] at h
      obtain ⟨segment, hmem, hlast⟩ := ih h
      by_cases hslash : c = '/'
      · rw [if_pos hslash]
        exact ⟨segment, List.mem_cons_of_mem _ hmem, hlast⟩
      · rw [if_neg hslash]
        cases hs : segments (d :: ds) with
        | nil => rw [hs] at hmem; cases hmem
        | cons first rest =>
          rw [hs, List.mem_cons] at hmem
          rcases hmem with rfl | hmem
          · refine ⟨c :: segment, List.mem_cons_self, ?_⟩
            cases segment with
            | nil => cases hlast
            | cons e es => rw [List.getLast?_cons_cons]; exact hlast
          · exact ⟨segment, List.mem_cons_of_mem _ hmem, hlast⟩

section ValidId

variable {id : List Char} (h : isValidId id = true)
include h

lemma isIdChar_of_isValidId : ∀ c ∈ id, isIdChar c = true := by
  simp only [isValidId, Bool.and_eq_true] at h
  exact List.all_eq_true.mp h.1.2

lemma ne_nil_of_isValidId : id ≠ [] := by
  rintro rfl
  exact absurd h (by decide)

lemma getLast?_ne_dot_of_isValidId : id.getLast? ≠ some '.' := by
  intro hdot
  obtain ⟨segment, hmem, hlast⟩ := exists_segment_getLast?_dot hdot
  simp only [isValidId, Bool.and_eq_true] at h
  have hplain := List.all_eq_true.mp h.2 segment hmem
  simp [isPlainSegment, hlast] at hplain

end ValidId

/-! ## Tidiness -/

/-- There is nothing to spread where no dot stands before a parenthesis. -/
lemma distribute_of_not_infix {text : List Char} (h : ¬ ['.', '('] <:+: text) :
    distribute text = .ok text := by
  rw [distribute, distributeFrom]
  split
  · rfl
  · next front back hcut =>
    exact absurd ⟨front, back, (Text.cutFirst?_eq hcut).symm⟩ h

/-- What canonical texts have in common and keep when they are put together. -/
structure IsTidy (text : List Char) : Prop where
  ne_nil : text ≠ []
  balanced : IsBalanced text
  noBlank : ∀ c ∈ text, Text.isBlank c = false
  /-- No name stands before a parenthesis by a dot. -/
  noSpread : text.IsChain fun a b => a = '.' → b ≠ '('
  noDotLast : text.getLast? ≠ some '.'

namespace IsTidy

lemma of_isValidId {id : List Char} (h : isValidId id = true) : IsTidy id where
  ne_nil := ne_nil_of_isValidId h
  balanced := .of_plain fun c hc => ne_paren_of_isIdChar (isIdChar_of_isValidId h c hc)
  noBlank c hc := isBlank_of_isIdChar (isIdChar_of_isValidId h c hc)
  noSpread := by
    have hplain : ∀ c ∈ id, c ≠ '(' := fun c hc =>
      (ne_paren_of_isIdChar (isIdChar_of_isValidId h c hc)).1
    exact List.IsChain.imp_of_mem_imp (fun _ b _ hb _ _ => hplain b hb)
      (List.isChain_isInfix id)
  noDotLast := getLast?_ne_dot_of_isValidId h

lemma append {first second : List Char} (hf : IsTidy first) (hs : IsTidy second) :
    IsTidy (first ++ second) where
  ne_nil := List.append_ne_nil_of_left_ne_nil hf.ne_nil second
  balanced := hf.balanced.append hs.balanced
  noBlank c hc := (List.mem_append.mp hc).elim (hf.noBlank c) (hs.noBlank c)
  noSpread := by
    refine hf.noSpread.append hs.noSpread fun a ha b _ hdot => ?_
    rw [Option.mem_def, hdot] at ha
    exact absurd ha hf.noDotLast
  noDotLast := by
    rw [List.getLast?_append_of_ne_nil first hs.ne_nil]
    exact hs.noDotLast

lemma group {text : List Char} (h : IsTidy text) : IsTidy ('(' :: text ++ [')']) where
  ne_nil := by simp
  balanced := h.balanced.group
  noBlank c hc := by
    simp only [List.cons_append, List.mem_cons, List.mem_append, List.not_mem_nil, or_false] at hc
    rcases hc with rfl | hc | rfl
    · decide
    · exact h.noBlank c hc
    · decide
  noSpread := by
    have hopen : (['('] : List Char).IsChain fun a b => a = '.' → b ≠ '(' := .singleton _
    refine List.IsChain.append (hopen.append h.noSpread ?_) (.singleton _) ?_
    · simp
    · simp
  noDotLast := by
    rw [List.getLast?_append_of_ne_nil _ (by simp)]
    simp

/-- An operator, or any other character that is no parenthesis, dot or white space. -/
lemma singleton {c : Char} (ho : c ≠ '(') (hc : c ≠ ')') (hdot : c ≠ '.')
    (hblank : Text.isBlank c = false) : IsTidy [c] where
  ne_nil := List.cons_ne_nil c []
  balanced := .of_plain fun d hd => by rw [List.mem_singleton.mp hd]; exact ⟨ho, hc⟩
  noBlank d hd := by rw [List.mem_singleton.mp hd]; exact hblank
  noSpread := .singleton c
  noDotLast := by
    rw [List.getLast?_singleton, Ne, Option.some.injEq]
    exact hdot

lemma ne_open {c : Char} (h : IsTidy [c]) : c ≠ '(' := by
  rintro rfl
  exact absurd h.balanced (by simp [IsBalanced])

lemma ne_close {c : Char} (h : IsTidy [c]) : c ≠ ')' := by
  rintro rfl
  exact absurd h.balanced (by simp [IsBalanced])

lemma joinWith {sep : Char} (hsep : IsTidy [sep]) {parts : List (List Char)} (hne : parts ≠ [])
    (h : ∀ part ∈ parts, IsTidy part) : IsTidy (joinWith sep parts) := by
  induction parts with
  | nil => exact absurd rfl hne
  | cons part rest ih =>
    have hpart : IsTidy part := h part List.mem_cons_self
    cases rest with
    | nil => exact hpart
    | cons second others =>
      have hrest := ih (List.cons_ne_nil _ _) fun p hp => h p (List.mem_cons_of_mem _ hp)
      exact hpart.append (hsep.append hrest)

/-- There is nothing to spread in a tidy text. -/
lemma distribute_eq {text : List Char} (h : IsTidy text) : distribute text = .ok text := by
  refine distribute_of_not_infix fun hinfix => ?_
  have hchain := List.IsChain.infix h.noSpread hinfix
  exact (List.isChain_cons_cons.mp hchain).1 rfl rfl

end IsTidy

/-! ## The printer -/

/-- The text of a term as an operand of an operator below `bound`. -/
def operandText (bound : Nat) (term : Term) : List Char :=
  parenthesizedIf (term.strength < bound) term.print

lemma operandText_of_lt {bound : Nat} {term : Term} (h : term.strength < bound) :
    operandText bound term = '(' :: term.print ++ [')'] := by
  rw [operandText, parenthesizedIf, if_pos (decide_eq_true h)]

lemma operandText_of_le {bound : Nat} {term : Term} (h : bound ≤ term.strength) :
    operandText bound term = term.print := by
  rw [operandText, parenthesizedIf, if_neg (by simpa using h)]

lemma printOperands_eq (op : Char) (level : Nat) (terms : List Term) :
    printOperands op level terms = joinWith op (terms.map (operandText (level + 1))) := by
  have htext : ∀ term : Term, parenthesizedIf (term.strength ≤ level) term.print =
      operandText (level + 1) term := fun term => by
    rw [operandText, decide_eq_decide.mpr Nat.lt_succ_iff]
  induction terms with
  | nil => simp [printOperands, joinWith]
  | cons term rest ih =>
    cases rest with
    | nil => simp [printOperands, joinWith, htext]
    | cons second others =>
      rw [printOperands, ih, htext]
      · rfl
      · exact List.cons_ne_nil _ _

lemma printChildren_eq (children : List Term) :
    printChildren children = joinWith ',' (children.map print) := by
  induction children with
  | nil => simp [printChildren, joinWith]
  | cons term rest ih =>
    cases rest with
    | nil => simp [printChildren, joinWith]
    | cons second others =>
      rw [printChildren, ih]
      · rfl
      · exact List.cons_ne_nil _ _

lemma print_tree (id : String) (children : List Term) :
    (tree id children).print =
      id.toList ++ ('(' :: joinWith ',' (children.map print) ++ [')']) := by
  rw [print, printChildren_eq, List.append_assoc]

/-! ## Operators -/

/-- A term of this strength does not surface the character: no operator that is so weak is
written like it. -/
def Outbinds (strength : Nat) (c : Char) : Prop :=
  (c = '|' → 1 ≤ strength) ∧ (c = '+' → 2 ≤ strength) ∧ (c = ':' → 3 ≤ strength)

instance (strength : Nat) (c : Char) : Decidable (Outbinds strength c) :=
  inferInstanceAs (Decidable (_ ∧ _ ∧ _))

lemma Outbinds.mono {low high : Nat} {c : Char} (h : Outbinds low c) (hle : low ≤ high) :
    Outbinds high c :=
  ⟨fun e => (h.1 e).trans hle, fun e => (h.2.1 e).trans hle, fun e => (h.2.2 e).trans hle⟩

/-- A kind of term that is written as operands between operators. -/
structure IsOperator (op : Char) (level : Nat) (compose : List Term → Term) : Prop where
  tidy : IsTidy [op]
  isIdChar_eq : isIdChar op = false
  surfaces : ¬ Outbinds level op
  outbinds : Outbinds (level + 1) op
  strength_eq : ∀ terms, (compose terms).strength = level
  exists_of_strength : ∀ term : Term, term.strength = level → ∃ terms, term = compose terms
  print_eq : ∀ terms,
    (compose terms).print = joinWith op (terms.map (operandText (level + 1)))
  isWellFormed_iff : ∀ terms, (compose terms).IsWellFormed ↔
    2 ≤ terms.length ∧ ∀ member ∈ terms, member.IsWellFormed

lemma isOperator_merge : IsOperator '|' 0 merge where
  tidy := .singleton (by decide) (by decide) (by decide) (by decide)
  isIdChar_eq := by decide
  surfaces := by decide
  outbinds := by decide
  strength_eq _ := rfl
  exists_of_strength term h := by
    cases term with
    | merge terms => exact ⟨terms, rfl⟩
    | _ => cases h
  print_eq terms := by rw [print, printOperands_eq]
  isWellFormed_iff terms := by simp [IsWellFormed, isWellFormed, allWellFormed_iff]

lemma isOperator_attach : IsOperator '+' 1 attach where
  tidy := .singleton (by decide) (by decide) (by decide) (by decide)
  isIdChar_eq := by decide
  surfaces := by decide
  outbinds := by decide
  strength_eq _ := rfl
  exists_of_strength term h := by
    cases term with
    | attach terms => exact ⟨terms, rfl⟩
    | _ => cases h
  print_eq terms := by rw [print, printOperands_eq]
  isWellFormed_iff terms := by simp [IsWellFormed, isWellFormed, allWellFormed_iff]

lemma isOperator_filter : IsOperator ':' 2 filter where
  tidy := .singleton (by decide) (by decide) (by decide) (by decide)
  isIdChar_eq := by decide
  surfaces := by decide
  outbinds := by decide
  strength_eq _ := rfl
  exists_of_strength term h := by
    cases term with
    | filter terms => exact ⟨terms, rfl⟩
    | _ => cases h
  print_eq terms := by rw [print, printOperands_eq]
  isWellFormed_iff terms := by simp [IsWellFormed, isWellFormed, allWellFormed_iff]

/-- Induction over a term where all operators are one case. -/
@[elab_as_elim]
theorem induction_on_operators {P : Term → Prop} (term : Term) (leaf : ∀ id, P (.leaf id))
    (operator : ∀ op level compose terms, IsOperator op level compose →
      (∀ member ∈ terms, P member) → P (compose terms))
    (tree : ∀ id children, (∀ member ∈ children, P member) → P (.tree id children)) : P term :=
  induction_on_members term leaf (fun terms => operator '|' 0 .merge terms isOperator_merge)
    (fun terms => operator '+' 1 .attach terms isOperator_attach)
    (fun terms => operator ':' 2 .filter terms isOperator_filter) tree

lemma IsTidy.operandText {term : Term} (h : IsTidy term.print) (bound : Nat) :
    IsTidy (operandText bound term) := by
  rcases Nat.lt_or_ge term.strength bound with hlt | hle
  · rw [operandText_of_lt hlt]
    exact h.group
  · rw [operandText_of_le hle]
    exact h

/-- **Every canonical text is tidy.** -/
theorem print_isTidy (term : Term) (h : term.IsWellFormed) : IsTidy term.print := by
  induction term using induction_on_operators with
  | leaf id =>
    rw [print]
    exact .of_isValidId ((isWellFormed_leaf_iff id).mp h)
  | operator op level compose terms hop ih =>
    obtain ⟨hlen, hterms⟩ := (hop.isWellFormed_iff terms).mp h
    rw [hop.print_eq]
    refine .joinWith hop.tidy ?_ ?_
    · rw [Ne, List.map_eq_nil_iff]
      rintro rfl
      exact absurd hlen (by decide)
    · simp only [List.forall_mem_map]
      exact fun member hmem => (ih member hmem (hterms member hmem)).operandText _
  | tree id children ih =>
    obtain ⟨hid, hne, hchildren⟩ := (isWellFormed_tree_iff id children).mp h
    rw [print_tree]
    refine (IsTidy.of_isValidId hid).append (.group (.joinWith ?_ ?_ ?_))
    · exact .singleton (by decide) (by decide) (by decide) (by decide)
    · rwa [Ne, List.map_eq_nil_iff]
    · simp only [List.forall_mem_map]
      exact fun member hmem => ih member hmem (hchildren member hmem)

end QueryTerms.Term
