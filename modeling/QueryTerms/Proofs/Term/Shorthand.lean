import QueryTerms.Proofs.Term.Grammar

/-!
# Terms with names before groups

`shop.(open|closed)` is short for `(shop.open|shop.closed)`.  This file tells what shorthand means
without spreading any text, in three groups.

**Pushing a name in.**  `Term.push` puts a name before the ids at the front of a term: before all
operands of a union, and before the first operand of the other two operators.

**Shorthand.**  `Shorthand` is a term in which names may stand before groups, with its canonical
text and with the term that it stands for, `Shorthand.expand`.  It makes no difference whether a
name is pushed in before or after that (`Shorthand.expand_push`).

**Texts.**  Texts of shorthand are balanced, hold no white space, and surface the operator at the
root only: `IsWellFormed.isCompact_text`.
-/

namespace QueryTerms.Term

/-! ## Pushing a name in -/

/-- An id under a name. -/
def qualify (name id : String) : String := name ++ "." ++ id

mutual

/-- The name put before the ids at the front of a term. -/
def push (name : String) : Term → Term
  | .leaf id => .leaf (qualify name id)
  | .merge terms => .merge (pushAll name terms)
  | .attach terms => .attach (pushFirst name terms)
  | .filter terms => .filter (pushFirst name terms)
  | .tree id children => .tree (qualify name id) children

def pushAll (name : String) : List Term → List Term
  | [] => []
  | first :: rest => first.push name :: pushAll name rest

def pushFirst (name : String) : List Term → List Term
  | [] => []
  | first :: rest => first.push name :: rest

end

lemma qualify_qualify (outer inner id : String) :
    qualify outer (qualify inner id) = qualify (qualify outer inner) id := by
  simp only [qualify, String.append_assoc]

lemma toList_qualify (name id : String) :
    (qualify name id).toList = name.toList ++ '.' :: id.toList := by
  simp [qualify]

lemma pushAll_eq_map (name : String) (terms : List Term) :
    pushAll name terms = terms.map (push name) := by
  induction terms with
  | nil => rw [pushAll, List.map_nil]
  | cons first rest ih => rw [pushAll, ih, List.map_cons]

/-- Names are pushed in one after another, the inner one first. -/
lemma push_push (outer inner : String) (term : Term) :
    (term.push inner).push outer = term.push (qualify outer inner) := by
  have hfirst : ∀ terms : List Term,
      (∀ member ∈ terms, (member.push inner).push outer = member.push (qualify outer inner)) →
      pushFirst outer (pushFirst inner terms) = pushFirst (qualify outer inner) terms := by
    intro terms hterms
    cases terms with
    | nil => rfl
    | cons first rest => rw [pushFirst, pushFirst, pushFirst, hterms first List.mem_cons_self]
  induction term using induction_on_members with
  | leaf id => rw [push, push, push, qualify_qualify]
  | merge terms ih =>
    rw [push, push, push, pushAll_eq_map, pushAll_eq_map, pushAll_eq_map, List.map_map]
    exact congrArg _ (List.map_congr_left ih)
  | attach terms ih => rw [push, push, push, hfirst terms ih]
  | filter terms ih => rw [push, push, push, hfirst terms ih]
  | tree id children => rw [push, push, push, qualify_qualify]

/-! ## Ids under names -/

lemma segments_ne_nil (id : List Char) : segments id ≠ [] := by
  cases id with
  | nil => exact List.cons_ne_nil _ _
  | cons c cs =>
    rw [segments]
    split
    · exact List.cons_ne_nil _ _
    · split <;> exact List.cons_ne_nil _ _

/-- The last segment of a text goes on in the first one of what follows. -/
lemma segments_append {tail first : List Char} {rest : List (List Char)}
    (htail : segments tail = first :: rest) (text : List Char) :
    ∃ front last, segments text = front ++ [last] ∧
      segments (text ++ tail) = front ++ (last ++ first) :: rest := by
  induction text with
  | nil => exact ⟨[], [], rfl, htail⟩
  | cons c cs ih =>
    obtain ⟨front, last, hsegments, hwhole⟩ := ih
    rw [List.cons_append, segments, segments, hsegments, hwhole]
    by_cases hslash : c = '/'
    · rw [if_pos hslash, if_pos hslash]
      exact ⟨[] :: front, last, rfl, rfl⟩
    · rw [if_neg hslash, if_neg hslash]
      cases front with
      | nil => exact ⟨[], c :: last, rfl, rfl⟩
      | cons segment others => exact ⟨(c :: segment) :: others, last, rfl, rfl⟩

/-- The dot between two plain names stands inside a plain name. -/
lemma isPlainSegment_append {first second : List Char} (hf : isPlainSegment first = true)
    (hs : isPlainSegment second = true) : isPlainSegment (first ++ '.' :: second) = true := by
  cases first with
  | nil => cases hf
  | cons c cs =>
    cases second with
    | nil => cases hs
    | cons d ds =>
      simp only [isPlainSegment, List.cons_append, List.isEmpty_cons, Bool.not_false,
        List.head?_cons, Bool.true_and, Bool.and_eq_true, bne_iff_ne] at hf hs ⊢
      refine ⟨hf.1, ?_⟩
      rw [← List.cons_append, List.getLast?_append_of_ne_nil _ (List.cons_ne_nil _ _),
        List.getLast?_cons_cons]
      exact hs.2

lemma isValidId_append {name id : List Char} (hname : isValidId name = true)
    (hid : isValidId id = true) : isValidId (name ++ '.' :: id) = true := by
  obtain ⟨first, rest, hsegments⟩ := List.exists_cons_of_ne_nil (segments_ne_nil id)
  have htail : segments ('.' :: id) = ('.' :: first) :: rest := by
    rw [segments, if_neg (by decide), hsegments]
  obtain ⟨front, last, hnames, hwhole⟩ := segments_append htail name
  simp only [isValidId, hnames, hsegments, hwhole, List.all_append, List.all_cons, List.all_nil,
    Bool.and_eq_true, Bool.and_true] at hname hid ⊢
  obtain ⟨⟨-, hnamechars⟩, hfront, hlast⟩ := hname
  obtain ⟨⟨-, hidchars⟩, hfirst, hrest⟩ := hid
  exact ⟨⟨by simp, hnamechars, by decide, hidchars⟩, hfront,
    isPlainSegment_append hlast hfirst, hrest⟩

lemma isValidId_qualify {name id : String} (hname : isValidId name.toList = true)
    (hid : isValidId id.toList = true) : isValidId (qualify name id).toList = true := by
  rw [toList_qualify]
  exact isValidId_append hname hid

/-! ## Shorthand -/

/-- A term in which names may stand before groups. -/
inductive Shorthand where
  | leaf (id : String)
  | operation (op : Operator) (operands : List Shorthand)
  | tree (id : String) (children : List Shorthand)
  /-- `name.(inner)`. -/
  | spread (name : String) (inner : Shorthand)

namespace Shorthand

/-- How tightly the outermost operator binds; a name holds its group together. -/
def strength : Shorthand → Nat
  | .operation op _ => op.level
  | _ => 3

mutual

/-- The canonical text: that of a term, with `name.(` and `)` around what a name is spread over. -/
def text : Shorthand → List Char
  | .leaf id => id.toList
  | .operation op operands => joinWith op.sign (operandTexts (op.level + 1) operands)
  | .tree id children => id.toList ++ ('(' :: joinWith ',' (texts children) ++ [')'])
  | .spread name inner => name.toList ++ '.' :: ('(' :: inner.text ++ [')'])

/-- Operands of an operator below `bound`. -/
def operandTexts (bound : Nat) : List Shorthand → List (List Char)
  | [] => []
  | first :: rest => parenthesizedIf (first.strength < bound) first.text :: operandTexts bound rest

def texts : List Shorthand → List (List Char)
  | [] => []
  | first :: rest => first.text :: texts rest

end

/-- The canonical text as a string. -/
def canonical (short : Shorthand) : String := String.ofList short.text

mutual

/-- The term that is meant: every name is pushed into the group behind it. -/
def expand : Shorthand → Term
  | .leaf id => .leaf id
  | .operation op operands => op.compose (expandAll operands)
  | .tree id children => .tree id (expandAll children)
  | .spread name inner => inner.expand.push name

def expandAll : List Shorthand → List Term
  | [] => []
  | first :: rest => first.expand :: expandAll rest

end

mutual

/-- A name pushed into shorthand; where a name stands already, it comes before that name. -/
def push (name : String) : Shorthand → Shorthand
  | .leaf id => .leaf (qualify name id)
  | .operation .merge operands => .operation .merge (pushAll name operands)
  | .operation op operands => .operation op (pushFirst name operands)
  | .tree id children => .tree (qualify name id) children
  | .spread inner short => .spread (qualify name inner) short

def pushAll (name : String) : List Shorthand → List Shorthand
  | [] => []
  | first :: rest => first.push name :: pushAll name rest

def pushFirst (name : String) : List Shorthand → List Shorthand
  | [] => []
  | first :: rest => first.push name :: rest

end

mutual

/-- Valid ids and names, two operands or more, one child or more. -/
def isWellFormed : Shorthand → Bool
  | .leaf id => isValidId id.toList
  | .operation _ operands => 2 ≤ operands.length && allWellFormed operands
  | .tree id children => isValidId id.toList && !children.isEmpty && allWellFormed children
  | .spread name inner => isValidId name.toList && inner.isWellFormed

def allWellFormed : List Shorthand → Bool
  | [] => true
  | first :: rest => first.isWellFormed && allWellFormed rest

end

/-- Shorthand for a term that the grammar can write. -/
def IsWellFormed (short : Shorthand) : Prop := short.isWellFormed = true

instance (short : Shorthand) : Decidable short.IsWellFormed :=
  inferInstanceAs (Decidable (short.isWellFormed = true))

/-- Induction over shorthand and the shorthand in it. -/
@[elab_as_elim]
theorem induction_on_parts {P : Shorthand → Prop} (short : Shorthand) (leaf : ∀ id, P (.leaf id))
    (operation : ∀ op operands, (∀ member ∈ operands, P member) → P (.operation op operands))
    (tree : ∀ id children, (∀ member ∈ children, P member) → P (.tree id children))
    (spread : ∀ name inner, P inner → P (.spread name inner)) : P short :=
  @Shorthand.rec P (fun shorts => ∀ member ∈ shorts, P member) leaf operation tree spread
    (fun _ h => absurd h List.not_mem_nil)
    (fun _ _ hfirst hrest => List.forall_mem_cons.mpr ⟨hfirst, hrest⟩) short

/-- The text of shorthand as an operand of an operator below `bound`. -/
def operandText (bound : Nat) (short : Shorthand) : List Char :=
  parenthesizedIf (short.strength < bound) short.text

section Lists

variable (shorts : List Shorthand)

lemma operandTexts_eq_map (bound : Nat) :
    operandTexts bound shorts = shorts.map (operandText bound) := by
  induction shorts with
  | nil => rw [operandTexts, List.map_nil]
  | cons first rest ih => rw [operandTexts, ih, List.map_cons, operandText]

lemma texts_eq_map : texts shorts = shorts.map text := by
  induction shorts with
  | nil => rw [texts, List.map_nil]
  | cons first rest ih => rw [texts, ih, List.map_cons]

lemma expandAll_eq_map : expandAll shorts = shorts.map expand := by
  induction shorts with
  | nil => rw [expandAll, List.map_nil]
  | cons first rest ih => rw [expandAll, ih, List.map_cons]

lemma pushAll_eq_map (name : String) : pushAll name shorts = shorts.map (push name) := by
  induction shorts with
  | nil => rw [pushAll, List.map_nil]
  | cons first rest ih => rw [pushAll, ih, List.map_cons]

lemma allWellFormed_iff :
    allWellFormed shorts = true ↔ ∀ member ∈ shorts, member.IsWellFormed := by
  induction shorts with
  | nil => simp [allWellFormed]
  | cons first rest ih => simp [allWellFormed, ih, IsWellFormed]

end Lists

lemma isWellFormed_leaf_iff (id : String) :
    (leaf id).IsWellFormed ↔ isValidId id.toList = true := by
  rw [IsWellFormed, isWellFormed]

lemma isWellFormed_operation_iff (op : Operator) (operands : List Shorthand) :
    (operation op operands).IsWellFormed ↔
      2 ≤ operands.length ∧ ∀ member ∈ operands, member.IsWellFormed := by
  simp [IsWellFormed, isWellFormed, allWellFormed_iff]

lemma isWellFormed_tree_iff (id : String) (children : List Shorthand) :
    (tree id children).IsWellFormed ↔
      isValidId id.toList = true ∧ children ≠ [] ∧ ∀ member ∈ children, member.IsWellFormed := by
  simp [IsWellFormed, isWellFormed, allWellFormed_iff, and_assoc]

lemma isWellFormed_spread_iff (name : String) (inner : Shorthand) :
    (spread name inner).IsWellFormed ↔ isValidId name.toList = true ∧ inner.IsWellFormed := by
  simp [IsWellFormed, isWellFormed]

lemma operandText_of_lt {bound : Nat} {short : Shorthand} (h : short.strength < bound) :
    operandText bound short = '(' :: short.text ++ [')'] := by
  rw [operandText, parenthesizedIf, if_pos (decide_eq_true h)]

lemma operandText_of_le {bound : Nat} {short : Shorthand} (h : bound ≤ short.strength) :
    operandText bound short = short.text := by
  rw [operandText, parenthesizedIf, if_neg (by simpa using h)]

/-- **A name can be pushed in before or after names are expanded.** -/
theorem expand_push (name : String) (short : Shorthand) :
    (short.push name).expand = short.expand.push name := by
  induction short using induction_on_parts with
  | leaf id => rw [push, expand, expand, Term.push]
  | operation op operands ih =>
    have hfirst : expandAll (pushFirst name operands) =
        Term.pushFirst name (expandAll operands) := by
      cases operands with
      | nil => rfl
      | cons first rest =>
        rw [pushFirst, expandAll, expandAll, Term.pushFirst, ih first List.mem_cons_self]
    cases op with
    | merge =>
      have hall : expandAll (pushAll name operands) = Term.pushAll name (expandAll operands) := by
        rw [pushAll_eq_map, Term.pushAll_eq_map, expandAll_eq_map, expandAll_eq_map, List.map_map,
          List.map_map]
        exact List.map_congr_left ih
      rw [push, expand, expand, hall]
      rfl
    | attach =>
      rw [push, expand, expand, hfirst]
      · rfl
      · exact nofun
    | filter =>
      rw [push, expand, expand, hfirst]
      · rfl
      · exact nofun
  | tree id children => rw [push, expand, expand, Term.push]
  | spread inner short _ => rw [push, expand, expand, push_push]

end Shorthand

/-! ## Texts -/

/-- What texts of shorthand have in common and keep when they are put together. -/
structure IsCompact (text : List Char) : Prop where
  ne_nil : text ≠ []
  balanced : IsBalanced text
  noBlank : ∀ c ∈ text, Text.isBlank c = false

namespace IsCompact

lemma of_isTidy {text : List Char} (h : IsTidy text) : IsCompact text :=
  ⟨h.ne_nil, h.balanced, h.noBlank⟩

lemma append {first second : List Char} (hf : IsCompact first) (hs : IsCompact second) :
    IsCompact (first ++ second) where
  ne_nil := List.append_ne_nil_of_left_ne_nil hf.ne_nil second
  balanced := hf.balanced.append hs.balanced
  noBlank := List.forall_mem_append.mpr ⟨hf.noBlank, hs.noBlank⟩

lemma group {text : List Char} (h : IsCompact text) : IsCompact ('(' :: text ++ [')']) where
  ne_nil := by simp
  balanced := h.balanced.group
  noBlank := List.forall_mem_append.mpr
    ⟨List.forall_mem_cons.mpr ⟨by decide, h.noBlank⟩, List.forall_mem_singleton.mpr (by decide)⟩

lemma joinWith {sep : Char} (hsep : IsTidy [sep]) {parts : List (List Char)} (hne : parts ≠ [])
    (h : ∀ part ∈ parts, IsCompact part) : IsCompact (joinWith sep parts) := by
  induction parts with
  | nil => exact absurd rfl hne
  | cons part rest ih =>
    rw [List.forall_mem_cons] at h
    cases rest with
    | nil => exact h.1
    | cons second others =>
      exact h.1.append ((of_isTidy hsep).append (ih (List.cons_ne_nil _ _) h.2))

lemma children {parts : List (List Char)} (hne : parts ≠ [])
    (h : ∀ part ∈ parts, IsCompact part) : IsCompact (Term.joinWith ',' parts) :=
  .joinWith (.singleton (by decide) (by decide) (by decide) (by decide)) hne h

lemma trim_eq {text : List Char} (h : IsCompact text) : Text.trim text = text := by
  have htight := Text.IsTight.of_forall h.ne_nil h.noBlank
  have htrim := Text.trim_between Text.isBlankText_nil Text.isBlankText_nil htight
  rwa [List.nil_append, List.append_nil] at htrim

lemma isBlankText_eq {text : List Char} (h : IsCompact text) : Text.isBlankText text = false := by
  obtain ⟨c, hc⟩ := List.exists_mem_of_ne_nil text h.ne_nil
  rw [Text.isBlankText, List.all_eq_false]
  exact ⟨c, hc, by simp [h.noBlank c hc]⟩

end IsCompact

namespace Shorthand

lemma IsCompact.operandText {short : Shorthand} (h : IsCompact short.text) (bound : Nat) :
    IsCompact (operandText bound short) := by
  rcases Nat.lt_or_ge short.strength bound with hlt | hle
  · rw [operandText_of_lt hlt]
    exact h.group
  · rwa [operandText_of_le hle]

/-- **Texts of shorthand are compact.** -/
theorem IsWellFormed.isCompact_text {short : Shorthand} (h : short.IsWellFormed) :
    IsCompact short.text := by
  induction short using induction_on_parts with
  | leaf id => exact .of_isTidy (.of_isValidId ((isWellFormed_leaf_iff id).mp h))
  | operation op operands ih =>
    obtain ⟨hlength, hmembers⟩ := (isWellFormed_operation_iff op operands).mp h
    rw [text, operandTexts_eq_map]
    refine .joinWith op.isOperator.tidy (List.ne_nil_of_length_pos ?_) ?_
    · rw [List.length_map]
      omega
    · exact List.forall_mem_map.mpr fun member hmem =>
        IsCompact.operandText (ih member hmem (hmembers member hmem)) _
  | tree id children ih =>
    obtain ⟨hid, hne, hmembers⟩ := (isWellFormed_tree_iff id children).mp h
    rw [text, texts_eq_map]
    refine (IsCompact.of_isTidy (.of_isValidId hid)).append (.group (.children ?_ ?_))
    · rwa [Ne, List.map_eq_nil_iff]
    · exact List.forall_mem_map.mpr fun member hmem => ih member hmem (hmembers member hmem)
  | spread name inner ih =>
    obtain ⟨hname, hinner⟩ := (isWellFormed_spread_iff name inner).mp h
    have hdot : IsCompact ['.'] :=
      ⟨List.cons_ne_nil _ _, .of_plain (List.forall_mem_singleton.mpr (by decide)),
        List.forall_mem_singleton.mpr (by decide)⟩
    rw [text, ← List.singleton_append]
    exact (IsCompact.of_isTidy (.of_isValidId hname)).append (hdot.append (ih hinner).group)

lemma isCompact_children {children : List Shorthand} (hne : children ≠ [])
    (h : ∀ member ∈ children, member.IsWellFormed) :
    IsCompact (joinWith ',' (texts children)) := by
  rw [texts_eq_map]
  refine .children ?_ (List.forall_mem_map.mpr fun member hmem => (h member hmem).isCompact_text)
  rwa [Ne, List.map_eq_nil_iff]

/-- No bar surfaces but at the root of a union. -/
lemma hides_bar {short : Shorthand} (h : short.IsWellFormed) (hstrength : 1 ≤ short.strength) :
    Hides '|' short.text := by
  induction short using induction_on_parts with
  | leaf id => exact .of_isValidId (by decide) ((isWellFormed_leaf_iff id).mp h)
  | operation op operands ih =>
    have hop := op.isOperator
    obtain ⟨-, hmembers⟩ := (isWellFormed_operation_iff op operands).mp h
    have hne : op.sign ≠ '|' := by
      cases op with
      | merge => exact absurd hstrength (Nat.not_succ_le_zero 0)
      | attach => decide
      | filter => decide
    rw [text, operandTexts_eq_map]
    refine .joinWith hne hop.tidy.ne_open hop.tidy.ne_close ?_ ?_
    · exact List.forall_mem_map.mpr fun member hmem =>
        (IsCompact.operandText (hmembers member hmem).isCompact_text _).balanced
    · refine List.forall_mem_map.mpr fun member hmem => ?_
      rcases Nat.lt_or_ge member.strength (op.level + 1) with hlt | hle
      · rw [operandText_of_lt hlt]
        exact .group '|' (hmembers member hmem).isCompact_text.balanced
      · rw [operandText_of_le hle]
        exact ih member hmem (hmembers member hmem) (hle.trans' (Nat.le_add_left 1 _))
  | tree id children ih =>
    obtain ⟨hid, hne, hmembers⟩ := (isWellFormed_tree_iff id children).mp h
    rw [text]
    exact .append (.of_isValidId hid) (.of_isValidId (by decide) hid)
      (.group '|' (isCompact_children hne hmembers).balanced)
  | spread name inner _ =>
    obtain ⟨hname, hinner⟩ := (isWellFormed_spread_iff name inner).mp h
    have hdot : Hides '|' ('.' :: ('(' :: inner.text ++ [')'])) := by
      have hgroup : Hides '|' ('(' :: inner.text ++ [')']) :=
        .group '|' hinner.isCompact_text.balanced
      rw [Hides, splitFrom_other (by decide) (by decide) (by decide), hgroup]
    rw [text]
    exact .append (.of_isValidId hname) (.of_isValidId (by decide) hname) hdot

end Shorthand

end QueryTerms.Term
