import QueryTerms.Proofs.Term.Canonical
import QueryTerms.Proofs.Text.Blank

/-!
# The grammar of terms

The texts that stand for terms, told without a reader:

```text
merge  ::= attach ('|' attach)*
attach ::= filter ('+' filter)*
filter ::= atom (':' atom)*
atom   ::= ws id ws  |  ws '(' merge ')' ws  |  ws id ws '(' merge (',' merge)* ')' ws
```

**Derivations.**  A `Derivation` is a tree over these rules; a single operand is its own derivation
on every looser level.  `IsValid` says that ids are ids and white space is white space, and that
every operand is on a tighter level than its operator.

**Texts.**  What derives from the grammar is balanced (`text_isBalanced`) and surfaces the operator
at its root only (`text_hides`).

**White space.**  White space at either end of a text changes neither the term nor the level:
`derives_append_left`, `derives_append_right`, `derives_trim`.

**One derivation.**  A text has no two derivations: `Derivation.IsValid.eq_of_text_eq`.
-/

namespace QueryTerms.Term

/-- The operators of terms. -/
inductive Operator where
  | merge
  | attach
  | filter

namespace Operator

def sign : Operator → Char
  | merge => '|'
  | attach => '+'
  | filter => ':'

/-- The level on which the operator is written, from the loosest one. -/
def level : Operator → Nat
  | merge => 0
  | attach => 1
  | filter => 2

def compose : Operator → List Term → Term
  | merge => .merge
  | attach => .attach
  | filter => .filter

lemma isOperator (op : Operator) : IsOperator op.sign op.level op.compose := by
  cases op with
  | merge => exact isOperator_merge
  | attach => exact isOperator_attach
  | filter => exact isOperator_filter

lemma level_lt (op : Operator) : op.level < 3 := by
  cases op <;> decide

lemma eq_of_level_eq {op other : Operator} (h : op.level = other.level) : op = other := by
  cases op <;> cases other <;> first | rfl | exact absurd h (by decide)

end Operator

/-- A derivation from the grammar, with all characters of its text. -/
inductive Derivation where
  /-- `ws id ws` -/
  | leaf (before id after : List Char)
  /-- `ws '(' merge ')' ws` -/
  | group (before : List Char) (inner : Derivation) (after : List Char)
  /-- `ws id ws '(' merge (',' merge)* ')' ws` -/
  | tree (before id middle : List Char) (children : List Derivation) (after : List Char)
  /-- Operands with the sign of an operator between them. -/
  | operation (op : Operator) (operands : List Derivation)

namespace Derivation

/-- The tightest level that the derivation belongs to; it belongs to all looser ones. -/
def level : Derivation → Nat
  | leaf _ _ _ => 3
  | group _ _ _ => 3
  | tree _ _ _ _ _ => 3
  | operation op _ => op.level

mutual

/-- The text that is derived. -/
def text : Derivation → List Char
  | leaf before id after => before ++ id ++ after
  | group before inner after => before ++ ('(' :: inner.text ++ [')']) ++ after
  | tree before id middle children after =>
    before ++ (id ++ middle ++ ('(' :: joinWith ',' (texts children) ++ [')'])) ++ after
  | operation op operands => joinWith op.sign (texts operands)

def texts : List Derivation → List (List Char)
  | [] => []
  | first :: rest => first.text :: texts rest

end

mutual

/-- The term that the text stands for. -/
def term : Derivation → Term
  | leaf _ id _ => .leaf (String.ofList id)
  | group _ inner _ => inner.term
  | tree _ id _ children _ => .tree (String.ofList id) (terms children)
  | operation op operands => op.compose (terms operands)

def terms : List Derivation → List Term
  | [] => []
  | first :: rest => first.term :: terms rest

end

/-- The derivation follows the rules. -/
inductive IsValid : Derivation → Prop where
  | leaf {before id after : List Char} (hbefore : Text.isBlankText before = true)
      (hid : isValidId id = true) (hafter : Text.isBlankText after = true) :
      IsValid (.leaf before id after)
  | group {before : List Char} {inner : Derivation} {after : List Char}
      (hbefore : Text.isBlankText before = true) (hinner : IsValid inner)
      (hafter : Text.isBlankText after = true) : IsValid (.group before inner after)
  | tree {before id middle : List Char} {children : List Derivation} {after : List Char}
      (hbefore : Text.isBlankText before = true) (hid : isValidId id = true)
      (hmiddle : Text.isBlankText middle = true) (hne : children ≠ [])
      (hchildren : ∀ child ∈ children, IsValid child) (hafter : Text.isBlankText after = true) :
      IsValid (.tree before id middle children after)
  | operation {op : Operator} {operands : List Derivation} (hlength : 2 ≤ operands.length)
      (hlevel : ∀ operand ∈ operands, op.level < operand.level)
      (hoperands : ∀ operand ∈ operands, IsValid operand) : IsValid (.operation op operands)

lemma texts_eq_map (derivations : List Derivation) : texts derivations = derivations.map text := by
  induction derivations with
  | nil => rw [texts, List.map_nil]
  | cons first rest ih => rw [texts, ih, List.map_cons]

lemma terms_eq_map (derivations : List Derivation) : terms derivations = derivations.map term := by
  induction derivations with
  | nil => rw [terms, List.map_nil]
  | cons first rest ih => rw [terms, ih, List.map_cons]

end Derivation

/-- The text stands for the term on a level of the grammar. -/
def Derives (level : Nat) (text : List Char) (term : Term) : Prop :=
  ∃ derivation : Derivation, derivation.IsValid ∧ level ≤ derivation.level ∧
    derivation.text = text ∧ derivation.term = term

lemma Derives.mono {low high : Nat} {text : List Char} {term : Term} (h : Derives high text term)
    (hle : low ≤ high) : Derives low text term := by
  obtain ⟨derivation, hvalid, hlevel, htext⟩ := h
  exact ⟨derivation, hvalid, hle.trans hlevel, htext⟩

/-- Texts that derive have derivations, one for each. -/
lemma exists_derivations {level : Nat} {parts : List (List Char)} {terms : List Term}
    (h : List.Forall₂ (Derives level) parts terms) :
    ∃ derivations : List Derivation, (∀ derivation ∈ derivations, derivation.IsValid) ∧
      (∀ derivation ∈ derivations, level ≤ derivation.level) ∧
      derivations.length = parts.length ∧
      Derivation.texts derivations = parts ∧ Derivation.terms derivations = terms := by
  induction h with
  | nil => exact ⟨[], nofun, nofun, rfl, rfl, rfl⟩
  | cons hfirst _ ih =>
    obtain ⟨first, hvalid, hlevel, rfl, rfl⟩ := hfirst
    obtain ⟨rest, hvalids, hlevels, hlength, rfl, rfl⟩ := ih
    exact ⟨first :: rest, List.forall_mem_cons.mpr ⟨hvalid, hvalids⟩,
      List.forall_mem_cons.mpr ⟨hlevel, hlevels⟩, congrArg (· + 1) hlength, rfl, rfl⟩

namespace Derives

lemma leaf {id : List Char} (hid : isValidId id = true) :
    Derives 3 id (.leaf (String.ofList id)) := by
  refine ⟨.leaf [] id [], .leaf Text.isBlankText_nil hid Text.isBlankText_nil, le_refl _, ?_, rfl⟩
  rw [Derivation.text, List.append_nil, List.nil_append]

lemma group {before text : List Char} {term : Term} (hbefore : Text.isBlankText before = true)
    (h : Derives 0 text term) : Derives 3 (before ++ ('(' :: text ++ [')'])) term := by
  obtain ⟨inner, hinner, -, rfl, rfl⟩ := h
  refine ⟨.group before inner [], .group hbefore hinner Text.isBlankText_nil, le_refl _, ?_, rfl⟩
  rw [Derivation.text, List.append_nil]

lemma tree {before id middle : List Char} {parts : List (List Char)} {terms : List Term}
    (hbefore : Text.isBlankText before = true) (hid : isValidId id = true)
    (hmiddle : Text.isBlankText middle = true) (hne : parts ≠ [])
    (h : List.Forall₂ (Derives 0) parts terms) :
    Derives 3 (before ++ id ++ middle ++ ('(' :: joinWith ',' parts ++ [')']))
      (.tree (String.ofList id) terms) := by
  obtain ⟨children, hvalid, -, hlength, rfl, rfl⟩ := exists_derivations h
  have hchildren : children ≠ [] := by
    rintro rfl
    exact hne rfl
  refine ⟨.tree before id middle children [],
    .tree hbefore hid hmiddle hchildren hvalid Text.isBlankText_nil, le_refl _, ?_, rfl⟩
  simp [Derivation.text]

lemma operation {op : Operator} {parts : List (List Char)} {terms : List Term}
    (hlength : 2 ≤ parts.length) (h : List.Forall₂ (Derives (op.level + 1)) parts terms) :
    Derives op.level (joinWith op.sign parts) (op.compose terms) := by
  obtain ⟨operands, hvalid, hlevel, hsame, rfl, rfl⟩ := exists_derivations h
  exact ⟨.operation op operands, .operation (hsame ▸ hlength) hlevel hvalid, le_refl _, rfl, rfl⟩

end Derives

/-! ## Texts -/

lemma ne_paren_of_isBlank {c : Char} (h : Text.isBlank c = true) : c ≠ '(' ∧ c ≠ ')' := by
  constructor <;> rintro rfl <;> exact absurd h (by decide)

lemma IsBalanced.of_isBlankText {text : List Char} (h : Text.isBlankText text = true) :
    IsBalanced text :=
  .of_plain fun _ hc => ne_paren_of_isBlank (Text.isBlank_of_mem h hc)

lemma IsBalanced.of_isValidId {id : List Char} (h : isValidId id = true) : IsBalanced id :=
  .of_plain fun c hc => ne_paren_of_isIdChar (isIdChar_of_isValidId h c hc)

lemma Hides.of_isBlankText {sep : Char} (hsep : Text.isBlank sep = false) {text : List Char}
    (h : Text.isBlankText text = true) : Hides sep text := by
  refine .of_notMem (fun hmem => ?_) fun c hc => ne_paren_of_isBlank (Text.isBlank_of_mem h hc)
  rw [Text.isBlank_of_mem h hmem] at hsep
  cases hsep

lemma Hides.of_isValidId {sep : Char} (hsep : isIdChar sep = false) {id : List Char}
    (h : isValidId id = true) : Hides sep id := by
  have hchars := isIdChar_of_isValidId h
  refine .of_notMem (fun hmem => ?_) fun c hc => ne_paren_of_isIdChar (hchars c hc)
  rw [hchars sep hmem] at hsep
  cases hsep

namespace Derivation.IsValid

variable {derivation : Derivation}

/-- **Derived texts are balanced.** -/
theorem text_isBalanced (h : derivation.IsValid) : IsBalanced derivation.text := by
  induction h with
  | leaf hbefore hid hafter =>
    rw [text]
    exact (IsBalanced.of_isBlankText hbefore).append (.of_isValidId hid) |>.append
      (.of_isBlankText hafter)
  | group hbefore _ hafter ih =>
    rw [text]
    exact (IsBalanced.of_isBlankText hbefore).append ih.group |>.append (.of_isBlankText hafter)
  | tree hbefore hid hmiddle _ _ hafter ih =>
    rw [text, texts_eq_map]
    refine (IsBalanced.of_isBlankText hbefore).append ?_ |>.append (.of_isBlankText hafter)
    refine ((IsBalanced.of_isValidId hid).append (.of_isBlankText hmiddle)).append (.group ?_)
    exact .joinWith (by decide) (by decide) (List.forall_mem_map.mpr ih)
  | operation _ _ _ ih =>
    rw [text, texts_eq_map]
    exact .joinWith (Operator.isOperator _).tidy.ne_open (Operator.isOperator _).tidy.ne_close
      (List.forall_mem_map.mpr ih)

lemma joinWith_texts_isBalanced {derivations : List Derivation} {sep : Char} (ho : sep ≠ '(')
    (hc : sep ≠ ')') (h : ∀ derivation ∈ derivations, derivation.IsValid) :
    IsBalanced (joinWith sep (texts derivations)) := by
  rw [texts_eq_map]
  exact .joinWith ho hc (List.forall_mem_map.mpr fun derivation hmem =>
    (h derivation hmem).text_isBalanced)

/-- **Only the operator at the root surfaces**, or a tighter one. -/
theorem text_hides {sep : Char} (hid : isIdChar sep = false) (hblank : Text.isBlank sep = false)
    (h : derivation.IsValid) (hsep : Outbinds derivation.level sep) :
    Hides sep derivation.text := by
  have hides_atom : ∀ {before core after : List Char}, Text.isBlankText before = true →
      IsBalanced core → Hides sep core → Text.isBlankText after = true →
      Hides sep (before ++ core ++ after) := by
    intro before core after hbefore hbalanced hcore hafter
    have hfront := IsBalanced.of_isBlankText hbefore
    exact .append (hfront.append hbalanced)
      (.append hfront (.of_isBlankText hblank hbefore) hcore) (.of_isBlankText hblank hafter)
  induction h with
  | leaf hbefore hvalid hafter =>
    rw [text]
    exact hides_atom hbefore (.of_isValidId hvalid) (.of_isValidId hid hvalid) hafter
  | group hbefore hinner hafter _ =>
    rw [text]
    exact hides_atom hbefore hinner.text_isBalanced.group (.group sep hinner.text_isBalanced)
      hafter
  | @tree before id middle children after hbefore hvalid hmiddle hne hchildren hafter _ =>
    have hname : IsBalanced (id ++ middle) :=
      (IsBalanced.of_isValidId hvalid).append (.of_isBlankText hmiddle)
    have hinner : IsBalanced (joinWith ',' (texts children)) :=
      joinWith_texts_isBalanced (by decide) (by decide) hchildren
    rw [text]
    refine hides_atom hbefore (hname.append hinner.group) (.append hname ?_ (.group sep hinner))
      hafter
    exact .append (.of_isValidId hvalid) (.of_isValidId hid hvalid) (.of_isBlankText hblank hmiddle)
  | @operation op operands _ hlevel hoperands ih =>
    have hop := op.isOperator
    have hne : op.sign ≠ sep := by
      rintro rfl
      exact hop.surfaces hsep
    rw [text, texts_eq_map]
    refine .joinWith hne hop.tidy.ne_open hop.tidy.ne_close ?_ ?_
    · exact List.forall_mem_map.mpr fun operand hmem => (hoperands operand hmem).text_isBalanced
    · exact List.forall_mem_map.mpr fun operand hmem =>
        ih operand hmem (hsep.mono (hlevel operand hmem).le)

lemma text_hides_comma (h : derivation.IsValid) : Hides ',' derivation.text := by
  have hcomma : Outbinds derivation.level ',' := ⟨nofun, nofun, nofun⟩
  exact h.text_hides (by decide) (by decide) hcomma

end Derivation.IsValid

/-! ## White space -/

lemma joinWith_cons {sep : Char} {rest : List (List Char)} (hne : rest ≠ []) (first : List Char) :
    joinWith sep (first :: rest) = first ++ sep :: joinWith sep rest := by
  cases rest with
  | nil => exact absurd rfl hne
  | cons second others => exact joinWith_cons_cons sep first second others

lemma joinWith_concat {sep : Char} {front : List (List Char)} (hne : front ≠ [])
    (last : List Char) :
    joinWith sep (front ++ [last]) = joinWith sep front ++ [sep] ++ last := by
  induction front with
  | nil => exact absurd rfl hne
  | cons first rest ih =>
    cases rest with
    | nil =>
      rw [List.singleton_append, joinWith_cons_cons]
      simp [joinWith]
    | cons second others =>
      rw [List.cons_append, joinWith_cons (by simp), ih (List.cons_ne_nil _ _),
        joinWith_cons_cons]
      simp

namespace Derivation.IsValid

variable {derivation : Derivation}

/-- The white space before a derived text can be exchanged. -/
lemma exists_front (h : derivation.IsValid) :
    ∃ before c rest, Text.isBlankText before = true ∧ Text.isBlank c = false ∧
      derivation.text = before ++ c :: rest ∧
      ∀ other, Text.isBlankText other = true →
        Derives derivation.level (other ++ c :: rest) derivation.term := by
  induction h with
  | @leaf before id after hbefore hid hafter =>
    obtain ⟨c, cs, rfl⟩ := List.exists_cons_of_ne_nil (ne_nil_of_isValidId hid)
    have hc := isBlank_of_isIdChar (isIdChar_of_isValidId hid c List.mem_cons_self)
    refine ⟨before, c, cs ++ after, hbefore, hc, by simp [text], fun other hother => ?_⟩
    exact ⟨.leaf other (c :: cs) after, .leaf hother hid hafter, le_refl _, by simp [text], rfl⟩
  | @group before inner after hbefore hinner hafter _ =>
    refine ⟨before, '(', inner.text ++ [')'] ++ after, hbefore, by decide, by simp [text],
      fun other hother => ?_⟩
    exact ⟨.group other inner after, .group hother hinner hafter, le_refl _, by simp [text], rfl⟩
  | @tree before id middle children after hbefore hid hmiddle hne hchildren hafter _ =>
    obtain ⟨c, cs, rfl⟩ := List.exists_cons_of_ne_nil (ne_nil_of_isValidId hid)
    have hc := isBlank_of_isIdChar (isIdChar_of_isValidId hid c List.mem_cons_self)
    refine ⟨before, c, cs ++ middle ++ ('(' :: joinWith ',' (texts children) ++ [')']) ++ after,
      hbefore, hc, by simp [text], fun other hother => ?_⟩
    exact ⟨.tree other (c :: cs) middle children after,
      .tree hother hid hmiddle hne hchildren hafter, le_refl _, by simp [text], rfl⟩
  | @operation op operands hlength hlevel hoperands ih =>
    match operands with
    | first :: second :: others =>
      obtain ⟨before, c, rest, hbefore, hc, htext, hother⟩ := ih first List.mem_cons_self
      refine ⟨before, c, rest ++ op.sign :: joinWith op.sign (texts (second :: others)), hbefore,
        hc, ?_, fun other hblank => ?_⟩
      · rw [text, texts, joinWith_cons (by simp [texts]), htext]
        simp
      · obtain ⟨changed, hvalid, hle, hchanged, hterm⟩ := hother other hblank
        rw [List.forall_mem_cons] at hlevel hoperands
        refine ⟨.operation op (changed :: second :: others), .operation hlength ?_ ?_, le_refl _,
          ?_, ?_⟩
        · exact List.forall_mem_cons.mpr ⟨hlevel.1.trans_le hle, hlevel.2⟩
        · exact List.forall_mem_cons.mpr ⟨hvalid, hoperands.2⟩
        · rw [text, texts, joinWith_cons (by simp [texts]), hchanged]
          simp
        · simp only [term, terms, hterm]

/-- So can the white space behind it. -/
lemma exists_back (h : derivation.IsValid) :
    ∃ front c after, Text.isBlankText after = true ∧ Text.isBlank c = false ∧
      derivation.text = front ++ [c] ++ after ∧
      ∀ other, Text.isBlankText other = true →
        Derives derivation.level (front ++ [c] ++ other) derivation.term := by
  induction h with
  | @leaf before id after hbefore hid hafter =>
    obtain ⟨cs, c, rfl⟩ := (List.eq_nil_or_concat' id).resolve_left (ne_nil_of_isValidId hid)
    have hc := isBlank_of_isIdChar (isIdChar_of_isValidId hid c (by simp))
    refine ⟨before ++ cs, c, after, hafter, hc, by simp [text], fun other hother => ?_⟩
    exact ⟨.leaf before (cs ++ [c]) other, .leaf hbefore hid hother, le_refl _, by simp [text],
      rfl⟩
  | @group before inner after hbefore hinner hafter _ =>
    refine ⟨before ++ '(' :: inner.text, ')', after, hafter, by decide, by simp [text],
      fun other hother => ?_⟩
    exact ⟨.group before inner other, .group hbefore hinner hother, le_refl _, by simp [text], rfl⟩
  | @tree before id middle children after hbefore hid hmiddle hne hchildren hafter _ =>
    refine ⟨before ++ id ++ middle ++ '(' :: joinWith ',' (texts children), ')', after, hafter,
      by decide, by simp [text], fun other hother => ?_⟩
    exact ⟨.tree before id middle children other,
      .tree hbefore hid hmiddle hne hchildren hother, le_refl _, by simp [text], rfl⟩
  | @operation op operands hlength hlevel hoperands ih =>
    obtain rfl | ⟨others, last, rfl⟩ := List.eq_nil_or_concat' operands
    · exact absurd hlength (by decide)
    · have hne : others.map text ≠ [] := by
        rintro hnil
        rw [List.map_eq_nil_iff.mp hnil] at hlength
        simp at hlength
      obtain ⟨front, c, after, hafter, hc, htext, hother⟩ := ih last (by simp)
      refine ⟨joinWith op.sign (others.map text) ++ [op.sign] ++ front, c, after, hafter, hc, ?_,
        fun other hblank => ?_⟩
      · rw [text, texts_eq_map, List.map_append, List.map_singleton, joinWith_concat hne, htext]
        simp
      · obtain ⟨changed, hvalid, hle, hchanged, hterm⟩ := hother other hblank
        rw [List.forall_mem_append, List.forall_mem_singleton] at hlevel hoperands
        refine ⟨.operation op (others ++ [changed]), .operation (by simpa using hlength) ?_ ?_,
          le_refl _, ?_, ?_⟩
        · rw [List.forall_mem_append, List.forall_mem_singleton]
          exact ⟨hlevel.1, hlevel.2.trans_le hle⟩
        · rw [List.forall_mem_append, List.forall_mem_singleton]
          exact ⟨hoperands.1, hvalid⟩
        · rw [text, texts_eq_map, List.map_append, List.map_singleton, joinWith_concat hne,
            hchanged]
          simp
        · rw [term, term, terms_eq_map, terms_eq_map, List.map_append, List.map_append,
            List.map_singleton, List.map_singleton, hterm]

lemma isBlankText_text (h : derivation.IsValid) : Text.isBlankText derivation.text = false := by
  obtain ⟨before, c, rest, -, hc, htext, -⟩ := h.exists_front
  rw [htext, Text.isBlankText, List.all_eq_false]
  exact ⟨c, by simp, by rw [hc]; decide⟩

end Derivation.IsValid

section Derives

variable {level : Nat} {blank text : List Char} {term : Term}

/-- White space before a text says nothing. -/
lemma derives_append_left (hblank : Text.isBlankText blank = true) :
    Derives level (blank ++ text) term ↔ Derives level text term := by
  constructor
  · rintro ⟨derivation, hvalid, hlevel, htext, rfl⟩
    obtain ⟨before, c, rest, hbefore, hc, heq, hother⟩ := hvalid.exists_front
    rw [htext] at heq
    obtain ⟨middle, rfl, hrest⟩ := Text.exists_of_isBlankText_append hblank hc heq
    rw [hrest]
    exact (hother middle (Text.isBlankText_append.mp hbefore).2).mono hlevel
  · rintro ⟨derivation, hvalid, hlevel, rfl, rfl⟩
    obtain ⟨before, c, rest, hbefore, -, heq, hother⟩ := hvalid.exists_front
    rw [heq, ← List.append_assoc]
    exact (hother _ (Text.isBlankText_append.mpr ⟨hblank, hbefore⟩)).mono hlevel

/-- Nor does white space behind it. -/
lemma derives_append_right (hblank : Text.isBlankText blank = true) :
    Derives level (text ++ blank) term ↔ Derives level text term := by
  constructor
  · rintro ⟨derivation, hvalid, hlevel, htext, rfl⟩
    obtain ⟨front, c, after, hafter, hc, heq, hother⟩ := hvalid.exists_back
    rw [htext] at heq
    obtain ⟨middle, rfl, hrest⟩ := Text.exists_of_append_isBlankText hblank hc heq
    rw [hrest]
    exact (hother middle (Text.isBlankText_append.mp hafter).1).mono hlevel
  · rintro ⟨derivation, hvalid, hlevel, rfl, rfl⟩
    obtain ⟨front, c, after, hafter, -, heq, hother⟩ := hvalid.exists_back
    rw [heq, List.append_assoc]
    exact (hother _ (Text.isBlankText_append.mpr ⟨hafter, hblank⟩)).mono hlevel

/-- **A text stands for what it stands for when it is trimmed.** -/
theorem derives_trim : Derives level (Text.trim text) term ↔ Derives level text term := by
  obtain ⟨before, after, hbefore, hafter, htext⟩ := Text.exists_eq_trim text
  have hboth : Derives level (before ++ Text.trim text ++ after) term ↔
      Derives level (Text.trim text) term := by
    rw [derives_append_right hafter, derives_append_left hbefore]
  rw [← htext] at hboth
  exact hboth.symm

end Derives

/-! ## One derivation -/

/-- The operands come apart at the operator. -/
lemma splitTop_operation {op : Operator} {operands : List Derivation}
    (hlength : 2 ≤ operands.length) (hlevel : ∀ operand ∈ operands, op.level < operand.level)
    (hoperands : ∀ operand ∈ operands, operand.IsValid) :
    splitTop op.sign (Derivation.operation op operands).text = operands.map Derivation.text := by
  have hop := op.isOperator
  have hblank : Text.isBlank op.sign = false := hop.tidy.noBlank _ List.mem_cons_self
  have hne : operands.map Derivation.text ≠ [] :=
    List.ne_nil_of_length_pos (by rw [List.length_map]; omega)
  rw [Derivation.text, Derivation.texts_eq_map]
  refine splitTop_joinWith hop.tidy.ne_open hop.tidy.ne_close hne ?_ ?_
  · exact List.forall_mem_map.mpr fun operand hmem => (hoperands operand hmem).text_isBalanced
  · exact List.forall_mem_map.mpr fun operand hmem =>
      (hoperands operand hmem).text_hides hop.isIdChar_eq hblank
        (hop.outbinds.mono (hlevel operand hmem))

/-- Tighter texts do not come apart there. -/
lemma splitTop_of_level_lt {op : Operator} {derivation : Derivation} (h : derivation.IsValid)
    (hlevel : op.level < derivation.level) :
    splitTop op.sign derivation.text = [derivation.text] := by
  have hop := op.isOperator
  have hblank : Text.isBlank op.sign = false := hop.tidy.noBlank _ List.mem_cons_self
  exact (h.text_hides hop.isIdChar_eq hblank (hop.outbinds.mono hlevel)).splitTop_eq

/-- Children come apart at commas. -/
lemma splitTop_children {children : List Derivation} (hne : children ≠ [])
    (hchildren : ∀ child ∈ children, child.IsValid) :
    splitTop ',' (joinWith ',' (Derivation.texts children)) = children.map Derivation.text := by
  rw [Derivation.texts_eq_map]
  refine splitTop_joinWith (by decide) (by decide) (by simpa using hne) ?_ ?_
  · exact List.forall_mem_map.mpr fun child hmem => (hchildren child hmem).text_isBalanced
  · exact List.forall_mem_map.mpr fun child hmem => (hchildren child hmem).text_hides_comma

/-- The first parenthesis is where the group of an atom begins. -/
lemma name_group_inj {name name' inner inner' : List Char} (hname : '(' ∉ name)
    (hname' : '(' ∉ name')
    (h : name ++ ('(' :: inner ++ [')']) = name' ++ ('(' :: inner' ++ [')'])) :
    name = name' ∧ inner = inner' := by
  have htake : ∀ name inner : List Char, '(' ∉ name →
      (name ++ ('(' :: inner ++ [')'])).takeWhile (· != '(') = name := by
    intro name inner hname
    rw [List.takeWhile_append_of_pos fun c hc => by simpa using fun e : c = '(' => hname (e ▸ hc)]
    simp
  have heq : name = name' := by rw [← htake name inner hname, h, htake name' inner' hname']
  subst heq
  have hgroup := List.append_cancel_left h
  exact ⟨rfl, by simpa using hgroup⟩

lemma isTight_group (inner : List Char) : Text.IsTight ('(' :: inner ++ [')']) where
  ne_nil := by simp
  head := by
    rintro c ⟨⟩
    decide
  last := by
    rw [List.getLast?_append_of_ne_nil _ (by simp)]
    rintro c ⟨⟩
    decide

section ValidId

variable {id middle : List Char} (hid : isValidId id = true)
include hid

lemma isTight_id : Text.IsTight id :=
  .of_forall (ne_nil_of_isValidId hid) fun c hc =>
    isBlank_of_isIdChar (isIdChar_of_isValidId hid c hc)

lemma isTight_tree (middle inner : List Char) :
    Text.IsTight (id ++ middle ++ ('(' :: inner ++ [')'])) :=
  (isTight_id hid).append (isTight_group inner) middle

lemma open_notMem_id : '(' ∉ id := fun hmem =>
  (ne_paren_of_isIdChar (isIdChar_of_isValidId hid _ hmem)).1 rfl

lemma open_notMem_name (hmiddle : Text.isBlankText middle = true) : '(' ∉ id ++ middle := by
  rw [List.mem_append, not_or]
  exact ⟨open_notMem_id hid, fun hmem =>
    (ne_paren_of_isBlank (Text.isBlank_of_mem hmiddle hmem)).1 rfl⟩

lemma id_ne_group (inner : List Char) : id ≠ '(' :: inner ++ [')'] := by
  rintro rfl
  exact absurd (by simp) (open_notMem_id hid)

lemma id_ne_tree (other middle inner : List Char) :
    id ≠ other ++ middle ++ ('(' :: inner ++ [')']) := by
  rintro rfl
  exact absurd (by simp) (open_notMem_id hid)

lemma group_ne_tree (hmiddle : Text.isBlankText middle = true) (inner inner' : List Char) :
    '(' :: inner ++ [')'] ≠ id ++ middle ++ ('(' :: inner' ++ [')']) := by
  intro h
  have hnil := (name_group_inj List.not_mem_nil (open_notMem_name hid hmiddle) h).1
  exact ne_nil_of_isValidId hid (List.append_eq_nil_iff.mp hnil.symm).1

end ValidId

namespace Derivation

variable {derivation other : Derivation}

lemma level_le_three (derivation : Derivation) : derivation.level ≤ 3 := by
  cases derivation with
  | operation op _ => exact op.level_lt.le
  | _ => exact le_refl 3

/-- The operators that surface in a text fix its level. -/
lemma level_le_of_text_eq (h : derivation.IsValid) (hother : other.IsValid)
    (htext : derivation.text = other.text) : derivation.level ≤ other.level := by
  by_contra hlt
  rw [not_le] at hlt
  cases hother with
  | operation hlength hlevel hoperands =>
    have hsplit := splitTop_operation hlength hlevel hoperands
    rw [← htext, splitTop_of_level_lt h hlt] at hsplit
    have hone := congrArg List.length hsplit
    rw [List.length_singleton, List.length_map] at hone
    omega
  | _ => exact absurd (hlt.trans_le derivation.level_le_three) (lt_irrefl 3)

lemma eq_of_map_text_eq {derivations others : List Derivation}
    (heq : ∀ derivation ∈ derivations, ∀ other : Derivation, other.IsValid →
      derivation.text = other.text → derivation = other)
    (hothers : ∀ other ∈ others, other.IsValid)
    (htexts : derivations.map text = others.map text) : derivations = others := by
  induction derivations generalizing others with
  | nil => exact (List.map_eq_nil_iff.mp htexts.symm).symm
  | cons first rest ih =>
    cases others with
    | nil => cases htexts
    | cons second more =>
      rw [List.forall_mem_cons] at heq hothers
      obtain ⟨hfirst, hrest⟩ := List.cons.inj htexts
      rw [heq.1 second hothers.1 hfirst, ih heq.2 hothers.2 hrest]

/-- **A text has no two derivations.** -/
theorem IsValid.eq_of_text_eq (h : derivation.IsValid) (hother : other.IsValid)
    (htext : derivation.text = other.text) : derivation = other := by
  induction h generalizing other with
  | leaf hbefore hid hafter =>
    have hlevel := level_le_of_text_eq (.leaf hbefore hid hafter) hother htext
    cases hother with
    | leaf hbefore' hid' hafter' =>
      obtain ⟨rfl, rfl, rfl⟩ := Text.between_inj hbefore hbefore' hafter hafter' (isTight_id hid)
        (isTight_id hid') htext
      rfl
    | group hbefore' _ hafter' =>
      obtain ⟨-, hcore, -⟩ := Text.between_inj hbefore hbefore' hafter hafter' (isTight_id hid)
        (isTight_group _) htext
      exact absurd hcore (id_ne_group hid _)
    | tree hbefore' hid' _ _ _ hafter' =>
      obtain ⟨-, hcore, -⟩ := Text.between_inj hbefore hbefore' hafter hafter' (isTight_id hid)
        (isTight_tree hid' _ _) htext
      exact absurd hcore (id_ne_tree hid _ _ _)
    | operation => exact absurd (hlevel.trans_lt (Operator.level_lt _)) (lt_irrefl 3)
  | group hbefore hinner hafter ih =>
    have hlevel := level_le_of_text_eq (.group hbefore hinner hafter) hother htext
    cases hother with
    | leaf hbefore' hid' hafter' =>
      obtain ⟨-, hcore, -⟩ := Text.between_inj hbefore hbefore' hafter hafter' (isTight_group _)
        (isTight_id hid') htext
      exact absurd hcore.symm (id_ne_group hid' _)
    | group hbefore' hinner' hafter' =>
      obtain ⟨rfl, hgroup, rfl⟩ := Text.between_inj hbefore hbefore' hafter hafter'
        (isTight_group _) (isTight_group _) htext
      rw [ih hinner' (name_group_inj List.not_mem_nil List.not_mem_nil hgroup).2]
    | tree hbefore' hid' hmiddle' _ _ hafter' =>
      obtain ⟨-, hcore, -⟩ := Text.between_inj hbefore hbefore' hafter hafter' (isTight_group _)
        (isTight_tree hid' _ _) htext
      exact absurd hcore (group_ne_tree hid' hmiddle' _ _)
    | operation => exact absurd (hlevel.trans_lt (Operator.level_lt _)) (lt_irrefl 3)
  | @tree before id middle children after hbefore hid hmiddle hne hchildren hafter ih =>
    have hlevel :=
      level_le_of_text_eq (.tree hbefore hid hmiddle hne hchildren hafter) hother htext
    have htight := isTight_tree hid middle (joinWith ',' (texts children))
    cases hother with
    | leaf hbefore' hid' hafter' =>
      obtain ⟨-, hcore, -⟩ := Text.between_inj hbefore hbefore' hafter hafter' htight
        (isTight_id hid') htext
      exact absurd hcore.symm (id_ne_tree hid' _ _ _)
    | group hbefore' _ hafter' =>
      obtain ⟨-, hcore, -⟩ := Text.between_inj hbefore hbefore' hafter hafter' htight
        (isTight_group _) htext
      exact absurd hcore.symm (group_ne_tree hid hmiddle _ _)
    | tree hbefore' hid' hmiddle' hne' hchildren' hafter' =>
      obtain ⟨rfl, hgroup, rfl⟩ := Text.between_inj hbefore hbefore' hafter hafter' htight
        (isTight_tree hid' _ _) htext
      obtain ⟨hname, hinner⟩ := name_group_inj (open_notMem_name hid hmiddle)
        (open_notMem_name hid' hmiddle') hgroup
      have hnothing : Text.isBlankText [] = true := rfl
      obtain ⟨-, rfl, rfl⟩ := Text.between_inj hnothing hnothing hmiddle hmiddle' (isTight_id hid)
        (isTight_id hid') hname
      have htexts := splitTop_children hne hchildren
      rw [hinner, splitTop_children hne' hchildren'] at htexts
      rw [eq_of_map_text_eq (fun child hmem _ => ih child hmem) hchildren' htexts.symm]
    | operation => exact absurd (hlevel.trans_lt (Operator.level_lt _)) (lt_irrefl 3)
  | @operation op operands hlength hlevel hoperands ih =>
    have hvalid := IsValid.operation hlength hlevel hoperands
    have hle := level_le_of_text_eq hvalid hother htext
    have hge := level_le_of_text_eq hother hvalid htext.symm
    have hsplit := splitTop_operation hlength hlevel hoperands
    cases hother with
    | operation hlength' hlevel' hoperands' =>
      obtain rfl := Operator.eq_of_level_eq (le_antisymm hle hge)
      rw [htext, splitTop_operation hlength' hlevel' hoperands'] at hsplit
      rw [eq_of_map_text_eq (fun operand hmem _ => ih operand hmem) hoperands' hsplit.symm]
    | _ => exact absurd (hge.trans_lt op.level_lt) (lt_irrefl 3)

end Derivation

end QueryTerms.Term
