import QueryTerms.Proofs.Outcome
import QueryTerms.Proofs.Term.Grammar
import QueryTerms.Term.Parser

/-!
# The reader accepts the grammar

The reader has no tokens and no look-ahead: it cuts, trims, and looks at the last character and the
first parenthesis of what remains.  All the same it accepts what derives from the grammar, and
nothing else.

**What derives is read.**  A reader that `Reads` the texts of one level makes one that reads those
of the next looser level (`Reads.readOperands`); a reader for what stands in parentheses makes one
for atoms (`Reads.readAtom`).  The number of levels is no bound: `reads_readNested`.

**What is read derives.**  The same steps, backwards: what is cut can be joined again
(`joinWith_splitTop`), so that the derivations of the parts make one of the whole.

**Both.**  A text in which no name is spread is read if and only if it derives, and it has one
derivation only: `parse_eq_ok_iff_derives`.
-/

namespace QueryTerms.Term

/-- The reader reads every text of the level that is no longer than `size`. -/
def Reads (level size : Nat) (reader : List Char → Except ParseError Term) : Prop :=
  ∀ text term, Derives level text term → text.length ≤ size → reader text = .ok term

/-- The reader reads no text but those of the level. -/
def Admits (level : Nat) (reader : List Char → Except ParseError Term) : Prop :=
  ∀ text term, reader text = .ok term → Derives level text term

/-! ## What derives is read -/

lemma infix_joinWith {sep : Char} {parts : List (List Char)} {part : List Char}
    (h : part ∈ parts) : part <:+: joinWith sep parts := by
  induction parts with
  | nil => cases h
  | cons first rest ih =>
    cases rest with
    | nil =>
      rw [List.mem_singleton.mp h]
      exact List.infix_refl first
    | cons second others =>
      rw [joinWith_cons_cons]
      rcases List.mem_cons.mp h with rfl | h
      · exact (List.prefix_append _ _).isInfix
      · refine (ih h).trans ?_
        exact ((List.suffix_cons sep _).trans (List.suffix_append first _)).isInfix

lemma isBlankText_joinWith {sep : Char} {parts : List (List Char)} {part : List Char}
    (h : part ∈ parts) (hblank : Text.isBlankText part = false) :
    Text.isBlankText (joinWith sep parts) = false := by
  rw [Bool.eq_false_iff] at hblank ⊢
  exact fun hjoined => hblank (Text.isBlankText_of_infix (infix_joinWith h) hjoined)

lemma checkOperands_eq_ok {whole : List Char} {parts : List (List Char)}
    (h : ∀ part ∈ parts, Text.isBlankText part = false) : checkOperands whole parts = .ok () := by
  rw [checkOperands, if_neg]
  rw [List.any_eq_true]
  rintro ⟨part, hmem, hblank⟩
  rw [h part hmem] at hblank
  cases hblank

lemma readOperands_of_single {op : Char} {compose : List Term → Term}
    {next : List Char → Except ParseError Term} {text : List Char} (h : splitTop op text = [text]) :
    readOperands op compose next text = next text := by
  rw [readOperands, h]

lemma readOperands_of_several {op : Char} {compose : List Term → Term}
    {next : List Char → Except ParseError Term} {text : List Char} {parts : List (List Char)}
    {terms : List Term} (h : splitTop op text = parts) (hlength : 2 ≤ parts.length)
    (hblank : ∀ part ∈ parts, Text.isBlankText part = false)
    (hread : List.Forall₂ (fun part term => next part = .ok term) parts terms) :
    readOperands op compose next text = .ok (compose terms) := by
  rw [readOperands, h]
  split
  · exact absurd hlength (by simp)
  · rw [checkOperands_eq_ok hblank]
    exact map_eq_ok_iff.mpr ⟨terms, mapM_eq_ok_iff.mpr hread, rfl⟩

/-- If the operands of an operator are read, then so is what is composed of them. -/
theorem Reads.readOperands {op : Operator} {size : Nat}
    {next : List Char → Except ParseError Term} (h : Reads (op.level + 1) size next) :
    Reads op.level size (readOperands op.sign op.compose next) := by
  rintro _ _ ⟨derivation, hvalid, hlevel, rfl, rfl⟩ hsize
  rcases hlevel.lt_or_eq with hlt | heq
  · rw [readOperands_of_single (splitTop_of_level_lt hvalid hlt)]
    exact h _ _ ⟨derivation, hvalid, hlt, rfl, rfl⟩ hsize
  · cases hvalid with
    | operation hlength hlevels hoperands =>
      obtain rfl := Operator.eq_of_level_eq heq
      rw [Derivation.term, Derivation.terms_eq_map]
      refine readOperands_of_several (splitTop_operation hlength hlevels hoperands)
        (by rwa [List.length_map]) ?_ ?_
      · exact List.forall_mem_map.mpr fun operand hmem => (hoperands operand hmem).isBlankText_text
      · rw [List.forall₂_map_left_iff, List.forall₂_map_right_iff, List.forall₂_same]
        intro operand hmem
        refine h _ _ ⟨operand, hoperands operand hmem, hlevels operand hmem, rfl, rfl⟩ ?_
        rw [Derivation.text, Derivation.texts_eq_map] at hsize
        exact (infix_joinWith (List.mem_map_of_mem hmem)).length_le.trans hsize
    | _ => exact absurd heq op.level_lt.ne

section Atoms

variable {aliases : Aliases} {nested : List Char → Except ParseError Term}

lemma readId_eq_ok_iff {id : List Char} {name : String} :
    readId id = .ok name ↔ isValidId id = true ∧ String.ofList id = name := by
  rw [readId]
  split <;> simp_all

lemma substituteAlias_none (parent child : List Char) :
    substituteAlias .none parent child = Text.trim child := by
  simp [substituteAlias, Aliases.none]

lemma readAtom_of_trim_id {text id : List Char} (hid : isValidId id = true)
    (htrim : Text.trim text = id) :
    readAtom aliases nested text = .ok (.leaf (String.ofList id)) := by
  have hchars := isIdChar_of_isValidId hid
  have hlast : id.getLast? ≠ some ')' := fun hl =>
    absurd (hchars ')' (List.mem_of_getLast? hl)) (by decide)
  have hplain : ¬ (id.any fun c => c = '(' || c = ')') = true := by
    rw [List.any_eq_true]
    rintro ⟨c, hc, hparen⟩
    have hne := ne_paren_of_isIdChar (hchars c hc)
    simp [hne.1, hne.2] at hparen
  rw [readAtom, htrim, if_neg (by simpa using ne_nil_of_isValidId hid),
    if_pos (by simpa using hlast), if_neg hplain, readId_eq_ok_iff.mpr ⟨hid, rfl⟩]
  rfl

/-- The first parenthesis of an atom closes at its end. -/
lemma readAtom_of_trim_group {text name inner : List Char} (hname : '(' ∉ name)
    (hinner : IsBalanced inner) (htrim : Text.trim text = name ++ ('(' :: inner ++ [')'])) :
    readAtom aliases nested text =
      readGroup aliases nested (name ++ ('(' :: inner ++ [')'])) (Text.trim name) inner := by
  have hne : ∀ c ∈ name, (c != '(') = true := fun c hc => by
    simpa using fun e : c = '(' => hname (e ▸ hc)
  have htake : (name ++ ('(' :: inner ++ [')'])).takeWhile (· != '(') = name := by
    rw [List.takeWhile_append_of_pos hne]
    simp
  have hdrop : (name ++ ('(' :: inner ++ [')'])).dropWhile (· != '(') = '(' :: inner ++ [')'] := by
    rw [List.dropWhile_append_of_pos hne]
    simp
  have hlast : (name ++ ('(' :: inner ++ [')'])).getLast? = some ')' := by
    rw [← List.append_assoc, List.getLast?_append_of_ne_nil _ (List.cons_ne_nil _ _)]
    rfl
  rw [readAtom, htrim, if_neg (by simp), if_neg (by rw [hlast]; simp), htake, hdrop,
    List.cons_append, List.drop_succ_cons, List.drop_zero, closeGroup_balanced hinner]

lemma readGroup_of_nil {text inner : List Char} (hsplit : splitTop ',' inner = [inner])
    (hblank : Text.isBlankText inner = false) :
    readGroup aliases nested text [] inner = nested inner := by
  have hcheck : checkOperands inner [inner] = .ok () := checkOperands_eq_ok (by simpa using hblank)
  rw [readGroup, if_neg (by simp [hblank])]
  simp only [hsplit, hcheck]
  rfl

lemma readGroup_of_id {text id inner : List Char} {parts : List (List Char)} {terms : List Term}
    (hid : isValidId id = true) (hsplit : splitTop ',' inner = parts)
    (hinner : Text.isBlankText inner = false)
    (hblank : ∀ part ∈ parts, Text.isBlankText part = false)
    (hread : List.Forall₂ (fun part term => nested (substituteAlias aliases id part) = .ok term)
      parts terms) :
    readGroup aliases nested text id inner = .ok (.tree (String.ofList id) terms) := by
  rw [readGroup, if_neg (by simp [hinner])]
  simp only [hsplit, checkOperands_eq_ok hblank, readId_eq_ok_iff.mpr ⟨hid, rfl⟩,
    mapM_eq_ok_iff.mpr hread]
  exact if_neg (by simpa using ne_nil_of_isValidId hid)

/-- What stands in parentheses decides whether an atom is read. -/
theorem Reads.readAtom {size : Nat} (h : Reads 0 size nested) :
    Reads 3 (size + 1) (readAtom .none nested) := by
  rintro _ _ ⟨derivation, hvalid, hlevel, rfl, rfl⟩ hsize
  cases hvalid with
  | leaf hbefore hid hafter =>
    have htrim := Text.trim_between hbefore hafter (isTight_id hid)
    exact readAtom_of_trim_id hid htrim
  | @group before inner after hbefore hinner hafter =>
    have htrim : Text.trim (Derivation.group before inner after).text =
        [] ++ ('(' :: inner.text ++ [')']) :=
      Text.trim_between hbefore hafter (isTight_group inner.text)
    rw [readAtom_of_trim_group List.not_mem_nil hinner.text_isBalanced htrim, Text.trim_nil,
      readGroup_of_nil hinner.text_hides_comma.splitTop_eq hinner.isBlankText_text,
      Derivation.term]
    refine h _ _ ⟨inner, hinner, Nat.zero_le _, rfl, rfl⟩ ?_
    simp only [Derivation.text, List.cons_append, List.length_cons, List.length_append] at hsize
    omega
  | @tree before id middle children after hbefore hid hmiddle hne hchildren hafter =>
    have hinner : IsBalanced (joinWith ',' (Derivation.texts children)) :=
      Derivation.IsValid.joinWith_texts_isBalanced (by decide) (by decide) hchildren
    have htrim : Text.trim (Derivation.tree before id middle children after).text =
        id ++ middle ++ ('(' :: joinWith ',' (Derivation.texts children) ++ [')']) :=
      Text.trim_between hbefore hafter (isTight_tree hid middle _)
    have hname : Text.trim (id ++ middle) = id :=
      Text.trim_between Text.isBlankText_nil hmiddle (isTight_id hid)
    have hparts : ∀ part ∈ children.map Derivation.text, Text.isBlankText part = false :=
      List.forall_mem_map.mpr fun child hmem => (hchildren child hmem).isBlankText_text
    rw [readAtom_of_trim_group (open_notMem_name hid hmiddle) hinner htrim, hname,
      Derivation.term, Derivation.terms_eq_map]
    refine readGroup_of_id hid (splitTop_children hne hchildren) ?_ hparts ?_
    · obtain ⟨child, hmem⟩ := List.exists_mem_of_ne_nil children hne
      rw [Derivation.texts_eq_map]
      exact isBlankText_joinWith (List.mem_map_of_mem hmem) (hchildren child hmem).isBlankText_text
    · rw [List.forall₂_map_left_iff, List.forall₂_map_right_iff, List.forall₂_same]
      intro child hmem
      rw [substituteAlias_none]
      have hchild : Derives 0 child.text child.term :=
        ⟨child, hchildren child hmem, Nat.zero_le _, rfl, rfl⟩
      refine h _ _ (derives_trim.mpr hchild) ((Text.length_trim_le _).trans ?_)
      have hle : child.text.length ≤ (joinWith ',' (children.map Derivation.text)).length :=
        (infix_joinWith (List.mem_map_of_mem hmem)).length_le
      simp only [Derivation.text, Derivation.texts_eq_map, List.cons_append, List.length_cons,
        List.length_append] at hsize
      omega
  | operation => exact absurd (hlevel.trans_lt (Operator.level_lt _)) (lt_irrefl 3)

end Atoms

/-- With as many levels as characters, and one more, every text that derives is read. -/
theorem reads_readNested (levels : Nat) : Reads 0 levels (readNested .none (levels + 1)) := by
  induction levels with
  | zero =>
    rintro _ _ ⟨derivation, hvalid, -, rfl, rfl⟩ hsize
    have hblank := hvalid.isBlankText_text
    rw [List.length_eq_zero_iff.mp (Nat.le_zero.mp hsize)] at hblank
    cases hblank
  | succ levels ih =>
    have hatom : Reads (Operator.filter.level + 1) (levels + 1) _ := ih.readAtom
    have hfilter : Reads (Operator.attach.level + 1) (levels + 1) _ := hatom.readOperands
    have hattach : Reads (Operator.merge.level + 1) (levels + 1) _ := hfilter.readOperands
    exact hattach.readOperands

/-! ## What is read derives -/

/-- Cutting loses nothing but the separators. -/
lemma joinWith_splitTop (sep : Char) (text : List Char) :
    joinWith sep (splitTop sep text) = text := by
  have hfrom : ∀ depth,
      joinWith sep ((splitFrom sep depth text).1 :: (splitFrom sep depth text).2) = text := by
    have hcons : ∀ (c : Char) (first : List Char) (rest : List (List Char)),
        joinWith sep ((c :: first) :: rest) = c :: joinWith sep (first :: rest) := by
      intro c first rest
      cases rest with
      | nil => rfl
      | cons second others => rw [joinWith_cons_cons, joinWith_cons_cons, List.cons_append]
    induction text with
    | nil => exact fun _ => rfl
    | cons c cs ih =>
      intro depth
      rw [splitFrom]
      split
      · rw [hcons, ih]
      · split
        · rw [hcons, ih]
        · split
          · next hsep =>
            rw [joinWith_cons_cons, ih, hsep.1, List.nil_append]
          · rw [hcons, ih]
  exact hfrom 0

lemma splitTop_ne_nil (sep : Char) (text : List Char) : splitTop sep text ≠ [] := by
  rw [splitTop_eq]
  exact List.cons_ne_nil _ _

lemma two_le_length_splitTop {sep : Char} {text : List Char}
    (h : ∀ part, splitTop sep text ≠ [part]) : 2 ≤ (splitTop sep text).length := by
  match hsplit : splitTop sep text with
  | [] => exact absurd hsplit (splitTop_ne_nil sep text)
  | [part] => exact absurd hsplit (h part)
  | _ :: _ :: _ => simp

/-- If what is read of operands derives, then so does what is composed of them. -/
theorem Admits.readOperands {op : Operator} {next : List Char → Except ParseError Term}
    (h : Admits (op.level + 1) next) :
    Admits op.level (readOperands op.sign op.compose next) := by
  intro text term hread
  rw [Term.readOperands] at hread
  split at hread
  · exact (h text term hread).mono (Nat.le_succ _)
  · next hparts =>
    obtain ⟨-, -, hread⟩ := bind_eq_ok_iff.mp hread
    obtain ⟨terms, hterms, rfl⟩ := map_eq_ok_iff.mp hread
    have hderives := Derives.operation (two_le_length_splitTop hparts)
      ((mapM_eq_ok_iff.mp hterms).imp fun _ _ => h _ _)
    rwa [joinWith_splitTop] at hderives

section Atoms

variable {nested : List Char → Except ParseError Term}

lemma eq_of_closeGroup {text inner rest : List Char}
    (h : closeGroup 0 ((text.dropWhile (· != '(')).drop 1) = some (inner, rest)) :
    text = text.takeWhile (· != '(') ++ ('(' :: inner ++ ')' :: rest) := by
  cases hdrop : text.dropWhile (· != '(') with
  | nil =>
    rw [hdrop] at h
    cases h
  | cons c cs =>
    have hc : c = '(' := by
      have hhead := List.head?_dropWhile_not (· != '(') text
      rw [hdrop] at hhead
      simpa using hhead
    subst hc
    rw [hdrop, List.drop_succ_cons, List.drop_zero] at h
    rw [List.cons_append, ← closeGroup_eq h, ← hdrop]
    exact List.takeWhile_append_dropWhile.symm

/-- What is read in parentheses derives, with the name before it. -/
lemma derives_of_readGroup (h : Admits 0 nested) {text name inner : List Char} {term : Term}
    (hread : readGroup .none nested text (Text.trim name) inner = .ok term) :
    Derives 3 (name ++ ('(' :: inner ++ [')'])) term := by
  obtain ⟨before, middle, hbefore, hmiddle, hname⟩ := Text.exists_eq_trim name
  rw [readGroup] at hread
  split at hread
  · cases hread
  · obtain ⟨-, -, hgroup⟩ := bind_eq_ok_iff.mp hread
    split at hgroup
    · next hnil =>
      rw [List.isEmpty_iff] at hnil
      rw [hnil, List.append_nil] at hname
      split at hgroup
      · next single hsplit =>
        have hsingle : single = inner := by
          have hjoin := joinWith_splitTop ',' inner
          rwa [hsplit] at hjoin
        rw [hsingle] at hgroup
        refine .group ?_ (h _ _ hgroup)
        rw [hname]
        exact Text.isBlankText_append.mpr ⟨hbefore, hmiddle⟩
      · cases hgroup
    · obtain ⟨id, hid, hgroup⟩ := bind_eq_ok_iff.mp hgroup
      obtain ⟨terms, hterms, rfl⟩ := map_eq_ok_iff.mp hgroup
      obtain ⟨hvalidId, rfl⟩ := readId_eq_ok_iff.mp hid
      have hderive : List.Forall₂ (Derives 0) (splitTop ',' inner) terms := by
        refine (mapM_eq_ok_iff.mp hterms).imp fun part term hpart => ?_
        rw [substituteAlias_none] at hpart
        exact derives_trim.mp (h _ _ hpart)
      have hwhole := Derives.tree hbefore hvalidId hmiddle (splitTop_ne_nil _ _) hderive
      rwa [joinWith_splitTop, ← hname] at hwhole

/-- If what is read in parentheses derives, then so does what is read of atoms. -/
theorem Admits.readAtom (h : Admits 0 nested) : Admits 3 (readAtom .none nested) := by
  intro text term hread
  rw [← derives_trim]
  rw [Term.readAtom] at hread
  split at hread
  · cases hread
  · split at hread
    · split at hread
      · cases hread
      · obtain ⟨id, hid, rfl⟩ := map_eq_ok_iff.mp hread
        obtain ⟨hvalid, rfl⟩ := readId_eq_ok_iff.mp hid
        exact .leaf hvalid
    · split at hread
      · next inner hclose =>
        rw [eq_of_closeGroup hclose]
        exact derives_of_readGroup h hread
      · cases hread

end Atoms

/-- **What is read derives**, whatever the number of levels. -/
theorem admits_readNested (levels : Nat) : Admits 0 (readNested .none levels) := by
  induction levels with
  | zero => exact nofun
  | succ levels ih =>
    have hatom : Admits (Operator.filter.level + 1) _ := ih.readAtom
    have hfilter : Admits (Operator.attach.level + 1) _ := hatom.readOperands
    have hattach : Admits (Operator.merge.level + 1) _ := hfilter.readOperands
    exact hattach.readOperands

/-! ## Both -/

/-- **The grammar.**  A text in which no name is spread is read as a term if and only if it derives
from the grammar, and then it has one derivation only. -/
theorem parse_eq_ok_iff_derives (text : String) (h : ¬ ['.', '('] <:+: text.toList) :
    (∀ term, parse text = .ok term ↔ Derives 0 text.toList term) ∧
      ∀ first second : Derivation, first.IsValid → second.IsValid → first.text = text.toList →
        second.text = text.toList → first = second := by
  refine ⟨fun term => ?_, fun first second hfirst hsecond htext hother =>
    hfirst.eq_of_text_eq hsecond (htext.trans hother.symm)⟩
  rw [parse, parseWith, distribute_of_not_infix h]
  constructor
  · intro hread
    split at hread
    · cases hread
    · exact admits_readNested _ _ _ hread
  · intro hderives
    have hbalance : unbalancedAt? 0 0 text.toList = none := by
      obtain ⟨derivation, hvalid, -, htext, -⟩ := hderives
      rw [unbalancedAt?_eq_none_iff, ← htext]
      exact hvalid.text_isBalanced
    rw [hbalance]
    exact reads_readNested _ _ _ hderives (Nat.le_add_right _ _)

/-- White space stands wherever the grammar has it; a group ends where its atom does. -/
theorem parse_eq_ok_iff_derives_blanks :
    let text := " a | b ( c , (d : e) )"
    let wrong := "b (c) d"
    ¬ ['.', '('] <:+: text.toList ∧ ¬ ['.', '('] <:+: wrong.toList ∧
      Derives 0 text.toList
        (.merge [.leaf "a", .tree "b" [.leaf "c", .filter [.leaf "d", .leaf "e"]]]) ∧
      (∀ first second : Derivation, first.IsValid → second.IsValid → first.text = text.toList →
        second.text = text.toList → first = second) ∧
      ∀ term, ¬ Derives 0 wrong.toList term := by
  intro text wrong
  have htext : ¬ ['.', '('] <:+: text.toList := by decide
  have hwrong : ¬ ['.', '('] <:+: wrong.toList := by decide
  obtain ⟨hderives, hunique⟩ := parse_eq_ok_iff_derives text htext
  refine ⟨htext, hwrong, (hderives _).mp (by cbv), hunique, fun term hderived => ?_⟩
  have hread := ((parse_eq_ok_iff_derives wrong hwrong).1 term).mpr hderived
  have hfail : parse wrong = .error (.malformed wrong) := by cbv
  rw [hfail] at hread
  cases hread

end QueryTerms.Term
