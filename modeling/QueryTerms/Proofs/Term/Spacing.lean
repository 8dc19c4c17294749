import QueryTerms.Proofs.Term.Reading

/-!
# White space beside signs

Operators, commas and parentheses are *signs*; what stands between two of them is a *word*.  This
file is about two texts that have the same signs and the same words, but for white space around the
words (`IsRespaced`), in four groups.

**Signs and words.**  Every text is a word, or a word, a sign and a text: `induction_on_signs`.

**Children with children.**  `childHeads` lists what a text names in front of a parenthesis as a
child of a tree, with the one thing that aliases make of white space: whether some stands between
the name and the parenthesis.

**Side by side.**  `Aligned` goes through two texts with the same signs, word by word, and knows of
each word whether a child begins with it and whether a parenthesis follows it.

**Cutting.**  Texts that are aligned are cut at the same signs into parts that are aligned
(`Aligned.splitTop`), and their groups close at the same places (`Aligned.exists_group`).
-/

namespace QueryTerms.Term

/-! ## Signs and words -/

/-- The characters beside which white space is read over. -/
def isSign (c : Char) : Bool :=
  c = '|' || c = '+' || c = ':' || c = ',' || c = '(' || c = ')'

/-- The signs that texts are cut at. -/
structure IsSeparator (sep : Char) : Prop where
  isSign : isSign sep = true
  ne_open : sep ≠ '('
  ne_close : sep ≠ ')'

/-- There is no sign in the text. -/
def IsWord (text : List Char) : Prop := ∀ c ∈ text, isSign c = false

/-- The texts between the signs. -/
def words (text : List Char) : List (List Char) := text.splitOnP isSign

def signs (text : List Char) : List Char := text.filter isSign

/-- The texts differ in nothing but the white space beside signs and at the ends. -/
def IsRespaced (text other : List Char) : Prop :=
  signs text = signs other ∧ (words text).map Text.trim = (words other).map Text.trim

instance (text other : List Char) : Decidable (IsRespaced text other) :=
  inferInstanceAs (Decidable (_ ∧ _))

lemma isSeparator_comma : IsSeparator ',' := ⟨rfl, by decide, by decide⟩

lemma Operator.isSeparator (op : Operator) : IsSeparator op.sign := by
  cases op <;> exact ⟨rfl, by decide, by decide⟩

lemma isSign_of_isIdChar {c : Char} (h : isIdChar c = true) : isSign c = false := by
  rw [Bool.eq_false_iff]
  intro hsign
  simp only [isSign, Bool.or_eq_true, decide_eq_true_eq] at hsign
  rcases hsign with ((((rfl | rfl) | rfl) | rfl) | rfl) | rfl <;> exact absurd h (by decide)

lemma isBlank_of_isSign {c : Char} (h : isSign c = true) : Text.isBlank c = false := by
  simp only [isSign, Bool.or_eq_true, decide_eq_true_eq] at h
  rcases h with ((((rfl | rfl) | rfl) | rfl) | rfl) | rfl <;> decide

namespace IsWord

lemma of_forall_isIdChar {text : List Char} (h : ∀ c ∈ text, isIdChar c = true) : IsWord text :=
  fun c hc => isSign_of_isIdChar (h c hc)

lemma of_isBlankText {text : List Char} (h : Text.isBlankText text = true) : IsWord text := by
  intro c hc
  rw [Bool.eq_false_iff]
  intro hsign
  have hblank := Text.isBlank_of_mem h hc
  rw [isBlank_of_isSign hsign] at hblank
  cases hblank

lemma sublist {text part : List Char} (h : IsWord text) (hpart : part.Sublist text) : IsWord part :=
  fun c hc => h c (hpart.mem hc)

lemma append {first second : List Char} (hf : IsWord first) (hs : IsWord second) :
    IsWord (first ++ second) := by
  intro c hc
  exact (List.mem_append.mp hc).elim (hf c) (hs c)

lemma ne_sign {word : List Char} (h : IsWord word) {sign : Char} (hsign : isSign sign = true) :
    ∀ c ∈ word, c ≠ sign := by
  rintro c hc rfl
  rw [h c hc] at hsign
  cases hsign

end IsWord

section Signs

variable {word other rest more : List Char} {sign mark : Char}

lemma words_of_isWord (h : IsWord word) : words word = [word] := List.splitOnP_eq_singleton h

lemma signs_of_isWord (h : IsWord word) : signs word = [] := by
  rw [signs, List.filter_eq_nil_iff]
  exact fun c hc => by rw [h c hc]; decide

lemma words_sign (h : IsWord word) (hsign : isSign sign = true) (rest : List Char) :
    words (word ++ sign :: rest) = word :: words rest := by
  rw [words, List.splitOnP_append_cons _ _ hsign, List.splitOnP_eq_singleton h]
  rfl

lemma signs_sign (h : IsWord word) (hsign : isSign sign = true) (rest : List Char) :
    signs (word ++ sign :: rest) = sign :: signs rest := by
  rw [signs, List.filter_append, List.filter_cons_of_pos hsign, ← signs, signs_of_isWord h]
  rfl

/-- The first sign of a text is where it is. -/
lemma word_sign_inj (h : IsWord word) (hother : IsWord other) (hsign : isSign sign = true)
    (hmark : isSign mark = true) (heq : word ++ sign :: rest = other ++ mark :: more) :
    word = other ∧ sign = mark ∧ rest = more := by
  have hwords := congrArg words heq
  rw [words_sign h hsign, words_sign hother hmark] at hwords
  obtain ⟨rfl, -⟩ := List.cons.inj hwords
  obtain ⟨rfl, rfl⟩ := List.cons.inj (List.append_cancel_left heq)
  exact ⟨rfl, rfl, rfl⟩

lemma not_isWord_sign (hsign : isSign sign = true) : ¬ IsWord (word ++ sign :: rest) := by
  intro h
  have hmem : sign ∈ word ++ sign :: rest := List.mem_append_right word List.mem_cons_self
  exact h.ne_sign hsign sign hmem rfl

lemma isWord_or_exists_sign (text : List Char) :
    IsWord text ∨ ∃ word sign rest, IsWord word ∧ isSign sign = true ∧
      text = word ++ sign :: rest := by
  induction text with
  | nil => exact .inl nofun
  | cons c cs ih =>
    by_cases hc : isSign c = true
    · exact .inr ⟨[], c, cs, nofun, hc, rfl⟩
    have hc : IsWord [c] := by
      intro d hd
      rwa [List.mem_singleton.mp hd, ← Bool.not_eq_true]
    obtain h | ⟨word, sign, rest, h, hsign, rfl⟩ := ih
    · exact .inl (hc.append h)
    · exact .inr ⟨c :: word, sign, rest, hc.append h, hsign, rfl⟩

end Signs

/-- Every text is a word, or a word, a sign and a text. -/
@[elab_as_elim]
theorem induction_on_signs {P : List Char → Prop} (text : List Char)
    (word : ∀ word, IsWord word → P word)
    (sign : ∀ word sign rest, IsWord word → isSign sign = true → P rest →
      P (word ++ sign :: rest)) : P text := by
  induction hlength : text.length using Nat.strong_induction_on generalizing text with
  | _ length ih =>
    obtain h | ⟨first, c, rest, h, hc, rfl⟩ := isWord_or_exists_sign text
    · exact word text h
    · refine sign first c rest h hc (ih rest.length ?_ rest rfl)
      rw [← hlength, List.length_append, List.length_cons]
      omega

/-! ## Children with children -/

/-- A name in front of a parenthesis, where a child of a tree begins. -/
structure ChildHead where
  name : List Char
  /-- White space stands between the name and the parenthesis. -/
  isSpaced : Bool
deriving DecidableEq

/-- Whether white space stands at the end of a text. -/
def endsBlank (text : List Char) : Bool := text.getLast?.any Text.isBlank

/-- Whether a child of a tree begins behind a word and the sign after it. -/
def beginsChild (word : List Char) (sign : Char) : Bool :=
  sign = ',' || (sign = '(' && !Text.isBlankText word)

/-- What a word and the sign after it are the head of, where `child` says that a child begins with
the word. -/
def headAt (child : Bool) (word : List Char) (sign : Char) : List ChildHead :=
  if child && sign = '(' && !Text.isBlankText word then [⟨Text.trim word, endsBlank word⟩] else []

/-- The heads among words with signs between them. -/
def headsAmong (child : Bool) : List (List Char) → List Char → List ChildHead
  | word :: words, sign :: signs =>
    headAt child word sign ++ headsAmong (beginsChild word sign) words signs
  | _, _ => []

/-- The heads in a text, which is itself a child or not. -/
def headsFrom (child : Bool) (text : List Char) : List ChildHead :=
  headsAmong child (words text) (signs text)

/-- The children with children of their own in a text, from left to right. -/
def childHeads (text : List Char) : List ChildHead := headsFrom false text

section Heads

variable {child : Bool} {word rest : List Char} {sign : Char}

lemma headsFrom_of_isWord (h : IsWord word) : headsFrom child word = [] := by
  rw [headsFrom, words_of_isWord h, signs_of_isWord h]
  rfl

lemma headsFrom_sign (h : IsWord word) (hsign : isSign sign = true) :
    headsFrom child (word ++ sign :: rest) =
      headAt child word sign ++ headsFrom (beginsChild word sign) rest := by
  rw [headsFrom, words_sign h hsign, signs_sign h hsign, headsAmong]
  rfl

lemma headAt_of_not (h : ¬ (child = true ∧ sign = '(' ∧ Text.isBlankText word = false)) :
    headAt child word sign = [] := by
  rw [headAt, if_neg]
  simpa using h

lemma headAt_false (word : List Char) (sign : Char) : headAt false word sign = [] :=
  headAt_of_not fun hhead => nomatch hhead.1

lemma headAt_of_ne_open (h : sign ≠ '(') : headAt child word sign = [] :=
  headAt_of_not fun hhead => h hhead.2.1

lemma headAt_of_name (h : Text.isBlankText word = false) :
    headAt true word '(' = [⟨Text.trim word, endsBlank word⟩] := by
  simp [headAt, h]

lemma beginsChild_open (word : List Char) :
    beginsChild word '(' = !Text.isBlankText word := by
  simp [beginsChild]

lemma beginsChild_of_ne_open (h : sign ≠ '(') : beginsChild word sign = decide (sign = ',') := by
  simp [beginsChild, h]

/-- A sign other than an opening parenthesis takes a text apart. -/
lemma headsFrom_append {front : List Char} (hsign : isSign sign = true) (ho : sign ≠ '(') :
    headsFrom child (front ++ sign :: rest) =
      headsFrom child front ++ headsFrom (sign = ',') rest := by
  induction front using induction_on_signs generalizing child with
  | word word h =>
    rw [headsFrom_sign h hsign, headAt_of_ne_open ho, beginsChild_of_ne_open ho,
      headsFrom_of_isWord h]
  | sign word first back h hfirst ih =>
    rw [List.append_assoc, List.cons_append, headsFrom_sign h hfirst, headsFrom_sign h hfirst, ih,
      List.append_assoc]

/-- White space at the ends of a text has no heads. -/
lemma headsFrom_trimEnd (text : List Char) :
    headsFrom child (Text.trimEnd text) = headsFrom child text := by
  induction text using induction_on_signs generalizing child with
  | word word h =>
    rw [headsFrom_of_isWord h, headsFrom_of_isWord (h.sublist (Text.trimEnd_sublist word))]
  | sign word sign rest h hsign ih =>
    rw [Text.trimEnd_append_cons (isBlank_of_isSign hsign), headsFrom_sign h hsign,
      headsFrom_sign h hsign, ih]

/-- The heads in a group are those in its parentheses, and the name of the group may be one. -/
lemma headsFrom_group {name inner after : List Char} (hname : IsWord name)
    (hafter : Text.isBlankText after = true) :
    headsFrom child (name ++ '(' :: (inner ++ ')' :: after)) =
      headAt child name '(' ++ headsFrom (!Text.isBlankText name) inner := by
  rw [headsFrom_sign hname rfl, beginsChild_open, headsFrom_append rfl (by decide),
    headsFrom_of_isWord (.of_isBlankText hafter), List.append_nil]

/-- Cutting keeps the heads, if behind the separator begins what begins with the text. -/
lemma headsFrom_splitTop {sep : Char} (hsep : IsSeparator sep) (hchild : child = decide (sep = ','))
    (text : List Char) : headsFrom child text = (splitTop sep text).flatMap (headsFrom child) := by
  have hjoin : ∀ parts : List (List Char), parts ≠ [] →
      headsFrom child (joinWith sep parts) = parts.flatMap (headsFrom child) := by
    intro parts hne
    induction parts with
    | nil => exact absurd rfl hne
    | cons first rest ih =>
      cases rest with
      | nil => rw [joinWith, List.flatMap_singleton]
      | cons second others =>
        rw [joinWith_cons_cons, headsFrom_append hsep.isSign hsep.ne_open, ← hchild,
          ih (List.cons_ne_nil _ _), ← List.flatMap_cons]
  nth_rewrite 1 [← joinWith_splitTop sep text]
  exact hjoin _ (splitTop_ne_nil sep text)

end Heads

/-! ## Side by side -/

/-- What two words have in common, where a child of a tree begins with them or not, and where an
opening parenthesis stands behind them or not. -/
abbrev WordRelation := (child opens : Bool) → List Char → List Char → Prop

/-- The texts have the same signs, and the words between them are related. -/
inductive Aligned (R : WordRelation) : Bool → List Char → List Char → Prop where
  | word {child : Bool} {word other : List Char} (hword : IsWord word) (hother : IsWord other)
      (h : R child false word other) : Aligned R child word other
  | sign {child : Bool} {word other rest more : List Char} {sign : Char} (hword : IsWord word)
      (hother : IsWord other) (hsign : isSign sign = true) (h : R child (sign = '(') word other)
      (hrest : Aligned R (beginsChild word sign) rest more) :
      Aligned R child (word ++ sign :: rest) (other ++ sign :: more)

/-- The words are the same but for white space around them. -/
def SameTrimmed : WordRelation := fun _ _ word other => Text.trim word = Text.trim other

/-- The words are the same but for white space around them, and between a name that counts and its
parenthesis there is white space in both or in none. -/
def SameSpaced (counts : List Char → Prop) : WordRelation := fun child opens word other =>
  Text.trim word = Text.trim other ∧
    (child = true → opens = true → Text.isBlankText word = false → counts (Text.trim word) →
      endsBlank word = endsBlank other)

namespace Aligned

variable {R : WordRelation} {child : Bool} {text other word rest : List Char} {sign : Char}

lemma refl (hR : ∀ child opens word, R child opens word word) (child : Bool) (text : List Char) :
    Aligned R child text text := by
  induction text using induction_on_signs generalizing child with
  | word word h => exact .word h h (hR _ _ _)
  | sign word sign rest h hsign ih => exact .sign h h hsign (hR _ _ _) (ih _)

/-- A word stands beside a word. -/
lemma of_isWord (h : Aligned R child word other) (hword : IsWord word) :
    IsWord other ∧ R child false word other := by
  cases h with
  | word _ hother h => exact ⟨hother, h⟩
  | sign _ _ hsign => exact absurd hword (not_isWord_sign hsign)

/-- A word with a sign after it stands beside another one with the same sign after it. -/
lemma exists_of_sign (h : Aligned R child (word ++ sign :: rest) other) (hword : IsWord word)
    (hsign : isSign sign = true) :
    ∃ word' rest', other = word' ++ sign :: rest' ∧ IsWord word' ∧ R child (sign = '(') word word' ∧
      Aligned R (beginsChild word sign) rest rest' := by
  generalize htext : word ++ sign :: rest = text at h
  cases h with
  | word htextWord =>
    subst htext
    exact absurd htextWord (not_isWord_sign hsign)
  | sign hfirst hother hmark h hrest =>
    obtain ⟨rfl, rfl, rfl⟩ := word_sign_inj hword hfirst hsign hmark htext
    exact ⟨_, _, rfl, hother, h, hrest⟩

/-- Any other sign stands beside the same sign as well. -/
lemma exists_of_append {front back : List Char} (h : Aligned R child (front ++ sign :: back) other)
    (hsign : isSign sign = true) (ho : sign ≠ '(') :
    ∃ front' back', other = front' ++ sign :: back' ∧ Aligned R child front front' ∧
      Aligned R (sign = ',') back back' := by
  induction front using induction_on_signs generalizing child other with
  | word word hword =>
    obtain ⟨word', back', rfl, hword', hR, hback⟩ := h.exists_of_sign hword hsign
    rw [decide_eq_false ho] at hR
    rw [beginsChild_of_ne_open ho] at hback
    exact ⟨word', back', rfl, .word hword hword' hR, hback⟩
  | sign word first rest hword hfirst ih =>
    rw [List.append_assoc, List.cons_append] at h
    obtain ⟨word', rest', rfl, hword', hR, hrest⟩ := h.exists_of_sign hword hfirst
    obtain ⟨front', back', rfl, hfront, hback⟩ := ih hrest
    refine ⟨word' ++ first :: front', back', ?_, .sign hword hword' hfirst hR hfront, hback⟩
    rw [List.append_assoc, List.cons_append]

lemma symm (h : Aligned R child text other)
    (hR : ∀ {child opens word other}, R child opens word other → R child opens other word)
    (hblank : ∀ {child opens word other}, R child opens word other →
      Text.isBlankText word = Text.isBlankText other) : Aligned R child other text := by
  induction h with
  | word hword hother h => exact .word hother hword (hR h)
  | sign hword hother hsign h _ ih =>
    refine .sign hother hword hsign (hR h) ?_
    rw [beginsChild, ← hblank h]
    exact ih

lemma isBlankText_eq (h : Aligned R child text other)
    (hR : ∀ {child opens word other}, R child opens word other →
      Text.isBlankText word = Text.isBlankText other) :
    Text.isBlankText text = Text.isBlankText other := by
  cases h with
  | word _ _ h => exact hR h
  | sign _ _ hsign =>
    have hblank := isBlank_of_isSign hsign
    simp [Text.isBlankText, hblank]

lemma trimEnd (h : Aligned R child text other)
    (hR : ∀ {child word other}, R child false word other →
      R child false (Text.trimEnd word) (Text.trimEnd other)) :
    Aligned R child (Text.trimEnd text) (Text.trimEnd other) := by
  induction h with
  | word hword hother h =>
    exact .word (hword.sublist (Text.trimEnd_sublist _)) (hother.sublist (Text.trimEnd_sublist _))
      (hR h)
  | sign hword hother hsign h _ ih =>
    have hblank := isBlank_of_isSign hsign
    rw [Text.trimEnd_append_cons hblank, Text.trimEnd_append_cons hblank]
    exact .sign hword hother hsign h ih

end Aligned

/-- Texts that differ in white space only stand side by side. -/
lemma IsRespaced.aligned {text other : List Char} (h : IsRespaced text other) (child : Bool) :
    Aligned SameTrimmed child text other := by
  obtain ⟨hsigns, hwords⟩ := h
  induction text using induction_on_signs generalizing child other with
  | word word hword =>
    obtain hother | ⟨other, mark, more, hother, hmark, rfl⟩ := isWord_or_exists_sign other
    · rw [words_of_isWord hword, words_of_isWord hother] at hwords
      exact .word hword hother (List.cons.inj hwords).1
    · rw [signs_of_isWord hword, signs_sign hother hmark] at hsigns
      cases hsigns
  | sign word sign rest hword hsign ih =>
    obtain hother | ⟨other, mark, more, hother, hmark, rfl⟩ := isWord_or_exists_sign other
    · rw [signs_sign hword hsign, signs_of_isWord hother] at hsigns
      cases hsigns
    · rw [signs_sign hword hsign, signs_sign hother hmark] at hsigns
      rw [words_sign hword hsign, words_sign hother hmark] at hwords
      obtain ⟨rfl, hsignsRest⟩ := List.cons.inj hsigns
      obtain ⟨htrim, hwordsRest⟩ := List.cons.inj hwords
      exact .sign hword hother hsign htrim (ih _ hsignsRest hwordsRest)

lemma isBlankText_eq_of_trim_eq {word other : List Char} (h : Text.trim word = Text.trim other) :
    Text.isBlankText word = Text.isBlankText other := by
  rw [Bool.eq_iff_iff, ← Text.trim_eq_nil_iff, ← Text.trim_eq_nil_iff, h]

lemma SameSpaced.symm {counts : List Char → Prop} {child opens : Bool} {word other : List Char}
    (h : SameSpaced counts child opens word other) : SameSpaced counts child opens other word := by
  refine ⟨h.1.symm, fun hchild hopens hname hcounts => ?_⟩
  rw [← h.1] at hcounts
  rw [← isBlankText_eq_of_trim_eq h.1] at hname
  exact (h.2 hchild hopens hname hcounts).symm

/-- What counts of the heads is known of the words. -/
lemma Aligned.of_headsFrom {counts : List Char → Prop} {child : Bool} {text other : List Char}
    (h : Aligned SameTrimmed child text other)
    (hheads : List.Forall₂ (fun head head' => counts head.name → head = head')
      (headsFrom child text) (headsFrom child other)) :
    Aligned (SameSpaced counts) child text other := by
  induction h with
  | word hword hother h => exact .word hword hother ⟨h, fun _ hopens => nomatch hopens⟩
  | @sign child word other rest more sign hword hother hsign h hrest ih =>
    have hblank := isBlankText_eq_of_trim_eq h
    have hbegins : beginsChild other sign = beginsChild word sign := by
      rw [beginsChild, beginsChild, hblank]
    rw [headsFrom_sign hword hsign, headsFrom_sign hother hsign, hbegins] at hheads
    by_cases hhead : child = true ∧ sign = '(' ∧ Text.isBlankText word = false
    · obtain ⟨rfl, rfl, hname⟩ := hhead
      rw [headAt_of_name hname, headAt_of_name (hblank ▸ hname)] at hheads
      obtain ⟨hfirst, hothers⟩ := List.forall₂_cons.mp hheads
      refine .sign hword hother hsign ⟨h, fun _ _ _ hcounts => ?_⟩ (ih hothers)
      exact (ChildHead.mk.inj (hfirst hcounts)).2
    · rw [headAt_of_not hhead, headAt_of_not (hblank ▸ hhead)] at hheads
      refine .sign hword hother hsign ⟨h, fun hchild hopens hname => ?_⟩ (ih hheads)
      exact absurd ⟨hchild, of_decide_eq_true hopens, hname⟩ hhead

/-! ## Cutting -/

section Cutting

variable {R : WordRelation} {child : Bool} {text other word : List Char} {sep : Char}

lemma depthAfter_word (h : IsWord word) (depth : Nat) (rest : List Char) :
    depthAfter depth (word ++ rest) = depthAfter depth rest := by
  rw [depthAfter_append, depthAfter_of_plain fun c hc => ⟨?_, ?_⟩]
  · rfl
  · exact h.ne_sign rfl c hc
  · exact h.ne_sign rfl c hc

lemma splitFrom_word (h : IsWord word) (hsep : IsSeparator sep) (depth : Nat) (rest : List Char) :
    splitFrom sep depth (word ++ rest) =
      (word ++ (splitFrom sep depth rest).1, (splitFrom sep depth rest).2) := by
  induction word with
  | nil => rfl
  | cons c cs ih =>
    have hne : ∀ {sign : Char}, isSign sign = true → c ≠ sign :=
      fun hsign => h.ne_sign hsign c List.mem_cons_self
    rw [List.cons_append, splitFrom_other (hne rfl) (hne rfl) fun hcut => hne hsep.isSign hcut.1,
      ih (h.sublist (List.sublist_cons_self c cs))]
    rfl

/-- The same parentheses are open at the same places. -/
lemma Aligned.depthAfter_eq (h : Aligned R child text other) (depth : Nat) :
    depthAfter depth text = depthAfter depth other := by
  induction h generalizing depth with
  | @word _ word other hword hother =>
    have htext := depthAfter_word hword depth []
    have hbeside := depthAfter_word hother depth []
    rw [List.append_nil] at htext hbeside
    rw [htext, hbeside]
  | @sign _ word other rest more sign hword hother _ _ _ ih =>
    rw [depthAfter_word hword, depthAfter_word hother]
    by_cases ho : sign = '('
    · subst ho
      rw [depthAfter_open, depthAfter_open, ih]
    by_cases hc : sign = ')'
    · subst hc
      cases depth with
      | zero => rw [depthAfter_close_zero, depthAfter_close_zero]
      | succ outer => rw [depthAfter_close, depthAfter_close, ih]
    · rw [depthAfter_other ho hc, depthAfter_other ho hc, ih]

lemma Aligned.isBalanced (h : Aligned R child text other) (htext : IsBalanced text) :
    IsBalanced other :=
  (h.depthAfter_eq 0).symm.trans htext

/-- **Cutting goes side by side.**  Behind a separator begins a child if the separator is a
comma. -/
lemma Aligned.splitFrom (h : Aligned R child text other) (hsep : IsSeparator sep) (depth : Nat) :
    Aligned R child (splitFrom sep depth text).1 (splitFrom sep depth other).1 ∧
      List.Forall₂ (Aligned R (sep = ',')) (splitFrom sep depth text).2
        (splitFrom sep depth other).2 := by
  induction h generalizing depth with
  | @word child word other hword hother h =>
    have htext := splitFrom_word hword hsep depth []
    have hbeside := splitFrom_word hother hsep depth []
    rw [List.append_nil] at htext hbeside
    rw [htext, hbeside]
    refine ⟨?_, .nil⟩
    simpa [Term.splitFrom] using Aligned.word hword hother h
  | @sign child word other rest more sign hword hother hsign h _ ih =>
    rw [splitFrom_word hword hsep, splitFrom_word hother hsep]
    -- only at depth zero does the separator cut; the depth changes with parentheses alone
    by_cases hopen : sign = '('
    · subst hopen
      rw [splitFrom_open, splitFrom_open]
      exact ⟨.sign hword hother hsign h (ih (depth + 1)).1, (ih (depth + 1)).2⟩
    by_cases hclose : sign = ')'
    · subst hclose
      rw [splitFrom_close, splitFrom_close]
      exact ⟨.sign hword hother hsign h (ih (depth - 1)).1, (ih (depth - 1)).2⟩
    by_cases hcut : sign = sep ∧ depth = 0
    · obtain ⟨rfl, rfl⟩ := hcut
      have hrest := ih 0
      rw [beginsChild_of_ne_open hopen] at hrest
      rw [decide_eq_false hopen] at h
      rw [splitFrom_sep hopen hclose, splitFrom_sep hopen hclose, List.append_nil, List.append_nil]
      exact ⟨.word hword hother h, .cons hrest.1 hrest.2⟩
    · rw [splitFrom_other hopen hclose hcut, splitFrom_other hopen hclose hcut]
      exact ⟨.sign hword hother hsign h (ih depth).1, (ih depth).2⟩

/-- Related texts are cut into related parts. -/
theorem Aligned.splitTop (h : Aligned R child text other) (hsep : IsSeparator sep)
    (hchild : child = decide (sep = ',')) :
    List.Forall₂ (Aligned R child) (splitTop sep text) (splitTop sep other) := by
  obtain ⟨hfirst, hrest⟩ := h.splitFrom hsep 0
  rw [← hchild] at hrest
  exact .cons hfirst hrest

/-- If there is no cut in the one text, there is none in the other. -/
lemma Aligned.splitTop_eq_singleton (h : Aligned R child text other) (hsep : IsSeparator sep)
    (htext : Term.splitTop sep text = [text]) : Term.splitTop sep other = [other] := by
  have hrest := (h.splitFrom hsep 0).2
  rw [(List.cons.inj htext).2, List.forall₂_nil_left_iff] at hrest
  have hother : Term.splitTop sep other = [(Term.splitFrom sep 0 other).1] := by
    rw [splitTop_eq, hrest]
  have hjoin := joinWith_splitTop sep other
  rw [hother] at hjoin
  rw [hother, show (Term.splitFrom sep 0 other).1 = other from hjoin]

/-- **Groups close side by side.** -/
lemma Aligned.exists_group {name inner after : List Char}
    (h : Aligned R child (name ++ '(' :: (inner ++ ')' :: after)) other) (hname : IsWord name) :
    ∃ name' inner' after', other = name' ++ '(' :: (inner' ++ ')' :: after') ∧ IsWord name' ∧
      R child true name name' ∧ Aligned R (!Text.isBlankText name) inner inner' ∧
      Aligned R false after after' := by
  obtain ⟨name', rest, rfl, hname', hR, hrest⟩ := h.exists_of_sign hname rfl
  rw [beginsChild_open] at hrest
  obtain ⟨inner', after', rfl, hinner, hafter⟩ := hrest.exists_of_append rfl (by decide)
  exact ⟨name', inner', after', rfl, hname', hR, hinner, hafter⟩

end Cutting

end QueryTerms.Term
