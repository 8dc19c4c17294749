import QueryTerms.Proofs.Term.Renaming
import QueryTerms.Proofs.Term.Substitution

/-!
# White space around names and aliases

White space beside signs is read over, with one exception: between the name of a child and its own
children it keeps the alias of the name away.

**Side by side.**  Two readers that succeed on texts side by side make two readers that do, one
level up (`Carries.readAtom`, `Carries.readOperands`), if the words of the texts are related in a
way that aliases keep (`Follows`).

**Equal readings.**  Words with the same white space behind the names that have aliases are related
in such a way, so that they are read alike: `parseWith_of_aligned`.

**Telling apart.**  A lookup that has another id for every id (`renamesAll`) shows in the term of a
text where white space stands behind a name (`Tells`), and reads whatever any lookup reads.

**The exception.**  Hence white space is read over for all lookups if and only if the texts agree
where a child has children: `readAlike_respaced`.
-/

namespace QueryTerms

/-- The name has a target under some parent. -/
def Aliases.Knows (aliases : Aliases) (name : List Char) : Prop :=
  ∃ parent target, aliases.target? parent (String.ofList name) = some target

namespace Term

/-! ## Side by side -/

/-- What aliases keep of a relation of words; where `same` holds, they keep them the same. -/
structure Follows (aliases other : Aliases) (same : Prop) (R : WordRelation) : Prop where
  isBlankText_eq : ∀ {child opens word word'}, R child opens word word' →
    Text.isBlankText word = Text.isBlankText word'
  trimEnd : ∀ {child word word'}, R child false word word' →
    R child false (Text.trimEnd word) (Text.trimEnd word')
  isValidId : ∀ {opens word word'}, R false opens word word' →
    isValidId (Text.trim word) = true → isValidId (Text.trim word') = true
  trim_eq : same → ∀ {opens word word'}, R false opens word word' → Text.trim word = Text.trim word'
  /-- The word is the whole child. -/
  whole : ∀ {parent parent' word word'}, (same → parent = parent') → R true false word word' →
    R false false (aliasWord aliases parent (Text.trim word))
      (aliasWord other parent' (Text.trim word'))
  /-- A sign stands behind the word. -/
  front : ∀ {parent parent' word word' sign}, (same → parent = parent') →
    R true (sign = '(') word word' → R false (sign = '(') (childFront aliases parent word sign)
      (childFront other parent' word' sign)

/-- If the one reader reads a text, the other one reads the text beside it. -/
def Carries (R : WordRelation) (same : Prop) (next other : Reader) : Prop :=
  ∀ text text' term, Aligned R false text text' → next text = .ok term →
    ∃ term', other text' = .ok term' ∧ (same → term = term')

lemma carries_forall₂ {A : List Char → List Char → Prop} {same : Prop} {next other : Reader}
    {parts parts' : List (List Char)} {terms : List Term}
    (hparts : List.Forall₂ A parts parts')
    (hread : List.Forall₂ (fun part term => next part = .ok term) parts terms)
    (hstep : ∀ {part part' term}, A part part' → next part = .ok term →
      ∃ term', other part' = .ok term' ∧ (same → term = term')) :
    ∃ terms', List.Forall₂ (fun part term => other part = .ok term) parts' terms' ∧
      (same → terms = terms') := by
  induction hparts generalizing terms with
  | nil =>
    cases hread
    exact ⟨[], .nil, fun _ => rfl⟩
  | cons hpart _ ih =>
    obtain _ | ⟨hfirst, hrest⟩ := hread
    obtain ⟨term', hterm', hsame⟩ := hstep hpart hfirst
    obtain ⟨terms', hterms', hsames⟩ := ih hrest
    refine ⟨term' :: terms', .cons hterm' hterms', fun h => ?_⟩
    rw [hsame h, hsames h]

section Side

variable {aliases other : Aliases} {same : Prop} {R : WordRelation} {child : Bool}
  {parts parts' : List (List Char)} {text text' word parent parent' : List Char}

lemma Follows.isBlankText_parts (h : Follows aliases other same R)
    (hparts : List.Forall₂ (Aligned R child) parts parts')
    (hblank : ∀ part ∈ parts, Text.isBlankText part = false) :
    ∀ part ∈ parts', Text.isBlankText part = false := by
  intro part' hpart'
  obtain ⟨part, hpart, haligned⟩ := exists_of_forall₂_right hparts hpart'
  rw [← haligned.isBlankText_eq h.isBlankText_eq]
  exact hblank part hpart

/-- Operands are read side by side. -/
theorem Carries.readOperands {next next' : Reader} (hnext : Carries R same next next')
    (h : Follows aliases other same R) (op : Operator) :
    Carries R same (readOperands op.sign op.compose next)
      (readOperands op.sign op.compose next') := by
  intro text text' term haligned hread
  have hflag : false = decide (op.sign = ',') := by cases op <;> rfl
  obtain ⟨hsingle, hread⟩ | ⟨hlength, hblank, terms, hterms, rfl⟩ := readOperands_eq_ok_iff.mp hread
  · obtain ⟨term', hterm', hsame⟩ := hnext _ _ _ haligned hread
    have hsingle' := haligned.splitTop_eq_singleton op.isSeparator hsingle
    exact ⟨term', readOperands_eq_ok_iff.mpr (.inl ⟨hsingle', hterm'⟩), hsame⟩
  · have hparts := haligned.splitTop op.isSeparator hflag
    obtain ⟨terms', hterms', hsame⟩ := carries_forall₂ hparts hterms (hnext _ _ _)
    refine ⟨op.compose terms', readOperands_eq_ok_iff.mpr (.inr ⟨?_, ?_, terms', hterms', rfl⟩), ?_⟩
    · rwa [← hparts.length_eq]
    · exact h.isBlankText_parts hparts hblank
    · exact fun hterm => congrArg op.compose (hsame hterm)

/-- What is read for children side by side stands side by side. -/
lemma Aligned.substituteAlias (h : Follows aliases other same R) (hids : aliases.IsRenaming)
    (hids' : other.IsRenaming) (hparent : same → parent = parent')
    (haligned : Aligned R true text text') :
    Aligned R false (substituteAlias aliases parent text)
      (substituteAlias other parent' text') := by
  cases haligned with
  | word hword hword' hR =>
    rw [substituteAlias_of_isWord hword, substituteAlias_of_isWord hword']
    exact .word (isWord_aliasWord hids hword.trim) (isWord_aliasWord hids' hword'.trim)
      (h.whole hparent hR)
  | @sign _ word word' rest rest' sign hword hword' hsign hR hrest =>
    rw [substituteAlias_sign hword hsign, substituteAlias_sign hword' hsign]
    refine .sign (isWord_childFront hids _ _ hword) (isWord_childFront hids' _ _ hword') hsign
      (h.front hparent hR) ?_
    rw [beginsChild_childFront hids]
    exact hrest.trimEnd h.trimEnd

/-- Atoms are read side by side, if what stands in their parentheses is. -/
theorem Carries.readAtom {nested nested' : Reader} (hnested : Carries R same nested nested')
    (h : Follows aliases other same R) (hids : aliases.IsRenaming) (hids' : other.IsRenaming) :
    Carries R same (readAtom aliases nested) (readAtom other nested') := by
  intro text text' term haligned hread
  simp only [readAtom_eq_ok_iff] at hread ⊢
  cases hread with
  | leaf hid =>
    obtain ⟨-, hR⟩ := haligned.of_isWord (isWord_of_isValidId_trim hid)
    refine ⟨_, .leaf (h.isValidId hR hid), fun hsame => ?_⟩
    rw [h.trim_eq hsame hR]
  | group hbefore hinner hafter hsingle hblank hread =>
    obtain ⟨before', inner', after', rfl, -, hR, hinner', hafter'⟩ :=
      haligned.exists_group (.of_isBlankText hbefore)
    rw [hbefore, Bool.not_true] at hinner'
    obtain ⟨term', hterm', hsame⟩ := hnested _ _ _ hinner' hread
    refine ⟨term', .group ?_ (hinner'.isBalanced hinner) ?_ ?_ ?_ hterm', hsame⟩
    · rw [← h.isBlankText_eq hR, hbefore]
    · rw [← hafter'.isBlankText_eq h.isBlankText_eq, hafter]
    · exact hinner'.splitTop_eq_singleton isSeparator_comma hsingle
    · rw [← hinner'.isBlankText_eq h.isBlankText_eq, hblank]
  | @tree name inner after terms hname hinner hafter hblank hread =>
    obtain ⟨name', inner', after', rfl, -, hR, hinner', hafter'⟩ :=
      haligned.exists_group (isWord_of_isValidId_trim hname)
    rw [isBlankText_of_isValidId_trim hname, Bool.not_false] at hinner'
    have hparent : same → Text.trim name = Text.trim name' := fun hsame => h.trim_eq hsame hR
    have hparts := hinner'.splitTop isSeparator_comma rfl
    obtain ⟨terms', hterms', hsame⟩ := carries_forall₂ hparts hread
      fun hpart => hnested _ _ _ (hpart.substituteAlias h hids hids' hparent)
    refine ⟨_, .tree (h.isValidId hR hname) (hinner'.isBalanced hinner) ?_ ?_ hterms', ?_⟩
    · rw [← hafter'.isBlankText_eq h.isBlankText_eq, hafter]
    · exact h.isBlankText_parts hparts hblank
    · intro hterm
      rw [hparent hterm, hsame hterm]

/-- With any number of levels, texts are read side by side. -/
theorem carries_readNested (h : Follows aliases other same R) (hids : aliases.IsRenaming)
    (hids' : other.IsRenaming) (levels : Nat) :
    Carries R same (readNested aliases levels) (readNested other levels) := by
  induction levels with
  | zero => exact fun _ _ _ _ hread => nomatch hread
  | succ levels ih =>
    have hatom := ih.readAtom h hids hids'
    have hfilter := hatom.readOperands h .filter
    have hattach := hfilter.readOperands h .attach
    exact hattach.readOperands h .merge

end Side

/-! ## Equal readings -/

section Equal

variable {aliases : Aliases} {parent word : List Char}

/-- A name without an alias stays, with white space behind it or not. -/
lemma trim_aliasWord_of_eq (h : aliasWord aliases parent (Text.trim word) = Text.trim word) :
    Text.trim (aliasWord aliases parent (Text.trimStart word)) = Text.trim word := by
  rw [aliasWord_trimStart, h]
  split
  · rw [Text.trim_trimStart]
  · rw [Text.trim_trim]

lemma aliasWord_of_not_knows (h : ¬ aliases.Knows word) : aliasWord aliases parent word = word := by
  obtain heq | ⟨target, htarget, -, -⟩ := aliasWord_cases aliases parent word
  · exact heq
  · exact absurd ⟨_, target, htarget⟩ h

lemma trim_aliasWord_of_sameSpaced {word' : List Char}
    (h : SameSpaced aliases.Knows true true word word') :
    Text.trim (aliasWord aliases parent (Text.trimStart word)) =
      Text.trim (aliasWord aliases parent (Text.trimStart word')) := by
  by_cases hstays : aliasWord aliases parent (Text.trim word) = Text.trim word
  · rw [trim_aliasWord_of_eq hstays, trim_aliasWord_of_eq (h.1 ▸ hstays), h.1]
  · have hknows : aliases.Knows (Text.trim word) :=
      by_contra fun hknows => hstays (aliasWord_of_not_knows hknows)
    have hname : Text.isBlankText word = false := by
      rw [Bool.eq_false_iff, ne_eq, ← Text.trim_eq_nil_iff]
      exact fun hnil => hstays (hnil ▸ aliasWord_nil)
    rw [aliasWord_trimStart, aliasWord_trimStart, h.2 rfl rfl hname hknows, h.1]
    split
    · rw [Text.trim_trimStart, Text.trim_trimStart, h.1]
    · rfl

/-- Aliases keep words with the same white space behind all names that they are declared for. -/
lemma follows_sameSpaced (aliases : Aliases) :
    Follows aliases aliases True (SameSpaced aliases.Knows) where
  isBlankText_eq h := isBlankText_eq_of_trim_eq h.1
  trimEnd h := ⟨by rw [Text.trim_trimEnd, Text.trim_trimEnd, h.1], fun _ hopens => nomatch hopens⟩
  isValidId h hid := h.1 ▸ hid
  trim_eq _ _ _ _ h := h.1
  whole hparent h := ⟨by rw [hparent trivial, h.1], fun hchild => nomatch hchild⟩
  front {parent parent' word word' sign} hparent h := by
    obtain rfl := hparent trivial
    refine ⟨?_, fun hchild => nomatch hchild⟩
    rw [childFront, childFront]
    by_cases ho : sign = '('
    · rw [if_pos ho, if_pos ho]
      rw [decide_eq_true ho] at h
      exact trim_aliasWord_of_sameSpaced h
    · rw [if_neg ho, if_neg ho, Text.trim_trimStart, Text.trim_trimStart, h.1]

/-- **White space is read over**, but for what stands behind the names that have aliases. -/
theorem parseWith_of_aligned (h : aliases.IsRenaming) {text other : String}
    (htext : ¬ ['.', '('] <:+: text.toList) (hother : ¬ ['.', '('] <:+: other.toList)
    (haligned : Aligned (SameSpaced aliases.Knows) false text.toList other.toList) {term : Term}
    (hread : parseWith aliases text = .ok term) : parseWith aliases other = .ok term := by
  obtain ⟨hbalanced, levels, hread⟩ := (parseWith_eq_ok_iff h htext).mp hread
  obtain ⟨_, hread', hsame⟩ :=
    carries_readNested (follows_sameSpaced aliases) h h levels _ _ _ haligned hread
  rw [← hsame trivial] at hread'
  exact (parseWith_eq_ok_iff h hother).mpr ⟨haligned.isBalanced hbalanced, levels, hread'⟩

end Equal

/-! ## Telling apart -/

/-- Every id has another one for an alias, under every parent. -/
def renamesAll : Aliases where
  target? _ child := some (if child = "x" then "y" else "x")
  extent := 2

lemma renamesAll_isRenaming : renamesAll.IsRenaming := by
  intro parent child target h
  cases h
  split <;> decide

section Renames

variable {aliases : Aliases} {parent word : List Char}

lemma aliasWord_renamesAll (parent : List Char) (hne : word ≠ [])
    (hid : ∀ c ∈ word, isIdChar c = true) :
    isValidId (aliasWord renamesAll parent word) = true ∧
      aliasWord renamesAll parent word ≠ word := by
  have hcond : ¬ (word.isEmpty || !word.all isIdChar) = true := by
    simpa [hne] using hid
  rw [aliasWord, if_neg hcond]
  by_cases hx : String.ofList word = "x"
  · simp only [renamesAll, if_pos hx]
    refine ⟨by decide, fun heq => ?_⟩
    rw [← heq] at hx
    exact absurd hx (by decide)
  · simp only [renamesAll, if_neg hx]
    refine ⟨by decide, fun heq => hx ?_⟩
    rw [← heq]
    rfl

/-- The second word is an id where the first one is; where children begin they are the same. -/
def NoLessValid : WordRelation := fun child _ word other =>
  (child = true → word = other) ∧ Text.isBlankText word = Text.isBlankText other ∧
    (isValidId (Text.trim word) = true → isValidId (Text.trim other) = true)

lemma noLessValid_aliasWord (h : aliases.IsRenaming) (parent parent' word : List Char)
    {opens : Bool} : NoLessValid false opens (aliasWord aliases parent word)
      (aliasWord renamesAll parent' word) := by
  refine ⟨(fun hchild => nomatch hchild), ?_, ?_⟩
  · rw [isBlankText_aliasWord h, isBlankText_aliasWord renamesAll_isRenaming]
  by_cases hid : word ≠ [] ∧ ∀ c ∈ word, isIdChar c = true
  · obtain ⟨hvalid, -⟩ := aliasWord_renamesAll parent' hid.1 hid.2
    rw [trim_id hvalid]
    exact fun _ => hvalid
  · have hstays : ∀ aliases parent, aliasWord aliases parent word = word := by
      intro aliases parent
      by_cases hnil : word = []
      · rw [hnil, aliasWord_nil]
      · exact aliasWord_of_not_isIdChar fun hall => hid ⟨hnil, hall⟩
    rw [hstays, hstays]
    exact id

/-- Renaming everything reads whatever is read under some lookup. -/
lemma follows_renamesAll (h : aliases.IsRenaming) :
    Follows aliases renamesAll False NoLessValid where
  isBlankText_eq hR := hR.2.1
  trimEnd {child word word'} hR := by
    refine ⟨fun hchild => by rw [hR.1 hchild], ?_, ?_⟩
    · rw [Text.isBlankText_trimEnd, Text.isBlankText_trimEnd, hR.2.1]
    · rw [Text.trim_trimEnd, Text.trim_trimEnd]
      exact hR.2.2
  isValidId hR := hR.2.2
  trim_eq hsame := hsame.elim
  whole _ hR := by
    rw [hR.1 rfl]
    exact noLessValid_aliasWord h _ _ _
  front _ hR := by
    rw [hR.1 rfl, childFront, childFront]
    split
    · exact noLessValid_aliasWord h _ _ _
    · exact ⟨fun _ => rfl, rfl, id⟩

lemma exists_parseWith_renamesAll (h : aliases.IsRenaming) {text : String}
    (htext : ¬ ['.', '('] <:+: text.toList) {term : Term}
    (hread : parseWith aliases text = .ok term) :
    ∃ term', parseWith renamesAll text = .ok term' := by
  obtain ⟨hbalanced, levels, hread⟩ := (parseWith_eq_ok_iff h htext).mp hread
  have haligned : Aligned NoLessValid false text.toList text.toList :=
    .refl (fun _ _ _ => ⟨fun _ => rfl, rfl, id⟩) false _
  obtain ⟨term', hread', -⟩ := carries_readNested (follows_renamesAll h) h renamesAll_isRenaming
    levels _ _ _ haligned hread
  exact ⟨term', (parseWith_eq_ok_iff renamesAll_isRenaming htext).mpr ⟨hbalanced, levels, hread'⟩⟩

end Renames

/-- The term of a text with a parenthesis behind its first word is named by the word. -/
def Labels (next : Reader) : Prop :=
  ∀ word rest term, IsWord word → Text.isBlankText word = false →
    next (word ++ '(' :: rest) = .ok term →
    isValidId (Text.trim word) = true ∧ term.label = String.ofList (Text.trim word)

/-- If texts that differ in white space only are read as one term, they have the same heads. -/
def Tells (next : Reader) : Prop :=
  ∀ text text' term, Aligned SameTrimmed false text text' → next text = .ok term →
    next text' = .ok term → headsFrom false text = headsFrom false text'

section Telling

variable {aliases : Aliases} {next nested : Reader}

/-- A term with operators is named like its first operand. -/
theorem Labels.readOperands (h : Labels next) (op : Operator) :
    Labels (readOperands op.sign op.compose next) := by
  intro word rest term hword hblank hread
  obtain ⟨-, hread⟩ | ⟨-, -, terms, hterms, rfl⟩ := readOperands_eq_ok_iff.mp hread
  · exact h word rest term hword hblank hread
  · rw [splitTop_eq, splitFrom_word hword op.isSeparator, splitFrom_open] at hterms
    cases hterms with
    | @cons _ first _ others hfirst =>
      have hlabel : (op.compose (first :: others)).label = first.label := by
        cases op <;> rfl
      rw [hlabel]
      exact h word _ first hword hblank hfirst

lemma labels_readAtom : Labels (readAtom aliases nested) := by
  intro word rest term hword hblank hread
  rw [readAtom_eq_ok_iff] at hread
  generalize htext : word ++ '(' :: rest = text at hread
  cases hread with
  | leaf hid =>
    subst htext
    exact absurd (isWord_of_isValidId_trim hid) (not_isWord_sign rfl)
  | group hbefore =>
    obtain ⟨rfl, -⟩ := word_sign_inj hword (.of_isBlankText hbefore) rfl rfl htext
    rw [hbefore] at hblank
    cases hblank
  | tree hname =>
    obtain ⟨rfl, -⟩ := word_sign_inj hword (isWord_of_isValidId_trim hname) rfl rfl htext
    exact ⟨hname, rfl⟩

/-- The word before a first parenthesis names the term at every level. -/
theorem labels_readNested (aliases : Aliases) (levels : Nat) :
    Labels (readNested aliases levels) := by
  cases levels with
  | zero => exact fun _ _ _ _ _ hread => nomatch hread
  | succ levels =>
    have hatom : Labels (readAtom aliases (readNested aliases levels)) := labels_readAtom
    have hfilter := hatom.readOperands .filter
    have hattach := hfilter.readOperands .attach
    exact hattach.readOperands .merge

/-- Parts that are read as the same terms have the same heads, if each of them has. -/
lemma flatMap_eq_of_forall₂ {A : List Char → List Char → Prop} {next next' : Reader}
    {parts parts' : List (List Char)} {terms : List Term} {heads : List Char → List ChildHead}
    (hparts : List.Forall₂ A parts parts')
    (hread : List.Forall₂ (fun part term => next part = .ok term) parts terms)
    (hread' : List.Forall₂ (fun part term => next' part = .ok term) parts' terms)
    (hstep : ∀ {part part' term}, A part part' → next part = .ok term → next' part' = .ok term →
      heads part = heads part') : parts.flatMap heads = parts'.flatMap heads := by
  induction hparts generalizing terms with
  | nil => rfl
  | cons hpart _ ih =>
    obtain _ | ⟨hfirst, hrest⟩ := hread
    obtain _ | ⟨hfirst', hrest'⟩ := hread'
    rw [List.flatMap_cons, List.flatMap_cons, hstep hpart hfirst hfirst', ih hrest hrest']

/-- Operators split both texts at the same places. -/
theorem Tells.readOperands (h : Tells next) (op : Operator) :
    Tells (readOperands op.sign op.compose next) := by
  intro text text' term haligned hread hread'
  have hflag : false = decide (op.sign = ',') := by cases op <;> rfl
  have hparts := haligned.splitTop op.isSeparator hflag
  have hlength := hparts.length_eq
  obtain ⟨hsingle, hread⟩ | ⟨hseveral, -, terms, hterms, hterm⟩ := readOperands_eq_ok_iff.mp hread
  · obtain ⟨-, hread'⟩ | ⟨hseveral', -⟩ := readOperands_eq_ok_iff.mp hread'
    · exact h _ _ _ haligned hread hread'
    · rw [← hlength, hsingle] at hseveral'
      exact absurd hseveral' (by simp)
  · obtain ⟨hsingle', -⟩ | ⟨-, -, terms', hterms', hterm'⟩ := readOperands_eq_ok_iff.mp hread'
    · rw [hlength, hsingle'] at hseveral
      exact absurd hseveral (by simp)
    · obtain rfl : terms = terms' := by
        have heq := hterm.trans hterm'.symm
        cases op <;> cases heq <;> rfl
      rw [headsFrom_splitTop op.isSeparator hflag text,
        headsFrom_splitTop op.isSeparator hflag text']
      exact flatMap_eq_of_forall₂ hparts hterms hterms' (h _ _ _)

/-- A name that gives way shows that there is no white space behind it. -/
lemma endsBlank_eq_of_childFront {parent word word' : List Char}
    (htrim : Text.trim word = Text.trim word')
    (hid : isValidId (Text.trim (childFront renamesAll parent word '(')) = true)
    (heq : Text.trim (childFront renamesAll parent word '(') =
      Text.trim (childFront renamesAll parent word' '(')) :
    endsBlank word = endsBlank word' := by
  have hgives : ∀ name, isValidId name = true →
      Text.trim (aliasWord renamesAll parent name) ≠ name := by
    intro name hname
    obtain ⟨hvalid, hne⟩ :=
      aliasWord_renamesAll parent (ne_nil_of_isValidId hname) (isIdChar_of_isValidId hname)
    rwa [trim_id hvalid]
  rw [childFront, childFront, if_pos rfl, if_pos rfl, aliasWord_trimStart, aliasWord_trimStart,
    ← htrim] at heq
  rw [childFront, if_pos rfl, aliasWord_trimStart] at hid
  by_cases hblank : endsBlank word = true <;> by_cases hblank' : endsBlank word' = true
  · rw [hblank, hblank']
  · rw [if_pos hblank, if_neg hblank', Text.trim_trimStart] at heq
    rw [if_pos hblank, Text.trim_trimStart] at hid
    exact absurd heq.symm (hgives _ hid)
  · rw [if_neg hblank, if_pos hblank', Text.trim_trimStart, ← htrim] at heq
    rw [if_neg hblank, heq] at hid
    exact absurd heq (hgives _ hid)
  · rw [Bool.eq_false_iff.mpr hblank, Bool.eq_false_iff.mpr hblank']

/-- What is no name gives way to nothing. -/
lemma trim_childFront_of_not {parent word word' : List Char} {sign : Char}
    (htrim : Text.trim word = Text.trim word')
    (h : ¬ (sign = '(' ∧ Text.isBlankText word = false)) :
    Text.trim (childFront aliases parent word sign) =
      Text.trim (childFront aliases parent word' sign) := by
  rw [childFront, childFront]
  split
  · next ho =>
    have hblank : Text.isBlankText word = true := by simpa [ho] using h
    have hblank' : Text.isBlankText word' = true := isBlankText_eq_of_trim_eq htrim ▸ hblank
    rw [Text.trimStart_of_isBlankText hblank, Text.trimStart_of_isBlankText hblank']
  · rw [Text.trim_trimStart, Text.trim_trimStart, htrim]

/-- Children that are read as one term are named alike, and they have one head. -/
lemma Labels.front_eq (h : Labels nested) {id word word' rest rest' : List Char} {sign : Char}
    {term : Term} (hword : IsWord word) (hword' : IsWord word')
    (htrim : Text.trim word = Text.trim word')
    (hread : nested (childFront renamesAll id word sign ++ sign :: rest) = .ok term)
    (hread' : nested (childFront renamesAll id word' sign ++ sign :: rest') = .ok term) :
    Text.trim (childFront renamesAll id word sign) =
        Text.trim (childFront renamesAll id word' sign) ∧
      headAt true word sign = headAt true word' sign := by
  have hblank := isBlankText_eq_of_trim_eq htrim
  by_cases hopens : sign = '(' ∧ Text.isBlankText word = false
  · obtain ⟨rfl, hname⟩ := hopens
    have hname' : Text.isBlankText word' = false := hblank ▸ hname
    obtain ⟨hid, hlabel⟩ := h _ _ _ (isWord_childFront renamesAll_isRenaming id '(' hword)
      ((isBlankText_childFront renamesAll_isRenaming id word '(').trans hname) hread
    obtain ⟨-, hlabel'⟩ := h _ _ _ (isWord_childFront renamesAll_isRenaming id '(' hword')
      ((isBlankText_childFront renamesAll_isRenaming id word' '(').trans hname') hread'
    have heq := String.ofList_injective (hlabel.symm.trans hlabel')
    refine ⟨heq, ?_⟩
    rw [headAt_of_name hname, headAt_of_name hname', htrim,
      endsBlank_eq_of_childFront htrim hid heq]
  · refine ⟨trim_childFront_of_not htrim hopens, ?_⟩
    rw [headAt_of_not fun hhead => hopens hhead.2,
      headAt_of_not fun hhead => hopens ⟨hhead.2.1, hblank.trans hhead.2.2⟩]

/-- The heads of a child can be read off the term of the child. -/
lemma Tells.of_substituteAlias (h : Tells nested) (hlabels : Labels nested)
    {id part part' : List Char} {term : Term} (haligned : Aligned SameTrimmed true part part')
    (hread : nested (substituteAlias renamesAll id part) = .ok term)
    (hread' : nested (substituteAlias renamesAll id part') = .ok term) :
    headsFrom true part = headsFrom true part' := by
  cases haligned with
  | word hword hword' => rw [headsFrom_of_isWord hword, headsFrom_of_isWord hword']
  | @sign _ word word' rest rest' sign hword hword' hsign hR hrest =>
    have hfront := isWord_childFront renamesAll_isRenaming id sign hword
    have hfront' := isWord_childFront renamesAll_isRenaming id sign hword'
    rw [substituteAlias_sign hword hsign] at hread
    rw [substituteAlias_sign hword' hsign] at hread'
    obtain ⟨htrim, hhead⟩ := hlabels.front_eq hword hword' hR hread hread'
    have hrest := hrest.trimEnd
      fun hR => (Text.trim_trimEnd _).trans (hR.trans (Text.trim_trimEnd _).symm)
    rw [← beginsChild_childFront renamesAll_isRenaming id] at hrest
    have hheads := h _ _ _ (.sign hfront hfront' hsign htrim hrest) hread hread'
    rw [headsFrom_sign hfront hsign, headsFrom_sign hfront' hsign, headAt_false, headAt_false,
      beginsChild_childFront renamesAll_isRenaming, beginsChild_childFront renamesAll_isRenaming,
      headsFrom_trimEnd, headsFrom_trimEnd, List.nil_append, List.nil_append] at hheads
    rw [headsFrom_sign hword hsign, headsFrom_sign hword' hsign, hhead, hheads]

/-- What stands beside a group is read as a group. -/
lemma readGroup_of_aligned {name inner after text : List Char} {term : Term}
    (haligned : Aligned SameTrimmed false (name ++ '(' :: (inner ++ ')' :: after)) text)
    (hname : IsWord name) (hinner : IsBalanced inner) (hafter : Text.isBlankText after = true)
    (hread : readAtom aliases nested text = .ok term) :
    ∃ shown inner', Aligned SameTrimmed (!Text.isBlankText name) inner inner' ∧
      readGroup aliases nested shown (Text.trim name) inner' = .ok term ∧
      headsFrom false text = headsFrom (!Text.isBlankText name) inner' := by
  obtain ⟨name', inner', after', rfl, hname', hR, hinner', hafter'⟩ := haligned.exists_group hname
  have htrim : Text.trim name = Text.trim name' := hR
  have hblank' : Text.isBlankText after' = true := by
    rw [← hafter'.isBlankText_eq isBlankText_eq_of_trim_eq, hafter]
  obtain ⟨shown, hatom⟩ := readAtom_of_group hname' (hinner'.isBalanced hinner) hblank'
  rw [hatom, ← htrim] at hread
  refine ⟨shown, inner', hinner', hread, ?_⟩
  rw [headsFrom_group hname' hblank', headAt_false, isBlankText_eq_of_trim_eq htrim,
    List.nil_append]

/-- An atom tells its own head and those of its children. -/
theorem Tells.readAtom (h : Tells nested) (hlabels : Labels nested) :
    Tells (readAtom renamesAll nested) := by
  intro text text' term haligned hread hread'
  rw [readAtom_eq_ok_iff] at hread
  cases hread with
  | leaf hid =>
    have hword := isWord_of_isValidId_trim hid
    rw [headsFrom_of_isWord hword, headsFrom_of_isWord (haligned.of_isWord hword).1]
  | @group before inner after _ hbefore hinner hafter hsingle hblank hread =>
    have hword := IsWord.of_isBlankText hbefore
    obtain ⟨shown, inner', hinner', hread', hheads⟩ :=
      readGroup_of_aligned haligned hword hinner hafter hread'
    rw [Text.trim_of_isBlankText hbefore] at hread'
    rw [hbefore, Bool.not_true] at hinner' hheads
    rw [headsFrom_group hword hafter, headAt_false, hbefore, hheads, List.nil_append]
    obtain ⟨-, -, -, hread'⟩ | ⟨hvalid, -⟩ := readGroup_eq_ok_iff.mp hread'
    · exact h _ _ _ hinner' hread hread'
    · cases hvalid
  | @tree name inner after terms hname hinner hafter hblank hread =>
    have hword := isWord_of_isValidId_trim hname
    obtain ⟨shown, inner', hinner', hread', hheads⟩ :=
      readGroup_of_aligned haligned hword hinner hafter hread'
    have hnonblank := isBlankText_of_isValidId_trim hname
    rw [hnonblank, Bool.not_false] at hinner' hheads
    rw [headsFrom_group hword hafter, headAt_false, hnonblank, hheads, List.nil_append]
    obtain ⟨hnil, -⟩ | ⟨-, -, terms', hterms', hterm'⟩ := readGroup_eq_ok_iff.mp hread'
    · exact absurd hnil (ne_nil_of_isValidId hname)
    · obtain ⟨-, rfl⟩ := Term.tree.inj hterm'
      have hcomma : true = decide (',' = ',') := rfl
      have hparts := hinner'.splitTop isSeparator_comma hcomma
      rw [Bool.not_false, headsFrom_splitTop isSeparator_comma hcomma inner,
        headsFrom_splitTop isSeparator_comma hcomma inner']
      exact flatMap_eq_of_forall₂ hparts hread hterms' (h.of_substituteAlias hlabels)

/-- **Texts that are read alike have the same heads**, at every level. -/
theorem tells_readNested (levels : Nat) : Tells (readNested renamesAll levels) := by
  induction levels with
  | zero => exact fun _ _ _ _ hread => nomatch hread
  | succ levels ih =>
    have hatom := ih.readAtom (labels_readNested renamesAll levels)
    have hfilter := hatom.readOperands .filter
    have hattach := hfilter.readOperands .attach
    exact hattach.readOperands .merge

end Telling

/-! ## The exception -/

/-- The texts are read as the same term, or neither is. -/
def ReadAlike (aliases : Aliases) (text other : String) : Prop :=
  ∀ term, parseWith aliases text = .ok term ↔ parseWith aliases other = .ok term

section Exception

variable {text other : String} (h : IsRespaced text.toList other.toList)
  (htext : ¬ ['.', '('] <:+: text.toList) (hother : ¬ ['.', '('] <:+: other.toList)

include h htext hother

lemma readAlike_of_heads {aliases : Aliases} (hids : aliases.IsRenaming)
    (hheads : List.Forall₂ (fun head head' => aliases.Knows head.name → head = head')
      (childHeads text.toList) (childHeads other.toList)) : ReadAlike aliases text other := by
  have haligned := (h.aligned false).of_headsFrom hheads
  have hback := haligned.symm SameSpaced.symm fun hR => isBlankText_eq_of_trim_eq hR.1
  intro term
  exact ⟨parseWith_of_aligned hids htext hother haligned,
    parseWith_of_aligned hids hother htext hback⟩

lemma childHeads_eq_of_parseWith {term : Term} (hread : parseWith renamesAll text = .ok term)
    (hread' : parseWith renamesAll other = .ok term) :
    childHeads text.toList = childHeads other.toList := by
  obtain ⟨-, levels, hread⟩ := (parseWith_eq_ok_iff renamesAll_isRenaming htext).mp hread
  obtain ⟨-, more, hread'⟩ := (parseWith_eq_ok_iff renamesAll_isRenaming hother).mp hread'
  exact tells_readNested (max levels more) _ _ _ (h.aligned false)
    (readNested_eq_ok_mono hread (le_max_left levels more))
    (readNested_eq_ok_mono hread' (le_max_right levels more))

/-- **Where white space is read over.**  Two texts differ in white space beside signs only, and no
name is spread in them.  A lookup whose targets are ids reads them alike if they have the same white
space behind the names of children with children, as far as the lookup knows the names.  All such
lookups read them alike if and only if they have the same white space behind all these names, or no
such lookup reads either of them. -/
theorem readAlike_respaced :
    (∀ aliases : Aliases, aliases.IsRenaming →
      List.Forall₂ (fun head head' => aliases.Knows head.name → head = head')
        (childHeads text.toList) (childHeads other.toList) → ReadAlike aliases text other) ∧
    ((∀ aliases : Aliases, aliases.IsRenaming → ReadAlike aliases text other) ↔
      childHeads text.toList = childHeads other.toList ∨
        ∀ aliases : Aliases, aliases.IsRenaming → ∀ term,
          parseWith aliases text ≠ .ok term ∧ parseWith aliases other ≠ .ok term) := by
  refine ⟨fun aliases hids => readAlike_of_heads h htext hother hids, fun hall => ?_, ?_⟩
  · have hrenamed := hall renamesAll renamesAll_isRenaming
    by_cases hread : ∃ term, parseWith renamesAll text = .ok term
    · obtain ⟨term, hread⟩ := hread
      exact .inl (childHeads_eq_of_parseWith h htext hother hread ((hrenamed term).mp hread))
    · -- what no renaming of everything reads, no lookup reads
      refine .inr fun aliases hids term => ?_
      have hneither : parseWith aliases text ≠ .ok term := fun hterm =>
        hread (exists_parseWith_renamesAll hids htext hterm)
      exact ⟨hneither, fun hterm => hneither ((hall aliases hids term).mpr hterm)⟩
  · rintro (hheads | hneither) aliases hids
    · refine readAlike_of_heads h htext hother hids ?_
      rw [hheads]
      exact List.forall₂_same.mpr fun _ _ _ => rfl
    · intro term
      obtain ⟨htext, hother⟩ := hneither aliases hids term
      exact iff_of_false htext hother

end Exception

/-- White space around a name without an alias, and around the others where none of them has
children. -/
theorem readAlike_respaced_unknown :
    let aliases : Aliases := .ofList [("a", "b", "x"), ("a", "e", "y")]
    let text := "a( d (c) , b(e) , e )"
    let other := " a(d(c),b( e ),e)"
    IsRespaced text.toList other.toList ∧ ¬ ['.', '('] <:+: text.toList ∧
      ¬ ['.', '('] <:+: other.toList ∧ aliases.IsRenaming ∧
      childHeads text.toList ≠ childHeads other.toList ∧ ReadAlike aliases text other ∧
      parseWith aliases text =
        .ok (.tree "a" [.tree "d" [.leaf "c"], .tree "x" [.leaf "e"], .leaf "y"]) := by
  intro aliases text other
  have h : IsRespaced text.toList other.toList := by decide
  have htext : ¬ ['.', '('] <:+: text.toList := by decide
  have hother : ¬ ['.', '('] <:+: other.toList := by decide
  have hids : aliases.IsRenaming := Aliases.isRenaming_ofList (by decide)
  have hunknown : ¬ aliases.Knows ['d'] := by
    rintro ⟨parent, target, htarget⟩
    simp [aliases, Aliases.ofList] at htarget
  have hheads : List.Forall₂ (fun head head' => aliases.Knows head.name → head = head')
      (childHeads text.toList) (childHeads other.toList) := by
    rw [show childHeads text.toList = [⟨['d'], true⟩, ⟨['b'], false⟩] by decide,
      show childHeads other.toList = [⟨['d'], false⟩, ⟨['b'], false⟩] by decide]
    exact .cons (fun hknows => absurd hknows hunknown) (.cons (fun _ => rfl) .nil)
  exact ⟨h, htext, hother, hids, by decide,
    (readAlike_respaced h htext hother).1 aliases hids hheads, by cbv⟩

/-- White space between the name of a child and its children keeps the alias of the name away. -/
theorem not_readAlike_spaced :
    let aliases : Aliases := .ofList [("a", "b", "d")]
    let text := "a(b(c))"
    let other := "a(b (c))"
    IsRespaced text.toList other.toList ∧ '.' ∉ text.toList ∧ '.' ∉ other.toList ∧
      aliases.IsRenaming ∧ parseWith aliases text = .ok (.tree "a" [.tree "d" [.leaf "c"]]) ∧
      parseWith aliases other = .ok (.tree "a" [.tree "b" [.leaf "c"]]) ∧
      ¬ ReadAlike aliases text other := by
  intro aliases text other
  have htext : parseWith aliases text = .ok (.tree "a" [.tree "d" [.leaf "c"]]) := by cbv
  have hother : parseWith aliases other = .ok (.tree "a" [.tree "b" [.leaf "c"]]) := by cbv
  refine ⟨by decide, by decide, by decide, Aliases.isRenaming_ofList (by decide), htext, hother, ?_⟩
  intro halike
  have hsame := (halike _).mp htext
  rw [hother] at hsame
  simp at hsame

end Term

end QueryTerms
