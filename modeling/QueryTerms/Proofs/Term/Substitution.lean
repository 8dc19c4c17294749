import QueryTerms.Proofs.Term.Loops
import QueryTerms.Proofs.Term.Spacing

/-!
# What a reading consists of

The readers cut, check and trim, and each can fail for several reasons.  This file says of each what
it takes to succeed, in terms of the texts that are read next.

**Operands.**  `readOperands_eq_ok_iff`.

**Atoms.**  `IsAtom` has one case for each kind of atom: an id, a term in parentheses, an id with
children in parentheses.  `readAtom_eq_ok_iff`.

**Aliases.**  Up to the first sign of a child stands a word.  It gives way to the target of an alias
(`aliasWord`) if it is an id and nothing comes behind it (`substituteAlias_of_isWord`) or an opening
parenthesis does (`substituteAlias_sign`).  White space in between is something: it keeps the alias
away (`aliasWord_trimStart`).

**Terms.**  Where all targets are ids, a text is read if it is balanced and some number of levels
gives a term: `parseWith_eq_ok_iff`.
-/

namespace QueryTerms

/-- Every alias stands for an id. -/
def Aliases.IsRenaming (aliases : Aliases) : Prop :=
  ∀ parent child target, aliases.target? parent child = some target → isValidId target.toList = true

lemma Aliases.isRenaming_ofList {entries : List (String × String × String)}
    (h : ∀ entry ∈ entries, isValidId entry.2.2.toList = true) : (ofList entries).IsRenaming := by
  intro parent child target htarget
  obtain ⟨entry, hentry, rfl⟩ := Option.map_eq_some_iff.mp htarget
  exact h entry (List.mem_of_find?_eq_some hentry)

namespace Term

/-! ## Operands -/

lemma checkOperands_eq_ok_iff {whole : List Char} {parts : List (List Char)} {checked : Unit} :
    checkOperands whole parts = .ok checked ↔ ∀ part ∈ parts, Text.isBlankText part = false := by
  refine ⟨fun h part hpart => ?_, checkOperands_eq_ok⟩
  rw [checkOperands] at h
  split at h
  · cases h
  · next hblank =>
    rw [Bool.eq_false_iff]
    exact fun hpartBlank => hblank (List.any_eq_true.mpr ⟨part, hpart, hpartBlank⟩)

/-- A single operand stands for itself, and several ones are read one by one. -/
theorem readOperands_eq_ok_iff {sep : Char} {compose : List Term → Term} {next : Reader}
    {text : List Char} {term : Term} :
    readOperands sep compose next text = .ok term ↔
      (splitTop sep text = [text] ∧ next text = .ok term) ∨
      (2 ≤ (splitTop sep text).length ∧
        (∀ part ∈ splitTop sep text, Text.isBlankText part = false) ∧
        ∃ terms, List.Forall₂ (fun part term => next part = .ok term) (splitTop sep text) terms ∧
          compose terms = term) := by
  constructor
  · intro h
    rw [readOperands] at h
    split at h
    · next part hparts =>
      obtain rfl := eq_of_splitTop_eq_singleton hparts
      exact .inl ⟨hparts, h⟩
    · next hseveral =>
      obtain ⟨_, hchecked, h⟩ := bind_eq_ok_iff.mp h
      obtain ⟨terms, hterms, hterm⟩ := map_eq_ok_iff.mp h
      exact .inr ⟨two_le_length_splitTop hseveral, checkOperands_eq_ok_iff.mp hchecked, terms,
        mapM_eq_ok_iff.mp hterms, hterm⟩
  · rintro (⟨hsingle, h⟩ | ⟨hlength, hblank, terms, hterms, rfl⟩)
    · rw [readOperands_of_single hsingle, h]
    · exact readOperands_of_several rfl hlength hblank hterms

/-! ## Atoms -/

/-- What the text of an atom is, if it is read as a term. -/
inductive IsAtom (aliases : Aliases) (nested : Reader) : List Char → Term → Prop where
  | leaf {text : List Char} (hid : isValidId (Text.trim text) = true) :
      IsAtom aliases nested text (.leaf (String.ofList (Text.trim text)))
  | group {before inner after : List Char} {term : Term} (hbefore : Text.isBlankText before = true)
      (hinner : IsBalanced inner) (hafter : Text.isBlankText after = true)
      (hsingle : splitTop ',' inner = [inner]) (hblank : Text.isBlankText inner = false)
      (h : nested inner = .ok term) :
      IsAtom aliases nested (before ++ '(' :: (inner ++ ')' :: after)) term
  | tree {name inner after : List Char} {terms : List Term}
      (hname : isValidId (Text.trim name) = true) (hinner : IsBalanced inner)
      (hafter : Text.isBlankText after = true)
      (hblank : ∀ part ∈ splitTop ',' inner, Text.isBlankText part = false)
      (h : List.Forall₂
        (fun part term => nested (substituteAlias aliases (Text.trim name) part) = .ok term)
        (splitTop ',' inner) terms) :
      IsAtom aliases nested (name ++ '(' :: (inner ++ ')' :: after))
        (.tree (String.ofList (Text.trim name)) terms)

section Atoms

variable {aliases : Aliases} {nested : Reader} {text id name inner after : List Char} {term : Term}

lemma readGroup_eq_ok_iff :
    readGroup aliases nested text id inner = .ok term ↔
      (id = [] ∧ Text.isBlankText inner = false ∧ splitTop ',' inner = [inner] ∧
        nested inner = .ok term) ∨
      (isValidId id = true ∧ (∀ part ∈ splitTop ',' inner, Text.isBlankText part = false) ∧
        ∃ terms, List.Forall₂
          (fun part term => nested (substituteAlias aliases id part) = .ok term)
          (splitTop ',' inner) terms ∧ .tree (String.ofList id) terms = term) := by
  constructor
  · intro h
    by_cases hblank : Text.isBlankText inner = true
    · rw [readGroup_of_blank hblank] at h
      cases h
    by_cases hid : id.isEmpty = true
    · rw [readGroup_of_unnamed hblank hid] at h
      obtain rfl := List.isEmpty_iff.mp hid
      obtain ⟨_, _, hread⟩ := bind_eq_ok_iff.mp h
      split at hread
      · next single hsingle =>
        obtain rfl := eq_of_splitTop_eq_singleton hsingle
        exact .inl ⟨rfl, Bool.eq_false_iff.mpr hblank, hsingle, hread⟩
      · cases hread
    · rw [readGroup_of_named hblank hid] at h
      obtain ⟨_, hchecked, h⟩ := bind_eq_ok_iff.mp h
      obtain ⟨_, hname, h⟩ := bind_eq_ok_iff.mp h
      obtain ⟨terms, hterms, rfl⟩ := map_eq_ok_iff.mp h
      obtain ⟨hvalid, rfl⟩ := readId_eq_ok_iff.mp hname
      refine .inr ⟨hvalid, checkOperands_eq_ok_iff.mp hchecked, terms, ?_, rfl⟩
      simpa only [partText, if_neg hid] using mapM_eq_ok_iff.mp hterms
  · rintro (⟨rfl, hblank, hsingle, h⟩ | ⟨hid, hblank, terms, hterms, rfl⟩)
    · rw [readGroup_of_nil hsingle hblank, h]
    · refine readGroup_of_id hid rfl ?_ hblank hterms
      obtain ⟨part, hpart⟩ := List.exists_mem_of_ne_nil _ (splitTop_ne_nil ',' inner)
      rw [← joinWith_splitTop ',' inner]
      exact isBlankText_joinWith hpart (hblank part hpart)

/-- An atom with a word in front of its parentheses. -/
lemma readAtom_of_group (hname : IsWord name) (hinner : IsBalanced inner)
    (hafter : Text.isBlankText after = true) :
    ∃ text, readAtom aliases nested (name ++ '(' :: (inner ++ ')' :: after)) =
      readGroup aliases nested text (Text.trim name) inner := by
  have htrim : Text.trim (name ++ '(' :: (inner ++ ')' :: after)) =
      Text.trimStart name ++ ('(' :: inner ++ [')']) := by
    rw [Text.trim_append_cons (by decide), Text.trimEnd_append_cons (by decide),
      Text.trimEnd_of_isBlankText hafter]
    rfl
  have hopen : '(' ∉ Text.trimStart name := fun hmem =>
    hname.ne_sign rfl _ ((List.dropWhile_sublist Text.isBlank).mem hmem) rfl
  refine ⟨Text.trimStart name ++ ('(' :: inner ++ [')']), ?_⟩
  rw [readAtom_of_trim_group hopen hinner htrim, Text.trim_trimStart]

/-- A text that is trimmed to an id has no sign. -/
lemma isWord_of_isValidId_trim (h : isValidId (Text.trim text) = true) : IsWord text := by
  obtain ⟨before, after, hbefore, hafter, htext⟩ := Text.exists_eq_trim text
  rw [htext]
  exact ((IsWord.of_isBlankText hbefore).append
    (.of_forall_isIdChar (isIdChar_of_isValidId h))).append (.of_isBlankText hafter)

lemma isBlankText_of_isValidId_trim (h : isValidId (Text.trim text) = true) :
    Text.isBlankText text = false := by
  rw [Bool.eq_false_iff, ne_eq, ← Text.trim_eq_nil_iff]
  exact ne_nil_of_isValidId h

lemma isBlankText_of_isIdChar (hne : text ≠ []) (h : ∀ c ∈ text, isIdChar c = true) :
    Text.isBlankText text = false := by
  obtain ⟨c, hc⟩ := List.exists_mem_of_ne_nil text hne
  rw [Bool.eq_false_iff]
  intro hblank
  have hcBlank := Text.isBlank_of_mem hblank hc
  rw [isBlank_of_isIdChar (h c hc)] at hcBlank
  cases hcBlank

lemma isBlankText_of_isValidId (h : isValidId id = true) : Text.isBlankText id = false :=
  isBlankText_of_isIdChar (ne_nil_of_isValidId h) (isIdChar_of_isValidId h)

/-- The white space around an atom goes to the name and behind the parentheses. -/
lemma isAtom_of_readGroup {shown : List Char} (hinner : IsBalanced inner)
    (htrim : Text.trim text = name ++ ('(' :: inner ++ [')']))
    (h : readGroup aliases nested shown (Text.trim name) inner = .ok term) :
    IsAtom aliases nested text term := by
  obtain ⟨before, after, hbefore, hafter, htext⟩ := Text.exists_eq_trim text
  have hname : Text.trim (before ++ name) = Text.trim name := by
    have hbetween := Text.trim_of_between hbefore Text.isBlankText_nil name
    rwa [List.append_nil] at hbetween
  have hwhole : text = (before ++ name) ++ '(' :: (inner ++ ')' :: after) := by
    rw [htext, htrim]
    simp
  rw [hwhole]
  rw [← hname] at h
  obtain ⟨hnil, hblank, hsingle, hread⟩ | ⟨hvalid, hblank, terms, hterms, rfl⟩ :=
    readGroup_eq_ok_iff.mp h
  · exact .group (Text.trim_eq_nil_iff.mp hnil) hinner hafter hsingle hblank hread
  · exact .tree hvalid hinner hafter hblank hterms

/-- **What is read as an atom**, and what as. -/
theorem readAtom_eq_ok_iff :
    readAtom aliases nested text = .ok term ↔ IsAtom aliases nested text term := by
  constructor
  · intro h
    rw [readAtom] at h
    split at h
    · cases h
    split at h
    · split at h
      · cases h
      · obtain ⟨_, hid, rfl⟩ := map_eq_ok_iff.mp h
        obtain ⟨hvalid, rfl⟩ := readId_eq_ok_iff.mp hid
        exact .leaf hvalid
    split at h
    · next inner hclose =>
      exact isAtom_of_readGroup (depthAfter_of_closeGroup hclose) (eq_of_closeGroup hclose) h
    · cases h
  · intro h
    cases h with
    | leaf hid => exact readAtom_of_trim_id hid rfl
    | group hbefore hinner hafter hsingle hblank h =>
      obtain ⟨_, hread⟩ := readAtom_of_group (.of_isBlankText hbefore) hinner hafter
      rw [hread, Text.trim_of_isBlankText hbefore]
      exact readGroup_eq_ok_iff.mpr (.inl ⟨rfl, hblank, hsingle, h⟩)
    | tree hname hinner hafter hblank h =>
      obtain ⟨_, hread⟩ := readAtom_of_group (isWord_of_isValidId_trim hname) hinner hafter
      rw [hread]
      exact readGroup_eq_ok_iff.mpr (.inr ⟨hname, hblank, _, h, rfl⟩)

end Atoms

/-! ## Aliases -/

/-- What is read for a word in front of a child: the target of its alias, if it is an id with
one. -/
def aliasWord (aliases : Aliases) (parent word : List Char) : List Char :=
  if word.isEmpty || !word.all isIdChar then word
  else match aliases.target? (String.ofList parent) (String.ofList word) with
    | some target => target.toList
    | none => word

/-- What is read for the word that a child begins with, where a sign stands behind the word. -/
def childFront (aliases : Aliases) (parent word : List Char) (sign : Char) : List Char :=
  if sign = '(' then aliasWord aliases parent (Text.trimStart word) else Text.trimStart word

section Aliases

variable {aliases : Aliases} {parent text word rest : List Char} {sign : Char}

lemma aliasWord_of_not_isIdChar (h : ¬ ∀ c ∈ word, isIdChar c = true) :
    aliasWord aliases parent word = word := by
  rw [aliasWord, if_pos]
  simpa using .inr (by simpa using h)

lemma aliasWord_nil : aliasWord aliases parent [] = [] := rfl

/-- A name gives way to its target, and everything else stays. -/
lemma aliasWord_cases (aliases : Aliases) (parent word : List Char) :
    aliasWord aliases parent word = word ∨
      ∃ target, aliases.target? (String.ofList parent) (String.ofList word) = some target ∧
        aliasWord aliases parent word = target.toList ∧ Text.isBlankText word = false := by
  rw [aliasWord]
  split
  · exact .inl rfl
  · next hcond =>
    have hname : word ≠ [] ∧ ∀ c ∈ word, isIdChar c = true := by simpa using hcond
    split
    · next target htarget =>
      exact .inr ⟨target, htarget, rfl, isBlankText_of_isIdChar hname.1 hname.2⟩
    · exact .inl rfl

/-- A name at the beginning of a child: what stands behind it decides whether it gives way. -/
lemma substituteAlias_of_name {tail : List Char} (hid : ∀ c ∈ word, isIdChar c = true)
    (htrim : Text.trim text = word ++ tail) (htail : ∀ c ∈ tail.head?, isSign c = true) :
    substituteAlias aliases parent text =
      (if tail = [] ∨ tail.head? = some '(' then aliasWord aliases parent word else word) ++
        tail := by
  have hend : tail.takeWhile isIdChar = [] ∧ tail.dropWhile isIdChar = tail := by
    cases tail with
    | nil => exact ⟨rfl, rfl⟩
    | cons c cs =>
      have hc : ¬ isIdChar c = true := fun hid => by
        have hsign := htail c rfl
        rw [isSign_of_isIdChar hid] at hsign
        cases hsign
      exact ⟨List.takeWhile_cons_of_neg hc, List.dropWhile_cons_of_neg hc⟩
  have htake : (word ++ tail).takeWhile isIdChar = word := by
    rw [List.takeWhile_append_of_pos hid, hend.1, List.append_nil]
  have hdrop : (word ++ tail).dropWhile isIdChar = tail := by
    rw [List.dropWhile_append_of_pos hid, hend.2]
  have hall : word.all isIdChar = true := List.all_eq_true.mpr hid
  simp only [substituteAlias, htrim, htake, hdrop, aliasWord, hall, Bool.not_true, Bool.or_false]
  by_cases hopen : tail = [] ∨ tail.head? = some '('
  · have hrest : (tail.isEmpty || decide (tail.head? = some '(')) = true := by simpa using hopen
    rw [hrest, if_pos hopen, Bool.not_true, Bool.or_false]
    split
    · rfl
    · cases aliases.target? (String.ofList parent) (String.ofList word) <;> rfl
  · have hrest : (tail.isEmpty || decide (tail.head? = some '(')) = false := by simpa using hopen
    rw [hrest, if_neg hopen, Bool.not_false, Bool.or_true, if_pos rfl]

/-- A word that is no name stays: some character of it ends the id, and it is no parenthesis. -/
lemma substituteAlias_of_not_name {tail : List Char} (hword : IsWord word)
    (hid : ¬ ∀ c ∈ word, isIdChar c = true) (htrim : Text.trim text = word ++ tail) :
    substituteAlias aliases parent text = word ++ tail := by
  obtain ⟨c, cs, hcs⟩ := List.exists_cons_of_ne_nil fun hnil =>
    hid (List.dropWhile_eq_nil_iff.mp hnil)
  have hmem : c ∈ word := (List.dropWhile_sublist isIdChar).mem (hcs ▸ List.mem_cons_self)
  have hc : c ≠ '(' := hword.ne_sign rfl c hmem
  have hdrop : (word ++ tail).dropWhile isIdChar = c :: (cs ++ tail) := by
    rw [List.dropWhile_append, hcs]
    rfl
  simp only [substituteAlias, htrim, hdrop]
  exact if_pos (by simp [hc])

lemma substituteAlias_of_trim {tail : List Char} (hword : IsWord word)
    (htrim : Text.trim text = word ++ tail) (htail : ∀ c ∈ tail.head?, isSign c = true) :
    substituteAlias aliases parent text =
      (if tail = [] ∨ tail.head? = some '(' then aliasWord aliases parent word else word) ++
        tail := by
  by_cases hid : ∀ c ∈ word, isIdChar c = true
  · exact substituteAlias_of_name hid htrim htail
  · rw [substituteAlias_of_not_name hword hid htrim, aliasWord_of_not_isIdChar hid, ite_self]

lemma IsWord.trimStart (h : IsWord word) : IsWord (Text.trimStart word) :=
  h.sublist (List.dropWhile_sublist _)

lemma IsWord.trim (h : IsWord word) : IsWord (Text.trim word) := h.sublist (Text.trim_sublist word)

/-- A word on its own. -/
lemma substituteAlias_of_isWord (h : IsWord word) :
    substituteAlias aliases parent word = aliasWord aliases parent (Text.trim word) := by
  rw [substituteAlias_of_trim h.trim (List.append_nil _).symm nofun, if_pos (.inl rfl),
    List.append_nil]

/-- A word with a sign behind it.  White space in front of a parenthesis ends the name, but is no
parenthesis. -/
lemma substituteAlias_sign (h : IsWord word) (hsign : isSign sign = true) :
    substituteAlias aliases parent (word ++ sign :: rest) =
      childFront aliases parent word sign ++ sign :: Text.trimEnd rest := by
  have htail : ∀ c ∈ (sign :: Text.trimEnd rest).head?, isSign c = true := by
    rintro c ⟨⟩
    exact hsign
  have htrim := Text.trim_append_cons (isBlank_of_isSign hsign) word rest
  rw [substituteAlias_of_trim h.trimStart htrim htail, childFront]
  simp

lemma isWord_aliasWord (h : aliases.IsRenaming) (hword : IsWord word) :
    IsWord (aliasWord aliases parent word) := by
  obtain heq | ⟨target, htarget, heq, -⟩ := aliasWord_cases aliases parent word
  · rwa [heq]
  · rw [heq]
    exact .of_forall_isIdChar (isIdChar_of_isValidId (h _ _ _ htarget))

/-- Where a word gives way, it is to no white space. -/
lemma isBlankText_aliasWord (h : aliases.IsRenaming) (parent word : List Char) :
    Text.isBlankText (aliasWord aliases parent word) = Text.isBlankText word := by
  obtain heq | ⟨target, htarget, heq, hname⟩ := aliasWord_cases aliases parent word
  · rw [heq]
  · rw [heq, hname, isBlankText_of_isValidId (h _ _ _ htarget)]

lemma isWord_childFront (h : aliases.IsRenaming) (parent : List Char) (sign : Char)
    (hword : IsWord word) :
    IsWord (childFront aliases parent word sign) := by
  rw [childFront]
  split
  · exact isWord_aliasWord h hword.trimStart
  · exact hword.trimStart

lemma isBlankText_childFront (h : aliases.IsRenaming) (parent word : List Char) (sign : Char) :
    Text.isBlankText (childFront aliases parent word sign) = Text.isBlankText word := by
  rw [childFront]
  split
  · rw [isBlankText_aliasWord h, Text.isBlankText_trimStart]
  · rw [Text.isBlankText_trimStart]

lemma beginsChild_childFront (h : aliases.IsRenaming) (parent word : List Char) (sign : Char) :
    beginsChild (childFront aliases parent word sign) sign = beginsChild word sign := by
  rw [beginsChild, beginsChild, isBlankText_childFront h]

/-- White space behind a word keeps its alias away. -/
lemma aliasWord_trimStart (aliases : Aliases) (parent word : List Char) :
    aliasWord aliases parent (Text.trimStart word) =
      if endsBlank word then Text.trimStart word
      else aliasWord aliases parent (Text.trim word) := by
  by_cases hnil : Text.trimStart word = []
  · have htrim : Text.trim word = [] := by
      rw [Text.trim, hnil]
      rfl
    rw [hnil, htrim, aliasWord_nil, ite_self]
  -- what is left of the word ends as the word does
  obtain ⟨front, c, hstart⟩ := (List.eq_nil_or_concat' _).resolve_left hnil
  have hends : endsBlank word = Text.isBlank c := by
    have hwhole := List.takeWhile_append_dropWhile (p := Text.isBlank) (l := word)
    rw [← Text.trimStart, hstart, ← List.append_assoc] at hwhole
    rw [endsBlank, ← hwhole, List.getLast?_concat]
    rfl
  rw [hends]
  split
  · next hblank =>
    refine aliasWord_of_not_isIdChar fun hid => ?_
    have hc := isBlank_of_isIdChar (hid c (by rw [hstart]; simp))
    rw [hblank] at hc
    cases hc
  · next hblank =>
    have hend : Text.trimEnd (Text.trimStart word) = Text.trimStart word := by
      have htrim := Text.trimEnd_append_cons (Bool.eq_false_iff.mpr hblank) front []
      rw [hstart]
      exact htrim
    rw [Text.trim, hend]

end Aliases

/-! ## Terms -/

section Terms

variable {aliases : Aliases} {text : List Char} {levels : Nat}

/-- With targets that are ids, parentheses bound the levels. -/
lemma not_runsOut_of_count (h : aliases.IsRenaming) (hcount : text.count '(' < levels) :
    ¬ RunsOut (readNested aliases levels text) := by
  induction levels generalizing text with
  | zero => exact absurd hcount (Nat.not_lt_zero _)
  | succ levels ih =>
    intro hout
    obtain ⟨inner, hinner, hinnerOut, -⟩ := (isLayer_readLevel aliases).blames hout
    have hfewer := count_lt_of_mem_textsBelow
      (fun htarget => open_notMem_id (h _ _ _ htarget)) hinner
    exact ih (by omega) hinnerOut

lemma readNested_eq_ok_mono {more : Nat} {term : Term}
    (h : readNested aliases levels text = .ok term) (hle : levels ≤ more) :
    readNested aliases more text = .ok term := by
  rw [readNested_mono hle (h ▸ not_runsOut_ok term), h]

/-- **Readings without a count.**  Where no name is spread and all targets are ids, a text is read
if it is balanced and some number of levels gives a term. -/
theorem parseWith_eq_ok_iff (h : aliases.IsRenaming) {text : String}
    (hspread : ¬ ['.', '('] <:+: text.toList) {term : Term} :
    parseWith aliases text = .ok term ↔
      IsBalanced text.toList ∧ ∃ levels, readNested aliases levels text.toList = .ok term := by
  constructor
  · intro hread
    rw [parseWith, distribute_of_not_infix hspread] at hread
    split at hread
    · cases hread
    · next hbalance => exact ⟨(unbalancedAt?_eq_none_iff 0 0 _).mp hbalance, _, hread⟩
  · rintro ⟨hbalance, levels, hread⟩
    have hreadAs : IsReadAs text text.toList :=
      ⟨(unbalancedAt?_eq_none_iff 0 0 _).mpr hbalance, distribute_of_not_infix hspread⟩
    rw [hreadAs.parseWith_eq]
    have hends : ¬ RunsOut
        (readNested aliases (sufficientLevels aliases text.toList) text.toList) := by
      refine not_runsOut_of_count h ?_
      have hle : text.toList.count '(' ≤ text.toList.length := List.count_le_length
      rw [sufficientLevels]
      omega
    -- both numbers of levels come to what more levels give
    rw [← readNested_mono (Nat.le_add_left _ levels) hends]
    exact readNested_eq_ok_mono hread (Nat.le_add_right levels _)

end Terms

end Term

end QueryTerms
