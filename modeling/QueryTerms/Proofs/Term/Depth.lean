import QueryTerms.Proofs.Term.Levels

/-!
# How many levels are enough

The reader is given one level for each character of its text and of all targets of aliases.  This
file shows that no reading that ends at all needs more.

**Where a group comes from.**  What is read for a child is the target of an alias with the rest of
the child behind it.  The rest is balanced, so that no group begins in the target and ends in the
rest (`group_of_mem_atomTexts`): every group below is one of the child or one of a target.

**Counting.**  On the way down, a group of the child has fewer parentheses than the child, and no
atom of a target is entered twice, since below itself an atom would have to settle within fewer
levels than it takes (`settlesWithin_weight`).  So the parentheses of the text and of the targets
bound the levels: `not_runsOut_of_ends`.
-/

namespace QueryTerms.Term

/-! ## Pieces of texts -/

lemma infix_of_mem_splitTop {sep : Char} {text part : List Char}
    (h : part ∈ splitTop sep text) : part <:+: text := by
  rw [← joinWith_splitTop sep text]
  exact infix_joinWith h

lemma infix_of_mem_atomTexts {text atom : List Char} (h : atom ∈ atomTexts text) :
    atom <:+: text := by
  obtain ⟨union, hunion, h⟩ := List.mem_flatMap.mp h
  obtain ⟨part, hpart, hatom⟩ := List.mem_flatMap.mp h
  exact ((infix_of_mem_splitTop hatom).trans (infix_of_mem_splitTop hpart)).trans
    (infix_of_mem_splitTop hunion)

/-! ## Cutting what is put together -/

/-- The pieces of a text that begins inside `depth` parentheses. -/
def piecesIn (sep : Char) (depth : Nat) (text : List Char) : List (List Char) :=
  (splitFrom sep depth text).1 :: (splitFrom sep depth text).2

/-- A character either cuts, whatever is behind it, or goes to the first piece. -/
lemma piecesIn_cons (sep : Char) (depth : Nat) (c : Char) :
    (∀ text, piecesIn sep depth (c :: text) = [] :: piecesIn sep depth text) ∨
      ∃ deeper, ∀ text,
        piecesIn sep depth (c :: text) = (piecesIn sep deeper text).modifyHead (c :: ·) := by
  by_cases hopen : c = '('
  · subst hopen
    exact .inr ⟨depth + 1, fun text => by rw [piecesIn, splitFrom_open]; rfl⟩
  by_cases hclose : c = ')'
  · subst hclose
    exact .inr ⟨depth - 1, fun text => by rw [piecesIn, splitFrom_close]; rfl⟩
  by_cases hsep : c = sep ∧ depth = 0
  · refine .inl fun text => ?_
    rw [piecesIn, splitFrom, if_neg hopen, if_neg hclose, if_pos hsep]
    rfl
  · exact .inr ⟨depth, fun text => by rw [piecesIn, splitFrom_other hopen hclose hsep]; rfl⟩

/-- A text behind another one prolongs its last piece, and is cut on its own from there. -/
lemma exists_piecesIn_append (sep : Char) (depth : Nat) (front : List Char) :
    ∃ before last after, piecesIn sep depth front = before ++ [last] ∧
      ∀ back, piecesIn sep depth (front ++ back) =
        before ++ (last ++ (splitFrom sep after back).1) :: (splitFrom sep after back).2 := by
  induction front generalizing depth with
  | nil => exact ⟨[], [], depth, rfl, fun _ => rfl⟩
  | cons c cs ih =>
    rcases piecesIn_cons sep depth c with hcut | ⟨deeper, hcons⟩
    · obtain ⟨before, last, after, hfront, hback⟩ := ih depth
      refine ⟨[] :: before, last, after, by rw [hcut, hfront, List.cons_append], fun back => ?_⟩
      rw [List.cons_append, hcut, hback, List.cons_append]
    · obtain ⟨before, last, after, hfront, hback⟩ := ih deeper
      cases before with
      | nil =>
        refine ⟨[], c :: last, after, by rw [hcons, hfront]; rfl, fun back => ?_⟩
        rw [List.cons_append, hcons, hback]
        rfl
      | cons first others =>
        refine ⟨(c :: first) :: others, last, after, by rw [hcons, hfront]; rfl, fun back => ?_⟩
        rw [List.cons_append, hcons, hback]
        rfl

/-- A piece of a text with a balanced one behind it that begins with a parenthesis: a piece of the
first text, perhaps with the beginning of the second one, or a piece of the second one. -/
def Straddles (pieces : List (List Char)) (back piece : List Char) : Prop :=
  piece ∈ pieces ∨
  (∃ front ∈ pieces, ∃ rest, piece = front ++ rest ∧ IsBalanced rest ∧ rest <:+: back ∧
    rest.head? = some '(') ∨
  IsBalanced piece ∧ piece <:+: back

lemma straddles_of_mem_splitTop {sep : Char} (ho : sep ≠ '(') (hc : sep ≠ ')')
    {front back piece : List Char} (hback : IsBalanced back) (hhead : back.head? = some '(')
    (h : piece ∈ splitTop sep (front ++ back)) : Straddles (splitTop sep front) back piece := by
  obtain ⟨before, last, after, hfront, happend⟩ := exists_piecesIn_append sep 0 front
  change splitTop sep front = _ at hfront
  have hpieces : splitTop sep (front ++ back) = _ := happend back
  obtain ⟨cs, rfl⟩ := List.head?_eq_some_iff.mp hhead
  have hfirst : (splitFrom sep after ('(' :: cs)).1.head? = some '(' := by
    rw [splitFrom_open]
    rfl
  -- the second text is cut only where it stands outside all parentheses
  have hsecond : IsBalanced (splitFrom sep after ('(' :: cs)).1 ∧
      (splitFrom sep after ('(' :: cs)).1 <:+: '(' :: cs ∧
      ∀ piece ∈ (splitFrom sep after ('(' :: cs)).2,
        IsBalanced piece ∧ piece <:+: '(' :: cs := by
    cases after with
    | zero =>
      have hmem : ∀ piece ∈ splitTop sep ('(' :: cs), IsBalanced piece ∧ piece <:+: '(' :: cs :=
        fun piece hpiece => ⟨hback.of_mem_splitTop ho hc hpiece, infix_of_mem_splitTop hpiece⟩
      obtain ⟨hhere, hrest⟩ := List.forall_mem_cons.mp hmem
      exact ⟨hhere.1, hhere.2, hrest⟩
    | succ outer =>
      rw [splitFrom_inside (hback.depthAfter_eq outer)]
      exact ⟨hback, List.infix_refl _, nofun⟩
  rw [hpieces] at h
  rw [hfront]
  rcases List.mem_append.mp h with h | h
  · exact .inl (List.mem_append_left _ h)
  rcases List.mem_cons.mp h with rfl | h
  · refine .inr (.inl ⟨last, List.mem_append_right _ (List.mem_singleton_self _), _, rfl, ?_⟩)
    exact ⟨hsecond.1, hsecond.2.1, hfirst⟩
  · exact .inr (.inr (hsecond.2.2 piece h))

/-- Cutting again keeps the pieces apart in the same way. -/
lemma Straddles.of_mem_splitTop {sep : Char} (ho : sep ≠ '(') (hc : sep ≠ ')')
    {pieces : List (List Char)} {back piece part : List Char} (h : Straddles pieces back piece)
    (hpart : part ∈ splitTop sep piece) : Straddles (pieces.flatMap (splitTop sep)) back part := by
  obtain h | ⟨front, hfront, rest, rfl, hrest, hwithin, hhead⟩ | ⟨hbalanced, hwithin⟩ := h
  · exact .inl (List.mem_flatMap.mpr ⟨piece, h, hpart⟩)
  · obtain h | ⟨last, hlast, first, rfl, hfirst, hwithin', hhead'⟩ | ⟨hbalanced, hwithin'⟩ :=
      straddles_of_mem_splitTop ho hc hrest hhead hpart
    · exact .inl (List.mem_flatMap.mpr ⟨front, hfront, h⟩)
    · refine .inr (.inl ⟨last, List.mem_flatMap.mpr ⟨front, hfront, hlast⟩, first, rfl, hfirst, ?_⟩)
      exact ⟨hwithin'.trans hwithin, hhead'⟩
    · exact .inr (.inr ⟨hbalanced, hwithin'.trans hwithin⟩)
  · exact .inr (.inr ⟨hbalanced.of_mem_splitTop ho hc hpart,
      (infix_of_mem_splitTop hpart).trans hwithin⟩)

lemma straddles_of_mem_atomTexts {front back atom : List Char} (hback : IsBalanced back)
    (hhead : back.head? = some '(') (h : atom ∈ atomTexts (front ++ back)) :
    Straddles (atomTexts front) back atom := by
  obtain ⟨union, hunion, h⟩ := List.mem_flatMap.mp h
  obtain ⟨part, hpart, hatom⟩ := List.mem_flatMap.mp h
  have hunion := straddles_of_mem_splitTop (by decide) (by decide) hback hhead hunion
  have hpart := hunion.of_mem_splitTop (by decide) (by decide) hpart
  have hatom := hpart.of_mem_splitTop (by decide) (by decide) hatom
  rwa [List.flatMap_assoc] at hatom

/-! ## Groups -/

/-- An atom with a group: what stands before the parentheses, in them, and white space. -/
lemma exists_of_groupOf? {atom id inner : List Char} (h : groupOf? atom = some (id, inner)) :
    IsBalanced inner ∧ ∃ before after, atom = before ++ ('(' :: inner ++ [')']) ++ after ∧
      '(' ∉ before ∧ Text.isBlankText after = true := by
  rw [groupOf?] at h
  split at h
  · next inner hclose =>
    cases h
    refine ⟨depthAfter_of_closeGroup hclose, ?_⟩
    obtain ⟨before, after, hbefore, hafter, hatom⟩ := Text.exists_eq_trim atom
    have htrim := eq_of_closeGroup hclose
    refine ⟨before ++ (Text.trim atom).takeWhile (· != '('), after, ?_, ?_, hafter⟩
    · rw [List.append_assoc before, ← htrim]
      exact hatom
    · rw [List.mem_append, not_or]
      refine ⟨fun hmem => (ne_paren_of_isBlank (Text.isBlank_of_mem hbefore hmem)).1 rfl, fun hmem => ?_⟩
      have hne := List.mem_takeWhile_imp hmem
      simp at hne
  · cases h

lemma infix_of_groupOf? {atom id inner : List Char} (h : groupOf? atom = some (id, inner)) :
    '(' :: inner ++ [')'] <:+: atom := by
  obtain ⟨-, before, after, rfl, -, -⟩ := exists_of_groupOf? h
  exact ⟨before, after, rfl⟩

/-- A group does not begin in a text and end in a balanced one behind it. -/
lemma infix_of_groupOf?_append {front rest id inner : List Char}
    (h : groupOf? (front ++ rest) = some (id, inner)) (hrest : IsBalanced rest)
    (hhead : rest.head? = some '(') : '(' :: inner ++ [')'] <:+: rest := by
  obtain ⟨hinner, before, after, heq, hbefore, hafter⟩ := exists_of_groupOf? h
  rw [List.append_assoc] at heq
  obtain ⟨middle, -, hmiddle⟩ | ⟨middle, hfront, hmiddle⟩ := List.append_eq_append_iff.mp heq
  · exact ⟨middle, after, by rw [hmiddle, List.append_assoc]⟩
  obtain ⟨others, rfl⟩ := List.head?_eq_some_iff.mp hhead
  cases middle with
  | nil => exact ⟨[], after, hmiddle⟩
  | cons c cs =>
    -- the group begins in `front`, and ends either there or in the balanced text
    exfalso
    have hcut : inner ++ ')' :: after = cs ++ '(' :: others := by
      simpa using (List.cons.inj hmiddle).2
    obtain ⟨between, -, hafterEq⟩ | ⟨between, rfl, hrestEq⟩ := List.append_eq_append_iff.mp hcut
    · cases between with
      | nil => cases hafterEq
      | cons d ds =>
        have hmem : '(' ∈ after := by
          rw [(List.cons.inj hafterEq).2]
          exact List.mem_append_right _ List.mem_cons_self
        exact (ne_paren_of_isBlank (Text.isBlank_of_mem hafter hmem)).1 rfl
    · rw [hrestEq, IsBalanced, depthAfter_append, Option.bind_eq_some_iff] at hrest
      rw [IsBalanced, depthAfter_append, Option.bind_eq_some_iff] at hinner
      obtain ⟨opened, hopened, hclosed⟩ := hrest
      obtain ⟨depth, -, hdepth⟩ := hinner
      have hsum := depthAfter_add depth hopened
      rw [Nat.zero_add, hdepth, Option.some.injEq] at hsum
      obtain rfl : opened = 0 := by omega
      rw [depthAfter_close_zero] at hclosed
      cases hclosed

/-! ## What stands below -/

/-- The atom is one of those in the target of an alias. -/
def ComesFromTarget (aliases : Aliases) (atom : List Char) : Prop :=
  ∃ parent child target, aliases.target? parent child = some target ∧
    atom ∈ atomTexts target.toList

lemma IsBalanced.trim {text : List Char} (h : IsBalanced text) : IsBalanced (Text.trim text) := by
  obtain ⟨before, after, hbefore, hafter, heq⟩ := Text.exists_eq_trim text
  rw [IsBalanced, heq, depthAfter_append, depthAfter_append,
    IsBalanced.of_isBlankText hbefore, Option.bind_some] at h
  obtain ⟨depth, hdepth, hrest⟩ := Option.bind_eq_some_iff.mp h
  rw [(IsBalanced.of_isBlankText hafter).depthAfter_eq] at hrest
  rwa [Option.some.inj hrest] at hdepth

lemma infix_trim (text : List Char) : Text.trim text <:+: text := by
  obtain ⟨before, after, -, -, heq⟩ := Text.exists_eq_trim text
  exact ⟨before, after, heq.symm⟩

/-- What an alias puts in place of a child's id, with what followed the id. -/
lemma substituteAlias_cases (aliases : Aliases) (parent child : List Char) :
    substituteAlias aliases parent child = Text.trim child ∨
      ∃ id rest target, Text.trim child = id ++ rest ∧ (∀ c ∈ id, isIdChar c = true) ∧
        (rest = [] ∨ rest.head? = some '(') ∧
        aliases.target? (String.ofList parent) (String.ofList id) = some target ∧
        substituteAlias aliases parent child = target.toList ++ rest := by
  rw [substituteAlias]
  split
  · exact .inl rfl
  · next hcond =>
    split
    · next target htarget =>
      refine .inr ⟨_, _, target, List.takeWhile_append_dropWhile.symm,
        fun c hc => List.mem_takeWhile_imp hc, ?_, htarget, rfl⟩
      by_cases hrest : ((Text.trim child).dropWhile isIdChar) = []
      · exact .inl hrest
      · refine .inr ?_
        by_contra hhead
        exact hcond (by simp [hrest, hhead])
    · exact .inl rfl

/-- **Where a group comes from.**  In what is read for a child, every group stands in the child or
in the target of an alias: none begins in a target and ends in the child. -/
theorem group_of_mem_atomTexts {aliases : Aliases} {id child atom name inner : List Char}
    (hchild : IsBalanced child) (hatom : atom ∈ atomTexts (partText aliases id child))
    (hgroup : groupOf? atom = some (name, inner)) :
    '(' :: inner ++ [')'] <:+: child ∨ ComesFromTarget aliases atom := by
  have hwithin := infix_of_groupOf? hgroup
  rw [partText] at hatom
  split at hatom
  · exact .inl (hwithin.trans (infix_of_mem_atomTexts hatom))
  obtain heq | ⟨front, rest, target, htrim, hfront, hrest, htarget, heq⟩ :=
    substituteAlias_cases aliases id child
  · rw [heq] at hatom
    exact .inl ((hwithin.trans (infix_of_mem_atomTexts hatom)).trans (infix_trim child))
  have hrestInfix : rest <:+: child :=
    (List.suffix_append front rest).isInfix.trans (htrim ▸ infix_trim child)
  rw [heq] at hatom
  rcases hrest with rfl | hhead
  · rw [List.append_nil] at hatom
    exact .inr ⟨_, _, target, htarget, hatom⟩
  have hbalanced : IsBalanced rest := by
    have h := hchild.trim
    rw [htrim, IsBalanced, depthAfter_append,
      depthAfter_of_plain fun c hc => ne_paren_of_isIdChar (hfront c hc)] at h
    exact h
  obtain h | ⟨before, -, first, rfl, hfirst, hwithin', hhead'⟩ | ⟨-, hwithin'⟩ :=
    straddles_of_mem_atomTexts hbalanced hhead hatom
  · exact .inr ⟨_, _, target, htarget, h⟩
  · exact .inl ((infix_of_groupOf?_append hgroup hfirst hhead').trans (hwithin'.trans hrestInfix))
  · exact .inl (hwithin.trans (hwithin'.trans hrestInfix))

/-! ## How many levels are enough -/

/-- The parentheses that open in the group of an atom, with the one of the group itself. -/
def groupWeight (atom : List Char) : Nat :=
  match groupOf? atom with
  | none => 0
  | some (_, inner) => inner.count '(' + 1

/-- With so many levels below it the atom is read, be it as a term or as none. -/
def SettlesWithin (aliases : Aliases) (levels : Nat) (atom : List Char) : Prop :=
  ¬ RunsOut (readAtom aliases (readNested aliases levels) atom)

open Classical in
/-- The parentheses in those of the atoms that settle within fewer levels. -/
noncomputable def weightBefore (aliases : Aliases) (atoms : List (List Char)) (levels : Nat) : Nat :=
  (atoms.map fun atom =>
    if ∃ fewer < levels, SettlesWithin aliases fewer atom then groupWeight atom else 0).sum

section Weights

variable {aliases : Aliases} {atoms : List (List Char)} {atom text : List Char} {levels more : Nat}

/-- If whatever settles below an atom does so within other levels, then so does the atom. -/
lemma SettlesWithin.of_nested (h : SettlesWithin aliases levels atom)
    (hnested : ∀ inner ∈ nestedTexts aliases atom, ¬ RunsOut (readNested aliases levels inner) →
      ¬ RunsOut (readNested aliases more inner)) : SettlesWithin aliases more atom := by
  have hsame := (isLayer_readAtom aliases).settled (fun inner hinner hends =>
    isTrue_readNested aliases more levels _ inner hinner hends (hnested inner hinner hends)) h
  rwa [SettlesWithin, hsame]

/-- If whatever settles of the atoms of a text does so within other levels, then so does the
text. -/
lemma not_runsOut_of_atoms (h : ¬ RunsOut (readNested aliases (levels + 1) text))
    (hatoms : ∀ atom ∈ atomTexts text, SettlesWithin aliases levels atom →
      SettlesWithin aliases more atom) : ¬ RunsOut (readNested aliases (more + 1) text) := by
  have hsame := isLayer_readAtoms.settled (fun atom hatom hends =>
    (isLayer_readAtom aliases).agree (isTrue_readNested aliases more levels _) hends
      (hatoms atom hatom hends)) h
  have heq : readNested aliases (more + 1) text = readNested aliases (levels + 1) text := hsame
  rwa [heq]

lemma SettlesWithin.mono (hle : levels ≤ more) (h : SettlesWithin aliases levels atom) :
    SettlesWithin aliases more atom :=
  h.of_nested fun _ _ => not_runsOut_mono hle

lemma groupWeight_le_count (atom : List Char) : groupWeight atom ≤ atom.count '(' := by
  rw [groupWeight]
  split
  · exact Nat.zero_le _
  · next inner hgroup =>
    obtain ⟨-, before, after, rfl, -, -⟩ := exists_of_groupOf? hgroup
    simp [List.count_append]
    omega

lemma weightBefore_mono (hle : levels ≤ more) :
    weightBefore aliases atoms levels ≤ weightBefore aliases atoms more := by
  refine List.sum_le_sum fun atom _ => ?_
  split
  · next hsettles =>
    obtain ⟨fewer, hlt, hsettles⟩ := hsettles
    rw [if_pos ⟨fewer, hlt.trans_le hle, hsettles⟩]
  · exact Nat.zero_le _

/-- An atom counts as soon as it settles. -/
lemma weightBefore_add_le (hatom : atom ∈ atoms) (hsettles : SettlesWithin aliases levels atom)
    (hleast : ∀ fewer < levels, ¬ SettlesWithin aliases fewer atom) (hlt : levels < more) :
    weightBefore aliases atoms levels + groupWeight atom ≤ weightBefore aliases atoms more := by
  induction atoms with
  | nil => cases hatom
  | cons first rest ih =>
    have hfirst : weightBefore aliases [first] levels ≤ weightBefore aliases [first] more :=
      weightBefore_mono hlt.le
    have hrest : weightBefore aliases rest levels ≤ weightBefore aliases rest more :=
      weightBefore_mono hlt.le
    have hcons : ∀ n, weightBefore aliases (first :: rest) n =
        weightBefore aliases [first] n + weightBefore aliases rest n := fun n => by
      simp [weightBefore]
    rw [hcons, hcons]
    rcases List.mem_cons.mp hatom with rfl | hmem
    · have hbefore : weightBefore aliases [atom] levels = 0 := by
        simp only [weightBefore, List.map_cons, List.map_nil, List.sum_singleton]
        exact if_neg fun ⟨fewer, hfewer, h⟩ => hleast fewer hfewer h
      have hafter : weightBefore aliases [atom] more = groupWeight atom := by
        simp only [weightBefore, List.map_cons, List.map_nil, List.sum_singleton]
        exact if_pos ⟨levels, hlt, hsettles⟩
      omega
    · have := ih hmem
      omega

lemma weightBefore_le (aliases : Aliases) (atoms : List (List Char)) (levels : Nat) :
    weightBefore aliases atoms levels ≤ (atoms.map groupWeight).sum := by
  refine List.sum_le_sum fun atom _ => ?_
  split
  · exact le_rfl
  · exact Nat.zero_le _

/-- **No atom takes more levels than it has parentheses and the targets that settle before it
have.**  On the way down, either the parentheses of a child get fewer, or an atom of a target is
entered that has not been entered yet, since it settles within fewer levels. -/
theorem settlesWithin_weight (hatoms : ∀ atom, ComesFromTarget aliases atom → atom ∈ atoms)
    (h : SettlesWithin aliases levels atom) :
    SettlesWithin aliases (groupWeight atom + weightBefore aliases atoms levels) atom := by
  induction levels using Nat.strong_induction_on generalizing atom with
  | _ levels ih =>
    refine h.of_nested fun inner hinner hends => ?_
    rw [nestedTexts] at hinner
    split at hinner
    · cases hinner
    next id within hgroup =>
    obtain ⟨child, hchild, rfl⟩ := List.mem_map.mp hinner
    have hbalanced : IsBalanced child :=
      (exists_of_groupOf? hgroup).1.of_mem_splitTop (by decide) (by decide) hchild
    have hweight : groupWeight atom = within.count '(' + 1 := by rw [groupWeight, hgroup]
    cases levels with
    | zero => exact absurd ⟨_, rfl⟩ hends
    | succ levels =>
      obtain ⟨enough, henough⟩ : ∃ enough,
          groupWeight atom + weightBefore aliases atoms (levels + 1) = enough + 1 :=
        ⟨_, by rw [hweight, Nat.add_right_comm]⟩
      rw [henough]
      refine not_runsOut_of_atoms hends fun below hbelow hsettles => ?_
      -- the least number of levels that will do for the atom below
      classical
      have hleast : ∃ least, SettlesWithin aliases least below := ⟨levels, hsettles⟩
      have hle : Nat.find hleast ≤ levels := Nat.find_min' hleast hsettles
      refine (ih _ (Nat.lt_add_one_of_le hle) (Nat.find_spec hleast)).mono ?_
      have hmono : weightBefore aliases atoms (Nat.find hleast) ≤
          weightBefore aliases atoms (levels + 1) :=
        weightBefore_mono (hle.trans (Nat.le_add_right levels 1))
      cases hgroupBelow : groupOf? below with
      | none =>
        have hnone : groupWeight below = 0 := by rw [groupWeight, hgroupBelow]
        omega
      | some group =>
        obtain ⟨name, deeper⟩ := group
        have hbelowWeight : groupWeight below = deeper.count '(' + 1 := by
          rw [groupWeight, hgroupBelow]
        rcases group_of_mem_atomTexts hbalanced hbelow hgroupBelow with hwithin | htarget
        · have hcount := (hwithin.trans (infix_of_mem_splitTop hchild)).sublist.count_le '('
          rw [List.cons_append, List.count_cons_self, List.count_append] at hcount
          omega
        · have hadd := weightBefore_add_le (hatoms below htarget) (Nat.find_spec hleast)
            (fun _ => Nat.find_min hleast) (Nat.lt_add_one_of_le hle)
          omega

end Weights

/-! ## The levels that a reading is given -/

/-- All targets are among these, and the extent allows for them. -/
structure DrawsFrom (aliases : Aliases) (targets : List String) : Prop where
  mem : ∀ {parent child target : String}, aliases.target? parent child = some target →
    target ∈ targets
  extent : (String.join targets).length ≤ aliases.extent

lemma drawsFrom_ofList (entries : List (String × String × String)) :
    DrawsFrom (.ofList entries) (entries.map fun (_, _, target) => target) where
  mem h := by
    obtain ⟨entry, hentry, rfl⟩ := Option.map_eq_some_iff.mp h
    exact List.mem_map_of_mem (List.mem_of_find?_eq_some hentry)
  extent := le_rfl

lemma count_flatMap {x : Char} {cut : List Char → List (List Char)}
    (h : ∀ text, (cut text).flatten.count x = text.count x) (parts : List (List Char)) :
    (parts.flatMap cut).flatten.count x = parts.flatten.count x := by
  induction parts with
  | nil => rfl
  | cons part rest ih =>
    rw [List.flatMap_cons, List.flatten_append, List.count_append, h, ih, List.flatten_cons,
      List.count_append]

/-- Cutting a text into atoms keeps its parentheses. -/
lemma count_atomTexts (text : List Char) : (atomTexts text).flatten.count '(' = text.count '(' := by
  have hcut : ∀ sep text, '(' ≠ sep → (splitTop sep text).flatten.count '(' = text.count '(' :=
    fun sep text hsep => splitTop_count sep '(' hsep text
  rw [atomTexts, count_flatMap (fun part => ?_), hcut _ _ (by decide)]
  rw [count_flatMap (fun part => hcut _ _ (by decide)), hcut _ _ (by decide)]

lemma sum_groupWeight_le (atoms : List (List Char)) :
    (atoms.map groupWeight).sum ≤ atoms.flatten.count '(' := by
  induction atoms with
  | nil => exact le_rfl
  | cons atom rest ih =>
    rw [List.map_cons, List.sum_cons, List.flatten_cons, List.count_append]
    exact Nat.add_le_add (groupWeight_le_count atom) ih

/-- The atoms in all targets. -/
def targetAtoms (targets : List String) : List (List Char) :=
  (targets.map String.toList).flatMap atomTexts

section Sufficient

variable {aliases : Aliases} {targets : List String} {text : List Char}

lemma DrawsFrom.mem_targetAtoms (h : DrawsFrom aliases targets) {atom : List Char}
    (hatom : ComesFromTarget aliases atom) : atom ∈ targetAtoms targets := by
  obtain ⟨parent, child, target, htarget, hmem⟩ := hatom
  exact List.mem_flatMap.mpr ⟨_, List.mem_map_of_mem (h.mem htarget), hmem⟩

lemma DrawsFrom.weight_le (h : DrawsFrom aliases targets) :
    ((targetAtoms targets).map groupWeight).sum ≤ aliases.extent := by
  refine (sum_groupWeight_le _).trans ?_
  rw [targetAtoms, count_flatMap count_atomTexts, ← List.flatMap_def, ← String.toList_join]
  exact List.count_le_length.trans (String.length_toList ▸ h.extent)

/-- **The levels that a reading is given suffice.**  Where they do not, no number of levels does. -/
theorem not_runsOut_of_ends (h : DrawsFrom aliases targets) (hends : Ends aliases text) :
    ¬ RunsOut (readNested aliases (sufficientLevels aliases text) text) := by
  obtain ⟨levels, hends⟩ := hends
  cases levels with
  | zero => exact absurd ⟨_, rfl⟩ hends
  | succ levels =>
    refine not_runsOut_of_atoms hends fun atom hatom hsettles => ?_
    refine (settlesWithin_weight (fun _ => h.mem_targetAtoms) hsettles).mono ?_
    have hatomWeight : groupWeight atom ≤ text.length :=
      (groupWeight_le_count atom).trans <|
        ((infix_of_mem_atomTexts hatom).sublist.count_le '(').trans List.count_le_length
    exact Nat.add_le_add hatomWeight ((weightBefore_le _ _ _).trans h.weight_le)

end Sufficient

end QueryTerms.Term
