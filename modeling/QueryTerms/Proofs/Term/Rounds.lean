import QueryTerms.Proofs.Term.Depth
import QueryTerms.Proofs.Term.Spreading
import QueryTerms.Proofs.Text.Separator

/-!
# Spreading names, one round after another

The rule for names before groups is a loop over the whole text: as long as there is a `.(`, the
leftmost one is rewritten.  Every rewriting makes the text longer and may bring in new ones.  This
file shows that the loop comes to an end, and with what.

**Partners.**  `partner` looks for the end of a group with a counter that begins at the opening
parenthesis.  It tells when the counter would fall below zero, which it never does
(`partner_open`).

**Rounds.**  `round` rewrites the leftmost `.(`, and `Stops` counts the rounds of a whole run.  To
the left of the leftmost `.(` nothing changes any more, so that a run takes no more rounds than the
text has opening parentheses and ends as `distribute` does: `stops_distributeFrom`.

**What a round keeps.**  Balanced texts stay balanced (`IsBalanced.round`), and names that begin
behind a character of one byte, or with the text, stay so (`IsNarrow.round`).

**What a run ends with.**  `stops_distribute`.
-/

namespace QueryTerms.Term

/-! ## Partners -/

/-- What the search for the partner of a parenthesis comes to. -/
inductive Partner where
  /-- The text up to the partner and the text behind it. -/
  | found (before after : List Char)
  /-- The text ends before. -/
  | missing
  /-- The counter of open parentheses would fall below zero. -/
  | underflow

namespace Partner

/-- The search went over one more character before. -/
def cons (c : Char) : Partner → Partner
  | found before after => found (c :: before) after
  | missing => missing
  | underflow => underflow

end Partner

/-- The search for the partner of the parenthesis that a text begins with, where `depth`
parentheses have been opened and not closed so far. -/
def partner (depth : Nat) : List Char → Partner
  | [] => .missing
  | c :: cs =>
    if c = '(' then (partner (depth + 1) cs).cons c
    else if c = ')' then
      match depth with
      | 0 => .underflow
      | outer + 1 => if outer = 0 then .found [] cs else (partner outer cs).cons c
    else (partner depth cs).cons c

lemma partner_succ (depth : Nat) (text : List Char) :
    partner (depth + 1) text =
      match closeGroup depth text with
      | some (inner, rest) => .found inner rest
      | none => .missing := by
  induction text generalizing depth with
  | nil => rfl
  | cons c cs ih =>
    rw [partner, closeGroup]
    by_cases ho : c = '('
    · subst ho
      rw [if_pos rfl, if_neg (by decide), if_pos rfl, ih]
      cases closeGroup (depth + 1) cs <;> rfl
    · rw [if_neg ho]
      by_cases hc : c = ')'
      · rw [if_pos hc, if_pos hc]
        cases depth with
        | zero => rfl
        | succ outer =>
          simp only [if_neg (Nat.succ_ne_zero outer), Nat.add_sub_cancel, ih]
          cases closeGroup outer cs <;> rfl
      · rw [if_neg hc, if_neg hc, if_neg ho, ih]
        cases closeGroup depth cs <;> rfl

/-- **The counter never falls below zero**: it begins with the parenthesis that is to be closed, and
the search ends where that one is. -/
theorem partner_open (text : List Char) :
    partner 0 ('(' :: text) =
      match closeGroup 0 text with
      | some (inner, rest) => .found ('(' :: inner) rest
      | none => .missing := by
  rw [partner, if_pos rfl, partner_succ]
  cases closeGroup 0 text <;> rfl

/-! ## Rounds -/

/-- What one round of the loop comes to. -/
inductive Round where
  /-- There is no name to spread. -/
  | done
  /-- The leftmost name has been spread. -/
  | rewritten (text : List Char)
  | fault (cause : ParseError)
  /-- The counter of open parentheses would fall below zero. -/
  | underflow

/-- One round of the loop over a text; `input` is the text that the loop began with. -/
def round (input : String) (text : List Char) : Round :=
  match Text.cutFirst? ['.', '('] text with
  | none => .done
  | some (front, back) =>
    if endsWide (beforeName front) then .fault (.cutInsideCharacter input)
    else if (nameAtEnd front).isEmpty then .fault (.malformed input)
    else
      match partner 0 ('(' :: back) with
      | .underflow => .underflow
      | .missing => .fault (.unbalanced input (byteSize front + 1))
      | .found before after =>
        let inner := before.drop 1
        match checkOperands inner (splitTop '|' inner) with
        | .error cause => .fault cause
        | .ok () => .rewritten (beforeName front ++
            '(' :: (alternatives (nameAtEnd front) (splitTop '|' inner) ++ ')' :: after))

/-- The loop stops after a number of rewritings.  After a round that takes the counter below zero
it does not go on. -/
inductive Stops (input : String) : Nat → List Char → Except ParseError (List Char) → Prop where
  | done {text : List Char} (h : round input text = .done) : Stops input 0 text (.ok text)
  | fault {text : List Char} {cause : ParseError} (h : round input text = .fault cause) :
      Stops input 0 text (.error cause)
  | rewritten {text next : List Char} {rewritings : Nat} {outcome : Except ParseError (List Char)}
      (h : round input text = .rewritten next) (hnext : Stops input rewritings next outcome) :
      Stops input (rewritings + 1) text outcome

section Rounds

variable {input : String} {text front back : List Char}

lemma round_of_none (h : Text.cutFirst? ['.', '('] text = none) : round input text = .done := by
  rw [round, h]

lemma round_of_some (h : Text.cutFirst? ['.', '('] text = some (front, back)) :
    round input text =
      if endsWide (beforeName front) then .fault (.cutInsideCharacter input)
      else if (nameAtEnd front).isEmpty then .fault (.malformed input)
      else
        match closeGroup 0 back with
        | none => .fault (.unbalanced input (byteSize front + 1))
        | some (inner, after) =>
          match checkOperands inner (splitTop '|' inner) with
          | .error cause => .fault cause
          | .ok () => .rewritten (beforeName front ++
              '(' :: (alternatives (nameAtEnd front) (splitTop '|' inner) ++ ')' :: after)) := by
  rw [round, h]
  simp only [partner_open]
  cases closeGroup 0 back <;> rfl

lemma beforeName_append_nameAtEnd (text : List Char) :
    beforeName text ++ nameAtEnd text = text := by
  rw [beforeName, nameAtEnd, ← List.reverse_append, List.takeWhile_append_dropWhile,
    List.reverse_reverse]

lemma isIdChar_of_mem_nameAtEnd {c : Char} (h : c ∈ nameAtEnd text) : isIdChar c = true :=
  List.mem_takeWhile_imp (List.mem_reverse.mp h)

/-- What stands right before a name is no part of it. -/
lemma isIdChar_getLast?_beforeName : ∀ c ∈ (beforeName text).getLast?, isIdChar c = false := by
  intro c hc
  have hhead := List.head?_dropWhile_not isIdChar text.reverse
  rw [beforeName, List.getLast?_reverse, Option.mem_def] at hc
  rw [hc] at hhead
  exact hhead

/-- Nothing is spread to the left of the first place where something is. -/
lemma isChain_of_cutFirst? (h : Text.cutFirst? ['.', '('] text = some (front, back)) :
    front.IsChain fun a b => a = '.' → b ≠ '(' := by
  induction text generalizing front with
  | nil => cases h
  | cons c cs ih =>
    rw [Text.cutFirst?] at h
    split at h
    · cases h
      exact .nil
    · next hcut =>
      obtain ⟨⟨before, after⟩, hrest, heq⟩ := Option.map_eq_some_iff.mp h
      cases heq
      refine List.isChain_cons.mpr ⟨fun d hd hdot hopen => hcut ?_, ih hrest⟩
      obtain ⟨others, rfl⟩ := List.head?_eq_some_iff.mp hd
      rw [Text.cutFirst?_eq hrest, hdot, hopen]
      rfl

/-- Text in which nothing is left to spread, and which ends where no name runs on. -/
structure IsSettled (settled : List Char) : Prop where
  noSpread : settled.IsChain fun a b => a = '.' → b ≠ '('
  edge : ∀ c ∈ settled.getLast?, isIdChar c = false ∧ c.utf8Size = 1

lemma IsSettled.noDotLast {settled : List Char} (h : IsSettled settled) :
    settled.getLast? ≠ some '.' :=
  fun hdot => absurd (h.edge '.' hdot).1 (by decide)

/-- What is settled grows by what stands before the name that is spread. -/
lemma IsSettled.append {settled : List Char} (h : IsSettled settled)
    (hcut : Text.cutFirst? ['.', '('] text = some (front, back)) :
    IsSettled (settled ++ beforeName front ++ ['(']) where
  noSpread := by
    have hbefore : (beforeName front).IsChain fun a b => a = '.' → b ≠ '(' := by
      have hfront := isChain_of_cutFirst? hcut
      rw [← beforeName_append_nameAtEnd front] at hfront
      exact hfront.left_of_append
    refine (h.noSpread.append hbefore fun a ha b _ hdot => ?_).append (.singleton '(') ?_
    · exact absurd (hdot ▸ ha) h.noDotLast
    · intro a ha b _ hdot
      subst hdot
      rw [List.getLast?_append, Option.mem_def, Option.or_eq_some_iff] at ha
      rcases ha with ha | ⟨-, ha⟩
      · exact absurd (isIdChar_getLast?_beforeName '.' ha) (by decide)
      · exact absurd ha h.noDotLast
  edge := by
    intro c hc
    rw [List.getLast?_concat, Option.mem_some_iff] at hc
    subst hc
    exact ⟨by decide, by decide⟩

/-- **The loop ends, and as `distributeFrom` does.**  A rewriting takes an opening parenthesis out
of what is not settled. -/
theorem stops_distributeFrom (input : String) {settled rest : List Char} (h : IsSettled settled) :
    ∃ rewritings ≤ rest.count '(',
      Stops input rewritings (settled ++ rest) (distributeFrom input settled rest) := by
  have hwhole : ∀ {settled rest front back : List Char}, IsSettled settled →
      Text.cutFirst? ['.', '('] rest = some (front, back) →
      Text.cutFirst? ['.', '('] (settled ++ rest) = some (settled ++ front, back) ∧
      nameAtEnd (settled ++ front) = nameAtEnd front ∧
      beforeName (settled ++ front) = settled ++ beforeName front ∧
      endsWide (settled ++ beforeName front) = endsWide (beforeName front) := by
    intro settled rest front back h hcut
    refine ⟨by rw [cutFirst?_append h.noSpread h.noDotLast, hcut, Option.map_some], ?_⟩
    have hedge : IsEdge settled (front ++ '.' :: ['(']) := .inl h.edge
    exact hedge.name_eq
  induction settled, rest using distributeFrom.induct with
  | case1 settled rest hcut =>
    refine ⟨0, Nat.zero_le _, ?_⟩
    rw [distributeFrom_of_none hcut]
    refine .done (round_of_none ?_)
    rw [cutFirst?_append h.noSpread h.noDotLast, hcut, Option.map_none]
  | case2 settled rest front back hcut hwide =>
    obtain ⟨hcut', hname, hbefore, hwide'⟩ := hwhole h hcut
    refine ⟨0, Nat.zero_le _, ?_⟩
    rw [distributeFrom_of_some hcut, if_pos hwide]
    refine .fault ?_
    rw [round_of_some hcut', hbefore, hwide', if_pos hwide]
  | case3 settled rest front back hcut hwide hempty =>
    obtain ⟨hcut', hname, hbefore, hwide'⟩ := hwhole h hcut
    refine ⟨0, Nat.zero_le _, ?_⟩
    rw [distributeFrom_of_some hcut, if_neg hwide, if_pos hempty]
    refine .fault ?_
    rw [round_of_some hcut', hbefore, hwide', hname, if_neg hwide, if_pos hempty]
  | case4 settled rest front back hcut hwide hempty hclose =>
    obtain ⟨hcut', hname, hbefore, hwide'⟩ := hwhole h hcut
    refine ⟨0, Nat.zero_le _, ?_⟩
    rw [distributeFrom_of_some hcut, if_neg hwide, if_neg hempty, hclose]
    refine .fault ?_
    rw [round_of_some hcut', hbefore, hwide', hname, if_neg hwide, if_neg hempty, hclose,
      byteSize_append]
  | case5 settled rest front back hcut hwide hempty inner after hclose cause hchecked =>
    obtain ⟨hcut', hname, hbefore, hwide'⟩ := hwhole h hcut
    refine ⟨0, Nat.zero_le _, ?_⟩
    rw [distributeFrom_of_some hcut, if_neg hwide, if_neg hempty, hclose]
    simp only [hchecked]
    refine .fault ?_
    rw [round_of_some hcut', hbefore, hwide', hname, if_neg hwide, if_neg hempty, hclose]
    simp only [hchecked]
  | case6 settled rest front back hcut hwide hempty inner after hclose hchecked ih =>
    obtain ⟨hcut', hname, hbefore, hwide'⟩ := hwhole h hcut
    obtain ⟨rewritings, hle, hstops⟩ := ih (h.append hcut)
    have hfewer := count_spread_lt hcut hclose (nameAtEnd_count_paren front)
    refine ⟨rewritings + 1, by omega, ?_⟩
    rw [distributeFrom_of_some hcut, if_neg hwide, if_neg hempty, hclose]
    simp only [hchecked]
    refine .rewritten ?_ hstops
    rw [round_of_some hcut', hbefore, hwide', hname, if_neg hwide, if_neg hempty, hclose]
    simp only [hchecked, List.append_assoc, List.singleton_append]

/-- There is one way to run. -/
lemma Stops.unique {rewritings others : Nat} {outcome other : Except ParseError (List Char)}
    (h : Stops input rewritings text outcome) (hother : Stops input others text other) :
    rewritings = others ∧ outcome = other := by
  induction h generalizing others with
  | done h =>
    cases hother with
    | done => exact ⟨rfl, rfl⟩
    | fault h' => rw [h] at h'; cases h'
    | rewritten h' => rw [h] at h'; cases h'
  | fault h =>
    cases hother with
    | done h' => rw [h] at h'; cases h'
    | fault h' => rw [h] at h'; cases h'; exact ⟨rfl, rfl⟩
    | rewritten h' => rw [h] at h'; cases h'
  | rewritten h _ ih =>
    cases hother with
    | done h' => rw [h] at h'; cases h'
    | fault h' => rw [h] at h'; cases h'
    | rewritten h' hnext =>
      rw [h] at h'
      cases h'
      obtain ⟨rfl, rfl⟩ := ih hnext
      exact ⟨rfl, rfl⟩

/-- Everything that a round can come to, and where. -/
inductive RoundCase (input : String) (text : List Char) : Round → Prop where
  | done (h : ¬ ['.', '('] <:+: text) : RoundCase input text .done
  | wide {front back : List Char} (htext : text = front ++ '.' :: '(' :: back)
      (hwide : endsWide (beforeName front) = true) :
      RoundCase input text (.fault (.cutInsideCharacter input))
  | unnamed : RoundCase input text (.fault (.malformed input))
  | unclosed {front back : List Char} (htext : text = front ++ '.' :: '(' :: back)
      (hclose : closeGroup 0 back = none) (position : Nat) :
      RoundCase input text (.fault (.unbalanced input position))
  | blank (shown : String) : RoundCase input text (.fault (.emptyOperand shown))
  | rewritten {front inner after : List Char}
      (htext : text = front ++ '.' :: '(' :: (inner ++ ')' :: after)) (hinner : IsBalanced inner) :
      RoundCase input text (.rewritten (beforeName front ++
        '(' :: (alternatives (nameAtEnd front) (splitTop '|' inner) ++ ')' :: after)))

/-- Every round is one of these cases. -/
theorem roundCase (input : String) (text : List Char) :
    RoundCase input text (round input text) := by
  cases hcut : Text.cutFirst? ['.', '('] text with
  | none =>
    rw [round_of_none hcut]
    exact .done (Text.cutFirst?_eq_none_iff.mp hcut)
  | some cut =>
    obtain ⟨front, back⟩ := cut
    have htext : text = front ++ '.' :: '(' :: back := by
      rw [Text.cutFirst?_eq hcut, List.append_assoc]
      rfl
    rw [round_of_some hcut]
    split
    · next hwide => exact .wide htext hwide
    split
    · exact .unnamed
    split
    · next hclose => exact .unclosed htext hclose _
    next inner after hclose =>
    split
    · next cause hchecked =>
      rw [checkOperands] at hchecked
      split at hchecked
      · cases hchecked
        exact .blank _
      · cases hchecked
    · refine .rewritten ?_ (depthAfter_of_closeGroup hclose)
      rw [htext, closeGroup_eq hclose]

end Rounds

/-! ## What a round keeps -/

section Balance

variable {input : String} {text next : List Char}

/-- Inside a group that is closed later on, the partner of its parenthesis is found. -/
lemma exists_closeGroup {outer depth after : Nat} {text : List Char}
    (h : depthAfter (outer + 1 + depth) text = some after) (hle : after ≤ outer) :
    ∃ inner rest, closeGroup depth text = some (inner, rest) := by
  induction text generalizing depth with
  | nil =>
    rw [depthAfter_nil, Option.some.injEq] at h
    omega
  | cons c cs ih =>
    rw [closeGroup]
    by_cases hc : c = ')'
    · subst hc
      rw [if_pos rfl]
      cases depth with
      | zero => exact ⟨[], cs, if_pos rfl⟩
      | succ depth =>
        rw [← Nat.add_assoc, depthAfter_close] at h
        obtain ⟨inner, rest, hclose⟩ := ih h
        refine ⟨')' :: inner, rest, ?_⟩
        rw [if_neg (Nat.succ_ne_zero depth), Nat.add_sub_cancel, hclose, Option.map_some]
    · rw [if_neg hc]
      by_cases ho : c = '('
      · subst ho
        rw [depthAfter_open, Nat.add_assoc] at h
        obtain ⟨inner, rest, hclose⟩ := ih h
        exact ⟨'(' :: inner, rest, by rw [if_pos rfl, hclose, Option.map_some]⟩
      · rw [depthAfter_other ho hc] at h
        obtain ⟨inner, rest, hclose⟩ := ih h
        exact ⟨c :: inner, rest, by rw [if_neg ho, hclose, Option.map_some]⟩

lemma isBalanced_alternatives {name inner : List Char} (hname : ∀ c ∈ name, isIdChar c = true)
    (hinner : IsBalanced inner) : IsBalanced (alternatives name (splitTop '|' inner)) := by
  have hplain : IsBalanced name := .of_plain fun c hc => ne_paren_of_isIdChar (hname c hc)
  refine .joinWith (by decide) (by decide) (List.forall_mem_map.mpr fun part hpart => ?_)
  have hpart := (hinner.of_mem_splitTop (by decide) (by decide) hpart).trim
  refine hplain.append ?_
  rwa [IsBalanced, depthAfter_other (by decide) (by decide)]

/-- How deep the name stands that is spread, and what is behind it. -/
lemma IsBalanced.exists_depth {front back : List Char}
    (h : IsBalanced (front ++ '.' :: '(' :: back)) :
    ∃ depth, depthAfter 0 (beforeName front) = some depth ∧
      depthAfter (depth + 1) back = some 0 := by
  have hname : ∀ depth, depthAfter depth (nameAtEnd front) = some depth :=
    depthAfter_of_plain fun c hc => ne_paren_of_isIdChar (isIdChar_of_mem_nameAtEnd hc)
  rw [IsBalanced, ← beforeName_append_nameAtEnd front, depthAfter_append, depthAfter_append] at h
  obtain ⟨depth, hfront, hback⟩ := Option.bind_eq_some_iff.mp h
  obtain ⟨before, hbefore, hdepth⟩ := Option.bind_eq_some_iff.mp hfront
  rw [hname, Option.some.injEq] at hdepth
  subst hdepth
  rw [depthAfter_other (by decide) (by decide), depthAfter_open] at hback
  exact ⟨before, hbefore, hback⟩

/-- **A rewriting keeps the balance.** -/
lemma IsBalanced.round (h : IsBalanced text) (hround : round input text = .rewritten next) :
    IsBalanced next := by
  have hcase := roundCase input text
  rw [hround] at hcase
  cases hcase with
  | @rewritten front inner after htext hinner =>
  subst htext
  obtain ⟨depth, hbefore, hback⟩ := h.exists_depth
  have hname : ∀ c ∈ nameAtEnd front, isIdChar c = true := fun _ hc => isIdChar_of_mem_nameAtEnd hc
  have halternatives := isBalanced_alternatives hname hinner
  rw [depthAfter_append, hinner.depthAfter_eq, Option.bind_some, depthAfter_close] at hback
  rw [IsBalanced, depthAfter_append, hbefore, Option.bind_some, depthAfter_open, depthAfter_append,
    halternatives.depthAfter_eq, Option.bind_some, depthAfter_close, hback]

end Balance

/-- In front of every name that is to be spread stands a character of one byte, or nothing. -/
def IsNarrow (text : List Char) : Prop :=
  ∀ front back, text = front ++ '.' :: '(' :: back → endsWide (beforeName front) = false

namespace IsNarrow

variable {front back part name : List Char} {c : Char}

lemma of_forall {text : List Char} (h : ∀ c ∈ text, c.utf8Size = 1) : IsNarrow text := by
  rintro front back rfl
  rw [endsWide]
  split
  · next c hlast =>
    have hmem : c ∈ front := by
      rw [← beforeName_append_nameAtEnd front]
      exact List.mem_append_left _ (List.mem_of_getLast? hlast)
    rw [h c (List.mem_append_left _ hmem)]
    decide
  · rfl

lemma of_nothing_to_spread {text : List Char} (h : ¬ ['.', '('] <:+: text) : IsNarrow text := by
  rintro front back rfl
  exact absurd ⟨front, back, by simp⟩ h

lemma left (h : IsNarrow (front ++ back)) : IsNarrow front := by
  rintro before after rfl
  exact h before (after ++ back) (by simp)

lemma beforeName_delimiter (hc : IsDelimiter c) (front part : List Char) :
    endsWide (beforeName (front ++ c :: part)) = endsWide (beforeName part) := by
  have hbefore : beforeName (front ++ c :: part) = front ++ [c] ++ beforeName part := by
    rw [beforeName, beforeName, List.reverse_append, List.reverse_cons, List.append_assoc,
      List.singleton_append, dropWhile_append_delimiter hc.isIdChar_eq]
    simp
  rw [hbefore]
  by_cases hnil : beforeName part = []
  · rw [hnil, List.append_nil, endsWide_append (List.cons_ne_nil c [])]
    simp [endsWide, hc.utf8Size_eq]
  · exact endsWide_append hnil _

lemma right (hc : IsDelimiter c) (h : IsNarrow (front ++ c :: back)) : IsNarrow back := by
  rintro before after rfl
  rw [← beforeName_delimiter hc front]
  exact h (front ++ c :: before) after (by simp)

/-- What is put together at a delimiter, if it does not make a name of what is before it. -/
lemma append (hc : IsDelimiter c) (hfront : IsNarrow front) (hback : IsNarrow back)
    (hdot : c = '(' → front.getLast? ≠ some '.') : IsNarrow (front ++ c :: back) := by
  have hne : c ≠ '.' := by
    rintro rfl
    exact absurd hc.isIdChar_eq (by decide)
  intro before after heq
  obtain ⟨middle, rfl, hmiddle⟩ | ⟨middle, rfl, hmiddle⟩ := List.append_eq_append_iff.mp heq
  · cases middle with
    | nil => exact absurd (List.cons.inj hmiddle).1 hne
    | cons d ds =>
      obtain ⟨rfl, rfl⟩ := List.cons.inj hmiddle
      rw [beforeName_delimiter hc]
      exact hback ds after rfl
  · match middle with
    | [] => exact absurd (List.cons.inj hmiddle).1.symm hne
    | [d] =>
      obtain ⟨rfl, hrest⟩ := List.cons.inj hmiddle
      exact absurd (by simp) (hdot (List.cons.inj hrest).1.symm)
    | d :: e :: es =>
      simp only [List.cons_append, List.cons.injEq] at hmiddle
      obtain ⟨rfl, rfl, -⟩ := hmiddle
      exact hfront before es rfl

/-- A name before a trimmed part of a text. -/
lemma qualified (hname : ∀ c ∈ name, isIdChar c = true) (h : IsNarrow part) :
    IsNarrow (name ++ '.' :: Text.trim part) := by
  intro front back heq
  have hchars : ∀ c ∈ name ++ ['.'], isIdChar c = true :=
    List.forall_mem_append.mpr ⟨hname, List.forall_mem_singleton.mpr (by decide)⟩
  rw [List.append_cons] at heq
  obtain ⟨middle, rfl, hmiddle⟩ | ⟨middle, hfront, -⟩ := List.append_eq_append_iff.mp heq
  · -- behind the name: what ends the run of id characters ends it in the part too
    obtain ⟨before, after, -, -, hpart⟩ := Text.exists_eq_trim part
    have hwide := h (before ++ middle) (back ++ after) (by rw [hpart, hmiddle]; simp)
    have hends : ∀ front : List Char, middle.all isIdChar = false →
        endsWide (beforeName (front ++ middle)) = endsWide (beforeName middle) := by
      intro front hall
      have hne : middle.reverse.dropWhile isIdChar ≠ [] := by
        rw [Ne, List.dropWhile_eq_nil_iff]
        intro hmem
        rw [List.all_eq_true.mpr fun c hc => hmem c (List.mem_reverse.mpr hc)] at hall
        cases hall
      rw [beforeName, beforeName, List.reverse_append, List.dropWhile_append,
        if_neg (by simpa using hne), List.reverse_append, List.reverse_reverse]
      exact endsWide_append (by simpa using hne) front
    by_cases hall : middle.all isIdChar = true
    · have hid : ∀ c ∈ (name ++ ['.'] ++ middle).reverse, isIdChar c = true := fun c hc =>
        (List.mem_append.mp (List.mem_reverse.mp hc)).elim (hchars c) (List.all_eq_true.mp hall c)
      rw [beforeName, List.dropWhile_eq_nil_iff.mpr hid]
      rfl
    · rw [Bool.not_eq_true] at hall
      rwa [hends _ hall, ← hends before hall]
  · -- inside the name
    have hid : ∀ c ∈ front.reverse, isIdChar c = true := fun c hc =>
      hchars c (by rw [hfront]; exact List.mem_append_left _ (List.mem_reverse.mp hc))
    rw [beforeName, List.dropWhile_eq_nil_iff.mpr hid]
    rfl

lemma alternatives (hname : ∀ c ∈ name, isIdChar c = true) {parts : List (List Char)}
    (h : IsNarrow (joinWith '|' parts)) : IsNarrow (alternatives name parts) := by
  have hbar : IsDelimiter '|' := ⟨by decide, by decide⟩
  rw [Term.alternatives]
  induction parts with
  | nil => exact .of_forall fun c hc => absurd hc List.not_mem_nil
  | cons part rest ih =>
    cases rest with
    | nil => exact .qualified hname h
    | cons second others =>
      rw [joinWith_cons_cons] at h
      rw [List.map_cons, List.map_cons, joinWith_cons_cons]
      refine .append hbar (.qualified hname h.left) (ih (h.right hbar)) fun hdot => ?_
      exact absurd hdot (by decide)

/-- **A rewriting leaves names where characters of one byte end.** -/
lemma round {input : String} {text next : List Char} (h : IsNarrow text)
    (hround : round input text = .rewritten next) : IsNarrow next := by
  have hopen : IsDelimiter '(' := ⟨by decide, by decide⟩
  have hclose : IsDelimiter ')' := ⟨by decide, by decide⟩
  have hcase := roundCase input text
  rw [hround] at hcase
  cases hcase with
  | @rewritten front inner after htext hinner =>
  subst htext
  have hback : IsNarrow (inner ++ ')' :: after) := by
    rw [List.append_cons] at h
    exact h.right hopen
  have hinner : IsNarrow (joinWith '|' (splitTop '|' inner)) := by
    rw [joinWith_splitTop]
    exact hback.left
  have hbefore : IsNarrow (beforeName front) := by
    rw [← beforeName_append_nameAtEnd front, List.append_assoc] at h
    exact h.left
  have hgroup : IsNarrow
      (Term.alternatives (nameAtEnd front) (splitTop '|' inner) ++ ')' :: after) := by
    refine .append hclose ?_ (hback.right hclose) fun hdot => absurd hdot (by decide)
    exact hinner.alternatives fun c hc => isIdChar_of_mem_nameAtEnd hc
  refine .append hopen hbefore hgroup fun _ hdot => ?_
  exact absurd (isIdChar_getLast?_beforeName '.' hdot) (by decide)

end IsNarrow

/-! ## What a run ends with -/

section Runs

variable {input : String} {text : List Char} {rewritings : Nat}
  {outcome : Except ParseError (List Char)}

/-- A run on a balanced text ends with a balanced one without names to spread, or with a fault,
which is not that a parenthesis has no partner. -/
theorem Stops.of_balanced (h : Stops input rewritings text outcome) (hbalanced : IsBalanced text) :
    (∀ result, outcome = .ok result → IsBalanced result ∧ ¬ ['.', '('] <:+: result) ∧
      ∀ cause, outcome = .error cause → cause = .cutInsideCharacter input ∨
        cause = .malformed input ∨ ∃ shown, cause = .emptyOperand shown := by
  induction h with
  | @done text h =>
    have hcase := roundCase input text
    rw [h] at hcase
    refine ⟨fun result heq => ?_, nofun⟩
    cases heq
    cases hcase with
    | done hspread => exact ⟨hbalanced, hspread⟩
  | @fault text cause h =>
    have hcase := roundCase input text
    rw [h] at hcase
    refine ⟨nofun, fun _ heq => ?_⟩
    cases heq
    cases hcase with
    | wide => exact .inl rfl
    | unnamed => exact .inr (.inl rfl)
    | unclosed htext hclose =>
      obtain ⟨depth, -, hback⟩ := (htext ▸ hbalanced).exists_depth
      have hsome : ∃ inner rest, closeGroup 0 _ = some (inner, rest) :=
        exists_closeGroup hback (Nat.zero_le depth)
      rw [hclose] at hsome
      exact nomatch hsome
    | blank shown => exact .inr (.inr ⟨shown, rfl⟩)
  | rewritten h _ ih => exact ih (hbalanced.round h)

/-- Nothing is cut where names begin behind characters of one byte. -/
theorem Stops.of_narrow (h : Stops input rewritings text outcome) (hnarrow : IsNarrow text) :
    outcome ≠ .error (.cutInsideCharacter input) := by
  induction h with
  | done => exact nofun
  | @fault text cause h =>
    have hcase := roundCase input text
    rw [h] at hcase
    intro heq
    cases heq
    cases hcase with
    | wide htext hwide =>
      rw [hnarrow _ _ htext] at hwide
      cases hwide
  | rewritten h _ ih => exact ih (hnarrow.round h)

/-- **Names are spread in a bounded number of rounds.**  On a balanced text in which every name to
be spread begins with the text or behind a character of one byte, the loop stops after no more
rewritings than the text has opening parentheses, in one way, which is what `distribute` does.  It
never cuts inside a character, and the counter never falls below zero.  It ends with a balanced text
in which no name is left to spread, or with a name that is missing or an operand that is blank. -/
theorem stops_distribute {text : List Char} (hbalanced : IsBalanced text)
    (hnarrow : IsNarrow text) :
    (∃ rewritings ≤ text.count '(', ∀ others outcome,
      Stops (String.ofList text) others text outcome ↔
        others = rewritings ∧ outcome = distribute text) ∧
    (∀ result, distribute text = .ok result → IsBalanced result ∧ ¬ ['.', '('] <:+: result) ∧
    ∀ cause, distribute text = .error cause →
      cause = .malformed (String.ofList text) ∨ ∃ shown, cause = .emptyOperand shown := by
  have hsettled : IsSettled [] := ⟨.nil, nofun⟩
  obtain ⟨rewritings, hle, hstops⟩ : ∃ rewritings ≤ text.count '(',
      Stops (String.ofList text) rewritings text (distribute text) :=
    stops_distributeFrom (String.ofList text) hsettled
  obtain ⟨hok, herror⟩ := hstops.of_balanced hbalanced
  refine ⟨⟨rewritings, hle, fun others outcome => ⟨fun h => h.unique hstops, ?_⟩⟩, hok, ?_⟩
  · rintro ⟨rfl, rfl⟩
    exact hstops
  · intro cause hcause
    refine (herror cause hcause).resolve_left ?_
    rintro rfl
    exact hstops.of_narrow hnarrow hcause

/-- Alternatives that begin with groups of their own, and a character of two bytes beside them: one
rewriting for each opening parenthesis. -/
theorem stops_distribute_nested :
    let text := "é|a.((b|c.(d))|x.(e|f))".toList
    let spread := "é|((a.b|(a.c.d))|(a.x.e|a.x.f))".toList
    IsBalanced text ∧ IsNarrow text ∧ text.count '(' = 4 ∧ distribute text = .ok spread ∧
      Stops (String.ofList text) 4 text (.ok spread) ∧
      IsBalanced spread ∧ ¬ ['.', '('] <:+: spread := by
  intro text spread
  have hbalanced : depthAfter 0 text = some 0 := by decide
  have hbar : IsDelimiter '|' := ⟨by decide, by decide⟩
  have hnarrow : IsNarrow text := by
    have hwide : IsNarrow ['é'] := .of_nothing_to_spread (by decide)
    have hsize : ("a.((b|c.(d))|x.(e|f))".toList.all fun c => c.utf8Size = 1) = true := by cbv
    have hrest : IsNarrow "a.((b|c.(d))|x.(e|f))".toList :=
      .of_forall fun c hc => of_decide_eq_true (List.all_eq_true.mp hsize c hc)
    exact .append hbar hwide hrest fun hdot => absurd hdot (by decide)
  have hrun : ∀ input, Stops input 4 text (.ok spread) := by
    intro input
    have hfirst : round input "é|a.((b|c.(d))|x.(e|f))".toList =
      .rewritten "é|(a.(b|c.(d))|a.x.(e|f))".toList := by cbv
    have hsecond : round input "é|(a.(b|c.(d))|a.x.(e|f))".toList =
      .rewritten "é|((a.b|a.c.(d))|a.x.(e|f))".toList := by cbv
    have hthird : round input "é|((a.b|a.c.(d))|a.x.(e|f))".toList =
      .rewritten "é|((a.b|(a.c.d))|a.x.(e|f))".toList := by cbv
    have hfourth : round input "é|((a.b|(a.c.d))|a.x.(e|f))".toList =
      .rewritten "é|((a.b|(a.c.d))|(a.x.e|a.x.f))".toList := by cbv
    have hdone : round input "é|((a.b|(a.c.d))|(a.x.e|a.x.f))".toList = .done := by cbv
    refine .rewritten hfirst (.rewritten hsecond (.rewritten hthird ?_))
    exact .rewritten hfourth (.done hdone)
  obtain ⟨⟨rewritings, -, hstops⟩, hok, -⟩ := stops_distribute hbalanced hnarrow
  obtain ⟨-, hspread⟩ := (hstops 4 (.ok spread)).mp (hrun _)
  exact ⟨hbalanced, hnarrow, by decide, hspread.symm, hrun _, hok spread hspread.symm⟩

end Runs

end QueryTerms.Term
