import QueryTerms.Proofs.Term.Loops
import QueryTerms.Proofs.Term.Rounds

/-!
# Unbalanced parentheses

Whether the parentheses of a text are balanced is found out once, before anything is read.  This
file shows that the fault is reported exactly then, and where.

**Counting.**  The counter runs through a text as long as no part from its beginning closes more
parentheses than it opens (`depthAfter_eq_some_iff`).  It stops at the first one that does, else at
the end: `isUnbalancedAt_of_unbalancedAt?`.

**Reading.**  Spreading names in a balanced text never comes to a group without an end
(`not_reportsUnbalanced_distribute`), and reading reports other faults, also in texts that aliases
bring in (`not_reportsUnbalanced_readNested`).

**Both.**  `parseWith_unbalanced_iff`.
-/

namespace QueryTerms.Term

/-- More parentheses are closed than opened. -/
def Overcloses (text : List Char) : Prop := text.count '(' < text.count ')'

/-- Where the parentheses of a text go wrong, in bytes. -/
inductive IsUnbalancedAt (text : List Char) : Nat → Prop where
  /-- At the first parenthesis that makes a part from the beginning close too many. -/
  | closing {front back : List Char} (htext : text = front ++ ')' :: back)
      (hfront : ∀ part, part <+: front → ¬ Overcloses part) (h : Overcloses (front ++ [')'])) :
      IsUnbalancedAt text (String.ofList front).utf8ByteSize
  /-- At the end, where a parenthesis is left open. -/
  | opening (hparts : ∀ part, part <+: text → ¬ Overcloses part)
      (h : text.count ')' < text.count '(') : IsUnbalancedAt text (String.ofList text).utf8ByteSize

/-! ## Counting -/

section Counting

variable {depth offset after position : Nat} {text : List Char}

lemma byteSize_eq (text : List Char) : byteSize text = (String.ofList text).utf8ByteSize := by
  induction text with
  | nil => rfl
  | cons c cs ih =>
    have hsplit : String.ofList (c :: cs) = String.singleton c ++ String.ofList cs := by
      rw [String.singleton_eq_ofList, ← String.ofList_append, List.singleton_append]
    rw [byteSize, ih, hsplit, String.utf8ByteSize_append, String.utf8ByteSize_singleton]

lemma forall_prefix_cons_iff {c : Char} {cs : List Char} {P : List Char → Prop} :
    (∀ part, part <+: c :: cs → P part) ↔ P [] ∧ ∀ part, part <+: cs → P (c :: part) := by
  simp only [List.prefix_cons_iff]
  refine ⟨fun h => ⟨h [] (.inl rfl), fun part hpart => h _ (.inr ⟨part, rfl, hpart⟩)⟩, ?_⟩
  rintro ⟨hnil, hrest⟩ part (rfl | ⟨part, rfl, hpart⟩)
  · exact hnil
  · exact hrest part hpart

/-- The counter goes on as long as no part from the beginning takes it below zero. -/
lemma depthAfter_eq_some_iff (depth : Nat) :
    depthAfter depth text = some after ↔
      (∀ part, part <+: text → part.count ')' ≤ depth + part.count '(') ∧
        text.count ')' + after = depth + text.count '(' := by
  induction text generalizing depth with
  | nil =>
    simp only [depthAfter_nil, Option.some.injEq, List.prefix_nil, List.count_nil, forall_eq]
    omega
  | cons c cs ih =>
    rw [forall_prefix_cons_iff]
    by_cases ho : c = '('
    · subst ho
      rw [depthAfter_open, ih (depth + 1)]
      simp [Nat.add_assoc, Nat.add_comm 1]
    · by_cases hc : c = ')'
      · subst hc
        cases depth with
        | zero =>
          rw [depthAfter_close_zero]
          refine iff_of_false nofun fun h => ?_
          have hhere := h.1.2 [] List.nil_prefix
          simp at hhere
        | succ outer =>
          rw [depthAfter_close, ih outer]
          simp only [List.count_cons_self, List.count_cons_of_ne (show ')' ≠ '(' by decide),
            List.count_nil]
          refine and_congr ?_ (by omega)
          rw [and_iff_right (Nat.zero_le _)]
          exact forall₂_congr fun part _ => by omega
      · rw [depthAfter_other ho hc, ih depth]
        simp [ho, hc]

/-- The counter stops at a parenthesis without a partner, or it ends above zero. -/
lemma exists_of_unbalancedAt? (h : unbalancedAt? depth offset text = some position) :
    (∃ front back, text = front ++ ')' :: back ∧ depthAfter depth front = some 0 ∧
        position = offset + byteSize front) ∨
      ∃ after, depthAfter depth text = some (after + 1) ∧ position = offset + byteSize text := by
  induction text generalizing depth offset with
  | nil =>
    rw [unbalancedAt?] at h
    cases depth with
    | zero => cases h
    | succ outer =>
      cases h
      exact .inr ⟨outer, rfl, rfl⟩
  | cons c cs ih =>
    -- the rest of the text is checked behind one more character
    have hstep : ∀ {deeper : Nat}, (∀ cs, depthAfter depth (c :: cs) = depthAfter deeper cs) →
        unbalancedAt? deeper (offset + c.utf8Size) cs = some position →
        (∃ front back, c :: cs = front ++ ')' :: back ∧ depthAfter depth front = some 0 ∧
            position = offset + byteSize front) ∨
          ∃ after, depthAfter depth (c :: cs) = some (after + 1) ∧
            position = offset + byteSize (c :: cs) := by
      intro deeper hdepth hcs
      rcases ih hcs with ⟨front, back, rfl, hfront, rfl⟩ | ⟨after, hafter, rfl⟩
      · exact .inl ⟨c :: front, back, rfl, by rw [hdepth, hfront], by rw [byteSize, Nat.add_assoc]⟩
      · exact .inr ⟨after, by rw [hdepth, hafter], by rw [byteSize, Nat.add_assoc]⟩
    rw [unbalancedAt?] at h
    split at h
    · next ho =>
      subst ho
      exact hstep (depthAfter_open depth) h
    next ho =>
    split at h
    · next hc =>
      subst hc
      cases depth with
      | zero =>
        cases h
        exact .inl ⟨[], cs, rfl, rfl, rfl⟩
      | succ outer =>
        rw [if_neg (Nat.succ_ne_zero outer), Nat.add_sub_cancel] at h
        exact hstep (depthAfter_close outer) h
    next hc => exact hstep (depthAfter_other ho hc depth) h

lemma isBalanced_iff :
    IsBalanced text ↔
      (∀ part, part <+: text → ¬ Overcloses part) ∧ text.count ')' = text.count '(' := by
  simp only [IsBalanced, depthAfter_eq_some_iff 0, Overcloses, Nat.zero_add, Nat.add_zero, not_lt]

lemma not_isBalanced_iff :
    ¬ IsBalanced text ↔
      (∃ part, part <+: text ∧ Overcloses part) ∨ text.count ')' < text.count '(' := by
  rw [isBalanced_iff, not_and_or, not_forall]
  simp only [Classical.not_imp, not_not]
  constructor
  · rintro (hpart | hcount)
    · exact .inl hpart
    · rcases Nat.lt_or_gt_of_ne hcount with hlt | hlt
      · exact .inr hlt
      · exact .inl ⟨text, List.prefix_refl text, hlt⟩
  · rintro (hpart | hcount)
    · exact .inl hpart
    · exact .inr hcount.ne

/-- **Where the check stops.** -/
theorem isUnbalancedAt_of_unbalancedAt? (h : unbalancedAt? 0 0 text = some position) :
    IsUnbalancedAt text position := by
  rcases exists_of_unbalancedAt? h with ⟨front, back, rfl, hfront, rfl⟩ | ⟨after, hafter, rfl⟩
  · rw [Nat.zero_add, byteSize_eq]
    obtain ⟨hparts, hcount⟩ := isBalanced_iff.mp hfront
    refine .closing rfl hparts ?_
    rw [Overcloses, List.count_append, List.count_append, hcount]
    simp
  · rw [Nat.zero_add, byteSize_eq]
    obtain ⟨hparts, hcount⟩ := (depthAfter_eq_some_iff 0).mp hafter
    refine .opening (fun part hpart => ?_) (by omega)
    rw [Overcloses, not_lt, ← Nat.zero_add (part.count '(')]
    exact hparts part hpart

end Counting

/-! ## Reading -/

/-- What is reported is a parenthesis without a partner. -/
def ReportsUnbalanced {α : Type} (outcome : Except ParseError α) : Prop :=
  ∃ shown position, outcome = .error (.unbalanced shown position)

section Steps

variable {α β : Type}

lemma not_reportsUnbalanced_error {cause : ParseError}
    (h : ∀ shown position, cause ≠ .unbalanced shown position) :
    ¬ ReportsUnbalanced (.error cause : Except ParseError α) := by
  rintro ⟨shown, position, hcause⟩
  exact h shown position (Except.error.inj hcause)

lemma not_reportsUnbalanced_ok (value : α) :
    ¬ ReportsUnbalanced (.ok value : Except ParseError α) := by
  rintro ⟨shown, position, h⟩
  cases h

lemma not_reportsUnbalanced_bind {step : Except ParseError α} {next : α → Except ParseError β}
    (hstep : ¬ ReportsUnbalanced step) (hnext : ∀ value, ¬ ReportsUnbalanced (next value)) :
    ¬ ReportsUnbalanced (step >>= next) := by
  cases step with
  | error cause =>
    rintro ⟨shown, position, h⟩
    exact hstep ⟨shown, position, congrArg _ (Except.error.inj h)⟩
  | ok value => exact hnext value

lemma not_reportsUnbalanced_map {step : Except ParseError α} (f : α → β)
    (hstep : ¬ ReportsUnbalanced step) : ¬ ReportsUnbalanced (f <$> step) := by
  cases step with
  | error cause =>
    rintro ⟨shown, position, h⟩
    exact hstep ⟨shown, position, congrArg _ (Except.error.inj h)⟩
  | ok value => exact not_reportsUnbalanced_ok _

lemma not_reportsUnbalanced_mapM {step : α → Except ParseError β}
    (hstep : ∀ item, ¬ ReportsUnbalanced (step item)) (items : List α) :
    ¬ ReportsUnbalanced (items.mapM step) := by
  induction items with
  | nil => exact not_reportsUnbalanced_ok _
  | cons item rest ih =>
    rw [List.mapM_cons]
    refine not_reportsUnbalanced_bind (hstep item) fun first => ?_
    exact not_reportsUnbalanced_bind ih fun others =>
      not_reportsUnbalanced_ok _

end Steps

section Readers

variable {aliases : Aliases} {nested : Reader}

lemma not_reportsUnbalanced_checkOperands (whole : List Char) (parts : List (List Char)) :
    ¬ ReportsUnbalanced (checkOperands whole parts) := by
  rw [checkOperands]
  split
  · exact not_reportsUnbalanced_error (by simp)
  · exact not_reportsUnbalanced_ok _

lemma not_reportsUnbalanced_readId (id : List Char) : ¬ ReportsUnbalanced (readId id) := by
  rw [readId]
  split
  · exact not_reportsUnbalanced_ok _
  · exact not_reportsUnbalanced_error (by simp)

lemma not_reportsUnbalanced_readOperands (sep : Char) (compose : List Term → Term) {next : Reader}
    (hnext : ∀ text, ¬ ReportsUnbalanced (next text)) (text : List Char) :
    ¬ ReportsUnbalanced (readOperands sep compose next text) := by
  rw [readOperands]
  split
  · exact hnext text
  · refine not_reportsUnbalanced_bind (not_reportsUnbalanced_checkOperands _ _) fun _ => ?_
    exact not_reportsUnbalanced_map _ (not_reportsUnbalanced_mapM hnext _)

variable (hnested : ∀ text, ¬ ReportsUnbalanced (nested text))
include hnested

lemma not_reportsUnbalanced_readGroup (text id inner : List Char) :
    ¬ ReportsUnbalanced (readGroup aliases nested text id inner) := by
  rw [readGroup]
  split
  · exact not_reportsUnbalanced_error (by simp)
  refine not_reportsUnbalanced_bind (not_reportsUnbalanced_checkOperands _ _) fun _ => ?_
  split
  · split
    · exact hnested _
    · exact not_reportsUnbalanced_error (by simp)
  · refine not_reportsUnbalanced_bind (not_reportsUnbalanced_readId _) fun name => ?_
    exact not_reportsUnbalanced_map _ (not_reportsUnbalanced_mapM (fun _ => hnested _) _)

lemma not_reportsUnbalanced_readAtom (text : List Char) :
    ¬ ReportsUnbalanced (readAtom aliases nested text) := by
  rw [readAtom]
  split
  · exact not_reportsUnbalanced_error (by simp)
  split
  · split
    · exact not_reportsUnbalanced_error (by simp)
    · exact not_reportsUnbalanced_map _ (not_reportsUnbalanced_readId _)
  split
  · exact not_reportsUnbalanced_readGroup hnested _ _ _
  · exact not_reportsUnbalanced_error (by simp)

end Readers

/-- Whatever is read, whether it is balanced or not. -/
lemma not_reportsUnbalanced_readNested (aliases : Aliases) (levels : Nat) (text : List Char) :
    ¬ ReportsUnbalanced (readNested aliases levels text) := by
  induction levels generalizing text with
  | zero => exact not_reportsUnbalanced_error (by simp)
  | succ levels ih =>
    have hatom : ∀ text, ¬ ReportsUnbalanced (readAtom aliases (readNested aliases levels) text) :=
      not_reportsUnbalanced_readAtom ih
    have hfilter := not_reportsUnbalanced_readOperands ':' .filter hatom
    have hattach := not_reportsUnbalanced_readOperands '+' .attach hfilter
    exact not_reportsUnbalanced_readOperands '|' .merge hattach text

lemma not_reportsUnbalanced_distribute {text : List Char} (h : IsBalanced text) :
    ¬ ReportsUnbalanced (distribute text) := by
  rintro ⟨shown, position, hdistribute⟩
  have hsettled : IsSettled [] := ⟨.nil, nofun⟩
  obtain ⟨rewritings, -, hstops⟩ := stops_distributeFrom (String.ofList text) hsettled
  obtain hcut | hmalformed | ⟨shown', hempty⟩ := (hstops.of_balanced h).2 _ hdistribute
  · cases hcut
  · cases hmalformed
  · cases hempty

lemma parseWith_of_unbalanced {text : String} {position : Nat}
    (h : unbalancedAt? 0 0 text.toList = some position) (aliases : Aliases) :
    parseWith aliases text = .error (.unbalanced text position) := by
  rw [parseWith, h]

lemma not_reportsUnbalanced_parseWith {text : String} (h : IsBalanced text.toList)
    (aliases : Aliases) : ¬ ReportsUnbalanced (parseWith aliases text) := by
  rw [parseWith, (unbalancedAt?_eq_none_iff 0 0 _).mpr h]
  exact not_reportsUnbalanced_bind (not_reportsUnbalanced_distribute h) fun spread =>
    not_reportsUnbalanced_readNested aliases _ spread

/-- The search for the end of an atom's group, from its first parenthesis on. -/
def groupEnd (atom : List Char) : Partner := partner 0 (atom.dropWhile (· != '('))

/-- The reader finds what this search does. -/
lemma groupEnd_eq (atom : List Char) :
    groupEnd atom =
      match closeGroup 0 ((atom.dropWhile (· != '(')).drop 1) with
      | some (inner, rest) => .found ('(' :: inner) rest
      | none => .missing := by
  rw [groupEnd]
  cases hdrop : atom.dropWhile (· != '(') with
  | nil => rfl
  | cons c cs =>
    have hc : c = '(' := by
      have hhead := List.head?_dropWhile_not (· != '(') atom
      rw [hdrop] at hhead
      simpa using hhead
    rw [hc, List.drop_succ_cons, List.drop_zero]
    exact partner_open cs

/-- **Unbalanced parentheses are reported exactly.**  The fault is reported if and only if some part
of the text from its beginning closes more parentheses than it opens, or the text leaves one open,
and it is reported at the byte where that is found out.  It is never reported for what is read
later, balanced or not, nor does a counter fall below zero there. -/
theorem parseWith_unbalanced_iff (aliases : Aliases) (text : String) :
    (ReportsUnbalanced (parseWith aliases text) ↔
      (∃ part, part <+: text.toList ∧ Overcloses part) ∨
        text.toList.count ')' < text.toList.count '(') ∧
    (∀ shown position, parseWith aliases text = .error (.unbalanced shown position) →
      shown = text ∧ IsUnbalancedAt text.toList position) ∧
    (∀ levels read, ¬ ReportsUnbalanced (readNested aliases levels read)) ∧
    ∀ atom, groupEnd atom =
      match closeGroup 0 ((atom.dropWhile (· != '(')).drop 1) with
      | some (inner, rest) => .found ('(' :: inner) rest
      | none => .missing := by
  refine ⟨?_, fun shown position h => ?_, not_reportsUnbalanced_readNested aliases, groupEnd_eq⟩
  · rw [← not_isBalanced_iff]
    refine ⟨fun h hbalanced => not_reportsUnbalanced_parseWith hbalanced aliases h, fun h => ?_⟩
    rw [IsBalanced, ← unbalancedAt?_eq_none_iff 0 0] at h
    obtain ⟨position, hposition⟩ := Option.ne_none_iff_exists'.mp h
    exact ⟨text, position, parseWith_of_unbalanced hposition aliases⟩
  · cases hcheck : unbalancedAt? 0 0 text.toList with
    | none =>
      have hbalanced : IsBalanced text.toList := (unbalancedAt?_eq_none_iff 0 0 _).mp hcheck
      exact absurd ⟨shown, position, h⟩ (not_reportsUnbalanced_parseWith hbalanced aliases)
    | some found =>
      rw [parseWith_of_unbalanced hcheck] at h
      cases h
      exact ⟨rfl, isUnbalancedAt_of_unbalancedAt? hcheck⟩

/-- A target that closes and opens again is malformed where it is read. -/
example : parseWith (.ofList [("a", "b", "x)(y")]) "a(b)" = .error (.malformed "x)(y") := by cbv

end QueryTerms.Term
