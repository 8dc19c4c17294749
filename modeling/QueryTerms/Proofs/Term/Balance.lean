import Mathlib.Tactic.Lemma
import QueryTerms.Term.Distribution

/-!
# Balanced texts

One depth counter makes terms readable without a token stream.  This file says what the counter
does to a text that is put together from balanced pieces, in three groups.

**Counting.**  `depthAfter` is the counter on its own, without the positions that `unbalancedAt?`
reports (`unbalancedAt?_eq_none_iff`).  It runs through a text piece by piece (`depthAfter_append`),
and parentheses around a text only lift it (`depthAfter_add`).

**Cutting.**  A separator is *hidden* in a text if it never stands outside all parentheses there.
Cutting runs through a balanced piece that hides the separator as if it were one character
(`splitFrom_append`), so joined pieces come apart again: `splitTop_joinWith`.  The pieces of a
balanced text are balanced: `IsBalanced.of_mem_splitTop`.

**Closing.**  A group ends right behind the balanced text in it: `closeGroup_balanced`.
-/

namespace QueryTerms.Term

lemma joinWith_cons_cons (sep : Char) (first second : List Char) (others : List (List Char)) :
    joinWith sep (first :: second :: others) =
      first ++ sep :: joinWith sep (second :: others) := by
  rw [joinWith]
  exact List.cons_ne_nil _ _

/-! ## Counting -/

/-- The number of parentheses open after a text, where `depth` are open before it; `none` once
one closes without a partner. -/
def depthAfter : Nat → List Char → Option Nat
  | depth, [] => some depth
  | depth, c :: cs =>
    if c = '(' then depthAfter (depth + 1) cs
    else if c = ')' then
      match depth with
      | 0 => none
      | outer + 1 => depthAfter outer cs
    else depthAfter depth cs

/-- Every parenthesis has its partner. -/
def IsBalanced (text : List Char) : Prop := depthAfter 0 text = some 0

@[simp] lemma depthAfter_nil (depth : Nat) : depthAfter depth [] = some depth := rfl

@[simp] lemma depthAfter_open (depth : Nat) (cs : List Char) :
    depthAfter depth ('(' :: cs) = depthAfter (depth + 1) cs := by
  rw [depthAfter.eq_def]
  exact if_pos rfl

@[simp] lemma depthAfter_close (depth : Nat) (cs : List Char) :
    depthAfter (depth + 1) (')' :: cs) = depthAfter depth cs := by
  rw [depthAfter, if_neg (by decide), if_pos rfl]

@[simp] lemma depthAfter_close_zero (cs : List Char) : depthAfter 0 (')' :: cs) = none := by
  rw [depthAfter, if_neg (by decide), if_pos rfl]

lemma depthAfter_other {c : Char} (ho : c ≠ '(') (hc : c ≠ ')') (depth : Nat) (cs : List Char) :
    depthAfter depth (c :: cs) = depthAfter depth cs := by
  rw [depthAfter.eq_def]
  simp only [if_neg ho, if_neg hc]

/-- The counter runs through a text piece by piece. -/
lemma depthAfter_append (depth : Nat) (first second : List Char) :
    depthAfter depth (first ++ second) =
      (depthAfter depth first).bind fun depth => depthAfter depth second := by
  induction first generalizing depth with
  | nil => rfl
  | cons c cs ih =>
    rw [List.cons_append]
    by_cases ho : c = '('
    · subst ho
      rw [depthAfter_open, depthAfter_open, ih]
    · by_cases hc : c = ')'
      · subst hc
        cases depth with
        | zero => rw [depthAfter_close_zero, depthAfter_close_zero]; rfl
        | succ outer => rw [depthAfter_close, depthAfter_close, ih]
      · rw [depthAfter_other ho hc, depthAfter_other ho hc, ih]

/-- Parentheses around a text lift the counter and do nothing else to it. -/
lemma depthAfter_add {text : List Char} {depth after : Nat} (k : Nat)
    (h : depthAfter depth text = some after) : depthAfter (depth + k) text = some (after + k) := by
  induction text generalizing depth with
  | nil =>
    rw [depthAfter_nil, Option.some.injEq] at h
    rw [depthAfter_nil, h]
  | cons c cs ih =>
    by_cases ho : c = '('
    · subst ho
      rw [depthAfter_open] at h ⊢
      have h' := ih h
      rwa [Nat.add_right_comm] at h'
    · by_cases hc : c = ')'
      · subst hc
        cases depth with
        | zero => rw [depthAfter_close_zero] at h; cases h
        | succ outer =>
          rw [depthAfter_close] at h
          rw [Nat.add_right_comm, depthAfter_close]
          exact ih h
      · rw [depthAfter_other ho hc] at h ⊢
        exact ih h

/-- A text without parentheses leaves the counter alone. -/
lemma depthAfter_of_plain {text : List Char} (h : ∀ c ∈ text, c ≠ '(' ∧ c ≠ ')') (depth : Nat) :
    depthAfter depth text = some depth := by
  induction text with
  | nil => rfl
  | cons c cs ih =>
    obtain ⟨ho, hc⟩ := h c List.mem_cons_self
    rw [depthAfter_other ho hc]
    exact ih fun d hd => h d (List.mem_cons_of_mem c hd)

/-- The positions aside, the check of a text is the counter. -/
lemma unbalancedAt?_eq_none_iff (depth offset : Nat) (text : List Char) :
    unbalancedAt? depth offset text = none ↔ depthAfter depth text = some 0 := by
  induction text generalizing depth offset with
  | nil =>
    rw [unbalancedAt?, depthAfter_nil, Option.some.injEq]
    by_cases hd : depth = 0 <;> simp [hd]
  | cons c cs ih =>
    rw [unbalancedAt?]
    by_cases ho : c = '('
    · subst ho
      rw [if_pos rfl, depthAfter_open]
      exact ih _ _
    · rw [if_neg ho]
      by_cases hc : c = ')'
      · subst hc
        rw [if_pos rfl]
        cases depth with
        | zero => simp
        | succ outer =>
          rw [if_neg (Nat.succ_ne_zero outer), depthAfter_close]
          exact ih _ _
      · rw [if_neg hc, depthAfter_other ho hc]
        exact ih _ _

lemma IsBalanced.nil : IsBalanced [] := rfl

lemma IsBalanced.of_plain {text : List Char} (h : ∀ c ∈ text, c ≠ '(' ∧ c ≠ ')') :
    IsBalanced text :=
  depthAfter_of_plain h 0

lemma IsBalanced.append {first second : List Char} (hf : IsBalanced first)
    (hs : IsBalanced second) : IsBalanced (first ++ second) := by
  rw [IsBalanced, depthAfter_append, hf]
  exact hs

/-- A balanced text leaves the counter where it was, at any depth. -/
lemma IsBalanced.depthAfter_eq {text : List Char} (h : IsBalanced text) (depth : Nat) :
    depthAfter depth text = some depth := by
  simpa using depthAfter_add depth h

lemma IsBalanced.group {text : List Char} (h : IsBalanced text) :
    IsBalanced ('(' :: text ++ [')']) := by
  rw [IsBalanced, List.cons_append, depthAfter_open, depthAfter_append, h.depthAfter_eq]
  rfl

lemma IsBalanced.joinWith {sep : Char} (ho : sep ≠ '(') (hc : sep ≠ ')')
    {parts : List (List Char)} (h : ∀ part ∈ parts, IsBalanced part) :
    IsBalanced (joinWith sep parts) := by
  induction parts with
  | nil => exact .nil
  | cons part rest ih =>
    have hpart : IsBalanced part := h part List.mem_cons_self
    have hrest : ∀ part ∈ rest, IsBalanced part := fun p hp => h p (List.mem_cons_of_mem _ hp)
    cases rest with
    | nil => exact hpart
    | cons second others =>
      refine hpart.append ?_
      rw [IsBalanced, depthAfter_other ho hc]
      exact ih hrest

/-! ## Cutting -/

/-- The separator never stands outside all parentheses of the text. -/
def Hides (sep : Char) (text : List Char) : Prop := splitFrom sep 0 text = (text, [])

lemma splitTop_eq (sep : Char) (text : List Char) :
    splitTop sep text = (splitFrom sep 0 text).1 :: (splitFrom sep 0 text).2 := rfl

lemma Hides.splitTop_eq {sep : Char} {text : List Char} (h : Hides sep text) :
    splitTop sep text = [text] := by
  rw [Term.splitTop_eq, show splitFrom sep 0 text = (text, []) from h]

section SplitFrom

variable {sep : Char} {depth : Nat}

lemma splitFrom_open (cs : List Char) :
    splitFrom sep depth ('(' :: cs) =
      ('(' :: (splitFrom sep (depth + 1) cs).1, (splitFrom sep (depth + 1) cs).2) := by
  rw [splitFrom, if_pos rfl]

lemma splitFrom_close (cs : List Char) :
    splitFrom sep depth (')' :: cs) =
      (')' :: (splitFrom sep (depth - 1) cs).1, (splitFrom sep (depth - 1) cs).2) := by
  rw [splitFrom, if_neg (by decide), if_pos rfl]

lemma splitFrom_sep (ho : sep ≠ '(') (hc : sep ≠ ')') (cs : List Char) :
    splitFrom sep 0 (sep :: cs) = ([], (splitFrom sep 0 cs).1 :: (splitFrom sep 0 cs).2) := by
  rw [splitFrom, if_neg ho, if_neg hc, if_pos ⟨rfl, rfl⟩]

lemma splitFrom_other {c : Char} (ho : c ≠ '(') (hc : c ≠ ')') (hs : ¬ (c = sep ∧ depth = 0))
    (cs : List Char) :
    splitFrom sep depth (c :: cs) =
      (c :: (splitFrom sep depth cs).1, (splitFrom sep depth cs).2) := by
  rw [splitFrom, if_neg ho, if_neg hc, if_neg hs]

/-- Cutting goes on behind a piece without a cut in it as if it began there. -/
lemma splitFrom_append {first : List Char} {after : Nat}
    (hd : depthAfter depth first = some after) (hf : (splitFrom sep depth first).2 = [])
    (second : List Char) :
    splitFrom sep depth (first ++ second) =
      (first ++ (splitFrom sep after second).1, (splitFrom sep after second).2) := by
  induction first generalizing depth with
  | nil =>
    rw [depthAfter_nil, Option.some.injEq] at hd
    rw [hd]
    rfl
  | cons c cs ih =>
    rw [List.cons_append]
    by_cases ho : c = '('
    · subst ho
      rw [depthAfter_open] at hd
      rw [splitFrom_open] at hf ⊢
      rw [ih hd hf]
      rfl
    · by_cases hc : c = ')'
      · subst hc
        cases depth with
        | zero => rw [depthAfter_close_zero] at hd; cases hd
        | succ outer =>
          rw [depthAfter_close] at hd
          rw [splitFrom_close, Nat.add_sub_cancel] at hf ⊢
          rw [ih hd hf]
          rfl
      · rw [depthAfter_other ho hc] at hd
        by_cases hs : c = sep ∧ depth = 0
        · rw [splitFrom, if_neg ho, if_neg hc, if_pos hs] at hf
          cases hf
        · rw [splitFrom_other ho hc hs] at hf ⊢
          rw [ih hd hf]
          rfl

/-- Nothing is cut inside parentheses. -/
lemma splitFrom_inside {text : List Char} {after : Nat}
    (h : depthAfter depth text = some after) : splitFrom sep (depth + 1) text = (text, []) := by
  induction text generalizing depth with
  | nil => rfl
  | cons c cs ih =>
    by_cases ho : c = '('
    · subst ho
      rw [depthAfter_open] at h
      rw [splitFrom_open, ih h]
    · by_cases hc : c = ')'
      · subst hc
        cases depth with
        | zero => rw [depthAfter_close_zero] at h; cases h
        | succ outer =>
          rw [depthAfter_close] at h
          rw [splitFrom_close, Nat.add_sub_cancel, ih h]
      · rw [depthAfter_other ho hc] at h
        rw [splitFrom_other ho hc (fun hs => Nat.succ_ne_zero depth hs.2), ih h]

end SplitFrom

lemma Hides.append {sep : Char} {first second : List Char} (hb : IsBalanced first)
    (hf : Hides sep first) (hs : Hides sep second) : Hides sep (first ++ second) := by
  have hcut := splitFrom_append hb (congrArg Prod.snd hf) second
  rw [show splitFrom sep 0 second = (second, []) from hs] at hcut
  exact hcut

lemma Hides.of_notMem {sep : Char} {text : List Char} (h : sep ∉ text)
    (hplain : ∀ c ∈ text, c ≠ '(' ∧ c ≠ ')') : Hides sep text := by
  induction text with
  | nil => rfl
  | cons c cs ih =>
    obtain ⟨ho, hc⟩ := hplain c List.mem_cons_self
    rw [List.mem_cons, not_or] at h
    have hcs : Hides sep cs := ih h.2 fun d hd => hplain d (List.mem_cons_of_mem c hd)
    rw [Hides, splitFrom_other ho hc (fun hs => h.1 hs.1.symm),
      show splitFrom sep 0 cs = (cs, []) from hcs]

/-- A group hides everything in it. -/
lemma Hides.group {text : List Char} (sep : Char) (h : IsBalanced text) :
    Hides sep ('(' :: text ++ [')']) := by
  rw [Hides, List.cons_append, splitFrom_open, splitFrom_append (h.depthAfter_eq 1)
    (by rw [splitFrom_inside h])]
  rfl

/-- Pieces that hide a character hide it together, if they are joined by another one. -/
lemma Hides.joinWith {sep op : Char} (hne : op ≠ sep) (ho : op ≠ '(') (hc : op ≠ ')')
    {parts : List (List Char)} (hb : ∀ part ∈ parts, IsBalanced part)
    (h : ∀ part ∈ parts, Hides sep part) : Hides sep (joinWith op parts) := by
  induction parts with
  | nil => rfl
  | cons part rest ih =>
    have hrest : Hides sep (Term.joinWith op rest) :=
      ih (fun p hp => hb p (List.mem_cons_of_mem _ hp)) fun p hp => h p (List.mem_cons_of_mem _ hp)
    cases rest with
    | nil => exact h part List.mem_cons_self
    | cons second others =>
      refine Hides.append (hb part List.mem_cons_self) (h part List.mem_cons_self) ?_
      rw [Hides, splitFrom_other ho hc (fun hs => hne hs.1),
        show splitFrom sep 0 (Term.joinWith op (second :: others)) = _ from hrest]

/-- **Joined pieces come apart again.**  Every piece is balanced and hides the separator. -/
theorem splitTop_joinWith {sep : Char} (ho : sep ≠ '(') (hc : sep ≠ ')')
    {parts : List (List Char)} (hne : parts ≠ []) (hb : ∀ part ∈ parts, IsBalanced part)
    (h : ∀ part ∈ parts, Hides sep part) : splitTop sep (joinWith sep parts) = parts := by
  induction parts with
  | nil => exact absurd rfl hne
  | cons part rest ih =>
    have hpart : Hides sep part := h part List.mem_cons_self
    cases rest with
    | nil => exact hpart.splitTop_eq
    | cons second others =>
      have hrest := ih (List.cons_ne_nil _ _) (fun p hp => hb p (List.mem_cons_of_mem _ hp))
        fun p hp => h p (List.mem_cons_of_mem _ hp)
      rw [splitTop_eq] at hrest ⊢
      rw [joinWith, splitFrom_append (hb part List.mem_cons_self) (congrArg Prod.snd hpart),
        splitFrom_sep ho hc, List.append_nil, hrest]
      simp

/-- A text that closes all parentheses is cut into pieces that do. -/
lemma depthAfter_splitFrom {sep : Char} (ho : sep ≠ '(') (hc : sep ≠ ')') {text : List Char}
    {depth : Nat} (h : depthAfter depth text = some 0) :
    depthAfter depth (splitFrom sep depth text).1 = some 0 ∧
      ∀ part ∈ (splitFrom sep depth text).2, IsBalanced part := by
  induction text generalizing depth with
  | nil => exact ⟨h, nofun⟩
  | cons c cs ih =>
    by_cases hopen : c = '('
    · subst hopen
      rw [depthAfter_open] at h
      rw [splitFrom_open, depthAfter_open]
      exact ih h
    by_cases hclose : c = ')'
    · subst hclose
      cases depth with
      | zero => rw [depthAfter_close_zero] at h; cases h
      | succ outer =>
        rw [depthAfter_close] at h
        rw [splitFrom_close, Nat.add_sub_cancel, depthAfter_close]
        exact ih h
    rw [depthAfter_other hopen hclose] at h
    by_cases hsep : c = sep ∧ depth = 0
    · obtain ⟨rfl, rfl⟩ := hsep
      obtain ⟨hfirst, hrest⟩ := ih h
      have hfirst : IsBalanced (splitFrom c 0 cs).1 := hfirst
      rw [splitFrom_sep ho hc]
      exact ⟨rfl, List.forall_mem_cons.mpr ⟨hfirst, hrest⟩⟩
    · rw [splitFrom_other hopen hclose hsep, depthAfter_other hopen hclose]
      exact ih h

lemma IsBalanced.of_mem_splitTop {sep : Char} (ho : sep ≠ '(') (hc : sep ≠ ')')
    {text part : List Char} (h : IsBalanced text) (hpart : part ∈ splitTop sep text) :
    IsBalanced part := by
  obtain ⟨hfirst, hrest⟩ := depthAfter_splitFrom ho hc h
  have hfirst : IsBalanced (splitFrom sep 0 text).1 := hfirst
  exact List.forall_mem_cons.mpr ⟨hfirst, hrest⟩ part hpart

/-! ## Closing -/

/-- What stands in a group is balanced. -/
lemma depthAfter_of_closeGroup {depth : Nat} {text inner rest : List Char}
    (h : closeGroup depth text = some (inner, rest)) : depthAfter depth inner = some 0 := by
  induction text generalizing depth inner with
  | nil => cases h
  | cons c cs ih =>
    rw [closeGroup] at h
    split at h
    · next hc =>
      subst hc
      split at h
      · next hd =>
        cases h
        rw [hd, depthAfter_nil]
      · next hd =>
        obtain ⟨⟨before, after⟩, hclose, heq⟩ := Option.map_eq_some_iff.mp h
        cases heq
        obtain ⟨outer, rfl⟩ := Nat.exists_eq_succ_of_ne_zero hd
        rw [depthAfter_close]
        exact ih hclose
    · next hc =>
      obtain ⟨⟨before, after⟩, hclose, heq⟩ := Option.map_eq_some_iff.mp h
      cases heq
      by_cases ho : c = '('
      · subst ho
        rw [depthAfter_open]
        exact ih hclose
      · rw [if_neg ho] at hclose
        rw [depthAfter_other ho hc]
        exact ih hclose

/-- Closing looks for the partner behind a piece as if it began there. -/
lemma closeGroup_append {depth after : Nat} {first : List Char}
    (h : depthAfter depth first = some after) (second : List Char) :
    closeGroup depth (first ++ second) =
      (closeGroup after second).map fun (inner, rest) => (first ++ inner, rest) := by
  induction first generalizing depth with
  | nil =>
    rw [depthAfter_nil, Option.some.injEq] at h
    simp [h]
  | cons c cs ih =>
    rw [List.cons_append, closeGroup]
    by_cases hc : c = ')'
    · subst hc
      cases depth with
      | zero => rw [depthAfter_close_zero] at h; cases h
      | succ outer =>
        rw [depthAfter_close] at h
        rw [if_pos rfl, if_neg (Nat.succ_ne_zero outer), Nat.add_sub_cancel, ih h, Option.map_map]
        rfl
    · rw [if_neg hc]
      by_cases ho : c = '('
      · subst ho
        rw [depthAfter_open] at h
        rw [if_pos rfl, ih h, Option.map_map]
        rfl
      · rw [depthAfter_other ho hc] at h
        rw [if_neg ho, ih h, Option.map_map]
        rfl

/-- A group ends right behind the balanced text in it. -/
theorem closeGroup_balanced {text : List Char} (h : IsBalanced text) (rest : List Char) :
    closeGroup 0 (text ++ ')' :: rest) = some (text, rest) := by
  rw [closeGroup_append h, closeGroup, if_pos rfl, if_pos rfl]
  simp

end QueryTerms.Term
