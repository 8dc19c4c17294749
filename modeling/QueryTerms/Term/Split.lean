import QueryTerms.Term.ParseError
import QueryTerms.Text.Blank

/-!
# Splitting at the top level

A term is read without a token stream: text is cut at separators that stand outside all
parentheses, and the parts are cut again.  One depth counter carries all of it.

**Balance.** `unbalancedAt?` finds the first byte offset at which the parentheses go wrong.

**Cutting.** `splitTop` cuts at a separator of depth zero; a closing parenthesis too many leaves
the depth at zero.

**Groups.** `closeGroup` takes the text behind an opening parenthesis apart at its partner.
-/

namespace QueryTerms.Term

/-- The byte offset at which the parentheses go wrong: the first closing one without a partner,
else the end of the text if one is left open.  The text starts at `offset`, with `depth` open
parentheses before it. -/
def unbalancedAt? (depth offset : Nat) : List Char → Option Nat
  | [] => if depth = 0 then none else some offset
  | c :: cs =>
    if c = '(' then unbalancedAt? (depth + 1) (offset + 1) cs
    else if c = ')' then
      if depth = 0 then some offset else unbalancedAt? (depth - 1) (offset + 1) cs
    else unbalancedAt? depth (offset + c.utf8Size) cs

/-- The part up to the first separator outside parentheses, and the parts after it, inside `depth`
parentheses. -/
def splitFrom (sep : Char) (depth : Nat) : List Char → List Char × List (List Char)
  | [] => ([], [])
  | c :: cs =>
    if c = '(' then
      let (first, rest) := splitFrom sep (depth + 1) cs
      (c :: first, rest)
    else if c = ')' then
      let (first, rest) := splitFrom sep (depth - 1) cs
      (c :: first, rest)
    else if c = sep ∧ depth = 0 then
      let (first, rest) := splitFrom sep depth cs
      ([], first :: rest)
    else
      let (first, rest) := splitFrom sep depth cs
      (c :: first, rest)

/-- The parts of the text between the separators that stand outside all parentheses. -/
def splitTop (sep : Char) (text : List Char) : List (List Char) :=
  let (first, rest) := splitFrom sep 0 text
  first :: rest

/-- The text before and after the parenthesis that closes the group begun right before it, where
`depth` further groups are open. -/
def closeGroup (depth : Nat) : List Char → Option (List Char × List Char)
  | [] => none
  | c :: cs =>
    if c = ')' then
      if depth = 0 then some ([], cs)
      else (closeGroup (depth - 1) cs).map fun (inner, rest) => (c :: inner, rest)
    else
      (closeGroup (if c = '(' then depth + 1 else depth) cs).map fun (inner, rest) =>
        (c :: inner, rest)

/-- Operands must not be blank; `whole` is the text that they were cut from. -/
def checkOperands (whole : List Char) (parts : List (List Char)) : Except ParseError Unit :=
  if parts.any Text.isBlankText then .error (.emptyOperand (String.ofList (Text.trim whole)))
  else .ok ()

/-! ## Nothing is lost -/

/-- Splitting takes out separators only. -/
theorem splitFrom_count (sep x : Char) (hx : x ≠ sep) :
    ∀ (depth : Nat) (text : List Char),
      (splitFrom sep depth text).1.count x +
        (splitFrom sep depth text).2.flatten.count x = text.count x
  | _, [] => by simp [splitFrom]
  | depth, c :: cs => by
    have ih := fun d => splitFrom_count sep x hx d cs
    unfold splitFrom
    by_cases h1 : c = '('
    · have := ih (depth + 1)
      rw [if_pos h1]
      simp only [List.count_cons]; omega
    · by_cases h2 : c = ')'
      · have := ih (depth - 1)
        rw [if_neg h1, if_pos h2]
        simp only [List.count_cons]; omega
      · by_cases h3 : c = sep ∧ depth = 0
        · have := ih depth
          have hc : (c == x) = false := by
            rw [beq_eq_false_iff_ne]; exact fun e => hx (e ▸ h3.1)
          rw [if_neg h1, if_neg h2, if_pos h3]
          simp only [List.count_cons, List.flatten_cons, List.count_append, List.count_nil, hc,
            Bool.false_eq_true, if_false]
          omega
        · have := ih depth
          rw [if_neg h1, if_neg h2, if_neg h3]
          simp only [List.count_cons]; omega

/-- Cutting keeps every character but the separator. -/
theorem splitTop_count (sep x : Char) (hx : x ≠ sep) (text : List Char) :
    (splitTop sep text).flatten.count x = text.count x := by
  simpa [splitTop] using splitFrom_count sep x hx 0 text

/-- A group and what follows it are the text without the closing parenthesis. -/
theorem closeGroup_eq {depth : Nat} {text inner rest : List Char}
    (h : closeGroup depth text = some (inner, rest)) : text = inner ++ ')' :: rest := by
  induction text generalizing depth inner with
  | nil => simp [closeGroup] at h
  | cons c cs ih =>
    unfold closeGroup at h
    by_cases hc : c = ')'
    · by_cases hd : depth = 0
      · simp [hc, hd] at h; obtain ⟨rfl, rfl⟩ := h; simp [hc]
      · simp only [hc, hd, if_true, if_false, Option.map_eq_some_iff] at h
        obtain ⟨⟨a, b⟩, hab, he⟩ := h
        simp only [Prod.mk.injEq] at he
        obtain ⟨rfl, rfl⟩ := he
        simp [hc, ih hab]
    · simp only [hc, if_false, Option.map_eq_some_iff] at h
      obtain ⟨⟨a, b⟩, hab, he⟩ := h
      simp only [Prod.mk.injEq] at he
      obtain ⟨rfl, rfl⟩ := he
      simp [ih hab]

end QueryTerms.Term
