import QueryTerms.Term.Basic
import QueryTerms.Term.Split
import QueryTerms.Text.Separator

/-!
# Distributing a name over alternatives

`shop.(open|closed)` stands for `(shop.open|shop.closed)`.  The alternatives stay in parentheses, so
that the operators around them keep their strength.

**Spreading.** `distributeFrom` spreads the leftmost `.(` and goes on inside its result, since an
alternative may itself begin with a parenthesis.  What lies to the left is settled.

**Termination.** Every step takes one opening parenthesis out of the text that is left; the names
that are put in hold none.
-/

namespace QueryTerms.Term

/-- The text between the first alternative and the last one. -/
def joinWith (sep : Char) : List (List Char) → List Char
  | [] => []
  | [part] => part
  | part :: rest => part ++ sep :: joinWith sep rest

/-- The alternatives, each behind the name and a dot. -/
def alternatives (name : List Char) (parts : List (List Char)) : List Char :=
  joinWith '|' (parts.map fun part => name ++ '.' :: Text.trim part)

/-- The name at the end of a text. -/
def nameAtEnd (text : List Char) : List Char := (text.reverse.takeWhile isIdChar).reverse

/-- The text before the name at its end. -/
def beforeName (text : List Char) : List Char := (text.reverse.dropWhile isIdChar).reverse

/-- Whether a text ends with a character of several bytes. -/
def endsWide (text : List Char) : Bool :=
  match text.getLast? with
  | some c => 1 < c.utf8Size
  | none => false

/-- The number of bytes of a text. -/
def byteSize : List Char → Nat
  | [] => 0
  | c :: cs => c.utf8Size + byteSize cs

/-! ## What one step leaves of the parentheses -/

/-- Joining adds separators only. -/
theorem count_joinWith (x sep : Char) (hx : x ≠ sep) (parts : List (List Char)) :
    (joinWith sep parts).count x = parts.flatten.count x := by
  induction parts with
  | nil => rfl
  | cons part rest ih =>
    cases rest with
    | nil => simp [joinWith]
    | cons second others =>
      have hsep : (sep == x) = false := by rw [beq_eq_false_iff_ne]; exact fun e => hx e.symm
      rw [joinWith]
      · simp only [List.count_append, List.count_cons, hsep, Bool.false_eq_true, if_false, ih,
          List.flatten_cons]
        omega
      · simp

/-- A name has no parenthesis in it. -/
theorem nameAtEnd_count_paren (text : List Char) : (nameAtEnd text).count '(' = 0 := by
  rw [List.count_eq_zero]
  intro h
  have hall : isIdChar '(' = true := by
    have hm : '(' ∈ text.reverse.takeWhile isIdChar := by simpa [nameAtEnd] using h
    exact List.all_eq_true.1 (List.all_takeWhile (p := isIdChar) (l := text.reverse)) _ hm
  exact absurd hall (by decide)

/-- The alternatives of a group open no parenthesis that the group did not. -/
theorem count_alternatives_le (name : List Char) (hname : name.count '(' = 0)
    (parts : List (List Char)) :
    (alternatives name parts).count '(' ≤ parts.flatten.count '(' := by
  rw [alternatives, count_joinWith _ _ (by decide)]
  induction parts with
  | nil => simp
  | cons part rest ih =>
    have hpart : (Text.trim part).count '(' ≤ part.count '(' :=
      (Text.trim_sublist part).count_le '('
    simp only [List.map_cons, List.flatten_cons, List.count_append, List.count_cons, hname]
    simp only [show ('.' == '(') = false by decide, Bool.false_eq_true, if_false]
    omega

/-- The text that is left has one opening parenthesis less. -/
theorem count_spread_lt {rest front back inner after name : List Char}
    (hcut : Text.cutFirst? ['.', '('] rest = some (front, back))
    (hclose : closeGroup 0 back = some (inner, after)) (hname : name.count '(' = 0) :
    (alternatives name (splitTop '|' inner) ++ ')' :: after).count '(' < rest.count '(' := by
  have hle := count_alternatives_le name hname (splitTop '|' inner)
  rw [splitTop_count '|' '(' (by decide)] at hle
  rw [Text.cutFirst?_eq hcut, closeGroup_eq hclose]
  simp only [List.count_append, List.count_cons, List.count_nil]
  simp only [show (')' == '(') = false by decide, show ('.' == '(') = false by decide,
    show ('(' == '(') = true by decide, Bool.false_eq_true, if_false, if_true]
  omega

/-! ## Spreading -/

/-- Spreads every name in `rest`, to the left of which the text is `settled`; `input` is the whole
text for messages. -/
def distributeFrom (input : String) (settled rest : List Char) : Except ParseError (List Char) :=
  match _hcut : Text.cutFirst? ['.', '('] rest with
  | none => .ok (settled ++ rest)
  | some (front, back) =>
    if endsWide (beforeName front) then .error (.cutInsideCharacter input)
    else if (nameAtEnd front).isEmpty then .error (.malformed input)
    else
      match hclose : closeGroup 0 back with
      | none => .error (.unbalanced input (byteSize settled + byteSize front + 1))
      | some (inner, after) =>
        match checkOperands inner (splitTop '|' inner) with
        | .error cause => .error cause
        | .ok () =>
          distributeFrom input (settled ++ beforeName front ++ ['('])
            (alternatives (nameAtEnd front) (splitTop '|' inner) ++ ')' :: after)
termination_by rest.count '('
decreasing_by exact count_spread_lt _hcut hclose (nameAtEnd_count_paren front)

/-- Turns every `name.(a|b)` into `(name.a|name.b)`. -/
def distribute (text : List Char) : Except ParseError (List Char) :=
  distributeFrom (String.ofList text) [] text

end QueryTerms.Term
