/-!
# Tokens of a statement

Statements are taken apart only as far as parameters need it: where quoted text begins and ends,
which colons are casts, and which are placeholders `:name`.

**Tokens.** `Token`, with `Token.text` for what it was read from.

**Quoted text.** `closeQuote` finds the end.  A doubled quote stays inside; if no single one
follows, the text ends at the last doubled one.

**Lexing.** `tokens` loses nothing (`flatMap_text_tokens`).
-/

namespace QueryTerms.Sql

/-- A piece of a statement. -/
inductive Token where
  /-- A character without a meaning of its own. -/
  | char (c : Char)
  /-- A literal or an identifier in quotes, with the quotes. -/
  | quoted (text : List Char)
  /-- The mark `::` of a type cast. -/
  | cast
  /-- A placeholder, without its colon. -/
  | placeholder (name : List Char)
deriving DecidableEq

/-- What a token was read from. -/
def Token.text : Token → List Char
  | .char c => [c]
  | .quoted text => text
  | .cast => [':', ':']
  | .placeholder name => ':' :: name

/-- A character of a parameter's name. -/
def isNameChar (c : Char) : Bool := c.isAlphanum || c = '_'

/-- The quoted text behind an opening quote up to its closing quote, and what follows. -/
def closeQuote (quote : Char) : List Char → Option (List Char × List Char)
  | [] => none
  | c :: cs =>
    if c = quote then
      match cs with
      | [] => some ([c], [])
      | d :: ds =>
        if d = quote then
          match closeQuote quote ds with
          | some (body, rest) => some (c :: d :: body, rest)
          | none => some ([c], d :: ds)
        else some ([c], d :: ds)
    else (closeQuote quote cs).map fun (body, rest) => (c :: body, rest)

/-- The quoted text and the rest make up the text. -/
theorem closeQuote_eq {quote : Char} {text body rest : List Char}
    (h : closeQuote quote text = some (body, rest)) : text = body ++ rest := by
  fun_induction closeQuote quote text generalizing body rest with
  | case1 => simp at h
  | case2 => simp_all
  | case3 _ _ _ hrec ih =>
    simp only [Option.some.injEq, Prod.mk.injEq] at h
    obtain ⟨rfl, rfl⟩ := h
    simp [ih hrec]
  | case4 =>
    simp only [Option.some.injEq, Prod.mk.injEq] at h
    obtain ⟨rfl, rfl⟩ := h
    rfl
  | case5 =>
    simp only [Option.some.injEq, Prod.mk.injEq] at h
    obtain ⟨rfl, rfl⟩ := h
    rfl
  | case6 _ _ _ ih =>
    simp only [Option.map_eq_some_iff] at h
    obtain ⟨⟨a, b⟩, hab, he⟩ := h
    simp only [Prod.mk.injEq] at he
    obtain ⟨rfl, rfl⟩ := he
    simp [ih hab]

/-- A parameter's name at the front of a text: a letter or an underscore, then more of these and
digits.  Empty if there is none. -/
def nameAtFront (text : List Char) : List Char :=
  match text with
  | [] => []
  | c :: _ => if c.isDigit then [] else text.takeWhile isNameChar

/-- The name and what follows it make up the text. -/
theorem nameAtFront_append_drop (text : List Char) :
    nameAtFront text ++ text.drop (nameAtFront text).length = text := by
  unfold nameAtFront
  split
  · simp
  · split
    · simp
    · rename_i c cs _
      obtain ⟨t, ht⟩ := List.takeWhile_prefix (l := c :: cs) isNameChar
      generalize (c :: cs).takeWhile isNameChar = w at ht
      rw [← ht]; simp

/-- The tokens of a statement. -/
def tokens : List Char → List Token
  | [] => []
  | c :: cs =>
    if c = '\'' ∨ c = '"' then
      match _h : closeQuote c cs with
      | some (body, rest) => .quoted (c :: body) :: tokens rest
      | none => .char c :: tokens cs
    else if c = ':' then
      if cs.head? = some ':' then .cast :: tokens (cs.drop 1)
      else if nameAtFront cs = [] then .char c :: tokens cs
      else .placeholder (nameAtFront cs) :: tokens (cs.drop (nameAtFront cs).length)
    else .char c :: tokens cs
termination_by text => text.length
decreasing_by
  · have := congrArg List.length (closeQuote_eq _h)
    simp only [List.length_append, List.length_cons] at this ⊢
    omega
  all_goals simp only [List.length_cons, List.length_drop]; omega

/-- **Nothing is lost.**  The texts of the tokens make up the statement. -/
theorem flatMap_text_tokens (text : List Char) : (tokens text).flatMap Token.text = text := by
  fun_induction tokens text with
  | case1 => rfl
  | case2 c cs _ body rest h ih =>
    simp [Token.text, ih, closeQuote_eq h]
  | case3 c cs _ _ ih => simp [Token.text, ih]
  | case4 cs hhead _ ih =>
    obtain ⟨ds, rfl⟩ : ∃ ds, cs = ':' :: ds := by
      cases cs with
      | nil => exact absurd hhead (by simp)
      | cons d ds => exact ⟨ds, by simpa using hhead⟩
    simpa [Token.text] using ih
  | case5 cs _ _ _ ih => simp [Token.text, ih]
  | case6 cs _ _ _ ih => simp [Token.text, ih, nameAtFront_append_drop]
  | case7 c cs _ _ ih => simp [Token.text, ih]

/-- The names of the placeholders, in order of appearance. -/
def placeholders (sql : List Char) : List String :=
  (tokens sql).filterMap fun
    | .placeholder name => some (String.ofList name)
    | _ => none

/-- Whether the statement has a placeholder of the given name. -/
def mentions (sql name : String) : Bool := (placeholders sql.toList).contains name

end QueryTerms.Sql
