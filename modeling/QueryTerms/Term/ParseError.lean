/-!
# Why a text is not a term

The causes for which reading a term fails, and their wording.  `ParseError.message` gives the
wording; positions in it are byte offsets into the UTF-8 form of the text.
-/

namespace QueryTerms

/-- Why a text is not a term. -/
inductive ParseError where
  /-- A parenthesis without its partner. -/
  | unbalanced (input : String) (position : Nat)
  /-- Nothing beside an operator or between parentheses. -/
  | emptyOperand (input : String)
  /-- Not an id. -/
  | invalidId (id : String)
  /-- Neither an id nor an id with children. -/
  | malformed (input : String)
  /-- The name before `.(` begins in the middle of a character, right after one that takes several
  bytes; no text can be cut there. -/
  | cutInsideCharacter (input : String)
  /-- Aliases that lead to ever more aliases: the text has not become a term within the levels of
  nesting that are allowed. -/
  | endlessAliases (input : String)
deriving DecidableEq

/-- The wording of the cause. -/
def ParseError.message : ParseError → String
  | .unbalanced input position =>
    "unbalanced parentheses at position " ++ toString position ++ " in '" ++ input ++ "'"
  | .emptyOperand input => "empty operand in '" ++ input ++ "'"
  | .invalidId id => "invalid identifier '" ++ id ++ "'"
  | .malformed input => "malformed term '" ++ input ++ "'"
  | .cutInsideCharacter input => "a name begins inside a character of '" ++ input ++ "'"
  | .endlessAliases input => "aliases without end in '" ++ input ++ "'"

end QueryTerms
