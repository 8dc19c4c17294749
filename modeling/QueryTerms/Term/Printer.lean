import QueryTerms.Term.Basic
import QueryTerms.Text.Quoted

/-!
# Writing terms

**Canonical text.** `Term.print`, the text without white space and with parentheses only where an
operand binds no tighter than its operator.

**Outline.** `Term.outline`, the structure of a term over indented lines.
-/

namespace QueryTerms.Term

/-! ## Canonical text -/

/-- How tightly the outermost operator binds. -/
def strength : Term → Nat
  | .merge _ => 0
  | .attach _ => 1
  | .filter _ => 2
  | .leaf _ => 3
  | .tree _ _ => 3

/-- Text in parentheses if `condition` holds. -/
def parenthesizedIf (condition : Bool) (text : List Char) : List Char :=
  if condition then '(' :: text ++ [')'] else text

mutual

/-- The canonical text of a term. -/
def print : Term → List Char
  | .leaf id => id.toList
  | .merge terms => printOperands '|' 0 terms
  | .attach terms => printOperands '+' 1 terms
  | .filter terms => printOperands ':' 2 terms
  | .tree id children => id.toList ++ '(' :: printChildren children ++ [')']

/-- Operands of an operator of the given strength. -/
def printOperands (operator : Char) (level : Nat) : List Term → List Char
  | [] => []
  | [term] => parenthesizedIf (term.strength ≤ level) (print term)
  | term :: rest =>
    parenthesizedIf (term.strength ≤ level) (print term) ++
      operator :: printOperands operator level rest

/-- The children of a tree. -/
def printChildren : List Term → List Char
  | [] => []
  | [term] => print term
  | term :: rest => print term ++ ',' :: printChildren rest

end

/-- The canonical text as a string. -/
def canonical (term : Term) : String := String.ofList term.print

/-! ## Outline -/

/-- Four blanks for each level. -/
def indent (depth : Nat) : String := String.ofList (List.replicate (4 * depth) ' ')

/-- A line at a depth. -/
def line (depth : Nat) (text : String) : String := indent depth ++ text ++ "\n"

mutual

/-- The lines of a term at a depth; the last one ends with `ending`. -/
def outlineLines (depth : Nat) (ending : String) : Term → String
  | .leaf id =>
    line depth "Leaf(" ++ line (depth + 1) (Text.quote id ++ ",") ++ line depth (")" ++ ending)
  | .merge terms =>
    line depth "Merge(" ++ outlineList (depth + 1) terms ++ line depth (")" ++ ending)
  | .attach terms =>
    line depth "Attach(" ++ outlineList (depth + 1) terms ++ line depth (")" ++ ending)
  | .filter terms =>
    line depth "Filter(" ++ outlineList (depth + 1) terms ++ line depth (")" ++ ending)
  | .tree id children =>
    line depth "Tree(" ++ line (depth + 1) (Text.quote id ++ ",")
      ++ outlineList (depth + 1) children ++ line depth (")" ++ ending)

/-- The lines of a list of terms between brackets. -/
def outlineList (depth : Nat) : List Term → String
  | [] => line depth "[],"
  | term :: rest => line depth "[" ++ outlineItems (depth + 1) (term :: rest) ++ line depth "],"

/-- The lines of each term in turn. -/
def outlineItems (depth : Nat) : List Term → String
  | [] => ""
  | term :: rest => outlineLines depth "," term ++ outlineItems depth rest

end

/-- The structure of a term, one bracket or id a line. -/
def outline (term : Term) : String := ((outlineLines 0 "" term).dropEnd 1).toString

end QueryTerms.Term
