/-!
# Terms

A term composes leaf queries that are defined independently of each other:

```text
user(orders,addresses)      nest orders and addresses under each user
active|inactive             union of two queries over the same entity
user+profile                join profile fields onto user rows
vip:user                    keep only the users that vip returns too
```

Operators bind from loosest to tightest: `|`, `+`, `:`, then `id(...)`.

**Terms.** `Term`, its `label` as a child, the `leafIds` it names.

**Ids.** `isIdChar` and `isValidId`.  An id names an artifact's path, so every segment between
slashes is a plain name: not empty and without a dot at either end.

**Well-formed terms.** `Term.IsWellFormed`: valid ids, at least two operands of every operator, at
least one child of every tree.
-/

namespace QueryTerms

/-- A parsed term. -/
inductive Term where
  /-- One leaf query. -/
  | leaf (id : String)
  /-- `a|b|c`: the union over one entity. -/
  | merge (terms : List Term)
  /-- `a+b+c`: `b` and `c` joined onto the base `a`. -/
  | attach (terms : List Term)
  /-- `a:b:c`: an intersection, `c` is the base. -/
  | filter (terms : List Term)
  /-- `id(a,b)`: each child nested under the rows of `id`. -/
  | tree (id : String) (children : List Term)

namespace Term

mutual

/-- The name of a term where it is the child of a tree: its id, or that of its first operand. -/
def label : Term → String
  | .leaf id => id
  | .tree id _ => id
  | .merge terms => firstLabel terms
  | .attach terms => firstLabel terms
  | .filter terms => firstLabel terms

def firstLabel : List Term → String
  | [] => ""
  | term :: _ => term.label

end

mutual

/-- The ids that a term names, in order of appearance. -/
def leafIds : Term → List String
  | .leaf id => [id]
  | .tree id children => id :: leafIdsOfAll children
  | .merge terms => leafIdsOfAll terms
  | .attach terms => leafIdsOfAll terms
  | .filter terms => leafIdsOfAll terms

def leafIdsOfAll : List Term → List String
  | [] => []
  | term :: rest => term.leafIds ++ leafIdsOfAll rest

end

end Term

/-! ## Ids -/

/-- A character of an id. -/
def isIdChar (c : Char) : Bool :=
  c.isAlphanum || c = '_' || c = '.' || c = '/' || c = '-'

/-- The texts between the slashes. -/
def segments : List Char → List (List Char)
  | [] => [[]]
  | c :: cs =>
    if c = '/' then [] :: segments cs
    else match segments cs with
      | [] => [[c]]
      | first :: rest => (c :: first) :: rest

/-- A plain name: not empty, no dot at either end. -/
def isPlainSegment (segment : List Char) : Bool :=
  !segment.isEmpty && segment.head? != some '.' && segment.getLast? != some '.'

/-- Whether a text is an id. -/
def isValidId (id : List Char) : Bool :=
  !id.isEmpty && id.all isIdChar && (segments id).all isPlainSegment

/-! ## Well-formed terms -/

namespace Term

mutual

/-- Valid ids, two operands or more, one child or more. -/
def isWellFormed : Term → Bool
  | .leaf id => isValidId id.toList
  | .tree id children => isValidId id.toList && !children.isEmpty && allWellFormed children
  | .merge terms => 2 ≤ terms.length && allWellFormed terms
  | .attach terms => 2 ≤ terms.length && allWellFormed terms
  | .filter terms => 2 ≤ terms.length && allWellFormed terms

def allWellFormed : List Term → Bool
  | [] => true
  | term :: rest => term.isWellFormed && allWellFormed rest

end

/-- A term that the grammar can write. -/
def IsWellFormed (term : Term) : Prop := term.isWellFormed = true

end Term

end QueryTerms
