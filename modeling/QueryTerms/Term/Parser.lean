import QueryTerms.Term.Distribution

/-!
# Reading terms

Precedence comes from cutting: first at `|`, then at `+`, then at `:`, each outside parentheses;
what remains is an id, an id with children in parentheses, or a term in parentheses.

**Aliases.** Children of a tree may be replaced by the targets of aliases, which are any text and
may lead to more aliases.

**Levels.** `readNested` reads a term in which no more than a number of parentheses are nested.
`sufficientLevels` is enough for every reading that ends: a text has no more levels than pairs of
parentheses, and a target that is entered for the third time, each time from within itself, is
entered again and again.

**Reading.** `Term.parseWith` with aliases and `Term.parse` without.
-/

namespace QueryTerms

/-- What children's ids stand for under their parents' ids. -/
structure Aliases where
  /-- The target of a child's id under a parent's id, where one is declared. -/
  target? : String → String → Option String
  /-- At least as many as all targets together have characters. -/
  extent : Nat

namespace Aliases

/-- No aliases at all. -/
def none : Aliases := ⟨fun _ _ => Option.none, 0⟩

/-- Aliases from triples of a parent, a child and a target.  Of several triples for the same pair
the first one counts. -/
def ofList (entries : List (String × String × String)) : Aliases where
  target? parent child :=
    (entries.find? fun (p, c, _) => p = parent ∧ c = child).map fun (_, _, target) => target
  extent := (String.join (entries.map fun (_, _, target) => target)).length

end Aliases

namespace Term

/-- Operands between separators, read by `next`; a single one stands for itself. -/
def readOperands (sep : Char) (compose : List Term → Term)
    (next : List Char → Except ParseError Term) (text : List Char) : Except ParseError Term :=
  match splitTop sep text with
  | [_] => next text
  | parts => do
    checkOperands text parts
    compose <$> parts.mapM next

/-- The text of a child with its leading id replaced by the target of its alias.  What follows the
id, its own children, stays. -/
def substituteAlias (aliases : Aliases) (parent child : List Char) : List Char :=
  let child := Text.trim child
  let id := child.takeWhile isIdChar
  let rest := child.dropWhile isIdChar
  if id.isEmpty || !(rest.isEmpty || rest.head? = some '(') then child
  else match aliases.target? (String.ofList parent) (String.ofList id) with
    | some target => target.toList ++ rest
    | none => child

/-- An id. -/
def readId (id : List Char) : Except ParseError String :=
  if isValidId id then .ok (String.ofList id) else .error (.invalidId (String.ofList id))

/-- What stands in parentheses behind `id`, which is blank for a term in parentheses. -/
def readGroup (aliases : Aliases) (nested : List Char → Except ParseError Term)
    (text id inner : List Char) : Except ParseError Term :=
  if Text.isBlankText inner then .error (.emptyOperand (String.ofList text))
  else do
    let parts := splitTop ',' inner
    checkOperands inner parts
    if id.isEmpty then
      match parts with
      | [single] => nested single
      | _ => .error (.malformed (String.ofList text))
    else
      let name ← readId id
      .tree name <$> parts.mapM fun child => nested (substituteAlias aliases id child)

/-- An id, an id with children, or a term in parentheses.  The first parenthesis closes at the very
end. -/
def readAtom (aliases : Aliases) (nested : List Char → Except ParseError Term)
    (input : List Char) : Except ParseError Term :=
  let text := Text.trim input
  if text.isEmpty then .error (.emptyOperand (String.ofList input))
  else if text.getLast? != some ')' then
    if text.any fun c => c = '(' || c = ')' then .error (.malformed (String.ofList text))
    else .leaf <$> readId text
  else
    match closeGroup 0 ((text.dropWhile (· != '(')).drop 1) with
    | some (inner, []) =>
      readGroup aliases nested text (Text.trim (text.takeWhile (· != '('))) inner
    | _ => .error (.malformed (String.ofList text))

/-- One level of a term; `nested` reads what is in its parentheses. -/
def readLevel (aliases : Aliases) (nested : List Char → Except ParseError Term) :
    List Char → Except ParseError Term :=
  readOperands '|' .merge <| readOperands '+' .attach <| readOperands ':' .filter <|
    readAtom aliases nested

/-- A term of at most `levels` levels. -/
def readNested (aliases : Aliases) : Nat → List Char → Except ParseError Term
  | 0, text => .error (.endlessAliases (String.ofList text))
  | levels + 1, text => readLevel aliases (readNested aliases levels) text

/-- Levels within which the reading of a text ends, if it ends at all. -/
def sufficientLevels (aliases : Aliases) (text : List Char) : Nat :=
  text.length + aliases.extent + 1

/-- Reads a term, with the children of trees replaced by the targets of their aliases. -/
def parseWith (aliases : Aliases) (text : String) : Except ParseError Term :=
  match unbalancedAt? 0 0 text.toList with
  | some position => .error (.unbalanced text position)
  | none => do
    let distributed ← distribute text.toList
    readNested aliases (sufficientLevels aliases distributed) distributed

/-- Reads a term. -/
def parse (text : String) : Except ParseError Term := parseWith .none text

end Term

end QueryTerms
