import QueryTerms.Artifact.Store
import QueryTerms.Term.ParseError
import QueryTerms.Text.Quoted

/-!
# Why a query fails

`QueryError` lists the causes, from a text that is not a term to a statement that the database
rejects, and `QueryError.message` words them.  What concerns declarations and the shape of results
is gathered in `SchemaFault`.
-/

namespace QueryTerms

/-- A disagreement between a query and what its leaves declare or return. -/
inductive SchemaFault where
  /-- A row lacks a field that backs a key. -/
  | missingKey (fields : List String) (node : String)
  /-- A leaf in fragments selects nothing. -/
  | noSelect (leaf : String)
  /-- The store has no such leaf. -/
  | unknownLeaf (id : String)
  /-- An operator without operands. -/
  | noOperands
  /-- A value that is not of the declared type of its parameter. -/
  | mistyped (param : String) (json : String) (type : ParamType)
  /-- More than one parameter would have to be split into batches. -/
  | severalBatches (leaf : String) (params : List String)
  /-- A scalar result where rows are needed. -/
  | scalarOperand (node : String)
  /-- A write through a query that is not a leaf. -/
  | compositeWrite (node : String)
  /-- Grouping without a key. -/
  | noGroupKey (node : String)
  /-- Grouping of a scalar result. -/
  | scalarGroup (node : String)
  /-- A first row was asked of a scalar result. -/
  | scalarOutput (term : String)

/-- The wording of a fault. -/
def SchemaFault.message : SchemaFault → String
  | .missingKey fields node =>
    "key field(s) " ++ Text.quoteList fields ++ " missing from rows of '" ++ node ++ "'"
  | .noSelect leaf => "json leaf '" ++ leaf ++ "' has no select fragment"
  | .unknownLeaf id => "unknown leaf '" ++ id ++ "'"
  | .noOperands => "composite term without operands"
  | .mistyped param json type =>
    "parameter '" ++ param ++ "' value " ++ json ++ " is not a valid " ++ type.name
  | .severalBatches leaf params =>
    "leaf '" ++ leaf ++ "' requests batching on several parameters at once: "
      ++ Text.quoteList params
  | .scalarOperand node => "'" ++ node ++ "' returns scalar output and cannot be composed"
  | .compositeWrite node => "'" ++ node ++ "' is a composite query and cannot be written through"
  | .noGroupKey node => "cannot group '" ++ node ++ "': it declares no key"
  | .scalarGroup node => "cannot group scalar output of '" ++ node ++ "'"
  | .scalarOutput term => "'" ++ term ++ "' returns scalar output, not rows"

/-- Why a query fails. -/
inductive QueryError where
  | parse (cause : ParseError)
  /-- Joined nodes share no key, or several. -/
  | keyMatch (left right : String) (candidates : List String)
  | schema (fault : SchemaFault)
  | store (cause : StoreError)
  /-- The database rejected the statement of a leaf. -/
  | execution (leaf message : String)
  /-- A filter step has more key values than are allowed. -/
  | limitExceeded (count limit : Nat)
  /-- A nested row meets a scalar in the same field. -/
  | fieldConflict (field : String)

/-- The wording of the cause. -/
def QueryError.message : QueryError → String
  | .parse cause => "parse error: " ++ cause.message
  | .keyMatch left right candidates =>
    "no unique common key between '" ++ left ++ "' and '" ++ right ++ "' (candidates: "
      ++ Text.quoteList candidates ++ ")"
  | .schema fault => "schema error: " ++ fault.message
  | .store cause => "artifact error: " ++ cause.message
  | .execution leaf message => "execution error in leaf '" ++ leaf ++ "': " ++ message
  | .limitExceeded count limit =>
    "filter key set of " ++ toString count ++ " values exceeds the limit of " ++ toString limit
  | .fieldConflict field =>
    "cannot merge field '" ++ field ++ "': mapping and scalar values conflict"

/-! ## The key that a join needs -/

/-- The only candidate, or the error that names them all. -/
def uniqueKey (left right : String) (candidates : List String) : Except QueryError String :=
  match candidates with
  | [key] => .ok key
  | _ => .error (.keyMatch left right candidates)

/-- The one key that two nodes share. -/
def commonKey (leftName : String) (left : KeyMap) (rightName : String) (right : KeyMap) :
    Except QueryError String :=
  uniqueKey leftName rightName (sharedKeys left right)

/-- The one key that all nodes share. -/
def commonKeyOfAll (name : String) (maps : List KeyMap) : Except QueryError String :=
  uniqueKey name "all operands" (commonToAll maps)

end QueryTerms
