import QueryTerms.Query.Node
import QueryTerms.Term.Printer

/-!
# From terms to nodes

Every leaf id of a term is looked up in the store, and operands are linked by the keys they declare.

**Leaves.** `buildLeaf` tries the id under the enclosing tree's id first; a compiled leaf comes
before one in fragments.

**Links.** Operands other than the base of `+` and `:` are restricted to the key that all share.
`link` decides how the child of a tree joins its parent: by what a compiled parent declares, else by
the one key that both share.

**Building.** `build`.
-/

namespace QueryTerms

/-! ## Leaves -/

/-- The leaf of an id, compiled or in fragments, if the store has one. -/
def resolveLeaf (store : Store) (id : String) :
    Except QueryError (Option (LeafSource × Interface)) :=
  match store.interface id with
  | .ok interface => .ok (some (.compiled id interface.children [], interface))
  | .error (.notFound _) =>
    match store.definition id with
    | .ok definition => .ok (some (.fragments id definition.fragments, definition.interface))
    | .error (.notFound _) => .ok none
    | .error cause => .error (.store cause)
  | .error cause => .error (.store cause)

/-- The ids to look a leaf up under, inside a tree of the given id or outside all trees. -/
def leafCandidates (scope : Option String) (id : String) : List String :=
  match scope with
  | some scope => [scope ++ "." ++ id, id]
  | none => [id]

/-- The node of the first candidate that the store has; `id` is the one in the term. -/
def firstLeaf (store : Store) (id : String) : List String → Except QueryError Node
  | [] => .error (.schema (.unknownLeaf id))
  | candidate :: rest => do
    match ← resolveLeaf store candidate with
    | some (source, interface) => return .leaf (.ofInterface candidate interface) source
    | none => firstLeaf store id rest

/-- The node of a leaf id. -/
def buildLeaf (store : Store) (scope : Option String) (id : String) : Except QueryError Node :=
  firstLeaf store id (leafCandidates scope id)

/-! ## What composite nodes know -/

/-- What a union and an intersection know: all keys and parameters of their operands. -/
def unionInfo (name : String) (operands : List Node) : NodeInfo where
  name
  keys := unionKeys (operands.map fun node => node.info.keys)
  params := (operands.map fun node => node.info.params).foldl Table.extendNew []

/-- What the other two know: the keys and parameters of their base, and whether it is one row. -/
def baseInfo (name : String) (base : Node) : NodeInfo where
  name
  keys := base.info.keys
  params := base.info.params
  output := { rows := base.info.output.rows }

/-! ## Links -/

/-- What the names of fields that are selected for a join begin with. -/
def joinFieldStart : String := "__key_"

/-- The names under which a leaf in fragments selects the fields of a key for a join. -/
def joinFields (key : String) : KeyFields → List String
  | .single _ => [joinFieldStart ++ key]
  | .composite fields =>
    (List.range fields.length).map fun i => joinFieldStart ++ key ++ "_" ++ toString i

/-- The fragments with the fields of a key selected for a join. -/
def selectJoinFields (parts : Fragments) (key : String) (fields : KeyFields) : Fragments :=
  (fields.fields.zip (joinFields key fields)).foldl
    (fun parts (expression, name) => parts.selectAs expression name) parts

/-- The join that a compiled parent declares for a child, under its label or its name. -/
def declaredBinding (children : Table String ChildBinding) (label : String) (child : Node) :
    Option ChildBinding :=
  (children.get? label).or (children.get? child.info.name)

/-- How a child joins on the one key that it shares with its parent.  A parent in fragments selects
the key under names of its own, so that the join value is always there. -/
def linkByKey (parent child : Node) (label : String) : Except QueryError (Node × NestJoin) := do
  let key ← commonKey parent.info.name parent.info.keys child.info.name child.info.keys
  let fields := parent.info.keyFields key
  let join : NestJoin :=
    { field := label, param := key, parent := fields, child := child.info.keyFields key,
      hidden := false }
  match parent with
  | .leaf info (.fragments id parts) =>
    let selected := match joinFields key fields with
      | [name] => .single name
      | names => .composite names
    return (.leaf info (.fragments id (selectJoinFields parts key fields)),
      { join with parent := selected, hidden := true })
  | parent => return (parent, join)

/-- How a child joins its parent, and the parent with what the join needs. -/
def link (parent child : Node) (label : String) : Except QueryError (Node × NestJoin) :=
  match parent with
  | .leaf info (.compiled id children bindings) =>
    match declaredBinding children label child with
    | some binding =>
      .ok (.leaf info (.compiled id children bindings),
        { field := label
          param := binding.childKey
          parent := .single binding.parentField
          child := child.info.keyFields binding.childKey
          hidden := binding.parentField.startsWith "__" })
    | none => linkByKey parent child label
  | parent => linkByKey parent child label

/-- The operands, unless there are none. -/
def someOperand (operands : List Node) : Except QueryError (Node × List Node) :=
  match operands with
  | first :: rest => .ok (first, rest)
  | [] => .error (.schema .noOperands)

/-- The key that all operands share. -/
def operandKey (name : String) (operands : List Node) : Except QueryError String :=
  commonKeyOfAll name (operands.map fun node => node.info.keys)

/-! ## Building -/

/-- The node of a union. -/
def mergeNode (name : String) (operands : List Node) : Except QueryError Node := do
  let (first, rest) ← someOperand operands
  return .merge (unionInfo name (first :: rest)) (first :: rest)

/-- The node of a left join. -/
def attachNode (name : String) (operands : List Node) : Except QueryError Node := do
  let (base, rest) ← someOperand operands
  let key ← operandKey name (base :: rest)
  return .attach (baseInfo name base) key base (rest.map (Node.bind key none))

/-- The node of an intersection; the last operand is its base. -/
def filterNode (name : String) (operands : List Node) : Except QueryError Node := do
  let (first, rest) ← someOperand operands
  let key ← operandKey name (first :: rest)
  let base := (first :: rest).getLast (by simp)
  let narrowing := (first :: rest).dropLast.map (Node.bind key none)
  return .filter (unionInfo name (narrowing ++ [base])) key narrowing base

mutual

/-- The node of a term; `scope` is the id of the enclosing tree. -/
def buildIn (store : Store) (scope : Option String) : Term → Except QueryError Node
  | .leaf id => buildLeaf store scope id
  | .merge terms => do
    mergeNode (Term.merge terms).canonical (← buildAll store scope terms)
  | .attach terms => do
    attachNode (Term.attach terms).canonical (← buildAll store scope terms)
  | .filter terms => do
    filterNode (Term.filter terms).canonical (← buildAll store scope terms)
  | .tree id terms => do
    let leaf ← buildLeaf store scope id
    let (base, children) ← buildChildren store leaf terms
    return .tree { baseInfo leaf.info.name base with scope := some leaf.info.name } base children

/-- The nodes of terms, from left to right. -/
def buildAll (store : Store) (scope : Option String) : List Term → Except QueryError (List Node)
  | [] => .ok []
  | term :: rest => do
    let node ← buildIn store scope term
    let nodes ← buildAll store scope rest
    return node :: nodes

/-- The children of a tree, each restricted to the key it is joined on, and the parent with what the
joins need. -/
def buildChildren (store : Store) (parent : Node) :
    List Term → Except QueryError (Node × List (NestJoin × Node))
  | [] => .ok (parent, [])
  | term :: rest => do
    let child ← buildIn store (some parent.info.name) term
    let (parent, join) ← link parent child term.label
    let (parent, others) ← buildChildren store parent rest
    return (parent, (join, child.bind join.param (some join.child)) :: others)

end

/-- The node of a term. -/
def build (store : Store) (term : Term) : Except QueryError Node := buildIn store none term

end QueryTerms
