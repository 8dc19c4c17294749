import QueryTerms.Query.Leaf
import QueryTerms.Join.Nest

/-!
# Nodes of a query

A resolved term is a tree of nodes.  Every node carries what is known about its result; its kind
says how the result comes about.

**Nodes.** `Node`, `Node.info`, `Node.size`.

**Restricting.** `Node.bind` restricts a node to the values of a parameter: a leaf itself, all
operands of a union or an intersection, the base of the other two.

**Listing.** `Node.listed` has parents before children, each with the place of its parent.
-/

namespace QueryTerms

/-- A node of a query. -/
inductive Node where
  | leaf (info : NodeInfo) (source : LeafSource)
  /-- The union of its operands. -/
  | merge (info : NodeInfo) (operands : List Node)
  /-- A base with the rows of other operands attached. -/
  | attach (info : NodeInfo) (key : String) (base : Node) (joined : List Node)
  /-- A base narrowed by other operands, which are in the order of the term. -/
  | filter (info : NodeInfo) (key : String) (narrowing : List Node) (base : Node)
  /-- A base with children nested under its rows. -/
  | tree (info : NodeInfo) (base : Node) (children : List (NestJoin × Node))

namespace Node

def info : Node → NodeInfo
  | .leaf info _ => info
  | .merge info _ => info
  | .attach info _ _ _ => info
  | .filter info _ _ _ => info
  | .tree info _ _ => info

/-- The node with other information. -/
def withInfo (info : NodeInfo) : Node → Node
  | .leaf _ source => .leaf info source
  | .merge _ operands => .merge info operands
  | .attach _ key base joined => .attach info key base joined
  | .filter _ key narrowing base => .filter info key narrowing base
  | .tree _ base children => .tree info base children

/-- The nodes right below, in the order of the term, a base before the children nested under it. -/
def children : Node → List Node
  | .leaf _ _ => []
  | .merge _ operands => operands
  | .attach _ _ base joined => base :: joined
  | .filter _ _ narrowing base => narrowing ++ [base]
  | .tree _ base nested => base :: nested.map Prod.snd

mutual

/-- The number of nodes. -/
def size : Node → Nat
  | .leaf _ _ => 1
  | .merge _ operands => 1 + sizeOfAll operands
  | .attach _ _ base joined => 1 + base.size + sizeOfAll joined
  | .filter _ _ narrowing base => 1 + sizeOfAll narrowing + base.size
  | .tree _ base nested => 1 + base.size + sizeOfNested nested

def sizeOfAll : List Node → Nat
  | [] => 0
  | node :: rest => node.size + sizeOfAll rest

def sizeOfNested : List (NestJoin × Node) → Nat
  | [] => 0
  | (_, node) :: rest => node.size + sizeOfNested rest

end

/-! ## Restricting -/

/-- The fields that a restriction hands down to a node: its own where it declares the key. -/
def handedDown (param : String) (fields : KeyFields) (info : NodeInfo) : KeyFields :=
  if info.keys.has param then info.keyFields param else fields

mutual

/-- Restricts a node to rows whose `fields` take one of the parameter's values. -/
def bindFields (param : String) (fields : KeyFields) : Node → Node
  | .leaf info source =>
    .leaf (info.declare param) (source.bind param fields (info.params.has param))
  | .merge info operands => .merge (info.declare param) (bindAll param fields operands)
  | .attach info key base joined =>
    .attach (info.declare param) key
      (base.bindFields param (handedDown param fields base.info)) joined
  | .filter info key narrowing base =>
    .filter (info.declare param) key (bindAll param fields narrowing)
      (base.bindFields param (handedDown param fields base.info))
  | .tree info base nested =>
    .tree (info.declare param) (base.bindFields param (handedDown param fields base.info)) nested

def bindAll (param : String) (fields : KeyFields) : List Node → List Node
  | [] => []
  | node :: rest =>
    node.bindFields param (handedDown param fields node.info) :: bindAll param fields rest

end

/-- Restricts a node to the values of a parameter.  Without fields, those of the key of that name
are taken, or a field of that name. -/
def bind (param : String) (fields : Option KeyFields) (node : Node) : Node :=
  node.bindFields param (fields.getD (node.info.keyFields param))

/-! ## Listing -/

mutual

/-- The node and all below it, parents before children; each with the place of its parent in the
list, which begins at place `start`. -/
def listedFrom (start : Nat) (parent : Option Nat) : Node → List (Option Nat × Node)
  | .leaf info source => [(parent, .leaf info source)]
  | .merge info operands =>
    (parent, .merge info operands) :: listedAll start (start + 1) operands
  | .attach info key base joined =>
    let first := base.listedFrom (start + 1) (some start)
    (parent, .attach info key base joined) :: first ++
      listedAll start (start + 1 + first.length) joined
  | .filter info key narrowing base =>
    let first := listedAll start (start + 1) narrowing
    (parent, .filter info key narrowing base) :: first ++
      base.listedFrom (start + 1 + first.length) (some start)
  | .tree info base nested =>
    let first := base.listedFrom (start + 1) (some start)
    (parent, .tree info base nested) :: first ++
      listedNested start (start + 1 + first.length) nested

def listedAll (parent start : Nat) : List Node → List (Option Nat × Node)
  | [] => []
  | node :: rest =>
    let here := node.listedFrom start (some parent)
    here ++ listedAll parent (start + here.length) rest

def listedNested (parent start : Nat) : List (NestJoin × Node) → List (Option Nat × Node)
  | [] => []
  | (_, node) :: rest =>
    let here := node.listedFrom start (some parent)
    here ++ listedNested parent (start + here.length) rest

end

/-- All nodes, parents before children, each with the place of its parent. -/
def listed (node : Node) : List (Option Nat × Node) := node.listedFrom 0 none

end Node

end QueryTerms
