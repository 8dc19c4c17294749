import QueryTerms.Json.Decode
import QueryTerms.Interface.Fragments

/-!
# Reading declarations

Interfaces and definitions are stored as JSON.  A declared field takes its default where it is
absent; null stands for absence only where a part is optional.

**One declaration at a time.** Decoders for parameters, types, output shapes and interfaces.  The
argument `room` bounds the nesting inside a document; `lax` admits an empty object behind the name
of a choice, as definitions do.

**Texts.** `Interface.ofJson?`, `Definition.ofJson?`, `ParamSpecs.ofJson?`, `TypeDecl.ofJson?`,
`TypeMap.ofJson?`.
-/

namespace QueryTerms

open Json Document

/-! ## Choices -/

def StatementKind.choices : Table String StatementKind :=
  [("read", .read), ("create", .create), ("update", .update), ("delete", .delete)]

def ParamType.choices : Table String ParamType :=
  [("int", .int), ("float", .float), ("string", .string), ("bool", .bool), ("any", .any)]

def Cardinality.choices : Table String Cardinality := [("one", .one), ("many", .many)]

def Direction.choices : Table String Direction := [("asc", .asc), ("desc", .desc)]

def ScalarType.choices : Table String ScalarType :=
  [("int", .int), ("float", .float), ("string", .string), ("json", .json), ("child", .child)]

/-! ## Parameters -/

def decodeParamSpec (lax : Bool) (room : Nat) (document : Document) : Option ParamSpec := do
  let fields ← document.fields? ["type", "default", "batch"]
  some {
    type := ← fieldOr fields "type" .any (toChoice? lax ParamType.choices)
    default := ← fieldOr fields "default" none (toOption? (toValue? (room - 1)))
    batch := ← fieldOr fields "batch" none (toOption? toCount?) }

def decodeParamSpecs (lax : Bool) (room : Nat) : Document → Option ParamSpecs :=
  toTable? (decodeParamSpec lax (room - 1))

/-! ## Output -/

mutual

/-- A type: the name of a scalar type, or the types of nested fields. -/
def decodeTypeShape : Document → Option TypeDecl
  | .string text => (toChoice? false ScalarType.choices (.string text)).map TypeDecl.scalar
  | .object members =>
    match toChoice? false ScalarType.choices (.object members) with
    | some type => some (.scalar type)
    | none => (decodeTypeMembers members).map fun pairs => .object (Table.ofPairs pairs)
  | _ => none

def decodeTypeMembers : List (Option String × Document) → Option (List (String × TypeDecl))
  | [] => some []
  | (name, document) :: rest =>
    match name, decodeTypeShape document, decodeTypeMembers rest with
    | some name, some type, some types => some ((name, type) :: types)
    | _, _, _ => none

end

def decodeTypeDecl (room : Nat) (document : Document) : Option TypeDecl :=
  if document.isSound room then decodeTypeShape document else none

def decodeTypeMap (room : Nat) : Document → Option TypeMap :=
  toTable? (decodeTypeDecl (room - 1))

def decodeOrderBy (lax : Bool) (document : Document) : Option OrderBy := do
  let fields ← document.fields? ["field", "direction"]
  some {
    field := ← field? fields "field" toText?
    direction := ← fieldOr fields "direction" .asc (toChoice? lax Direction.choices) }

def decodeOutputShape (lax : Bool) (room : Nat) (document : Document) : Option OutputShape := do
  let fields ← document.fields?
    ["rows", "columns", "key", "order", "grouped", "nested", "max", "types"]
  some {
    rows := ← fieldOr fields "rows" .many (toChoice? lax Cardinality.choices)
    columns := ← fieldOr fields "columns" .many (toChoice? lax Cardinality.choices)
    key := ← fieldOr fields "key" none (toOption? toText?)
    order := ← fieldOr fields "order" none (toOption? (decodeOrderBy lax))
    grouped := ← fieldOr fields "grouped" false toFlag?
    nested := ← fieldOr fields "nested" true toFlag?
    max := ← fieldOr fields "max" none (toOption? toCount?)
    types := ← fieldOr fields "types" [] (decodeTypeMap (room - 1)) }

/-! ## Keys and joins -/

/-- The fields of a key: one name, or a list of names. -/
def decodeKeyFields : Document → Option KeyFields
  | .string text => text.map KeyFields.single
  | document => (toList? toText? document).map KeyFields.composite

def decodePaging (document : Document) : Option Paging := do
  let fields ← document.fields? ["limit"]
  some { limit := ← field? fields "limit" toText? }

def decodeChildBinding (document : Document) : Option ChildBinding := do
  let fields ← document.fields? ["parent_field", "child_key"]
  some {
    parentField := ← field? fields "parent_field" toText?
    childKey := ← field? fields "child_key" toText? }

/-! ## Interfaces and definitions -/

def decodeInterface (lax : Bool) (room : Nat) (document : Document) : Option Interface := do
  let fields ← document.fields?
    ["kind", "params", "output", "keys", "paging", "children", "aliases"]
  some {
    kind := ← fieldOr fields "kind" .read (toChoice? lax StatementKind.choices)
    params := ← fieldOr fields "params" [] (decodeParamSpecs lax (room - 1))
    output := ← fieldOr fields "output" {} (decodeOutputShape lax (room - 1))
    keys := ← fieldOr fields "keys" [] (toTable? decodeKeyFields)
    paging := ← fieldOr fields "paging" none (toOption? decodePaging)
    children := ← fieldOr fields "children" [] (toTable? decodeChildBinding)
    aliases := ← fieldOr fields "aliases" [] (toTable? toText?) }

def decodeFragments (document : Document) : Option Fragments := do
  let fields ← document.fields? ["select", "from", "where", "group_by", "having", "order_by"]
  let entries (name : String) := fieldOr fields name [] (toList? toText?)
  some {
    select := ← entries "select"
    source := ← fieldOr fields "from" none (toOption? toText?)
    conditions := ← entries "where"
    groupBy := ← entries "group_by"
    having := ← entries "having"
    orderBy := ← entries "order_by" }

/-- Fragments and declarations stand side by side in one object, every member of which has to be
sound. -/
def decodeDefinition (document : Document) : Option Definition :=
  match document with
  | .object _ => do
    guard (document.isSound maxDepth)
    some {
      fragments := ← decodeFragments document
      interface := ← decodeInterface true maxDepth document }
  | _ => none

/-! ## Texts -/

def Interface.ofJson? (text : String) : Option Interface := do
  decodeInterface false maxDepth (← Document.ofText? text)

def Definition.ofJson? (text : String) : Option Definition := do
  decodeDefinition (← Document.ofText? text)

def ParamSpecs.ofJson? (text : String) : Option ParamSpecs := do
  decodeParamSpecs false maxDepth (← Document.ofText? text)

def TypeDecl.ofJson? (text : String) : Option TypeDecl := do
  decodeTypeDecl maxDepth (← Document.ofText? text)

def TypeMap.ofJson? (text : String) : Option TypeMap := do
  decodeTypeMap maxDepth (← Document.ofText? text)

/-- The value of a JSON text. -/
def Value.ofJson? (text : String) : Option Value := do
  (← Document.ofText? text).toValue? maxDepth

end QueryTerms
