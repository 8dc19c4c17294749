import QueryTerms.Interface.Fragments

/-!
# Where artifacts come from

A store answers three questions about a leaf id: its interface, its compiled statement, its
definition in fragments.

**Stores.** `Store`, and `StoreError` for what can go wrong.

**In memory.** `Catalog` holds artifacts that are at hand; a later entry replaces an earlier one.
-/

namespace QueryTerms

/-- Why an artifact cannot be had. -/
inductive StoreError where
  /-- There is none for this leaf. -/
  | notFound (leaf : String)
  /-- The id leads out of the store. -/
  | invalidLeaf (leaf : String)
  /-- The file at the path cannot be read. -/
  | unreadable (path : String)
  /-- The text at the path does not decode. -/
  | undecodable (path : String)

/-- The wording of the cause. -/
def StoreError.message : StoreError → String
  | .notFound leaf => "leaf '" ++ leaf ++ "' not found"
  | .invalidLeaf leaf => "leaf id '" ++ leaf ++ "' does not name a path inside the store"
  | .unreadable path => "io error reading '" ++ path ++ "'"
  | .undecodable path => "invalid artifact '" ++ path ++ "'"

/-- A source of artifacts. -/
structure Store where
  interface : String → Except StoreError Interface
  statement : String → Except StoreError String
  definition : String → Except StoreError Definition
  /-- At least as many as all targets of aliases together have characters. -/
  aliasExtent : Nat

/-- The aliases that a leaf declares, compiled or not; a leaf that cannot be read declares none. -/
def Store.aliasesOf (store : Store) (leaf : String) : Table String String :=
  match store.interface leaf with
  | .ok interface => interface.aliases
  | .error _ =>
    match store.definition leaf with
    | .ok definition => definition.interface.aliases
    | .error _ => []

/-! ## Artifacts in memory -/

/-- Compiled leaves and leaves in fragments, by id. -/
structure Catalog where
  compiled : Table String (Interface × String) := []
  definitions : Table String Definition := []

namespace Catalog

/-- Adds a compiled leaf. -/
def addCompiled (catalog : Catalog) (leaf : String) (interface : Interface) (sql : String) :
    Catalog :=
  { catalog with compiled := catalog.compiled.set leaf (interface, sql) }

/-- Adds a leaf in fragments. -/
def addDefinition (catalog : Catalog) (leaf : String) (definition : Definition) : Catalog :=
  { catalog with definitions := catalog.definitions.set leaf definition }

/-- The value of an entry, or the error that there is none. -/
def found {α β : Type} (leaf : String) (entry : Option α) (part : α → β) : Except StoreError β :=
  match entry with
  | some value => .ok (part value)
  | none => .error (.notFound leaf)

/-- The targets of all aliases. -/
def aliasTargets (catalog : Catalog) : List String :=
  catalog.compiled.values.flatMap (·.1.aliases.values) ++
    catalog.definitions.values.flatMap (·.interface.aliases.values)

/-- The catalog as a store. -/
def toStore (catalog : Catalog) : Store where
  interface leaf := found leaf (catalog.compiled.get? leaf) Prod.fst
  statement leaf := found leaf (catalog.compiled.get? leaf) Prod.snd
  definition leaf := found leaf (catalog.definitions.get? leaf) id
  aliasExtent := (String.join catalog.aliasTargets).length

end Catalog

end QueryTerms
