import QueryTerms.Artifact.Directory

/-!
# Settings

`Config` is fixed once a resolver is built.  It is read from a JSON record in which absent fields
take their defaults.
-/

namespace QueryTerms

/-- The settings of the engine. -/
structure Config where
  /-- The most key values that one step of a filter hands to the next. -/
  filterKeyLimit : Nat := 5000
  /-- Values of parameters that neither the caller nor the leaf supplies. -/
  globalParams : Params := []
  /-- What separates the parts of a compound field name. -/
  nestedSeparator : String := "."

namespace Config

open Json Document

def decode (document : Document) : Option Config := do
  let fields ← document.fields? ["filter_key_limit", "global_params", "nested_separator"]
  some {
    filterKeyLimit := ← fieldOr fields "filter_key_limit" 5000 toCount?
    globalParams := ← fieldOr fields "global_params" [] (toTable? (toValue? (maxDepth - 2)))
    nestedSeparator := ← fieldOr fields "nested_separator" "." toText? }

def ofJson? (text : String) : Option Config := do
  decode (← Document.ofText? text)

/-- The settings in a file below `root`; its path is opened as it is given. -/
def read (root : Entry) (path : String) : Except StoreError Config :=
  match root.readText "" path with
  | .error _ => .error (.unreadable path)
  | .ok text =>
    match ofJson? text with
    | some config => .ok config
    | none => .error (.undecodable path)

end Config

end QueryTerms
