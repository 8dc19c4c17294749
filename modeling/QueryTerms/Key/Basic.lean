import QueryTerms.Value.Text

/-!
# Keys

Two queries are joined on a key: a name that both declare, backed by fields that may differ from
one to the other (`user` may be `id` here and `user_id` there).

**Backing fields.** `KeyFields`, with `valueOf` to read the key of a row and `strip` to drop it.

**Key maps.** `KeyMap` with `sharedKeys`, `commonToAll` and `unionKeys`.

**Comparing.** `KeyValue`: drivers disagree on whether an id comes back as `1` or as `"1"`, so key
values are compared by their text.
-/

namespace QueryTerms

/-- The fields that back a key. -/
inductive KeyFields where
  | single (field : String)
  | composite (fields : List String)
deriving DecidableEq

namespace KeyFields

def fields : KeyFields → List String
  | .single field => [field]
  | .composite parts => parts

/-- Whether several fields back the key. -/
def isComposite : KeyFields → Bool
  | .single _ => false
  | .composite parts => 1 < parts.length

/-- The key of a row: the value of its field, or the sequence of the values of its fields.  `none`
if a field is missing. -/
def valueOf (row : Row) : KeyFields → Option Value
  | .single field => row.get? field
  | .composite parts => (parts.mapM fun field => row.get? field).map Value.array

/-- The row without the backing fields. -/
def strip (keyFields : KeyFields) (row : Row) : Row :=
  keyFields.fields.foldl (fun row field => row.erase field) row

end KeyFields

/-- From the names of keys to the fields that back them. -/
abbrev KeyMap := Table String KeyFields

/-- The fields that back `key`; a key that is not declared is taken as a field. -/
def KeyMap.fieldsOf (keys : KeyMap) (key : String) : KeyFields :=
  (keys.get? key).getD (.single key)

/-- The names that both maps declare, in the order of the left one. -/
def sharedKeys (left right : KeyMap) : List String :=
  left.keys.filter right.has

/-- The names that every map declares, in the order of the first one. -/
def commonToAll : List KeyMap → List String
  | [] => []
  | first :: rest => first.keys.filter fun key => rest.all fun map => map.has key

/-- All declared names; the first declaration of a name counts. -/
def unionKeys (maps : List KeyMap) : KeyMap :=
  maps.foldl Table.extendNew []

/-! ## Comparing key values -/

/-- A key value in the form in which key values are compared. -/
structure KeyValue where
  text : String
deriving DecidableEq

/-- What stands between the components of a composite key value. -/
def unitSeparator : String := "\x1f"

namespace KeyValue

/-- The text of a value; a boolean counts as 0 or 1, the components of a sequence are joined. -/
def ofValue : Value → KeyValue
  | .array parts => ⟨String.intercalate unitSeparator (parts.map Value.text)⟩
  | .boolean b => ⟨if b then "1" else "0"⟩
  | value => ⟨value.text⟩

/-- The key of a row in the form for comparison. -/
def ofRow? (keyFields : KeyFields) (row : Row) : Option KeyValue :=
  (keyFields.valueOf row).map ofValue

end KeyValue

end QueryTerms
