import QueryTerms.Error

/-!
# Merging rows field by field

Two rows about the same thing become one.  Scalars overwrite scalars, nested rows merge field by
field, and null never erases a nested row.  A nested row that meets a scalar is a conflict.

**Step by step.** `mergeFields` gives the row as far as it was merged and the field of the first
conflict, if there is one; `mergeValue` is one field of it.

**All or an error.** `Row.merge`.
-/

namespace QueryTerms

mutual

/-- The value of a field after merging, and the field of the first conflict in it. -/
def mergeValue (field : String) (existing : Value) : Value → Value × Option String
  | .object source =>
    match existing with
    | .object target =>
      let (row, conflict) := mergeFields target source
      (.object row, conflict)
    | .null => (.object source, none)
    | other => (other, some field)
  | .null => if existing.isObject then (existing, none) else (.null, none)
  | incoming => if existing.isObject then (existing, some field) else (incoming, none)

/-- The target with the fields of the source merged in, up to the first conflict, and the field of
that conflict. -/
def mergeFields (target : Row) : List (String × Value) → Row × Option String
  | [] => (target, none)
  | (field, incoming) :: rest =>
    match target.get? field with
    | none => mergeFields (target.set field incoming) rest
    | some existing =>
      match mergeValue field existing incoming with
      | (value, none) => mergeFields (target.set field value) rest
      | (value, some conflict) => (target.set field value, some conflict)

end

/-- The target with the source merged in. -/
def Row.merge (target source : Row) : Except QueryError Row :=
  match mergeFields target source with
  | (row, none) => .ok row
  | (_, some field) => .error (.fieldConflict field)

end QueryTerms
