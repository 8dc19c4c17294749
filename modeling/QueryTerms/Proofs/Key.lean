import QueryTerms.Key.Basic
import QueryTerms.Proofs.Row.Names

/-!
# The fields of a key

**Reading.**  A key is read from its backing fields and from nothing else: `valueOf_congr`.

**Dropping.**  A row is a map, so that dropping the backing fields leaves the entries of the other
names: `strip_eq_filter`.

**Missing fields.**  A key is there if all its backing fields are (`valueOf_isSome_iff`), and is not
if one of them is not.

**Several maps.**  `get?_unionKeys`.
-/

namespace QueryTerms

namespace KeyFields

variable {fields : KeyFields} {row other : Row}

/-! ## Reading -/

/-- Rows that agree on the backing fields have the same key. -/
lemma valueOf_congr (h : ∀ field ∈ fields.fields, Table.get? field row = Table.get? field other) :
    fields.valueOf row = fields.valueOf other := by
  cases fields with
  | single field => exact h field (List.mem_singleton_self field)
  | composite parts =>
    rw [valueOf, valueOf]
    congr 1
    induction parts with
    | nil => rfl
    | cons part rest ih =>
      have hpart : Table.get? part row = Table.get? part other := h part List.mem_cons_self
      rw [List.mapM_cons, List.mapM_cons, hpart,
        ih fun field hmem => h field (List.mem_cons_of_mem part hmem)]

lemma ofRow?_congr (h : ∀ field ∈ fields.fields, Table.get? field row = Table.get? field other) :
    KeyValue.ofRow? fields row = KeyValue.ofRow? fields other := by
  rw [KeyValue.ofRow?, KeyValue.ofRow?, valueOf_congr h]

/-! ## Dropping -/

/-- Dropping the backing fields leaves the other entries. -/
theorem strip_eq_filter (h : row.NamesDistinct) :
    fields.strip row = row.filter fun entry => entry.1 ∉ fields.fields := by
  rw [strip]
  generalize fields.fields = names
  induction names generalizing row with
  | nil => simp
  | cons name rest ih =>
    have herase : Row.NamesDistinct (Table.erase name row) := Table.nodup_keys_erase name h
    rw [List.foldl_cons, ih herase, Table.erase_eq_filter h, List.filter_filter]
    refine List.filter_congr fun entry _ => ?_
    rw [Bool.eq_iff_iff]
    simp [and_comm]

lemma get?_strip_of_notMem {name : String} (h : name ∉ fields.fields) (row : Row) :
    Table.get? name (fields.strip row) = row.get? name := by
  rw [strip]
  generalize fields.fields = names at h
  induction names generalizing row with
  | nil => rfl
  | cons field rest ih =>
    rw [List.mem_cons, not_or] at h
    rw [List.foldl_cons, ih _ h.2, Table.get?_erase_of_ne (Ne.symm h.1)]

lemma get?_strip (h : row.NamesDistinct) (name : String) :
    Table.get? name (fields.strip row) = if name ∈ fields.fields then none else row.get? name := by
  rw [strip_eq_filter h, Table.get?_filter_keys]

end KeyFields

/-! ## Missing fields -/

/-- A row has a key if it has all fields that back it. -/
lemma valueOf_isSome_iff {fields : KeyFields} {row : Row} :
    (fields.valueOf row).isSome ↔ ∀ field ∈ fields.fields, field ∈ row.keys := by
  have hfield : ∀ field, (row.get? field).isSome ↔ field ∈ row.keys := fun field =>
    Table.has_iff_mem_keys field row
  cases fields with
  | single field => simpa [KeyFields.valueOf, KeyFields.fields] using hfield field
  | composite parts =>
    rw [KeyFields.valueOf, Option.isSome_map, KeyFields.fields]
    induction parts with
    | nil => simp
    | cons part rest ih =>
      refine Iff.trans ?_ (List.forall_mem_cons.trans (and_congr (hfield part).symm ih.symm)).symm
      rw [List.mapM_cons]
      cases row.get? part with
      | none => simp
      | some value => cases rest.mapM fun field => row.get? field <;> simp

lemma valueOf_eq_none_iff {fields : KeyFields} {row : Row} :
    fields.valueOf row = none ↔ ∃ field ∈ fields.fields, field ∉ row.keys := by
  rw [← Option.not_isSome_iff_eq_none, valueOf_isSome_iff]
  push Not
  rfl

/-! ## Several maps -/

/-- The first map that declares a name counts. -/
lemma get?_unionKeys (maps : List KeyMap) (key : String) :
    (unionKeys maps).get? key = maps.findSome? (Table.get? key) := by
  rw [unionKeys, Table.get?_foldl_extendNew, Table.get?_nil, Option.none_or]

end QueryTerms
