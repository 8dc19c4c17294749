import QueryTerms.Proofs.Key
import QueryTerms.Proofs.Row.Grouping

/-!
# The key values that a statement is restricted to

A joined statement is restricted to the key values of the rows that are there.  Two values with one
text are one key, and the value that is kept of them is that of the first row.

**Distinct values.**  Dropping the values of a key that has come before keeps the first value of
every key (`find?_of_mem_eraseDupsBy`), and the keys in the order in which they first appear
(`map_ofValue_eraseDupsBy`).

**Collected values.**  `IsCollected` says which key values rows have, and leaves no choice: the keys
are those of the rows, and a key says which value it has (`IsCollected.unique`).
-/

namespace QueryTerms

variable {fields : KeyFields} {node : String} {rows : List Row} {values : List Value}

/-! ## Distinct values -/

/-- The keys of the distinct values are those of all values, each once and in order. -/
lemma map_ofValue_eraseDupsBy (values : List Value) :
    (values.eraseDupsBy sameKey).map KeyValue.ofValue =
      (values.map KeyValue.ofValue).eraseDups := by
  match values with
  | [] => rfl
  | value :: rest =>
    have hfilter : (rest.filter fun other => sameKey other value = false).map KeyValue.ofValue =
        (rest.map KeyValue.ofValue).filter fun key => !key == KeyValue.ofValue value := by
      rw [List.filter_map]
      refine congrArg _ (List.filter_congr fun other _ => ?_)
      rw [Function.comp_apply, sameKey]
      cases KeyValue.ofValue other == KeyValue.ofValue value <;> rfl
    rw [List.eraseDupsBy_cons, List.map_cons, map_ofValue_eraseDupsBy, hfilter, List.map_cons,
      List.eraseDups_cons]
termination_by values.length
decreasing_by
  rw [List.length_cons]
  exact Nat.lt_succ_of_le (List.length_filter_le _ rest)

/-- A distinct value is the first one of its key. -/
lemma find?_of_mem_eraseDupsBy {values : List Value} {value : Value}
    (h : value ∈ values.eraseDupsBy sameKey) : values.find? (sameKey · value) = some value := by
  match values with
  | [] => cases h
  | first :: rest =>
    rw [List.eraseDupsBy_cons, List.mem_cons] at h
    rw [List.find?_cons]
    rcases h with rfl | h
    · rw [sameKey, beq_self_eq_true]
    · have hfound := find?_of_mem_eraseDupsBy h
      have hother : KeyValue.ofValue value ≠ KeyValue.ofValue first := by
        simpa [sameKey] using (List.mem_filter.mp (List.mem_of_find?_eq_some hfound)).2
      -- The values of the first key, which have been dropped, are not of this one.
      have hkept : ∀ other, decide (decide (sameKey other first = false) = true ∧
          sameKey other value = true) = sameKey other value := by
        intro other
        rw [sameKey, sameKey]
        by_cases heq : KeyValue.ofValue other = KeyValue.ofValue value <;> simp [heq, hother]
      simp only [List.find?_filter, hkept] at hfound
      rw [hfound, sameKey, beq_false_of_ne hother.symm]
termination_by values.length
decreasing_by
  rw [List.length_cons]
  exact Nat.lt_succ_of_le (List.length_filter_le _ rest)

/-! ## Collected values -/

/-- The key value of a row, unless it is null. -/
def KeyFields.presentValue? (row : Row) (fields : KeyFields) : Option Value :=
  (fields.valueOf row).filter fun value => !value.isNull

/-- The key of a row, unless the key value is null. -/
def KeyValue.present? (fields : KeyFields) (row : Row) : Option KeyValue :=
  (fields.presentValue? row).map ofValue

/-- The key values of rows that are not null: each key once, in the order in which the keys first
appear, with the value from the first row that has the key. -/
structure IsCollected (fields : KeyFields) (rows : List Row) (values : List Value) : Prop where
  present : ∀ value ∈ values, value.isNull = false
  distinct : (values.map KeyValue.ofValue).Nodup
  order : values.map KeyValue.ofValue = (rows.filterMap (KeyValue.present? fields)).eraseDups
  first : ∀ value ∈ values, ∃ row,
    rows.find? (fun row => KeyValue.present? fields row = some (KeyValue.ofValue value)) =
      some row ∧ fields.valueOf row = some value
  complete : ∀ row ∈ rows, ∀ key, KeyValue.present? fields row = some key →
    key ∈ values.map KeyValue.ofValue

lemma distinctKeys_eq :
    distinctKeys fields rows =
      (rows.filterMap fun row => fields.presentValue? row).eraseDupsBy sameKey := by
  rw [distinctKeys, List.filter_filterMap]
  rfl

lemma map_ofValue_distinctKeys :
    (distinctKeys fields rows).map KeyValue.ofValue =
      (rows.filterMap (KeyValue.present? fields)).eraseDups := by
  rw [distinctKeys_eq, map_ofValue_eraseDupsBy, List.map_filterMap]
  rfl

lemma exists_find?_of_mem_distinctKeys {value : Value} (h : value ∈ distinctKeys fields rows) :
    ∃ row, rows.find? (fun row => KeyValue.present? fields row = some (KeyValue.ofValue value)) =
      some row ∧ fields.presentValue? row = some value := by
  rw [distinctKeys_eq] at h
  have hfound := find?_of_mem_eraseDupsBy h
  rw [List.find?_filterMap, Option.bind_eq_some_iff] at hfound
  obtain ⟨row, hrow, hvalue⟩ := hfound
  refine ⟨row, ?_, hvalue⟩
  rw [← hrow]
  congr 1
  funext other
  rw [KeyValue.present?]
  cases fields.presentValue? other with
  | none => rfl
  | some found =>
    simp only [Option.map_some, Option.some.injEq, Option.any_some]
    rfl

lemma presentValue?_eq_some_iff {row : Row} {value : Value} :
    fields.presentValue? row = some value ↔
      fields.valueOf row = some value ∧ value.isNull = false := by
  rw [KeyFields.presentValue?, Option.filter_eq_some_iff, Bool.not_eq_true']

/-- **The distinct key values of rows**, as they are listed for a statement. -/
theorem isCollected_distinctKeys : IsCollected fields rows (distinctKeys fields rows) where
  present value hvalue := by
    obtain ⟨row, -, hrow⟩ := exists_find?_of_mem_distinctKeys hvalue
    exact (presentValue?_eq_some_iff.mp hrow).2
  distinct := by
    rw [map_ofValue_distinctKeys]
    exact Table.nodup_eraseDups _
  order := map_ofValue_distinctKeys
  first value hvalue := by
    obtain ⟨row, hfound, hrow⟩ := exists_find?_of_mem_distinctKeys hvalue
    exact ⟨row, hfound, (presentValue?_eq_some_iff.mp hrow).1⟩
  complete row hrow key hkey := by
    rw [map_ofValue_distinctKeys, List.mem_eraseDups, List.mem_filterMap]
    exact ⟨row, hrow, hkey⟩

/-- The key value in the first row that has the key. -/
def firstWith (fields : KeyFields) (rows : List Row) (key : KeyValue) : Option Value :=
  (rows.find? fun row => KeyValue.present? fields row = some key).bind fun row =>
    fields.valueOf row

/-- The keys are those of the rows, and each of them says which value it has. -/
lemma IsCollected.map_firstWith (h : IsCollected fields rows values) :
    (rows.filterMap (KeyValue.present? fields)).eraseDups.map (firstWith fields rows) =
      values.map some := by
  rw [← h.order, List.map_map]
  refine List.map_congr_left fun value hvalue => ?_
  obtain ⟨row, hfound, hrow⟩ := h.first value hvalue
  rw [Function.comp_apply, firstWith, hfound, Option.bind_some, hrow]

/-- There is one way to collect the key values of rows. -/
lemma IsCollected.unique {others : List Value} (h : IsCollected fields rows values)
    (hothers : IsCollected fields rows others) : values = others := by
  have hsome : values.map some = others.map some :=
    h.map_firstWith.symm.trans hothers.map_firstWith
  exact (List.map_inj_right fun _ _ => Option.some.inj).mp hsome

/-- **Collecting the key values of rows.**  It fails if and only if a row lacks a field of the key,
and says so.  If none does, it gives the key values that are not null: each key once, in the order
in which the keys first appear, with the value from the first row that has the key. -/
theorem collectValues_exact (fields : KeyFields) (node : String) (rows : List Row) :
    (∀ error, collectValues fields node rows = .error error ↔
      (∃ row ∈ rows, ∃ field ∈ fields.fields, field ∉ Table.keys row) ∧
        error = .schema (.missingKey fields.fields node)) ∧
    ∀ values, collectValues fields node rows = .ok values ↔
      (∀ row ∈ rows, ∀ field ∈ fields.fields, field ∈ Table.keys row) ∧
        IsCollected fields rows values := by
  simp only [← valueOf_eq_none_iff, ← valueOf_isSome_iff]
  constructor
  · refine fun error => ⟨fun herror => ?_, ?_⟩
    · have hmissing : ∃ row ∈ rows, fields.valueOf row = none := by
        by_contra hall
        have hkeyed : ∀ row ∈ rows, (fields.valueOf row).isSome := fun row hrow =>
          Option.isSome_iff_ne_none.mpr fun hnone => hall ⟨row, hrow, hnone⟩
        rw [collectValues_eq_ok_iff.mpr ⟨hkeyed, rfl⟩] at herror
        cases herror
      rw [collectValues_eq_error hmissing, Except.error.injEq] at herror
      exact ⟨hmissing, herror.symm⟩
    · rintro ⟨hmissing, rfl⟩
      exact collectValues_eq_error hmissing
  · refine fun values => collectValues_eq_ok_iff.trans (and_congr_right fun _ => ⟨?_, fun h => ?_⟩)
    · rintro rfl
      exact isCollected_distinctKeys
    · exact h.unique isCollected_distinctKeys

example :
    let rows : List Row := [[("id", .null)], [("id", .integer 1)], [("id", .string "2")],
      [("id", .boolean true)], [("id", .integer 2)]]
    collectValues (.single "id") "users" rows = .ok [.integer 1, .string "2"] := by
  rfl

end QueryTerms
