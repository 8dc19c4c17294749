import Mathlib.Data.List.Induction
import QueryTerms.Proofs.Gather
import QueryTerms.Proofs.Outcome
import QueryTerms.Row.Keyed

/-!
# Rows by key

The joins look rows up by key, and ask for the keys of the rows they have.  This file says what
they get, in terms of the list of rows alone.

**Keys of rows.**  `distinctKeys` are the values of a key that are not null, each once and in order
of first appearance; `collectValues_eq_ok_iff`, and `collectValues_eq_error` for rows without it.

**Keys of tables.**  Whatever a table by key holds for the rows that have gone into it, its keys
are those of the rows, each once and in order of first appearance: `keys_of_foldlM`.

**Groups.**  One more row goes to the end of the group of its key (`groupRows_concat_eq_ok_iff`), so
that the group of a key is the list of the rows with that key: `get?_groupRows`.

**Rows merged by key.**  One more row is merged into the one that has its key, or added
(`associateRow_eq_ok_iff`); the keys of the table are those of the rows: `keys_associate`.
-/

namespace QueryTerms

variable {fields : KeyFields} {node : String} {rows : List Row}

lemma keyOf_eq_ok_iff {row : Row} {key : KeyValue} :
    keyOf fields node row = .ok key ↔ KeyValue.ofRow? fields row = some key := by
  rw [keyOf]
  split
  · next found hfound => rw [hfound, Except.ok.injEq, Option.some.injEq]
  · next hnone => simp [hnone]

lemma KeyValue.ofRow?_eq_some_iff {row : Row} {key : KeyValue} :
    KeyValue.ofRow? fields row = some key ↔
      ∃ value, fields.valueOf row = some value ∧ KeyValue.ofValue value = key := by
  rw [KeyValue.ofRow?, Option.map_eq_some_iff]

/-! ## Keys of rows -/

/-- Whether two values count as the same key. -/
def sameKey (value other : Value) : Bool := KeyValue.ofValue value == KeyValue.ofValue other

/-- The values of a key in the rows that are not null, each in its first appearance. -/
def distinctKeys (fields : KeyFields) (rows : List Row) : List Value :=
  ((rows.filterMap fun row => fields.valueOf row).filter fun value => !value.isNull).eraseDupsBy
    sameKey

lemma collectFrom_eq_ok_iff {seen : List KeyValue} {values : List Value} :
    collectFrom fields node seen rows = .ok values ↔
      (∀ row ∈ rows, (fields.valueOf row).isSome) ∧
        values = ((rows.filterMap fun row => fields.valueOf row).filter fun value =>
          !(value.isNull || seen.contains (KeyValue.ofValue value))).eraseDupsBy sameKey := by
  induction rows generalizing seen values with
  | nil =>
    rw [collectFrom, Except.ok.injEq, eq_comm]
    simp
  | cons row rest ih =>
    rw [collectFrom, List.forall_mem_cons, List.filterMap_cons]
    cases hvalue : fields.valueOf row with
    | none => simp
    | some value =>
      simp only [Option.isSome_some, true_and]
      rw [List.filter_cons]
      split
      · next hskip =>
        rw [hskip, ih, if_neg (by simp)]
      · next hnew =>
        rw [Bool.not_eq_true] at hnew
        rw [hnew, if_pos Bool.not_false, List.eraseDupsBy_cons, List.filter_filter, map_eq_ok_iff]
        -- What is dropped as a repetition of `value` is what is dropped once its key is seen.
        have hseen : ∀ other : Value,
            (!(other.isNull ||
                (KeyValue.ofValue value :: seen).contains (KeyValue.ofValue other))) =
              (decide (sameKey other value = false) &&
                !(other.isNull || seen.contains (KeyValue.ofValue other))) := by
          intro other
          rw [sameKey, List.contains_cons]
          cases other.isNull <;> cases KeyValue.ofValue other == KeyValue.ofValue value <;> simp
        simp only [ih, hseen]
        constructor
        · rintro ⟨others, ⟨hall, rfl⟩, rfl⟩
          exact ⟨hall, rfl⟩
        · rintro ⟨hall, rfl⟩
          exact ⟨_, ⟨hall, rfl⟩, rfl⟩

/-- **The key values that are asked for.**  Collecting them succeeds if every row has the key, and
gives the distinct ones that are not null in order of first appearance. -/
theorem collectValues_eq_ok_iff {values : List Value} :
    collectValues fields node rows = .ok values ↔
      (∀ row ∈ rows, (fields.valueOf row).isSome) ∧ values = distinctKeys fields rows := by
  rw [collectValues, collectFrom_eq_ok_iff, distinctKeys]
  simp only [List.contains_nil, Bool.or_false]

/-- A row without the key is an error, however many keys there are in front of it. -/
lemma collectValues_eq_error (h : ∃ row ∈ rows, fields.valueOf row = none) :
    collectValues fields node rows = .error (missingKey fields node) := by
  rw [collectValues]
  generalize ([] : List KeyValue) = seen
  induction rows generalizing seen with
  | nil =>
    obtain ⟨_, hmem, -⟩ := h
    cases hmem
  | cons row rest ih =>
    rw [collectFrom]
    cases hvalue : fields.valueOf row with
    | none => rfl
    | some value =>
      have hrest : ∃ row ∈ rest, fields.valueOf row = none := by
        rw [List.exists_mem_cons_iff, hvalue] at h
        exact h.resolve_left (Option.some_ne_none value)
      dsimp only
      split
      · exact ih hrest seen
      · rw [ih hrest]
        rfl

/-! ## Keys of tables -/

/-- **The keys of a table by key.**  If every row gives its key a value, and no other key, then the
keys are those of the rows, behind those that were there before. -/
theorem keys_of_foldlM {α : Type}
    {step : Table KeyValue α → Row → Except QueryError (Table KeyValue α)}
    (hstep : ∀ table row next, step table row = .ok next →
      ∃ key value, KeyValue.ofRow? fields row = some key ∧ next = table.set key value)
    {start result : Table KeyValue α} (hstart : start.keys.Nodup)
    (h : rows.foldlM step start = .ok result) :
    result.keys = (start.keys ++ rows.filterMap (KeyValue.ofRow? fields)).eraseDups := by
  induction rows generalizing start with
  | nil =>
    cases h
    rw [List.filterMap_nil, List.append_nil, Table.eraseDups_of_nodup hstart]
  | cons row rest ih =>
    rw [List.foldlM_cons] at h
    obtain ⟨next, hnext, hrest⟩ := bind_eq_ok_iff.mp h
    obtain ⟨key, value, hkey, rfl⟩ := hstep _ _ _ hnext
    rw [ih (Table.nodup_keys_set key value start hstart) hrest,
      Table.eraseDups_keys_set_append, List.filterMap_cons, hkey]

/-! ## Groups -/

/-- The rows with a key, in order. -/
def rowsWith (fields : KeyFields) (key : KeyValue) (rows : List Row) : List Row :=
  rows.filter fun row => KeyValue.ofRow? fields row = some key

lemma rowsWith_concat {row : Row} {own : KeyValue} (h : KeyValue.ofRow? fields row = some own)
    (key : KeyValue) :
    rowsWith fields key (rows ++ [row]) =
      if own = key then rowsWith fields key rows ++ [row] else rowsWith fields key rows := by
  rw [rowsWith, List.filter_append, List.filter_singleton, ← rowsWith]
  by_cases heq : own = key <;> simp [h, heq]

lemma groupRows_concat (row : Row) :
    groupRows fields node (rows ++ [row]) =
      groupRows fields node rows >>= fun groups => keyOf fields node row >>= fun key =>
        .ok (groups.set key ((groups.get? key).getD [] ++ [row])) := by
  rw [groupRows, List.foldlM_append, ← groupRows]
  simp only [List.foldlM_cons, List.foldlM_nil, bind_pure]
  rfl

/-- One more row goes to the end of the group of its key. -/
lemma groupRows_concat_eq_ok_iff {row : Row} {groups : Table KeyValue (List Row)} :
    groupRows fields node (rows ++ [row]) = .ok groups ↔
      ∃ before key, groupRows fields node rows = .ok before ∧
        KeyValue.ofRow? fields row = some key ∧
        before.set key ((before.get? key).getD [] ++ [row]) = groups := by
  simp only [groupRows_concat, bind_eq_ok_iff, keyOf_eq_ok_iff, Except.ok.injEq, exists_and_left]

/-- **The group of a key is the list of the rows with that key.** -/
theorem get?_groupRows {groups : Table KeyValue (List Row)}
    (h : groupRows fields node rows = .ok groups) (key : KeyValue) :
    (groups.get? key).getD [] = rowsWith fields key rows := by
  induction rows using List.reverseRecOn generalizing groups with
  | nil =>
    cases h
    rfl
  | append_singleton rest row ih =>
    obtain ⟨before, own, hbefore, hown, rfl⟩ := groupRows_concat_eq_ok_iff.mp h
    rw [Table.get?_set, rowsWith_concat hown, ← ih hbefore]
    split
    · next heq => rw [Option.getD_some, heq]
    · rfl

/-- The groups are those of the keys that rows have, in the order in which the keys first appear. -/
theorem keys_groupRows {groups : Table KeyValue (List Row)}
    (h : groupRows fields node rows = .ok groups) :
    groups.keys = (rows.filterMap (KeyValue.ofRow? fields)).eraseDups := by
  have hnil : (Table.keys ([] : Table KeyValue (List Row))).Nodup := List.nodup_nil
  refine keys_of_foldlM (fun groups row next hnext => ?_) hnil h
  obtain ⟨key, hkey, hset⟩ := bind_eq_ok_iff.mp hnext
  cases hset
  exact ⟨key, _, keyOf_eq_ok_iff.mp hkey, rfl⟩

/-! ## Rows merged by key -/

/-- **What one more row does**, in a table that has its key and in one that has not. -/
lemma associateRow_eq_ok_iff {key : KeyValue} {row : Row} {table next : Table KeyValue Row} :
    associateRow key row table = .ok next ↔
      ∃ value, table.set key value = next ∧
        (table.get? key = none ∧ value = row ∨
          ∃ existing, table.get? key = some existing ∧ existing.merge row = .ok value) := by
  rw [associateRow]
  split
  · next existing hexisting =>
    simp only [hexisting, reduceCtorEq, false_and, false_or, Option.some.injEq, exists_eq_left']
    exact map_eq_ok_iff.trans (exists_congr fun _ => and_comm)
  · next hnew =>
    simp only [hnew, true_and, reduceCtorEq, false_and, exists_false, or_false, exists_eq_right,
      Except.ok.injEq]

lemma associate_concat_eq_ok_iff {row : Row} {table : Table KeyValue Row} :
    associate fields node (rows ++ [row]) = .ok table ↔
      ∃ before key, associate fields node rows = .ok before ∧
        KeyValue.ofRow? fields row = some key ∧ associateRow key row before = .ok table := by
  rw [associate, List.foldlM_append, ← associate]
  simp only [List.foldlM_cons, List.foldlM_nil, bind_pure, bind_eq_ok_iff, keyOf_eq_ok_iff,
    exists_and_left]

lemma exists_key_of_associate {table : Table KeyValue Row}
    (h : associate fields node rows = .ok table) :
    ∀ row ∈ rows, ∃ key, KeyValue.ofRow? fields row = some key := by
  induction rows using List.reverseRecOn generalizing table with
  | nil => exact nofun
  | append_singleton rest row ih =>
    obtain ⟨before, key, hbefore, hkey, -⟩ := associate_concat_eq_ok_iff.mp h
    exact List.forall_mem_append.mpr ⟨ih hbefore, List.forall_mem_singleton.mpr ⟨key, hkey⟩⟩

/-- Rows merged by key have these keys too, in the same order. -/
theorem keys_associate {table : Table KeyValue Row}
    (h : associate fields node rows = .ok table) :
    table.keys = (rows.filterMap (KeyValue.ofRow? fields)).eraseDups := by
  have hnil : (Table.keys ([] : Table KeyValue Row)).Nodup := List.nodup_nil
  refine keys_of_foldlM (fun table row next hnext => ?_) hnil h
  obtain ⟨key, hkey, hrow⟩ := bind_eq_ok_iff.mp hnext
  obtain ⟨value, rfl, -⟩ := associateRow_eq_ok_iff.mp hrow
  exact ⟨key, value, keyOf_eq_ok_iff.mp hkey, rfl⟩

lemma mem_keys_associate {table : Table KeyValue Row}
    (h : associate fields node rows = .ok table) (key : KeyValue) :
    key ∈ table.keys ↔ ∃ row ∈ rows, KeyValue.ofRow? fields row = some key := by
  rw [keys_associate h, List.mem_eraseDups, List.mem_filterMap]

lemma nodup_keys_associate {table : Table KeyValue Row}
    (h : associate fields node rows = .ok table) : table.keys.Nodup := by
  rw [keys_associate h]
  exact Table.nodup_eraseDups _

end QueryTerms
