import Mathlib.Data.List.Induction
import QueryTerms.Proofs.Outcome
import QueryTerms.Proofs.Row.Order
import QueryTerms.Proofs.Table
import QueryTerms.Row.Keyed

/-!
# Merging rows under their keys

Rows that share a key become one row, in one source or in several.

**Entry by entry.**  Rows of several sources go into one table, those of one source already merged
among themselves: `mergeByKey_eq_ok_iff`.

**Whatever merging keeps.**  A table of rows by key holds rows that it was given, and rows merged of
these.  A property that merging keeps is therefore one of all rows of the table, if the given rows
have it: `forall_associate` and `forall_mergeByKey`.
-/

namespace QueryTerms

/-! ## Entry by entry -/

lemma values_append_cons (front back : Table KeyValue Row) (key : KeyValue) (row : Row) :
    Table.values (front ++ (key, row) :: back) = front.values ++ row :: back.values := by
  rw [Table.values, List.map_append, List.map_cons]
  rfl

lemma values_insertAt (index : Nat) (key : KeyValue) (row : Row) (table : Table KeyValue Row) :
    (table.insertAt index key row).values =
      table.values.take index ++ row :: table.values.drop index := by
  simp only [Table.insertAt, Table.values, List.map_append, List.map_cons, List.map_take,
    List.map_drop]

lemma mem_keys_insertAt {index : Nat} {key other : KeyValue} {row : Row}
    {table : Table KeyValue Row} :
    other ∈ (table.insertAt index key row).keys ↔ other = key ∨ other ∈ table.keys := by
  have hkeys : (table.insertAt index key row).keys =
      table.keys.take index ++ key :: table.keys.drop index := by
    simp only [Table.insertAt, Table.keys, List.map_append, List.map_cons, List.map_take,
      List.map_drop]
  have hsplit : other ∈ table.keys ↔
      other ∈ table.keys.take index ∨ other ∈ table.keys.drop index := by
    rw [← List.mem_append, List.take_append_drop]
  rw [hkeys, hsplit, List.mem_append, List.mem_cons, or_left_comm]

/-- Where a new key goes: to its position in the order, or to the end. -/
def placeOf (order : Option OrderBy) (row : Row) (merged : Table KeyValue Row) : Nat :=
  (order.bind fun order => insertPosition order row merged.values).getD merged.length

section PlaceRow

variable {order : Option OrderBy} {key : KeyValue} {row existing : Row}
  {merged next front back : Table KeyValue Row}

/-- A present key: the row is merged into the one that has it, where that one stands. -/
lemma placeRow_of_present (hfront : key ∉ front.keys) :
    placeRow order key row (front ++ (key, existing) :: back) = .ok next ↔
      ∃ both, existing.merge row = .ok both ∧ front ++ (key, both) :: back = next := by
  have hget : Table.get? key (front ++ (key, existing) :: back) = some existing :=
    Table.get?_eq_some_iff.mpr ⟨front, back, rfl, hfront⟩
  have hset : ∀ both, Table.set key both (front ++ (key, existing) :: back) =
      front ++ (key, both) :: back := fun both => Table.set_append_cons hfront existing both back
  rw [placeRow, hget]
  simp only [hset]
  exact map_eq_ok_iff

/-- A new key: the row goes to its place. -/
lemma placeRow_of_new (hnew : key ∉ merged.keys) :
    placeRow order key row merged = .ok (merged.insertAt (placeOf order row merged) key row) := by
  rw [placeRow, Table.get?_eq_none_iff.mpr hnew, placeOf]
  simp only
  cases order.bind fun order => insertPosition order row merged.values with
  | some index => rfl
  | none =>
    rw [Option.getD_none, Table.insertAt, List.take_length, List.drop_length]

/-- **What placing does**, in a table that has the key and in one that has not. -/
theorem placeRow_eq_ok (h : placeRow order key row merged = .ok next) :
    (∃ front back existing both, merged = front ++ (key, existing) :: back ∧
      key ∉ Table.keys front ∧ existing.merge row = .ok both ∧
      next = front ++ (key, both) :: back) ∨
    (key ∉ merged.keys ∧ next = merged.insertAt (placeOf order row merged) key row) := by
  cases hget : merged.get? key with
  | some existing =>
    obtain ⟨front, back, rfl, hfront⟩ := Table.get?_eq_some_iff.mp hget
    obtain ⟨both, hboth, rfl⟩ := (placeRow_of_present hfront).mp h
    exact .inl ⟨front, back, existing, both, rfl, hfront, hboth, rfl⟩
  | none =>
    have hnew := Table.get?_eq_none_iff.mp hget
    rw [placeRow_of_new hnew, Except.ok.injEq] at h
    exact .inr ⟨hnew, h.symm⟩

lemma mem_keys_placeRow {other : KeyValue} (h : placeRow order key row merged = .ok next) :
    other ∈ next.keys ↔ other = key ∨ other ∈ merged.keys := by
  obtain ⟨front, back, existing, both, rfl, -, -, rfl⟩ | ⟨-, rfl⟩ := placeRow_eq_ok h
  · simp only [Table.keys, List.map_append, List.map_cons, List.mem_append, List.mem_cons]
    constructor
    · exact .inr
    · rintro (rfl | hmem)
      · exact .inr (.inl rfl)
      · exact hmem
  · exact mem_keys_insertAt

end PlaceRow

/-- Puts entries into a table, one after another. -/
def placeAll (order : Option OrderBy) (merged entries : Table KeyValue Row) :
    Except QueryError (Table KeyValue Row) :=
  entries.foldlM (fun merged entry => placeRow order entry.1 entry.2 merged) merged

/-- These are the rows of the sources by key, those of one source merged among themselves. -/
def MergedApart (sources : List KeyedRows) (tables : List (Table KeyValue Row)) : Prop :=
  List.Forall₂ (fun source table => associate source.fields source.node source.rows = .ok table)
    sources tables

lemma placeAll_append_eq_ok_iff {order : Option OrderBy}
    {start before after merged : Table KeyValue Row} :
    placeAll order start (before ++ after) = .ok merged ↔
      ∃ stage, placeAll order start before = .ok stage ∧
        placeAll order stage after = .ok merged := by
  rw [placeAll, List.foldlM_append, bind_eq_ok_iff]
  rfl

lemma placeAll_singleton {order : Option OrderBy} {merged : Table KeyValue Row} {key : KeyValue}
    {row : Row} : placeAll order merged [(key, row)] = placeRow order key row merged := by
  rw [placeAll, List.foldlM_cons]
  cases placeRow order key row merged <;> rfl

/-- The keys of the table are those of the entries. -/
lemma mem_keys_placeAll {order : Option OrderBy} {entries merged : Table KeyValue Row}
    (h : placeAll order [] entries = .ok merged) (key : KeyValue) :
    key ∈ merged.keys ↔ key ∈ entries.keys := by
  induction entries using List.reverseRecOn generalizing merged with
  | nil =>
    cases h
    rfl
  | append_singleton entries entry ih =>
    obtain ⟨own, row⟩ := entry
    obtain ⟨stage, hstage, hplaced⟩ := placeAll_append_eq_ok_iff.mp h
    rw [placeAll_singleton] at hplaced
    rw [mem_keys_placeRow hplaced, ih hstage, Table.keys, Table.keys, List.map_append,
      List.mem_append, List.map_singleton, List.mem_singleton, or_comm]

/-- **Sources are merged entry by entry.** -/
theorem mergeByKey_eq_ok_iff {order : Option OrderBy} {sources : List KeyedRows}
    {merged : Table KeyValue Row} :
    mergeByKey order sources = .ok merged ↔
      ∃ tables, MergedApart sources tables ∧ placeAll order [] tables.flatten = .ok merged := by
  rw [mergeByKey]
  generalize ([] : Table KeyValue Row) = start
  induction sources generalizing start with
  | nil =>
    constructor
    · intro h
      exact ⟨[], .nil, h⟩
    · rintro ⟨_, ⟨⟩, h⟩
      exact h
  | cons source rest ih =>
    rw [List.foldlM_cons, bind_eq_ok_iff]
    constructor
    · rintro ⟨next, hnext, hrest⟩
      obtain ⟨table, htable, hplaced⟩ := bind_eq_ok_iff.mp hnext
      obtain ⟨tables, htables, hall⟩ := (ih next).mp hrest
      refine ⟨table :: tables, .cons htable htables, ?_⟩
      rw [List.flatten_cons]
      exact placeAll_append_eq_ok_iff.mpr ⟨next, hplaced, hall⟩
    · rintro ⟨_, _ | ⟨htable, htables⟩, hall⟩
      rw [List.flatten_cons] at hall
      obtain ⟨next, hplaced, hall⟩ := placeAll_append_eq_ok_iff.mp hall
      exact ⟨next, bind_eq_ok_iff.mpr ⟨_, htable, hplaced⟩, (ih next).mpr ⟨_, htables, hall⟩⟩

/-! ## Whatever merging keeps -/

section Kept

variable {P : Row → Prop}

lemma forall_set {table : Table KeyValue Row} (h : ∀ row ∈ table.values, P row) (key : KeyValue)
    {row : Row} (hrow : P row) : ∀ other ∈ Table.values (table.set key row), P other := by
  intro other hother
  rcases Table.mem_values_set hother with rfl | hother
  · exact hrow
  · exact h other hother

variable
  (hmerge : ∀ target source merged : Row, P target → P source → target.merge source = .ok merged →
    P merged)
include hmerge

lemma forall_associate {fields : KeyFields} {node : String} {rows : List Row}
    (h : ∀ row ∈ rows, P row) {table : Table KeyValue Row}
    (hok : associate fields node rows = .ok table) : ∀ row ∈ table.values, P row := by
  refine foldlM_induction (P := fun table => ∀ row ∈ Table.values table, P row) ?_
    (fun _ hmem => absurd hmem List.not_mem_nil) hok
  intro table row next hmem htable hnext
  obtain ⟨key, -, hnext⟩ := bind_eq_ok_iff.mp hnext
  rw [associateRow] at hnext
  split at hnext
  · next existing hget =>
    obtain ⟨merged, hmerged, hnext⟩ := bind_eq_ok_iff.mp hnext
    cases hnext
    have hexisting := htable existing (Table.mem_values_of_get?_eq_some hget)
    exact forall_set htable key (hmerge _ _ _ hexisting (h row hmem) hmerged)
  · cases hnext
    exact forall_set htable key (h row hmem)

lemma forall_placeRow {order : Option OrderBy} {key : KeyValue} {row : Row}
    {merged next : Table KeyValue Row} (h : ∀ row ∈ merged.values, P row) (hrow : P row)
    (hok : placeRow order key row merged = .ok next) : ∀ row ∈ next.values, P row := by
  obtain ⟨front, back, existing, both, rfl, -, hboth, rfl⟩ | ⟨-, rfl⟩ := placeRow_eq_ok hok
  · rw [values_append_cons] at h ⊢
    intro other hother
    rcases List.mem_append.mp hother with hother | hother
    · exact h other (List.mem_append_left _ hother)
    · rcases List.mem_cons.mp hother with rfl | hother
      · have hexisting := h existing (List.mem_append_right _ List.mem_cons_self)
        exact hmerge existing row _ hexisting hrow hboth
      · exact h other (List.mem_append_right _ (List.mem_cons_of_mem _ hother))
  · rw [values_insertAt]
    intro other hother
    rcases List.mem_append.mp hother with hother | hother
    · exact h other (List.mem_of_mem_take hother)
    · rcases List.mem_cons.mp hother with rfl | hother
      · exact hrow
      · exact h other (List.mem_of_mem_drop hother)

lemma forall_placeAll {order : Option OrderBy} {entries merged : Table KeyValue Row}
    (h : ∀ row ∈ entries.values, P row) (hok : placeAll order [] entries = .ok merged) :
    ∀ row ∈ merged.values, P row := by
  refine foldlM_induction (P := fun table => ∀ row ∈ Table.values table, P row) ?_
    (fun _ hmem => absurd hmem List.not_mem_nil) hok
  intro merged entry next hmem hmerged hnext
  exact forall_placeRow hmerge hmerged (h entry.2 (List.mem_map_of_mem hmem)) hnext

lemma MergedApart.forall_values {sources : List KeyedRows} {tables : List (Table KeyValue Row)}
    (htables : MergedApart sources tables) (h : ∀ source ∈ sources, ∀ row ∈ source.rows, P row) :
    ∀ row ∈ Table.values tables.flatten, P row := by
  intro row hrow
  obtain ⟨entry, hentry, rfl⟩ := List.mem_map.mp hrow
  obtain ⟨table, htable, hmem⟩ := List.mem_flatten.mp hentry
  obtain ⟨source, hsource, hok⟩ := exists_of_forall₂_right htables htable
  exact forall_associate hmerge (h source hsource) hok entry.2 (List.mem_map_of_mem hmem)

lemma forall_mergeByKey {order : Option OrderBy} {sources : List KeyedRows}
    (h : ∀ source ∈ sources, ∀ row ∈ source.rows, P row) {merged : Table KeyValue Row}
    (hok : mergeByKey order sources = .ok merged) : ∀ row ∈ merged.values, P row := by
  obtain ⟨tables, htables, hall⟩ := mergeByKey_eq_ok_iff.mp hok
  exact forall_placeAll hmerge (htables.forall_values hmerge h) hall

end Kept

end QueryTerms
