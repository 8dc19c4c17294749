import Mathlib
import QueryTerms.Proofs.Row.Grouping
import QueryTerms.Proofs.Row.Overlay

/-!
# Merging sources is merging rows

A union merges the rows of each source among themselves, and then the tables that come of it.  If it
succeeds, the outcome is the same as if all rows had been merged one after another, whichever
source they come from.

**Entries.**  `KeyedRows.entries` are the rows of a source with their keys.  Every step of a union
that succeeds gathers such entries with `overlay` (`gatherEntry_of_placeRow`), the steps within a
source among them (`placeAll_of_associate`).

**Sources.**  The entries of a source are gathered apart first, which makes no difference:
`gather_of_mergeByKey`.

**Rows.**  `mergeByKey_mergesRows` says what this means for keys, for rows and for other
distributions of the same rows over sources.
-/

namespace QueryTerms

/-! ## Entries -/

/-- The rows of a source that have a key, with their keys. -/
def KeyedRows.entries (source : KeyedRows) : Table KeyValue Row :=
  source.rows.filterMap fun row =>
    (KeyValue.ofRow? source.fields row).map fun key => (key, row)

/-- The rows of all sources that have a key, with their keys, in order. -/
def allEntries (sources : List KeyedRows) : Table KeyValue Row :=
  sources.flatMap KeyedRows.entries

section Entry

variable {key : KeyValue} {row : Row} {table next : Table KeyValue Row}

/-- Within one source a new key goes to the end. -/
lemma associateRow_eq_placeRow (key : KeyValue) (row : Row) (table : Table KeyValue Row) :
    associateRow key row table = placeRow none key row table := by
  rw [associateRow, placeRow]
  split
  · rfl
  · next hnone => rw [Table.set_of_notMem (Table.get?_eq_none_iff.mp hnone)]; rfl

lemma gatherEntry_of_placeRow (h : placeRow none key row table = .ok next) :
    table.gatherEntry overlay (key, row) = next := by
  rw [← associateRow_eq_placeRow] at h
  rw [Table.gatherEntry]
  obtain ⟨value, rfl, ⟨hnew, rfl⟩ | ⟨existing, hexisting, hmerge⟩⟩ :=
    associateRow_eq_ok_iff.mp h
  · rw [hnew]
    rfl
  · rw [hexisting, Option.map_some, Option.getD_some, overlay_of_merge hmerge]

end Entry

/-- The table of a source is made by placing its entries, without an order. -/
lemma placeAll_of_associate {source : KeyedRows} {table : Table KeyValue Row}
    (h : associate source.fields source.node source.rows = .ok table) :
    placeAll none [] source.entries = .ok table := by
  obtain ⟨node, rows, fields⟩ := source
  induction rows using List.reverseRecOn generalizing table with
  | nil => exact h
  | append_singleton rest row ih =>
    obtain ⟨before, own, hbefore, hown, hnext⟩ := associate_concat_eq_ok_iff.mp h
    have hentries : KeyedRows.entries ⟨node, rest ++ [row], fields⟩ =
        KeyedRows.entries ⟨node, rest, fields⟩ ++ [(own, row)] := by
      simp only [KeyedRows.entries, List.filterMap_append, List.filterMap_cons, hown,
        Option.map_some, List.filterMap_nil]
    rw [hentries, placeAll_append_eq_ok_iff]
    refine ⟨before, ih hbefore, ?_⟩
    rw [placeAll_singleton, ← associateRow_eq_placeRow]
    exact hnext

lemma gather_of_placeAll {start entries merged : Table KeyValue Row}
    (h : placeAll none start entries = .ok merged) :
    Table.gather overlay start entries = merged := by
  induction entries generalizing start with
  | nil =>
    cases h
    rfl
  | cons entry rest ih =>
    obtain ⟨next, hnext, hrest⟩ := bind_eq_ok_iff.mp h
    rw [Table.gather, List.foldl_cons, gatherEntry_of_placeRow hnext]
    exact ih hrest

/-! ## Sources -/

/-- Every row of the sources is a map, and so are the rows nested in it. -/
def SourcesDistinct (sources : List KeyedRows) : Prop :=
  ∀ source ∈ sources, ∀ row ∈ source.rows, row.DeeplyDistinct

instance (sources : List KeyedRows) : Decidable (SourcesDistinct sources) :=
  inferInstanceAs (Decidable (∀ source ∈ sources, ∀ row ∈ source.rows, row.DeeplyDistinct))

lemma mem_rows_of_mem_entries {source : KeyedRows} {row : Row}
    (h : row ∈ Table.values source.entries) : row ∈ source.rows := by
  obtain ⟨entry, hentry, rfl⟩ := List.mem_map.mp h
  obtain ⟨row, hrow, hkey⟩ := List.mem_filterMap.mp hentry
  obtain ⟨key, -, rfl⟩ := Option.map_eq_some_iff.mp hkey
  exact hrow

lemma SourcesDistinct.of_mem_allEntries {sources : List KeyedRows} (h : SourcesDistinct sources) :
    ∀ row ∈ Table.values (allEntries sources), row.DeeplyDistinct := by
  intro row hrow
  obtain ⟨entry, hentry, rfl⟩ := List.mem_map.mp hrow
  obtain ⟨source, hsource, hentry⟩ := List.mem_flatMap.mp hentry
  exact h source hsource entry.2 (mem_rows_of_mem_entries (List.mem_map_of_mem hentry))

/-- Gathering the entries of every source apart makes no difference. -/
lemma gather_flatten {sources : List KeyedRows} {tables : List (Table KeyValue Row)}
    (hdistinct : ∀ row ∈ Table.values (allEntries sources), row.DeeplyDistinct)
    (h : MergedApart sources tables) {start : Table KeyValue Row} (hnodup : start.keys.Nodup)
    (hstart : ∀ row ∈ start.values, row.DeeplyDistinct) :
    start.gather overlay tables.flatten = start.gather overlay (allEntries sources) := by
  induction h generalizing start with
  | nil => rfl
  | @cons source table sources tables htable hrest ih =>
    obtain rfl := gather_of_placeAll (placeAll_of_associate htable)
    rw [allEntries, List.flatMap_cons, Table.values, List.map_append, List.forall_mem_append]
      at hdistinct
    obtain ⟨hown, hothers⟩ := hdistinct
    have hkeep : ∀ old new : Row, old.DeeplyDistinct → new.DeeplyDistinct →
        (overlay old new).DeeplyDistinct := fun _ _ => Row.DeeplyDistinct.overlay
    have hnext : ∀ row ∈ Table.values (start.gather overlay source.entries), row.DeeplyDistinct :=
      Table.gather_forall hstart hown fun new hnew old hold => hkeep old new hold (hown new hnew)
    rw [List.flatten_cons, Table.gather_append, allEntries, List.flatMap_cons, Table.gather_append,
      Table.gather_gather_nil hkeep (fun _ _ _ => overlay_assoc) hnodup hstart hown]
    exact ih hothers (Table.nodup_keys_gather hnodup _) hnext

/-- A union that succeeds gathers all rows. -/
theorem gather_of_mergeByKey {sources : List KeyedRows} {merged : Table KeyValue Row}
    (hdistinct : ∀ row ∈ Table.values (allEntries sources), row.DeeplyDistinct)
    (h : mergeByKey none sources = .ok merged) :
    Table.gather overlay [] (allEntries sources) = merged := by
  obtain ⟨tables, htables, hplaced⟩ := mergeByKey_eq_ok_iff.mp h
  have hnodup : (Table.keys ([] : Table KeyValue Row)).Nodup := List.nodup_nil
  have hstart : ∀ row ∈ Table.values ([] : Table KeyValue Row), row.DeeplyDistinct :=
    fun _ h => absurd h List.not_mem_nil
  rw [← gather_flatten hdistinct htables hnodup hstart]
  exact gather_of_placeAll hplaced

lemma ofRow?_of_mergeByKey {sources : List KeyedRows} {merged : Table KeyValue Row}
    (h : mergeByKey none sources = .ok merged) :
    ∀ source ∈ sources, ∀ row ∈ source.rows, ∃ key,
      KeyValue.ofRow? source.fields row = some key := by
  obtain ⟨tables, htables, -⟩ := mergeByKey_eq_ok_iff.mp h
  clear h
  induction htables with
  | nil => exact nofun
  | cons htable _ ih => exact List.forall_mem_cons.mpr ⟨exists_key_of_associate htable, ih⟩

/-! ## Rows -/

/-- Merging that succeeds row after row gives the overlay of all rows. -/
lemma foldl_overlay_of_foldlM {first whole : Row} {rest : List Row}
    (h : rest.foldlM Row.merge first = .ok whole) : rest.foldl overlay first = whole := by
  induction rest generalizing first with
  | nil =>
    cases h
    rfl
  | cons second others ih =>
    rw [List.foldlM_cons] at h
    obtain ⟨both, hboth, hothers⟩ := bind_eq_ok_iff.mp h
    rw [List.foldl_cons, overlay_of_merge hboth, ih hothers]

/-- **A union merges rows, whichever source they come from.**  Its keys are those of all rows, each
once and in the order of their first appearance.  Under each key is what merging all rows of that
key gives, one after another, if that succeeds.  Other sources with the same rows under the same
keys, in the same order, give the same table if they give one. -/
theorem mergeByKey_mergesRows {sources : List KeyedRows} {merged : Table KeyValue Row}
    (hdistinct : SourcesDistinct sources) (h : mergeByKey none sources = .ok merged) :
    (∀ source ∈ sources, ∀ row ∈ source.rows, ∃ key,
      KeyValue.ofRow? source.fields row = some key) ∧
    merged.keys = (allEntries sources).keys.eraseDups ∧ merged.keys.Nodup ∧
    (∀ key first rest whole, (allEntries sources).valuesAt key = first :: rest →
      rest.foldlM Row.merge first = .ok whole → merged.get? key = some whole) ∧
    ∀ others again, allEntries others = allEntries sources →
      mergeByKey none others = .ok again → again = merged := by
  have hentries := hdistinct.of_mem_allEntries
  have hgather := gather_of_mergeByKey hentries h
  have hnil : (Table.keys ([] : Table KeyValue Row)).Nodup := List.nodup_nil
  refine ⟨ofRow?_of_mergeByKey h, ?_, ?_, fun key first rest whole hrows hwhole => ?_,
    fun others again hsame hagain => ?_⟩
  · rw [← hgather, Table.keys_gather hnil]
    rfl
  · rw [← hgather]
    exact Table.nodup_keys_gather hnil _
  · rw [← hgather, Table.get?_gather, hrows, ← foldl_overlay_of_foldlM hwhole]
    rfl
  · rw [← hgather, ← hsame]
    exact (gather_of_mergeByKey (hsame ▸ hentries) hagain).symm

/-- The first user has no name, then one, then a note, then another name without its first part.
The same rows in one source give the same table. -/
theorem mergeByKey_mergesRows_users :
    let users : List Row := [[("id", .integer 1), ("name", .null)], [("id", .integer 2)],
      [("id", .string "1"), ("name", .object [("first", .string "Ann")])]]
    let notes : List Row := [[("id", .integer 3)], [("id", .integer 1), ("note", .string "a")],
      [("id", .integer 1), ("name", .object [("last", .string "Lee"), ("first", .null)])]]
    let apart : List KeyedRows := [⟨"users", users, .single "id"⟩, ⟨"notes", notes, .single "id"⟩]
    let together : List KeyedRows := [⟨"all", users ++ notes, .single "id"⟩]
    SourcesDistinct apart ∧ ∃ merged, mergeByKey none apart = .ok merged ∧
      merged.keys = [⟨"1"⟩, ⟨"2"⟩, ⟨"3"⟩] ∧
      merged.get? ⟨"1"⟩ = some [("id", .integer 1),
        ("name", .object [("first", .null), ("last", .string "Lee")]), ("note", .string "a")] ∧
      mergeByKey none together = .ok merged := by
  intro users notes apart together
  have hdistinct : SourcesDistinct apart := by decide
  obtain ⟨merged, hmerged⟩ : ∃ merged, mergeByKey none apart = .ok merged := by
    refine ⟨[(⟨"1"⟩, [("id", .integer 1), ("name", .object [("first", .null),
      ("last", .string "Lee")]), ("note", .string "a")]), (⟨"2"⟩, [("id", .integer 2)]),
      (⟨"3"⟩, [("id", .integer 3)])], ?_⟩
    cbv
  obtain ⟨again, hagain⟩ : ∃ again, mergeByKey none together = .ok again := by
    refine ⟨[(⟨"1"⟩, [("id", .integer 1), ("name", .object [("first", .null),
      ("last", .string "Lee")]), ("note", .string "a")]), (⟨"2"⟩, [("id", .integer 2)]),
      (⟨"3"⟩, [("id", .integer 3)])], ?_⟩
    cbv
  have hsame : allEntries together = allEntries apart := by rfl
  have hfirst : (allEntries apart).valuesAt ⟨"1"⟩ = [[("id", .integer 1), ("name", .null)],
      [("id", .string "1"), ("name", .object [("first", .string "Ann")])],
      [("id", .integer 1), ("note", .string "a")],
      [("id", .integer 1), ("name", .object [("last", .string "Lee"), ("first", .null)])]] := by
    rfl
  obtain ⟨-, hkeys, -, hrows, hothers⟩ := mergeByKey_mergesRows hdistinct hmerged
  exact ⟨hdistinct, merged, hmerged, hkeys.trans (by cbv), hrows ⟨"1"⟩ _ _ _ hfirst (by cbv),
    hothers together again hsame hagain ▸ hagain⟩

end QueryTerms
