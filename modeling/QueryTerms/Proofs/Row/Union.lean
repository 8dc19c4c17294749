import Mathlib
import QueryTerms.Proofs.Row.Keyed
import QueryTerms.Proofs.Row.Sorted

/-!
# Keeping an order while merging

A union with a key and an order puts every new row at its place, and merges the others into the
rows that have their keys.  The first keeps the rows sorted; the second leaves a row where it is,
whatever has become of the field that rows are ordered by.

**Doubles.**  Merging makes no double: `Row.IsExactAt.merge`.

**All entries.**  A new key goes to its position, a present one changes its row in place, which is
harmless if the changed row still fits between its neighbours (`KeepsPlaces`).  This is the exact
condition for rows to be sorted after every entry: `sortedThroughout_iff`, and for whole sources
`mergeByKey_isSorted_iff`.
-/

namespace QueryTerms

/-! ## Doubles -/

/-- No entry of the field is a double. -/
def Row.IsExactAt (field : String) (row : Row) : Prop :=
  ∀ entry ∈ row, entry.1 = field → entry.2.IsExact

instance (value : Value) : Decidable value.IsExact :=
  match value with
  | .float x => isFalse fun h => h x rfl
  | .null | .boolean _ | .integer _ | .string _ | .array _ | .object _ => isTrue nofun

instance (field : String) (row : Row) : Decidable (row.IsExactAt field) :=
  inferInstanceAs (Decidable (∀ entry ∈ row, entry.1 = field → entry.2.IsExact))

lemma Value.isExact_null : Value.null.IsExact := nofun

lemma mergeValue_isExact {field : String} {existing incoming : Value} (he : existing.IsExact)
    (hi : incoming.IsExact) : (mergeValue field existing incoming).1.IsExact := by
  cases incoming with
  | float x => exact absurd rfl (hi x)
  | object source => cases existing <;> simp_all [mergeValue, Value.IsExact]
  | null => cases existing <;> simp_all [mergeValue, Value.IsExact, Value.isObject]
  | _ => cases existing <;> simp_all [mergeValue, Value.IsExact, Value.isObject]

namespace Row.IsExactAt

variable {field : String} {target source merged : Row}

lemma isExactOn {order : OrderBy} (h : target.IsExactAt order.field) : order.IsExactOn target := by
  rw [OrderBy.IsExactOn, OrderBy.value]
  cases hvalue : Table.get? order.field target with
  | none => exact Value.isExact_null
  | some value => exact h _ (Table.mem_of_get?_eq_some hvalue) rfl

lemma set (h : target.IsExactAt field) {name : String} {value : Value}
    (hvalue : name = field → value.IsExact) : Row.IsExactAt field (target.set name value) := by
  intro entry hentry hname
  rcases Table.mem_set hentry with rfl | hentry
  · exact hvalue hname
  · exact h entry hentry hname

lemma mergeFields (ht : target.IsExactAt field) (hs : source.IsExactAt field) :
    (mergeFields target source).1.IsExactAt field := by
  induction source generalizing target with
  | nil => rwa [QueryTerms.mergeFields]
  | cons entry rest ih =>
    obtain ⟨name, incoming⟩ := entry
    have hincoming : name = field → incoming.IsExact := hs _ List.mem_cons_self
    have hrest : Row.IsExactAt field rest := fun other hother =>
      hs other (List.mem_cons_of_mem _ hother)
    rw [QueryTerms.mergeFields]
    split
    · exact ih (ht.set hincoming) hrest
    · next existing hexisting =>
      have hvalue : name = field → (mergeValue name existing incoming).1.IsExact := fun hname =>
        mergeValue_isExact (ht _ (Table.mem_of_get?_eq_some hexisting) hname) (hincoming hname)
      split
      · next value hmerged =>
        rw [hmerged] at hvalue
        exact ih (ht.set hvalue) hrest
      · next value conflict hmerged =>
        rw [hmerged] at hvalue
        exact ht.set hvalue

/-- Merging makes no double. -/
lemma merge (ht : target.IsExactAt field) (hs : source.IsExactAt field)
    (h : target.merge source = .ok merged) : merged.IsExactAt field := by
  have hfields := ht.mergeFields hs
  rw [Row.merge] at h
  split at h
  · next heq =>
    cases h
    rwa [heq] at hfields
  · cases h

end Row.IsExactAt

/-- A field that the source does not have stays as it is. -/
lemma get?_merge_of_notMem {field : String} {target source merged : Row}
    (hfield : field ∉ source.keys) (h : target.merge source = .ok merged) :
    merged.get? field = target.get? field := by
  suffices hfields : (mergeFields target source).1.get? field = target.get? field by
    rw [Row.merge] at h
    split at h
    · next heq =>
      cases h
      rwa [heq] at hfields
    · cases h
  clear h
  induction source generalizing target with
  | nil => rw [mergeFields]
  | cons entry rest ih =>
    obtain ⟨name, incoming⟩ := entry
    have hkeys : field ∉ name :: Table.keys rest := hfield
    rw [List.mem_cons, not_or] at hkeys
    have hset : ∀ value, Table.get? field (target.set name value) = target.get? field := by
      intro value
      rw [Table.get?_set, if_neg (Ne.symm hkeys.1)]
    rw [mergeFields]
    split
    · rw [ih hkeys.2, hset]
    · split
      · rw [ih hkeys.2, hset]
      · exact hset _

/-! ## All entries -/

/-- A row fits between rows if it precedes none of those before it, and none of those behind it
precedes the row. -/
structure FitsBetween (order : OrderBy) (front back : List Row) (row : Row) : Prop where
  front : ∀ other ∈ front, order.precedes row other = false
  back : ∀ other ∈ back, order.precedes other row = false

/-- Wherever an entry is merged into a row, the row still fits where it is. -/
def KeepsPlaces (order : OrderBy) (entries : Table KeyValue Row) : Prop :=
  ∀ (before after front back : Table KeyValue Row) (key : KeyValue) (row existing both : Row),
    entries = before ++ (key, row) :: after →
    placeAll (some order) [] before = .ok (front ++ (key, existing) :: back) →
    key ∉ front.keys → existing.merge row = .ok both →
    FitsBetween order front.values back.values both

/-- The rows are sorted after every entry. -/
def SortedThroughout (order : OrderBy) (entries : Table KeyValue Row) : Prop :=
  ∀ before after stage : Table KeyValue Row, entries = before ++ after →
    placeAll (some order) [] before = .ok stage → IsSorted order stage.values

section Entries

variable {order : OrderBy} {entries : Table KeyValue Row}

/-- The step: a new key keeps rows sorted, and so does a present one if its row still fits. -/
lemma isSorted_of_placeRow {stage next : Table KeyValue Row} {key : KeyValue} {row : Row}
    (hsorted : IsSorted order stage.values) (hrow : order.IsExactOn row)
    (hstage : ∀ other ∈ stage.values, order.IsExactOn other)
    (hfits : ∀ (front back : Table KeyValue Row) (existing both : Row),
      stage = front ++ (key, existing) :: back → key ∉ front.keys →
      existing.merge row = .ok both → FitsBetween order front.values back.values both)
    (h : placeRow (some order) key row stage = .ok next) : IsSorted order next.values := by
  obtain ⟨front, back, existing, both, rfl, hfront, hboth, rfl⟩ | ⟨-, rfl⟩ := placeRow_eq_ok h
  · have hfit := hfits front back existing both rfl hfront hboth
    rw [values_append_cons] at hsorted ⊢
    have hothers := hsorted.sublist (List.Sublist.append_left (List.sublist_cons_self _ _) _)
    exact IsSorted.insert hothers hfit.front hfit.back
  · rw [values_insertAt]
    refine hsorted.insertAt hrow hstage ?_
    rw [placeOf, Option.bind_some, Table.values, List.length_map]

/-- The run, by induction on the entries that have been placed. -/
lemma sortedThroughout_of_fits (hexact : ∀ row ∈ entries.values, row.IsExactAt order.field)
    (hfits : ∀ (before after front back : Table KeyValue Row) (key : KeyValue)
      (row existing both : Row), entries = before ++ (key, row) :: after →
      placeAll (some order) [] before = .ok (front ++ (key, existing) :: back) →
      key ∉ front.keys → existing.merge row = .ok both →
      IsSorted order (Table.values (front ++ (key, existing) :: back)) →
      FitsBetween order front.values back.values both) :
    SortedThroughout order entries := by
  intro before
  induction before using List.reverseRecOn with
  | nil =>
    intro after stage _ hstage
    cases hstage
    exact List.Pairwise.nil
  | append_singleton before entry ih =>
    obtain ⟨key, row⟩ := entry
    intro after next hsplit hnext
    rw [List.append_assoc, List.singleton_append] at hsplit
    obtain ⟨stage, hstage, hplaced⟩ := placeAll_append_eq_ok_iff.mp hnext
    rw [placeAll_singleton] at hplaced
    have hbefore : ∀ other ∈ Table.values before, Row.IsExactAt order.field other := by
      intro other hother
      refine hexact other ?_
      rw [hsplit, Table.values, List.map_append]
      exact List.mem_append_left _ hother
    have hrow : row.IsExactAt order.field := by
      refine hexact row ?_
      rw [hsplit, values_append_cons]
      exact List.mem_append_right _ List.mem_cons_self
    have hrows := forall_placeAll (fun _ _ _ => Row.IsExactAt.merge) hbefore hstage
    have hsorted := ih ((key, row) :: after) stage hsplit hstage
    refine isSorted_of_placeRow hsorted hrow.isExactOn (fun other hother =>
      (hrows other hother).isExactOn) ?_ hplaced
    rintro front back existing both rfl hfront hboth
    exact hfits before after front back key row existing both hsplit hstage hfront hboth hsorted

/-- **When rows stay sorted.**  They are sorted after every entry if and only if no entry moves the
row that it is merged into past another one. -/
theorem sortedThroughout_iff (hexact : ∀ row ∈ entries.values, row.IsExactAt order.field) :
    SortedThroughout order entries ↔ KeepsPlaces order entries := by
  constructor
  · intro hsorted before after front back key row existing both hsplit hstage hfront hboth
    have hnext : placeAll (some order) [] (before ++ [(key, row)]) =
        .ok (front ++ (key, both) :: back) := by
      refine placeAll_append_eq_ok_iff.mpr ⟨_, hstage, ?_⟩
      rw [placeAll_singleton]
      exact (placeRow_of_present hfront).mpr ⟨both, hboth, rfl⟩
    have hrows := hsorted _ after _ (by rw [hsplit, List.append_assoc, List.singleton_append]) hnext
    rw [values_append_cons] at hrows
    obtain ⟨-, hback, hacross⟩ := List.pairwise_append.mp hrows
    exact ⟨fun other hother => hacross other hother both List.mem_cons_self,
      (List.pairwise_cons.mp hback).1⟩
  · intro hkeeps
    refine sortedThroughout_of_fits hexact ?_
    intro before after front back key row existing both hsplit hstage hfront hboth _
    exact hkeeps before after front back key row existing both hsplit hstage hfront hboth

/-- What is merged in without a field of the order's name moves no row. -/
theorem keepsPlaces_of_field_apart (hexact : ∀ row ∈ entries.values, row.IsExactAt order.field)
    (hapart : ∀ (before after : Table KeyValue Row) (key : KeyValue) (row : Row),
      entries = before ++ (key, row) :: after → key ∈ before.keys → order.field ∉ row.keys) :
    KeepsPlaces order entries := by
  refine (sortedThroughout_iff hexact).mp (sortedThroughout_of_fits hexact ?_)
  intro before after front back key row existing both hsplit hstage hfront hboth hsorted
  have hkey : key ∈ before.keys := by
    refine (mem_keys_placeAll hstage key).mp ?_
    rw [Table.keys, List.map_append, List.map_cons]
    exact List.mem_append_right _ List.mem_cons_self
  have hvalue : order.value both = order.value existing := by
    rw [OrderBy.value, OrderBy.value, get?_merge_of_notMem (hapart _ _ _ _ hsplit hkey) hboth]
  rw [values_append_cons] at hsorted
  obtain ⟨-, hback, hacross⟩ := List.pairwise_append.mp hsorted
  constructor
  · intro other hother
    have hexisting := hacross other hother existing List.mem_cons_self
    rwa [OrderBy.precedes, OrderBy.compare, ← hvalue] at hexisting
  · intro other hother
    have hexisting := (List.pairwise_cons.mp hback).1 other hother
    rwa [OrderBy.precedes, OrderBy.compare, ← hvalue] at hexisting

end Entries

/-! ## All sources -/

/-- **When a union in an order is sorted.**  Its rows are sorted after every entry if and only if
what is merged into a row leaves the row where it belongs; and then they are in the end. -/
theorem mergeByKey_isSorted_iff {order : OrderBy} {sources : List KeyedRows}
    {merged : Table KeyValue Row}
    (hexact : ∀ source ∈ sources, ∀ row ∈ source.rows, row.IsExactAt order.field)
    (h : mergeByKey (some order) sources = .ok merged) :
    ∃ tables, MergedApart sources tables ∧ placeAll (some order) [] tables.flatten = .ok merged ∧
      (SortedThroughout order tables.flatten ↔ KeepsPlaces order tables.flatten) ∧
      (KeepsPlaces order tables.flatten → IsSorted order merged.values) := by
  obtain ⟨tables, htables, hplaced⟩ := mergeByKey_eq_ok_iff.mp h
  have hiff := sortedThroughout_iff (htables.forall_values (fun _ _ _ => Row.IsExactAt.merge) hexact)
  refine ⟨tables, htables, hplaced, hiff, fun hkeeps => ?_⟩
  exact hiff.mpr hkeeps tables.flatten [] merged (List.append_nil _).symm hplaced

/-- Users and notes about users; the notes that meet a user have no number. -/
theorem mergeByKey_isSorted_notes :
    let order : OrderBy := { field := "n" }
    let users : List Row := [[("id", .integer 2), ("n", .integer 5)],
      [("id", .integer 1), ("n", .integer 3)]]
    let notes : List Row := [[("id", .integer 2), ("note", .string "a")],
      [("id", .integer 3), ("n", .integer 4)]]
    let sources : List KeyedRows :=
      [⟨"users", users, .single "id"⟩, ⟨"notes", notes, .single "id"⟩]
    ∃ merged, mergeByKey (some order) sources = .ok merged ∧
      (∀ source ∈ sources, ∀ row ∈ source.rows, row.IsExactAt order.field) ∧
      merged.keys = [⟨"1"⟩, ⟨"3"⟩, ⟨"2"⟩] ∧ IsSorted order merged.values := by
  intro order users notes sources
  have hmerged : mergeByKey (some order) sources =
      .ok [(⟨"1"⟩, [("id", .integer 1), ("n", .integer 3)]),
        (⟨"3"⟩, [("id", .integer 3), ("n", .integer 4)]),
        (⟨"2"⟩, [("id", .integer 2), ("n", .integer 5), ("note", .string "a")])] := by
    cbv
  have husers : associate (.single "id") "users" users =
      .ok [(⟨"2"⟩, [("id", .integer 2), ("n", .integer 5)]),
        (⟨"1"⟩, [("id", .integer 1), ("n", .integer 3)])] := by
    cbv
  have hnotes : associate (.single "id") "notes" notes =
      .ok [(⟨"2"⟩, [("id", .integer 2), ("note", .string "a")]),
        (⟨"3"⟩, [("id", .integer 3), ("n", .integer 4)])] := by
    cbv
  have hexact : ∀ source ∈ sources, ∀ row ∈ source.rows, row.IsExactAt order.field := by decide
  obtain ⟨tables, htables, -, -, hsorted⟩ :=
    mergeByKey_isSorted_iff hexact hmerged
  obtain ⟨first, rest, hfirst, hrest, rfl⟩ := List.forall₂_cons_left_iff.mp htables
  obtain ⟨second, none, hsecond, hnone, rfl⟩ := List.forall₂_cons_left_iff.mp hrest
  cases List.forall₂_nil_left_iff.mp hnone
  cases husers.symm.trans hfirst
  cases hnotes.symm.trans hsecond
  refine ⟨_, hmerged, hexact, rfl, hsorted (keepsPlaces_of_field_apart (by decide) ?_)⟩
  intro before after key row hsplit hkey
  -- Only the third entry has a key that was there before.
  rcases before with _ | ⟨e₁, _ | ⟨e₂, _ | ⟨e₃, _ | ⟨e₄, before⟩⟩⟩⟩
  all_goals simp at hsplit
  · exact absurd hkey List.not_mem_nil
  · obtain ⟨rfl, ⟨rfl, rfl⟩, -⟩ := hsplit
    revert hkey
    decide
  · obtain ⟨-, -, ⟨rfl, rfl⟩, -⟩ := hsplit
    decide
  · obtain ⟨rfl, rfl, rfl, ⟨rfl, rfl⟩, -⟩ := hsplit
    revert hkey
    decide

/-- **A number that comes in later moves no row.**  With the second source the first user belongs
behind the second one, but stays in front of it. -/
theorem mergeByKey_unsorted :
    let users : List Row := [[("id", .integer 1), ("n", .integer 1)],
      [("id", .integer 2), ("n", .integer 2)]]
    let notes : List Row := [[("id", .integer 1), ("n", .integer 3)]]
    let sources : List KeyedRows :=
      [⟨"users", users, .single "id"⟩, ⟨"notes", notes, .single "id"⟩]
    ∃ merged, mergeByKey (some { field := "n" }) sources = .ok merged ∧
      (∀ source ∈ sources, ∀ row ∈ source.rows, row.IsExactAt "n") ∧
      ¬ IsSorted { field := "n" } merged.values := by
  intro users notes sources
  refine ⟨[(⟨"1"⟩, [("id", .integer 1), ("n", .integer 3)]),
    (⟨"2"⟩, [("id", .integer 2), ("n", .integer 2)])], by cbv, by decide, by decide⟩

end QueryTerms
