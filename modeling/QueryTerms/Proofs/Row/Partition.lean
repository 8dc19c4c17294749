import QueryTerms.Proofs.Key
import QueryTerms.Proofs.Row.Grouping
import QueryTerms.Proofs.Row.Overlay

/-!
# Groups and what becomes of them

The rows of a list are put into groups by key, or merged by key.  The second is the first with every
group merged, and this file follows both from one row to the next.

**Groups.**  They partition the rows: `isPartition_of_groupRows`.  There are none if a row lacks one
of the fields of the key (`groupRows_eq_error_iff`), and then the rows are not merged by key either.

**Merged groups.**  Under each key is what merging its group from the left gives, and merging by key
succeeds if all groups can be merged: `associate_eq_ok_iff`.

**Keys of merged rows.**  Rows of one key may differ in its fields, `1` in one of them and `"1"` in
another, and a merged row takes these fields from the last of its rows
(`MergesTo.get?_eq_getLast`).  They all come from that one row, so that the merged row has the key
as well, unless a field of the key is a nested row.
-/

namespace QueryTerms

variable {fields : KeyFields} {node : String} {rows group : List Row} {row merged : Row}
  {key : KeyValue}

lemma keyOf_eq_error_iff {error : QueryError} :
    keyOf fields node row = .error error ↔
      KeyValue.ofRow? fields row = none ∧ error = missingKey fields node := by
  rw [keyOf]
  split
  · next hkey => simp [hkey]
  · next hnone => simp [hnone, eq_comm]

lemma KeyValue.ofRow?_eq_none_iff :
    KeyValue.ofRow? fields row = none ↔ ∃ field ∈ fields.fields, field ∉ Table.keys row := by
  rw [ofRow?, Option.map_eq_none_iff, valueOf_eq_none_iff]

/-! ## Groups -/

section Groups

variable {groups : Table KeyValue (List Row)}

/-- **Rows without the key.**  One of them is enough for there to be no groups. -/
theorem groupRows_eq_error_iff {error : QueryError} :
    groupRows fields node rows = .error error ↔
      (∃ row ∈ rows, KeyValue.ofRow? fields row = none) ∧ error = missingKey fields node := by
  induction rows using List.reverseRecOn generalizing error with
  | nil => simp [groupRows, pure, Except.pure]
  | append_singleton rest row ih =>
    rw [groupRows_concat, bind_eq_error_iff]
    constructor
    · rintro (hrest | ⟨before, -, hrow⟩)
      · obtain ⟨⟨other, hother, hnone⟩, herror⟩ := ih.mp hrest
        exact ⟨⟨other, List.mem_append_left _ hother, hnone⟩, herror⟩
      · rcases bind_eq_error_iff.mp hrow with hrow | ⟨_, _, hset⟩
        · obtain ⟨hnone, herror⟩ := keyOf_eq_error_iff.mp hrow
          exact ⟨⟨row, List.mem_append_right _ (List.mem_singleton_self row), hnone⟩, herror⟩
        · cases hset
    · rintro ⟨⟨other, hother, hnone⟩, rfl⟩
      cases hrest : groupRows fields node rest with
      | error cause => exact .inl (congrArg _ (ih.mp hrest).2)
      | ok before =>
        refine .inr ⟨before, rfl, bind_eq_error_iff.mpr (.inl (keyOf_eq_error_iff.mpr ⟨?_, rfl⟩))⟩
        rcases List.mem_append.mp hother with hother | hother
        · rw [ih.mpr ⟨⟨other, hother, hnone⟩, rfl⟩] at hrest
          cases hrest
        · rwa [← List.mem_singleton.mp hother]

lemma exists_groupRows_iff :
    (∃ groups, groupRows fields node rows = .ok groups) ↔
      ∀ row ∈ rows, ∃ key, KeyValue.ofRow? fields row = some key := by
  have hkeyed : (∀ row ∈ rows, ∃ key, KeyValue.ofRow? fields row = some key) ↔
      ¬ ∃ row ∈ rows, KeyValue.ofRow? fields row = none := by
    simp only [← Option.isSome_iff_exists, Option.isSome_iff_ne_none, not_exists, not_and, ne_eq]
  rw [hkeyed]
  cases hgroups : groupRows fields node rows with
  | error cause => exact iff_of_false nofun (not_not_intro (groupRows_eq_error_iff.mp hgroups).1)
  | ok groups =>
    refine iff_of_true ⟨groups, rfl⟩ fun hmissing => ?_
    rw [groupRows_eq_error_iff.mpr ⟨hmissing, rfl⟩] at hgroups
    cases hgroups

/-- Wherever a group stands, one more row in it is one more row in all. -/
lemma flatten_values_set_concat (key : KeyValue) (row : Row)
    (groups : Table KeyValue (List Row)) :
    (Table.values (groups.set key ((groups.get? key).getD [] ++ [row]))).flatten.Perm
      (groups.values.flatten ++ [row]) := by
  cases hgroup : groups.get? key with
  | none =>
    rw [Table.set_of_notMem (Table.get?_eq_none_iff.mp hgroup)]
    simp [Table.values]
  | some group =>
    obtain ⟨front, back, rfl, hfront⟩ := Table.get?_eq_some_iff.mp hgroup
    rw [Table.set_append_cons hfront]
    simp only [Table.values, List.map_append, List.map_cons, List.flatten_append,
      List.flatten_cons, Option.getD_some, List.append_assoc]
    exact (List.perm_append_comm.append_left group).append_left _

lemma perm_of_groupRows (h : groupRows fields node rows = .ok groups) :
    groups.values.flatten.Perm rows := by
  induction rows using List.reverseRecOn generalizing groups with
  | nil =>
    cases h
    exact .nil
  | append_singleton rest row ih =>
    obtain ⟨before, key, hbefore, -, rfl⟩ := groupRows_concat_eq_ok_iff.mp h
    exact (flatten_values_set_concat key row before).trans ((ih hbefore).append_right [row])

/-- The groups of rows: one for each key of a row, in the order in which the keys first appear, and
every row in the group of its key, in order. -/
structure IsPartition (fields : KeyFields) (rows : List Row)
    (groups : Table KeyValue (List Row)) : Prop where
  keys : groups.keys = (rows.filterMap (KeyValue.ofRow? fields)).eraseDups
  distinct : groups.keys.Nodup
  group : ∀ key ∈ groups.keys, groups.get? key = some (rowsWith fields key rows)
  once : groups.values.flatten.Perm rows

/-- **Grouping is a partition**: every row is in one group, and in one place of it. -/
theorem isPartition_of_groupRows (h : groupRows fields node rows = .ok groups) :
    IsPartition fields rows groups where
  keys := keys_groupRows h
  distinct := keys_groupRows h ▸ Table.nodup_eraseDups _
  group key hkey := by
    obtain ⟨group, hgroup⟩ := Table.exists_get?_eq_some_iff.mpr hkey
    rw [← get?_groupRows h key, hgroup, Option.getD_some]
  once := perm_of_groupRows h

end Groups

/-! ## Merged groups -/

/-- The row that merging the rows of a group gives, from the left. -/
def MergesTo : List Row → Row → Prop
  | [], _ => False
  | first :: rest, merged => rest.foldlM Row.merge first = .ok merged

lemma mergesTo_singleton : MergesTo [row] row := rfl

lemma MergesTo.concat (h : MergesTo group row) {more : Row} (hmerge : row.merge more = .ok merged) :
    MergesTo (group ++ [more]) merged := by
  cases group with
  | nil => cases h
  | cons first rest =>
    have hrest : rest.foldlM Row.merge first = .ok row := h
    change (rest ++ [more]).foldlM Row.merge first = .ok merged
    rw [List.foldlM_append, hrest, ok_bind_eq, List.foldlM_cons, hmerge]
    rfl

lemma MergesTo.of_concat {more : Row} (h : MergesTo (group ++ [more]) merged) :
    group = [] ∧ merged = more ∨
      ∃ before, MergesTo group before ∧ before.merge more = .ok merged := by
  cases group with
  | nil =>
    cases h
    exact .inl ⟨rfl, rfl⟩
  | cons first rest =>
    have hfold : (rest ++ [more]).foldlM Row.merge first = .ok merged := h
    rw [List.foldlM_append] at hfold
    obtain ⟨before, hbefore, hmerge⟩ := bind_eq_ok_iff.mp hfold
    rw [List.foldlM_cons] at hmerge
    obtain ⟨both, hboth, hlast⟩ := bind_eq_ok_iff.mp hmerge
    cases hlast
    exact .inr ⟨before, hbefore, hboth⟩

lemma MergesTo.unique {other : Row} (h : MergesTo group merged) (hother : MergesTo group other) :
    merged = other := by
  cases group with
  | nil => cases h
  | cons first rest => exact Except.ok.inj (h.symm.trans hother)

section Index

variable {table : Table KeyValue Row}

lemma rowsWith_ne_nil_iff :
    rowsWith fields key rows ≠ [] ↔ key ∈ (rows.filterMap (KeyValue.ofRow? fields)).eraseDups := by
  rw [List.mem_eraseDups, List.mem_filterMap, rowsWith, ne_eq, List.filter_eq_nil_iff]
  simp

lemma rowsWith_eq_nil_of_associate (h : associate fields node rows = .ok table)
    (hkey : table.get? key = none) : rowsWith fields key rows = [] := by
  rw [Table.get?_eq_none_iff, keys_associate h, ← rowsWith_ne_nil_iff, not_not] at hkey
  exact hkey

/-- **The row under a key** is what merging the rows with the key gives. -/
theorem mergesTo_of_associate (h : associate fields node rows = .ok table)
    (hrow : table.get? key = some merged) : MergesTo (rowsWith fields key rows) merged := by
  induction rows using List.reverseRecOn generalizing table merged with
  | nil =>
    cases h
    cases hrow
  | append_singleton rest row ih =>
    obtain ⟨before, own, hbefore, hown, hnext⟩ := associate_concat_eq_ok_iff.mp h
    obtain ⟨value, rfl, hvalue⟩ := associateRow_eq_ok_iff.mp hnext
    rw [Table.get?_set] at hrow
    rw [rowsWith_concat hown]
    split at hrow
    · next heq =>
      subst heq
      cases hrow
      rw [if_pos rfl]
      obtain ⟨hnew, rfl⟩ | ⟨existing, hexisting, hmerge⟩ := hvalue
      · rw [rowsWith_eq_nil_of_associate hbefore hnew]
        exact mergesTo_singleton
      · exact (ih hbefore hexisting).concat hmerge
    · next hne =>
      rw [if_neg hne]
      exact ih hbefore hrow

/-- Merging by key succeeds if every row has the key and the rows of every key can be merged. -/
lemma exists_associate (node : String)
    (hkeyed : ∀ row ∈ rows, ∃ key, KeyValue.ofRow? fields row = some key)
    (hmerges : ∀ key, rowsWith fields key rows ≠ [] →
      ∃ merged, MergesTo (rowsWith fields key rows) merged) :
    ∃ table, associate fields node rows = .ok table := by
  induction rows using List.reverseRecOn with
  | nil => exact ⟨[], rfl⟩
  | append_singleton rest row ih =>
    obtain ⟨hrest, hrow⟩ := List.forall_mem_append.mp hkeyed
    obtain ⟨own, hown⟩ := hrow row (List.mem_singleton_self row)
    -- What can be merged with one more row could be merged without it.
    have hbefore : ∀ key, rowsWith fields key rest ≠ [] →
        ∃ merged, MergesTo (rowsWith fields key rest) merged := by
      intro key hne
      have hmore := hmerges key
      rw [rowsWith_concat hown] at hmore
      split at hmore
      · obtain ⟨merged, hmerged⟩ := hmore (List.append_ne_nil_of_left_ne_nil hne [row])
        obtain ⟨hnil, -⟩ | ⟨before, hbefore, -⟩ := hmerged.of_concat
        · exact absurd hnil hne
        · exact ⟨before, hbefore⟩
      · exact hmore hne
    obtain ⟨table, htable⟩ := ih hrest hbefore
    suffices hnext : ∃ next, associateRow own row table = .ok next by
      obtain ⟨next, hnext⟩ := hnext
      exact ⟨next, associate_concat_eq_ok_iff.mpr ⟨table, own, htable, hown, hnext⟩⟩
    cases hget : table.get? own with
    | none => exact ⟨_, associateRow_eq_ok_iff.mpr ⟨row, rfl, .inl ⟨hget, rfl⟩⟩⟩
    | some existing =>
      have hexisting := mergesTo_of_associate htable hget
      have hmore := hmerges own
      rw [rowsWith_concat hown, if_pos rfl] at hmore
      obtain ⟨merged, hmerged⟩ := hmore (List.append_ne_nil_of_right_ne_nil _ nofun)
      obtain ⟨hnil, -⟩ | ⟨before, hbefore, hmerge⟩ := hmerged.of_concat
      · rw [hnil] at hexisting
        cases hexisting
      · rw [hbefore.unique hexisting] at hmerge
        exact ⟨_, associateRow_eq_ok_iff.mpr ⟨merged, rfl, .inr ⟨existing, hget, hmerge⟩⟩⟩

/-- **Rows merged by key**, in terms of the rows alone. -/
theorem associate_eq_ok_iff :
    associate fields node rows = .ok table ↔
      (∀ row ∈ rows, ∃ key, KeyValue.ofRow? fields row = some key) ∧
      table.keys = (rows.filterMap (KeyValue.ofRow? fields)).eraseDups ∧
      ∀ key merged, table.get? key = some merged → MergesTo (rowsWith fields key rows) merged := by
  constructor
  · intro h
    exact ⟨exists_key_of_associate h, keys_associate h, fun _ _ => mergesTo_of_associate h⟩
  · rintro ⟨hkeyed, hkeys, hmerged⟩
    obtain ⟨own, hown⟩ := exists_associate node hkeyed fun key hne => by
      rw [rowsWith_ne_nil_iff, ← hkeys] at hne
      obtain ⟨merged, hget⟩ := Table.exists_get?_eq_some_iff.mpr hne
      exact ⟨merged, hmerged key merged hget⟩
    have hsame : own.keys = table.keys := (keys_associate hown).trans hkeys.symm
    have hget : ∀ key, own.get? key = table.get? key := by
      intro key
      cases hrow : own.get? key with
      | none => rw [eq_comm, Table.get?_eq_none_iff, ← hsame, ← Table.get?_eq_none_iff, hrow]
      | some row =>
        have hkey : key ∈ table.keys := hsame ▸ Table.exists_get?_eq_some_iff.mp ⟨row, hrow⟩
        obtain ⟨merged, hget⟩ := Table.exists_get?_eq_some_iff.mpr hkey
        rw [hget, (mergesTo_of_associate hown hrow).unique (hmerged key merged hget)]
    rw [← Table.ext_get? (nodup_keys_associate hown) hsame hget, hown]

end Index

/-! ## Keys of merged rows -/

/-- No field of the key is a nested row; it may be anything else. -/
def HasPlainKey (fields : KeyFields) (row : Row) : Prop :=
  ∀ field ∈ fields.fields, ∀ value ∈ row.get? field, value.isObject = false

instance (fields : KeyFields) (row : Row) : Decidable (HasPlainKey fields row) :=
  inferInstanceAs (Decidable (∀ field ∈ fields.fields, ∀ value ∈ row.get? field, _))

section MergedKey

/-- What is no nested row is replaced by what is none. -/
lemma get?_merge_of_plain {more : Row} {field : String} {value : Value}
    (hnames : more.NamesDistinct) (h : row.merge more = .ok merged)
    (hvalue : more.get? field = some value) (hplain : value.isObject = false)
    (hold : ∀ old, row.get? field = some old → old.isObject = false) :
    merged.get? field = some value := by
  rw [← overlay_of_merge h, get?_overlay hnames, hvalue]
  cases hrow : row.get? field with
  | none => rfl
  | some old =>
    rw [Option.merge_some_some, overlayValue_of_plain hplain, hold old hrow,
      if_neg Bool.false_ne_true]

/-- **The key fields of a merged row** are those of the last row of its group. -/
theorem MergesTo.get?_eq_getLast (h : MergesTo group merged) (hdistinct : Row.AllDistinct group)
    (hkeyed : ∀ row ∈ group, ∀ field ∈ fields.fields, field ∈ Table.keys row)
    (hplain : ∀ row ∈ group, HasPlainKey fields row) :
    ∃ last, group.getLast? = some last ∧
      ∀ field ∈ fields.fields, merged.get? field = Table.get? field last := by
  induction group using List.reverseRecOn generalizing merged with
  | nil => cases h
  | append_singleton rest row ih =>
    refine ⟨row, List.getLast?_concat .., fun field hfield => ?_⟩
    obtain ⟨rfl, rfl⟩ | ⟨before, hbefore, hmerge⟩ := h.of_concat
    · rfl
    · obtain ⟨hkeyedRest, hkeyedRow⟩ := List.forall_mem_append.mp hkeyed
      obtain ⟨hplainRest, hplainRow⟩ := List.forall_mem_append.mp hplain
      obtain ⟨hrest, hrow⟩ := List.forall_mem_append.mp hdistinct
      have hmem : row ∈ [row] := List.mem_singleton_self row
      obtain ⟨last, hlast, hagree⟩ := ih hbefore hrest hkeyedRest hplainRest
      obtain ⟨value, hvalue⟩ :=
        Table.exists_get?_eq_some_iff.mpr (hkeyedRow row hmem field hfield)
      rw [hvalue]
      refine get?_merge_of_plain (hrow row hmem) hmerge hvalue
        (hplainRow row hmem field hfield value hvalue) fun old hold => ?_
      -- What has been merged so far is plain in the fields of the key, as its last row is.
      rw [hagree field hfield] at hold
      exact hplainRest last (List.mem_of_getLast? hlast) field hfield old hold

/-- Rows with one key are merged into a row with that key. -/
lemma MergesTo.ofRow? (h : MergesTo group merged) (hdistinct : Row.AllDistinct group)
    (hkey : ∀ row ∈ group, KeyValue.ofRow? fields row = some key)
    (hplain : ∀ row ∈ group, HasPlainKey fields row) :
    KeyValue.ofRow? fields merged = some key := by
  have hkeyed : ∀ row ∈ group, ∀ field ∈ fields.fields, field ∈ Table.keys row := by
    intro row hrow
    rw [← valueOf_isSome_iff, ← Option.isSome_map (f := KeyValue.ofValue), ← KeyValue.ofRow?,
      hkey row hrow, Option.isSome_some]
  obtain ⟨last, hlast, hagree⟩ := h.get?_eq_getLast hdistinct hkeyed hplain
  rw [KeyFields.ofRow?_congr hagree]
  exact hkey last (List.mem_of_getLast? hlast)

end MergedKey

/-- Rows by key that groups have been merged into: the same keys, and under each of them what
merging the rows of its group gives.  This has the key too, if no field of it is a nested row. -/
structure IsMergedFrom (fields : KeyFields) (groups : Table KeyValue (List Row))
    (table : Table KeyValue Row) : Prop where
  keys : table.keys = groups.keys
  merged : ∀ key row, table.get? key = some row →
    ∃ group, groups.get? key = some group ∧ MergesTo group row
  keepsKey : ∀ key group row, groups.get? key = some group → table.get? key = some row →
    (∀ member ∈ group, HasPlainKey fields member) → KeyValue.ofRow? fields row = some key

/-- Merging by key gives what the groups have been merged into, if there is such a table. -/
theorem associate_eq_ok_iff_isMergedFrom {groups : Table KeyValue (List Row)}
    {table : Table KeyValue Row} (hdistinct : Row.AllDistinct rows)
    (hgroups : groupRows fields node rows = .ok groups) :
    associate fields node rows = .ok table ↔ IsMergedFrom fields groups table := by
  have hpartition := isPartition_of_groupRows hgroups
  have hgroup : table.keys = groups.keys → ∀ key row, table.get? key = some row →
      groups.get? key = some (rowsWith fields key rows) := fun hkeys key row hrow =>
    hpartition.group key (hkeys ▸ Table.exists_get?_eq_some_iff.mp ⟨row, hrow⟩)
  constructor
  · intro h
    have hkeys : table.keys = groups.keys := (keys_associate h).trans hpartition.keys.symm
    refine ⟨hkeys, fun key row hrow => ?_, fun key group row hown hrow hplain => ?_⟩
    · exact ⟨_, hgroup hkeys key row hrow, mergesTo_of_associate h hrow⟩
    · rw [hgroup hkeys key row hrow, Option.some.injEq] at hown
      subst hown
      refine (mergesTo_of_associate h hrow).ofRow? (fun row hmem => ?_) (fun row hmem => ?_) hplain
      · exact hdistinct row (List.mem_filter.mp hmem).1
      · exact of_decide_eq_true (List.mem_filter.mp hmem).2
  · intro h
    refine associate_eq_ok_iff.mpr ⟨exists_groupRows_iff.mp ⟨groups, hgroups⟩,
      h.keys.trans hpartition.keys, fun key row hrow => ?_⟩
    obtain ⟨group, hown, hmerges⟩ := h.merged key row hrow
    rw [hgroup h.keys key row hrow, Option.some.injEq] at hown
    rwa [hown]

/-- **Groups partition the rows, and rows by key are groups merged.**  Rows are put into groups
unless one of them lacks a field of the key, in which case they are not merged by key either.  The
groups stand under the keys of the rows, in the order in which these first appear, and hold the
rows with the key in order.  Merging by key gives, for every group, what merging its rows gives,
one after another, and this has the key of its group; it succeeds if there is something to give. -/
theorem groupRows_partition (hdistinct : Row.AllDistinct rows) :
    (∀ error, groupRows fields node rows = .error error ↔
      (∃ row ∈ rows, ∃ field ∈ fields.fields, field ∉ Table.keys row) ∧
        error = .schema (.missingKey fields.fields node)) ∧
    ((∃ row ∈ rows, ∃ field ∈ fields.fields, field ∉ Table.keys row) →
      ∃ error, associate fields node rows = .error error) ∧
    (∀ groups, groupRows fields node rows = .ok groups → IsPartition fields rows groups) ∧
    ∀ table, associate fields node rows = .ok table ↔
      ∃ groups, groupRows fields node rows = .ok groups ∧ IsMergedFrom fields groups table := by
  simp only [← KeyValue.ofRow?_eq_none_iff]
  refine ⟨fun error => groupRows_eq_error_iff, ?_,
    fun groups hgroups => isPartition_of_groupRows hgroups, fun table => ⟨fun htable => ?_, ?_⟩⟩
  · rintro ⟨row, hrow, hnone⟩
    cases htable : associate fields node rows with
    | error cause => exact ⟨cause, rfl⟩
    | ok table =>
      obtain ⟨key, hkey⟩ := exists_key_of_associate htable row hrow
      rw [hnone] at hkey
      cases hkey
  · obtain ⟨groups, hgroups⟩ := exists_groupRows_iff.mpr (exists_key_of_associate htable)
    exact ⟨groups, hgroups, (associate_eq_ok_iff_isMergedFrom hdistinct hgroups).mp htable⟩
  · rintro ⟨groups, hgroups, h⟩
    exact (associate_eq_ok_iff_isMergedFrom hdistinct hgroups).mpr h

/-- Three drivers have three ways of saying that an order is from the first user. -/
theorem groupRows_partition_orders :
    let user : KeyFields := .single "user"
    let first : List Row := [[("user", .integer 1), ("total", .integer 5)],
      [("user", .boolean true), ("note", .null)], [("user", .string "1"), ("total", .integer 7)]]
    let second : Row := [("user", .string "2")]
    let orders := first.take 1 ++ second :: first.drop 1
    let groups : Table KeyValue (List Row) := [(⟨"1"⟩, first), (⟨"2"⟩, [second])]
    let merged : Row := [("user", .string "1"), ("total", .integer 7), ("note", .null)]
    Row.AllDistinct orders ∧ groupRows user "orders" orders = .ok groups ∧
    IsPartition user orders groups ∧
    associate user "orders" orders = .ok [(⟨"1"⟩, merged), (⟨"2"⟩, second)] ∧
    (∀ row ∈ first, HasPlainKey user row) ∧ KeyValue.ofRow? user merged = some ⟨"1"⟩ := by
  intro user first second orders groups merged
  have hdistinct : Row.AllDistinct orders := by decide
  have hgroups : groupRows user "orders" orders = .ok groups := by rfl
  have htable : associate user "orders" orders = .ok [(⟨"1"⟩, merged), (⟨"2"⟩, second)] := by rfl
  have hplain : ∀ row ∈ first, HasPlainKey user row := by decide
  obtain ⟨-, -, hpartition, hmerged⟩ :=
    @groupRows_partition user "orders" orders hdistinct
  obtain ⟨own, hown, htaken⟩ := (hmerged _).mp htable
  cases hgroups.symm.trans hown
  exact ⟨hdistinct, hgroups, hpartition groups hgroups, htable, hplain,
    htaken.keepsKey ⟨"1"⟩ first merged rfl rfl hplain⟩

end QueryTerms
