import QueryTerms.Proofs.Row.Collapsing
import QueryTerms.Proofs.Row.Unnesting

/-!
# Absent sides of outer joins

A statement that joins other tables returns null in all columns of a side without a match.  Once the
columns are nested, such a side is a nested row of nothing but null, and it is turned into null.

**Nesting.**  Where no column's path leads through another one's, no column is blocked and none is
replaced: `IsLaidOut` says what is at each path, and `isLaidOut_foldl` that nesting gets there.

**Shaping.**  Only the roots of the plan are collapsed, but elsewhere there is nothing to collapse
(`get?_shapeRow`).  `Shaping.apply_outer_joined` tells what is at each path of the rows in the end.
-/

namespace QueryTerms

/-! ## Nesting -/

/-- The nested row holds the columns of a row at their paths, and nothing else. -/
structure IsLaidOut (separator : String) (row nested : Row) : Prop where
  distinct : nested.DeeplyDistinct
  /-- A value that is no nested row is that of the column with this path. -/
  value : ∀ path ≠ [], ∀ value : Value, value.isObject = false →
    (nested.lookup? path = some value ↔
      ∃ column ∈ row, columnPath separator column.1 = path ∧ column.2 = value)
  /-- Nested rows stand where paths of columns lead through. -/
  branch : ∀ path ≠ [], (∃ fields, nested.lookup? path = some (.object fields)) ↔
    ∃ column ∈ row, IsAbove path (columnPath separator column.1)

section Nesting

variable {separator : String} {row nested : Row} {column : String × Value} {path : List String}

lemma exists_mem_concat_iff {P : String × Value → Prop} :
    (∃ other ∈ row ++ [column], P other) ↔ (∃ other ∈ row, P other) ∨ P column := by
  simp only [List.mem_append, List.mem_singleton, or_and_right, exists_or, exists_eq_left]

lemma isLaidOut_nil (separator : String) : IsLaidOut separator [] [] where
  distinct := rfl
  value path hpath value _ := by
    obtain ⟨name, rest, rfl⟩ := List.exists_cons_of_ne_nil hpath
    exact iff_of_false nofun fun ⟨_, hcolumn, _⟩ => absurd hcolumn List.not_mem_nil
  branch path hpath := by
    obtain ⟨name, rest, rfl⟩ := List.exists_cons_of_ne_nil hpath
    exact iff_of_false nofun fun ⟨_, hcolumn, _⟩ => absurd hcolumn List.not_mem_nil

/-- No value in the nested row is in the way of a column whose path is apart from the others. -/
lemma IsLaidOut.not_blockedAt (h : IsLaidOut separator row nested)
    (hapart : ∀ other ∈ row, AreApart (columnPath separator other.1) path) :
    ¬ nested.BlockedAt path := by
  rintro ⟨outer, leaf, habove, hleaf, hvalue⟩
  obtain ⟨other, hother, rfl, -⟩ := (h.value outer (Row.ne_nil_of_isLeaf hleaf hvalue) leaf
    (Value.isObject_of_isLeaf hvalue)).mp hleaf
  exact (hapart other hother).1 habove.1

section Concat

variable {out : Row} {value : Value} (h : IsLaidOut separator row nested)
  (hplaces : Places column.2 nested (columnPath separator column.1) out)
  (hplain : column.2.isObject = false)
  (hapart : ∀ other ∈ row,
    AreApart (columnPath separator other.1) (columnPath separator column.1))
include h hplaces hplain hapart

lemma IsLaidOut.value_concat (hpath : path ≠ []) (hvalue : value.isObject = false) :
    out.lookup? path = some value ↔
      ∃ other ∈ row ++ [column], columnPath separator other.1 = path ∧ other.2 = value := by
  rw [exists_mem_concat_iff]
  obtain ⟨rest, rfl, hlookup⟩ | ⟨habove, fields, hlookup⟩ | ⟨hbeside, hlookup⟩ :=
    hplaces.lookup?_cases path
  · rw [hlookup, or_iff_right]
    · cases rest with
      | nil => rw [Value.lookup?_nil, List.append_nil, Option.some.injEq, and_iff_right rfl]
      | cons name rest =>
        rw [Value.lookup?_cons_of_plain hplain]
        refine iff_of_false nofun fun heq => ?_
        exact List.cons_ne_nil name rest (List.self_eq_append_right.mp heq.1)
    · rintro ⟨other, hother, hsame, -⟩
      exact (hapart other hother).2 (hsame ▸ List.prefix_append _ rest)
  · rw [hlookup]
    refine iff_of_false (fun heq => ?_) ?_
    · cases heq
      cases hvalue
    · rintro (⟨other, hother, rfl, -⟩ | ⟨rfl, -⟩)
      · exact (hapart other hother).1 habove.1
      · exact habove.2 rfl
  · rw [hlookup, h.value path hpath value hvalue, or_iff_left]
    rintro ⟨rfl, -⟩
    exact hbeside.1 List.prefix_rfl

lemma IsLaidOut.branch_concat (hpath : path ≠ []) :
    (∃ fields, out.lookup? path = some (.object fields)) ↔
      ∃ other ∈ row ++ [column], IsAbove path (columnPath separator other.1) := by
  rw [exists_mem_concat_iff]
  obtain ⟨rest, rfl, hlookup⟩ | ⟨habove, fields, hlookup⟩ | ⟨hbeside, hlookup⟩ :=
    hplaces.lookup?_cases path
  · rw [hlookup]
    refine iff_of_false ?_ ?_
    · rintro ⟨fields, hobject⟩
      cases rest with
      | nil =>
        rw [Value.lookup?_nil, Option.some.injEq] at hobject
        rw [hobject] at hplain
        cases hplain
      | cons name rest =>
        rw [Value.lookup?_cons_of_plain hplain] at hobject
        cases hobject
    · rintro (⟨other, hother, habove⟩ | habove)
      · exact (hapart other hother).2 ((List.prefix_append _ rest).trans habove.1)
      · exact (habove.trans_prefix (List.prefix_append _ rest)).2 rfl
  · exact iff_of_true ⟨fields, hlookup⟩ (.inr habove)
  · rw [hlookup, h.branch path hpath, or_iff_left]
    exact fun habove => hbeside.2 habove.1

end Concat

/-- One more column, whose path is apart from the others. -/
lemma IsLaidOut.concat (h : IsLaidOut separator row nested) (hplain : column.2.isObject = false)
    (hapart : ∀ other ∈ row,
      AreApart (columnPath separator other.1) (columnPath separator column.1)) :
    IsLaidOut separator (row ++ [column]) (placeColumn separator nested column) := by
  have hplaces := places_placeColumn (h.not_blockedAt hapart)
  have hdistinct : column.2.deeplyDistinct = true := by
    cases hcolumn : column.2 with
    | object fields =>
      rw [hcolumn] at hplain
      cases hplain
    | _ => rfl
  exact ⟨hplaces.deeplyDistinct hdistinct h.distinct,
    fun path hpath value => h.value_concat hplaces hplain hapart hpath,
    fun path => h.branch_concat hplaces hplain hapart⟩

/-- **Columns apart from each other end up at their paths.** -/
theorem isLaidOut_foldl (hplain : ∀ column ∈ row, column.2.isObject = false)
    (hapart : row.Pairwise fun column other =>
      AreApart (columnPath separator column.1) (columnPath separator other.1)) :
    IsLaidOut separator row (row.foldl (placeColumn separator) []) := by
  induction row using List.reverseRecOn with
  | nil => exact isLaidOut_nil separator
  | append_singleton row column ih =>
    rw [List.pairwise_append] at hapart
    rw [List.foldl_append, List.foldl_cons, List.foldl_nil]
    refine (ih (fun other hother => hplain other (List.mem_append_left _ hother)) hapart.1).concat
      (hplain column (List.mem_append_right _ List.mem_cons_self)) fun other hother => ?_
    exact hapart.2.2 other hother column List.mem_cons_self

end Nesting

/-! ## Absent branches -/

/-- Columns lie under a path, and all of them are null. -/
def Row.IsAbsentAt (separator : String) (row : Row) (path : List String) : Prop :=
  (∃ column ∈ row, path <+: columnPath separator column.1) ∧
    ∀ column ∈ row, path <+: columnPath separator column.1 → column.2.isNull = true

/-- A row of an outer join, with its columns nested and its absent branches turned into null. -/
structure IsOuterJoined (separator : String) (row out : Row) : Prop where
  distinct : out.DeeplyDistinct
  /-- A branch at the top is null exactly if all of its columns are. -/
  root : ∀ name ∈ Table.keys row, ∀ root, compoundRoot? separator name = some root →
    (out.get? root = some .null ↔
      ∀ column ∈ row, [root] <+: columnPath separator column.1 → column.2.isNull = true)
  /-- Otherwise it is a nested row. -/
  nested : ∀ name ∈ Table.keys row, ∀ root, compoundRoot? separator name = some root →
    out.get? root ≠ some .null → ∃ fields, out.get? root = some (.object fields)
  /-- Columns that are not compound stay as they are. -/
  plain : ∀ column ∈ row, compoundRoot? separator column.1 = none →
    out.get? column.1 = some column.2
  /-- What is neither null nor a nested row is the value of a column, at its path. -/
  leaf : ∀ path ≠ [], ∀ value : Value, value.isLeaf = true →
    (out.lookup? path = some value ↔
      ∃ column ∈ row, columnPath separator column.1 = path ∧ column.2 = value)
  /-- Null stands for an absent branch, at its highest point. -/
  null : ∀ path ≠ [], out.lookup? path = some .null ↔
    row.IsAbsentAt separator path ∧
      ∀ outer ≠ [], IsAbove outer path → ¬ row.IsAbsentAt separator outer
  /-- Nested rows stand where columns lie below that are not all null. -/
  branch : ∀ path ≠ [], (∃ fields, out.lookup? path = some (.object fields)) ↔
    (∃ column ∈ row, IsAbove path (columnPath separator column.1)) ∧
      ¬ row.IsAbsentAt separator path

section Absence

variable {separator : String} {row nested out : Row} {path outer : List String}
  {inner found : Value}

/-- A compound column lies below its root. -/
lemma exists_isAbove_root (hseparator : separator ≠ "") {name root : String}
    (hname : name ∈ Table.keys row) (hcompound : compoundRoot? separator name = some root) :
    ∃ column ∈ row, IsAbove [root] (columnPath separator column.1) := by
  obtain ⟨column, hcolumn, rfl⟩ := List.mem_map.mp hname
  obtain ⟨second, others, hpath⟩ := exists_columnPath_of_some hseparator hcompound
  exact ⟨column, hcolumn, isAbove_iff.mpr ⟨second, others, hpath⟩⟩

/-- A branch below an absent one is absent. -/
lemma Row.IsAbsentAt.below (h : row.IsAbsentAt separator outer) (habove : outer <+: path)
    (hcolumn : ∃ column ∈ row, path <+: columnPath separator column.1) :
    row.IsAbsentAt separator path :=
  ⟨hcolumn, fun column hmem hunder => h.2 column hmem (habove.trans hunder)⟩

variable (h : IsLaidOut separator row nested) (hplain : ∀ column ∈ row, column.2.isObject = false)
include h hplain

lemma IsLaidOut.lookup?_column {column : String × Value} (hcolumn : column ∈ row) :
    nested.lookup? (columnPath separator column.1) = some column.2 :=
  (h.value _ (columnPath_ne_nil _ _) _ (hplain column hcolumn)).mpr ⟨column, hcolumn, rfl, rfl⟩

lemma IsLaidOut.exists_lookup?_iff (hpath : path ≠ []) :
    (∃ inner, nested.lookup? path = some inner) ↔
      ∃ column ∈ row, path <+: columnPath separator column.1 := by
  constructor
  · rintro ⟨inner, hinner⟩
    cases hobject : inner.isObject with
    | false =>
      obtain ⟨column, hcolumn, rfl, -⟩ := (h.value path hpath inner hobject).mp hinner
      exact ⟨column, hcolumn, List.prefix_rfl⟩
    | true =>
      obtain ⟨fields, rfl⟩ := Value.isObject_iff.mp hobject
      obtain ⟨column, hcolumn, habove⟩ := (h.branch path hpath).mp ⟨fields, hinner⟩
      exact ⟨column, hcolumn, habove.1⟩
  · rintro ⟨column, hcolumn, hunder⟩
    by_cases heq : path = columnPath separator column.1
    · exact ⟨column.2, heq ▸ h.lookup?_column hplain hcolumn⟩
    · obtain ⟨fields, hfields⟩ := (h.branch path hpath).mpr ⟨column, hcolumn, hunder, heq⟩
      exact ⟨.object fields, hfields⟩

/-- A nested row is not empty, since a column lies below it. -/
lemma IsLaidOut.ne_nil_of_lookup? {fields : Row} (hpath : path ≠ [])
    (hfields : nested.lookup? path = some (.object fields)) : fields ≠ [] := by
  rintro rfl
  obtain ⟨column, hcolumn, habove⟩ := (h.branch path hpath).mp ⟨[], hfields⟩
  obtain ⟨name, rest, heq⟩ := isAbove_iff.mp habove
  have hcolumn := h.lookup?_column hplain hcolumn
  rw [heq, Row.lookup?_append, hfields] at hcolumn
  cases hcolumn

/-- **The absent branches are those that become null.** -/
theorem IsLaidOut.isNull_collapseNulls_iff (hpath : path ≠ [])
    (hinner : nested.lookup? path = some inner) :
    (collapseNulls inner).isNull = true ↔ row.IsAbsentAt separator path := by
  rw [QueryTerms.isNull_collapseNulls_iff (Value.deeplyDistinct_of_lookup? h.distinct hinner)]
  have hbelow : ∀ more, nested.lookup? (path ++ more) = inner.lookup? more := fun more => by
    rw [Row.lookup?_append, hinner, Option.bind_some]
  constructor
  · intro hall
    refine ⟨(h.exists_lookup?_iff hplain hpath).mp ⟨inner, hinner⟩, fun column hcolumn hunder => ?_⟩
    obtain ⟨more, hmore⟩ := hunder
    have hvalue := h.lookup?_column hplain hcolumn
    rw [← hmore, hbelow] at hvalue
    refine (hall more column.2 hvalue).resolve_right ?_
    rintro ⟨fields, hobject, -⟩
    have hcolumn := hplain column hcolumn
    rw [hobject] at hcolumn
    cases hcolumn
  · intro habsent more value hvalue
    rw [← hbelow] at hvalue
    have hmore : path ++ more ≠ [] := List.append_ne_nil_of_left_ne_nil hpath more
    cases hobject : value.isObject with
    | false =>
      obtain ⟨column, hcolumn, heq, rfl⟩ := (h.value _ hmore value hobject).mp hvalue
      exact .inl (habsent.2 column hcolumn (heq ▸ List.prefix_append path more))
    | true =>
      obtain ⟨fields, rfl⟩ := Value.isObject_iff.mp hobject
      exact .inr ⟨fields, rfl, h.ne_nil_of_lookup? hplain hmore hvalue⟩

variable (hout : ∀ name, out.get? name = (nested.get? name).map collapseNulls)
include hout

/-- What is in the collapsed row is in the nested one, under no absent branch. -/
lemma IsLaidOut.lookup?_collapsed_iff (hpath : path ≠ []) :
    out.lookup? path = some found ↔
      (∀ outer ≠ [], IsAbove outer path → ¬ row.IsAbsentAt separator outer) ∧
        ∃ inner, nested.lookup? path = some inner ∧ collapseNulls inner = found := by
  obtain ⟨name, rest, rfl⟩ := List.exists_cons_of_ne_nil hpath
  rw [Row.lookup?_cons, hout, Row.lookup?_cons]
  cases hget : nested.get? name with
  | none => exact iff_of_false nofun fun ⟨_, _, hnone, _⟩ => nomatch hnone
  | some value =>
    have hbelow : ∀ more, nested.lookup? (name :: more) = value.lookup? more := fun more => by
      rw [Row.lookup?_cons, hget, Option.bind_some]
    rw [Option.map_some, Option.bind_some, Option.bind_some, lookup?_collapseNulls_iff]
    refine and_congr_left fun _ => ⟨fun hkept outer houter habove habsent => ?_, ?_⟩
    · obtain ⟨inner, hinner⟩ := (h.exists_lookup?_iff hplain houter).mpr habsent.1
      have hnull := (h.isNull_collapseNulls_iff hplain houter hinner).mpr habsent
      obtain ⟨first, others, rfl⟩ := List.exists_cons_of_ne_nil houter
      obtain rfl := (List.cons_prefix_cons.mp habove.1).1
      rw [hbelow] at hinner
      rw [hkept others inner (isAbove_cons_iff.mp habove) hinner] at hnull
      cases hnull
    · intro hkept outer inner habove hinner
      rw [← hbelow] at hinner
      have hcons : name :: outer ≠ [] := List.cons_ne_nil name outer
      rw [← Bool.not_eq_true, h.isNull_collapseNulls_iff hplain hcons hinner]
      exact hkept _ hcons (isAbove_cons_iff.mpr habove)

omit hplain in
lemma IsLaidOut.lookup?_leaf_iff (hpath : path ≠ []) (hleaf : found.isLeaf = true) :
    out.lookup? path = some found ↔
      ∃ column ∈ row, columnPath separator column.1 = path ∧ column.2 = found := by
  rw [← h.value path hpath found (Value.isObject_of_isLeaf hleaf)]
  obtain ⟨name, rest, rfl⟩ := List.exists_cons_of_ne_nil hpath
  rw [Row.lookup?_cons, hout, Row.lookup?_cons]
  cases nested.get? name with
  | none => rfl
  | some value => exact lookup?_collapseNulls_leaf_iff hleaf

lemma IsLaidOut.lookup?_null_iff (hpath : path ≠ []) :
    out.lookup? path = some .null ↔
      row.IsAbsentAt separator path ∧
        ∀ outer ≠ [], IsAbove outer path → ¬ row.IsAbsentAt separator outer := by
  rw [h.lookup?_collapsed_iff hplain hout hpath, and_comm]
  refine and_congr_left fun _ => ⟨?_, fun habsent => ?_⟩
  · rintro ⟨inner, hinner, hnull⟩
    exact (h.isNull_collapseNulls_iff hplain hpath hinner).mp (Value.isNull_iff.mpr hnull)
  · obtain ⟨inner, hinner⟩ := (h.exists_lookup?_iff hplain hpath).mpr habsent.1
    have hnull := (h.isNull_collapseNulls_iff hplain hpath hinner).mpr habsent
    exact ⟨inner, hinner, Value.isNull_iff.mp hnull⟩

lemma IsLaidOut.exists_lookup?_object_iff (hpath : path ≠ []) :
    (∃ fields, out.lookup? path = some (.object fields)) ↔
      (∃ column ∈ row, IsAbove path (columnPath separator column.1)) ∧
        ¬ row.IsAbsentAt separator path := by
  rw [← h.branch path hpath]
  constructor
  · rintro ⟨fields, hfields⟩
    obtain ⟨-, inner, hinner, hcollapsed⟩ :=
      (h.lookup?_collapsed_iff hplain hout hpath).mp hfields
    rw [← h.isNull_collapseNulls_iff hplain hpath hinner, hcollapsed]
    refine ⟨?_, Bool.false_ne_true⟩
    cases hobject : inner.isObject with
    | false =>
      rw [collapseNulls_of_plain hobject] at hcollapsed
      exact ⟨fields, hcollapsed ▸ hinner⟩
    | true =>
      obtain ⟨own, rfl⟩ := Value.isObject_iff.mp hobject
      exact ⟨own, hinner⟩
  · rintro ⟨⟨fields, hfields⟩, hpresent⟩
    have hnull := (h.isNull_collapseNulls_iff hplain hpath hfields).not.mpr hpresent
    refine ⟨collapseFields fields, ?_⟩
    refine (h.lookup?_collapsed_iff hplain hout hpath).mpr ⟨?_, _, hfields, ?_⟩
    · intro outer _ habove habsent
      exact hpresent (habsent.below habove.1 ((h.exists_lookup?_iff hplain hpath).mp ⟨_, hfields⟩))
    · exact collapseNulls_object_of_not_isNull (Bool.not_eq_true _ ▸ hnull)

/-- At the top, only the columns of the branch decide. -/
lemma IsLaidOut.get?_null_iff {name : String}
    (habove : ∃ column ∈ row, IsAbove [name] (columnPath separator column.1)) :
    out.get? name = some .null ↔
      ∀ column ∈ row, [name] <+: columnPath separator column.1 → column.2.isNull = true := by
  obtain ⟨column, hcolumn, habove⟩ := habove
  have hhighest : ∀ outer ≠ [], IsAbove outer [name] → ¬ row.IsAbsentAt separator outer :=
    fun outer houter hsingle => absurd (eq_nil_of_isAbove_singleton hsingle) houter
  rw [← Row.lookup?_singleton, h.lookup?_null_iff hplain hout (List.cons_ne_nil name []),
    and_iff_left hhighest, Row.IsAbsentAt, and_iff_right ⟨column, hcolumn, habove.1⟩]

/-- A row is nested as an outer join is once its nested rows are collapsed. -/
theorem IsLaidOut.isOuterJoined (hseparator : separator ≠ "") (hdistinct : out.DeeplyDistinct) :
    IsOuterJoined separator row out where
  distinct := hdistinct
  root name hname root hcompound :=
    h.get?_null_iff hplain hout (exists_isAbove_root hseparator hname hcompound)
  nested name hname root hcompound hpresent := by
    have habove := exists_isAbove_root hseparator hname hcompound
    rw [← Row.lookup?_singleton]
    refine (h.exists_lookup?_object_iff hplain hout (List.cons_ne_nil root [])).mpr
      ⟨habove, fun habsent => hpresent ?_⟩
    exact (h.get?_null_iff hplain hout habove).mpr habsent.2
  plain column hcolumn hcompound := by
    have hpath := h.lookup?_column hplain hcolumn
    rw [columnPath_of_none hcompound] at hpath
    rw [← Row.lookup?_singleton]
    refine (h.lookup?_collapsed_iff hplain hout (List.cons_ne_nil _ [])).mpr
      ⟨fun outer houter hsingle => absurd (eq_nil_of_isAbove_singleton hsingle) houter, ?_⟩
    exact ⟨column.2, hpath, collapseNulls_of_plain (hplain column hcolumn)⟩
  leaf path hpath value := h.lookup?_leaf_iff hout hpath
  null path := h.lookup?_null_iff hplain hout
  branch path := h.exists_lookup?_object_iff hplain hout

end Absence

/-! ## Shaping -/

section Shaping

variable {separator : String} {row first nested : Row} {roots : List String}

lemma get?_collapseRoot (row : Row) (root name : String) :
    (Shaping.collapseRoot row root).get? name =
      if root = name then (row.get? name).map collapseNulls else row.get? name := by
  rw [Shaping.collapseRoot]
  split
  · next value hget =>
    rw [Table.get?_set]
    split
    · next heq => rw [← heq, hget, Option.map_some]
    · rfl
  · next hget =>
    split
    · next heq => rw [← heq, hget, Option.map_none]
    · rfl

lemma get?_foldl_collapseRoot (hroots : roots.Nodup) (row : Row) (name : String) :
    (roots.foldl Shaping.collapseRoot row).get? name =
      if name ∈ roots then (row.get? name).map collapseNulls else row.get? name := by
  induction roots generalizing row with
  | nil => rw [List.foldl_nil, if_neg List.not_mem_nil]
  | cons root rest ih =>
    obtain ⟨hroot, hrest⟩ := List.nodup_cons.mp hroots
    rw [List.foldl_cons, ih hrest, get?_collapseRoot]
    by_cases heq : root = name
    · subst heq
      rw [if_neg hroot, if_pos rfl, if_pos List.mem_cons_self]
    · rw [if_neg heq]
      simp [Ne.symm heq]

lemma deeplyDistinct_foldl_collapseRoot (h : row.DeeplyDistinct) (roots : List String) :
    Row.DeeplyDistinct (roots.foldl Shaping.collapseRoot row) := by
  induction roots generalizing row with
  | nil => exact h
  | cons root rest ih =>
    refine ih ?_
    rw [Shaping.collapseRoot]
    split
    · next value hget =>
      exact h.set root (deeplyDistinct_collapseNulls (Value.deeplyDistinct_of_get? h hget))
    · exact h

lemma nodup_roots_ofRow (separator : String) (row : Row) :
    (UnnestPlan.ofRow separator row).roots.Nodup := by
  suffices hfold : ∀ (names : List String) (plan : UnnestPlan), plan.roots.Nodup →
      (names.foldl (UnnestPlan.add separator) plan).roots.Nodup from hfold _ _ List.nodup_nil
  intro names
  induction names with
  | nil => exact fun plan h => h
  | cons name rest ih =>
    intro plan h
    refine ih _ ?_
    cases hname : compoundRoot? separator name with
    | none => rwa [UnnestPlan.add_of_none hname]
    | some root =>
      rw [UnnestPlan.add_of_some hname]
      split
      · exact h
      · next hroot =>
        refine List.nodup_append.mpr ⟨h, by simp, fun a ha b hb heq => hroot ?_⟩
        rw [List.mem_singleton] at hb
        exact List.contains_iff_mem.mpr (hb ▸ heq ▸ ha)

/-- Without compound columns there is nothing to nest. -/
lemma foldl_placeColumn_of_none (hdistinct : row.NamesDistinct)
    (h : ∀ name ∈ Table.keys row, compoundRoot? separator name = none) :
    row.foldl (placeColumn separator) [] = row := by
  induction row using List.reverseRecOn with
  | nil => rfl
  | append_singleton row column ih =>
    rw [Row.NamesDistinct, Table.keys, List.map_append, List.nodup_append] at hdistinct
    simp only [Table.keys, List.map_append, List.forall_mem_append] at h
    have hcolumn : column.1 ∉ Table.keys row := fun hmem =>
      hdistinct.2.2 column.1 hmem column.1 List.mem_cons_self rfl
    rw [List.foldl_append, ih hdistinct.1 h.1, List.foldl_cons, List.foldl_nil, placeColumn,
      columnPath_of_none (h.2 column.1 List.mem_cons_self)]
    exact Table.set_of_notMem hcolumn column.2

/-- Paths of columns are apart if their components are. -/
lemma not_isAbove_columnPath (hseparator : separator ≠ "") {name other : String}
    (h : ¬ IsAbove (Text.path name separator) (Text.path other separator)) :
    ¬ IsAbove (columnPath separator name) (columnPath separator other) := by
  intro habove
  cases hother : compoundRoot? separator other with
  | none =>
    rw [columnPath_of_none hother] at habove
    exact columnPath_ne_nil separator name (eq_nil_of_isAbove_singleton habove)
  | some root =>
    have hpath := columnPath_of_isSome (Option.isSome_of_eq_some hother)
    cases hname : compoundRoot? separator name with
    | some first =>
      rw [columnPath_of_isSome (Option.isSome_of_eq_some hname), hpath] at habove
      exact h habove
    | none =>
      -- a name that is not compound and begins the path of a compound one is its root
      obtain ⟨second, others, hcons⟩ := exists_columnPath_of_some hseparator hother
      obtain ⟨-, rest, hsplit⟩ := compoundRoot?_eq_some_iff.mp hother
      rw [columnPath_of_none hname] at habove
      have hroot : name = root := by
        rw [hcons] at habove
        exact (List.cons_prefix_cons.mp habove.1).1
      have hsingle : Text.path name separator = [name] :=
        Text.path_of_none hseparator (hroot ▸ Text.splitOnce?_root hseparator hsplit)
      rw [← hsingle, hpath] at habove
      exact h habove

lemma pairwise_areApart (hseparator : separator ≠ "") (hdistinct : row.NamesDistinct)
    (hpaths : ∀ name ∈ Table.keys row, ∀ other ∈ Table.keys row,
      ¬ IsAbove (Text.path name separator) (Text.path other separator)) :
    row.Pairwise fun column other =>
      AreApart (columnPath separator column.1) (columnPath separator other.1) := by
  have hfree : ∀ column ∈ row, ∀ other ∈ row,
      ¬ IsAbove (columnPath separator column.1) (columnPath separator other.1) :=
    fun column hcolumn other hother => not_isAbove_columnPath hseparator
      (hpaths _ (List.mem_map_of_mem hcolumn) _ (List.mem_map_of_mem hother))
  refine (List.pairwise_map.mp hdistinct).imp_of_mem fun hcolumn hother hne => ?_
  exact areApart_of_ne ((columnPath_inj hseparator).not.mpr hne) (hfree _ hcolumn _ hother)
    (hfree _ hother _ hcolumn)

variable (hkeys : ∀ name, name ∈ Table.keys row ↔ name ∈ Table.keys first)
include hkeys

/-- Without types to apply, a row is nested and then collapsed at the roots. -/
lemma shapeRow_eq (hdistinct : row.NamesDistinct) :
    Shaping.shapeRow ⟨true, separator, [], none⟩ (.ofRow separator first) row =
      (UnnestPlan.ofRow separator first).roots.foldl Shaping.collapseRoot
        (row.foldl (placeColumn separator) []) := by
  rw [Shaping.shapeRow, castFields]
  congr 1
  split
  · next hempty =>
    refine (foldl_placeColumn_of_none hdistinct fun name hname => ?_).symm
    rw [← Option.not_isSome_iff_eq_none]
    intro hcompound
    have hplanned : name ∈ (UnnestPlan.ofRow separator first).fields :=
      UnnestPlan.mem_fields_ofRow.mpr ⟨(hkeys name).mp hname, hcompound⟩
    rw [UnnestPlan.isEmpty, List.isEmpty_iff] at hempty
    rw [hempty] at hplanned
    exact List.not_mem_nil hplanned
  · refine UnnestPlan.apply_eq_foldl fun name hname => ?_
    rw [UnnestPlan.mem_fields_ofRow, and_iff_right ((hkeys name).mp hname)]

/-- Beside the roots of the plan there is nothing to collapse. -/
lemma get?_shapeRow (hdistinct : row.NamesDistinct) (hseparator : separator ≠ "")
    (h : IsLaidOut separator row (row.foldl (placeColumn separator) [])) (name : String) :
    (Shaping.shapeRow ⟨true, separator, [], none⟩ (.ofRow separator first) row).get? name =
      (Table.get? name (row.foldl (placeColumn separator) [])).map collapseNulls := by
  rw [shapeRow_eq hkeys hdistinct, get?_foldl_collapseRoot (nodup_roots_ofRow separator first)]
  split
  · rfl
  · next hroot =>
    rw [← Row.lookup?_singleton]
    cases hget : Row.lookup? (row.foldl (placeColumn separator) []) [name] with
    | none => rfl
    | some value =>
      rw [Option.map_some, collapseNulls_of_plain]
      rw [← Bool.not_eq_true, Value.isObject_iff]
      rintro ⟨fields, rfl⟩
      obtain ⟨column, hcolumn, habove⟩ :=
        (h.branch [name] (List.cons_ne_nil name [])).mp ⟨fields, hget⟩
      obtain ⟨second, rest, hpath⟩ := isAbove_iff.mp habove
      refine hroot (UnnestPlan.mem_roots_ofRow.mpr
        ⟨column.1, (hkeys _).mp (List.mem_map_of_mem hcolumn), ?_⟩)
      cases hcompound : compoundRoot? separator column.1 with
      | none =>
        rw [columnPath_of_none hcompound] at hpath
        cases hpath
      | some root =>
        obtain ⟨next, others, heq⟩ := exists_columnPath_of_some hseparator hcompound
        rw [heq, List.singleton_append, List.cons_eq_cons] at hpath
        rw [hpath.1]

/-- One row, shaped by the plan of a row with the same columns. -/
lemma isOuterJoined_shapeRow (hdistinct : row.NamesDistinct) (hseparator : separator ≠ "")
    (hplain : ∀ column ∈ row, column.2.isObject = false)
    (hpaths : ∀ name ∈ Table.keys row, ∀ other ∈ Table.keys row,
      ¬ IsAbove (Text.path name separator) (Text.path other separator)) :
    IsOuterJoined separator row
      (Shaping.shapeRow ⟨true, separator, [], none⟩ (.ofRow separator first) row) := by
  have hlaid := isLaidOut_foldl hplain (pairwise_areApart hseparator hdistinct hpaths)
  refine hlaid.isOuterJoined hplain (get?_shapeRow hkeys hdistinct hseparator hlaid) hseparator ?_
  rw [shapeRow_eq hkeys hdistinct]
  exact deeplyDistinct_foldl_collapseRoot hlaid.distinct _

end Shaping

/-- **Absence in outer joins.**  Rows with the same columns, of which none is a nested row and none
has a path that leads through the end of another one's, are shaped into rows in which every branch
whose columns are all null is null, at its highest point, and every other column is at its path. -/
theorem Shaping.apply_outer_joined {separator : String} {rows : List Row}
    (hseparator : separator ≠ "") (hdistinct : Row.AllDistinct rows)
    (hnames : ∀ row ∈ rows, ∀ other ∈ rows, ∀ name ∈ Table.keys row, name ∈ Table.keys other)
    (hplain : ∀ row ∈ rows, ∀ column ∈ row, column.2.isObject = false)
    (hpaths : ∀ row ∈ rows, ∀ name ∈ Table.keys row, ∀ other ∈ Table.keys row,
      ¬ IsAbove (Text.path name separator) (Text.path other separator)) :
    List.Forall₂ (IsOuterJoined separator) rows
      (Shaping.apply ⟨true, separator, [], none⟩ rows) := by
  cases rows with
  | nil => exact .nil
  | cons first rest =>
    refine List.forall₂_map_right_iff.mpr (List.forall₂_same.mpr fun row hrow => ?_)
    have hkeys : ∀ name, name ∈ Table.keys row ↔ name ∈ Table.keys first := fun name =>
      ⟨hnames row hrow first List.mem_cons_self name, hnames first List.mem_cons_self row hrow name⟩
    exact isOuterJoined_shapeRow hkeys (hdistinct row hrow) hseparator (hplain row hrow)
      (hpaths row hrow)

/-- Two orders, the second one without anybody who placed it. -/
def joinedOrders : List Row :=
  [[("id", .integer 1), ("by.name", .string "Bob"), ("by.at.zip", .null)],
    [("id", .integer 2), ("by.name", .null), ("by.at.zip", .null)]]

/-- The buyer of the second order is null as a whole, only the address of the first one is. -/
theorem Shaping.apply_outer_joined_orders :
    Row.AllDistinct joinedOrders ∧
    (∀ row ∈ joinedOrders, ∀ other ∈ joinedOrders, ∀ name ∈ Table.keys row,
      name ∈ Table.keys other) ∧
    (∀ row ∈ joinedOrders, ∀ column ∈ row, column.2.isObject = false) ∧
    (∀ row ∈ joinedOrders, ∀ name ∈ Table.keys row, ∀ other ∈ Table.keys row,
      ¬ IsAbove (Text.path name ".") (Text.path other ".")) ∧
    List.Forall₂ (IsOuterJoined ".") joinedOrders
      [[("id", .integer 1), ("by", .object [("name", .string "Bob"), ("at", .null)])],
        [("id", .integer 2), ("by", .null)]] := by
  have hdistinct : Row.AllDistinct joinedOrders := by decide
  have hnames : ∀ row ∈ joinedOrders, ∀ other ∈ joinedOrders, ∀ name ∈ Table.keys row,
      name ∈ Table.keys other := by decide
  have hplain : ∀ row ∈ joinedOrders, ∀ column ∈ row, column.2.isObject = false := by decide
  have hpaths : ∀ row ∈ joinedOrders, ∀ name ∈ Table.keys row, ∀ other ∈ Table.keys row,
      ¬ IsAbove (Text.path name ".") (Text.path other ".") := by decide
  have hshaped : Shaping.apply ⟨true, ".", [], none⟩ joinedOrders =
      [[("id", .integer 1), ("by", .object [("name", .string "Bob"), ("at", .null)])],
        [("id", .integer 2), ("by", .null)]] := by cbv
  exact ⟨hdistinct, hnames, hplain, hpaths,
    hshaped ▸ Shaping.apply_outer_joined (by decide) hdistinct hnames hplain hpaths⟩

end QueryTerms
