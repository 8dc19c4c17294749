import Mathlib
import QueryTerms.Proofs.Row.Paths
import QueryTerms.Proofs.Text.Separator

/-!
# What unnesting keeps

The columns of a row are placed one after another: a compound one at the path of its components, or
under its own name where the path is blocked, and any other one under its own name.  A column that
comes later may replace a nested row in which values have been placed before.

**Columns.**  `columnPath` is the path of a column, which the name alone determines; the plan of a
row tells the same (`apply_eq_foldl`).

**One column.**  A column changes nothing at the paths of others, unless it leads there
(`lookup?_placeColumn_iff`, `lookup?_placeColumn_append_iff`), and nothing under their own names
(`get?_placeColumn`).

**All columns.**  What a row has at the path of a column in the end is what the last column that
leads there has put in place: `lookup?_unnested_iff`.  `Row.keeps_iff` tells from this which values
are kept.
-/

namespace QueryTerms

/-! ## Columns -/

/-- The first component of a compound name, if it is not empty. -/
def compoundRoot? (separator name : String) : Option String :=
  ((Text.splitOnce? name separator).map Prod.fst).filter fun root => root ≠ ""

/-- The path of a column: its components if it is compound, else its name. -/
def columnPath (separator name : String) : List String :=
  if (compoundRoot? separator name).isSome then Text.path name separator else [name]

/-- Places one column, under its own name where its path is blocked. -/
def placeColumn (separator : String) (out : Row) (column : String × Value) : Row :=
  (insertPath out column.2 (columnPath separator column.1)).getD (out.set column.1 column.2)

/-- The row, unnested by its own plan. -/
def Row.unnested (separator : String) (row : Row) : Row :=
  (UnnestPlan.ofRow separator row).apply separator row

section Columns

variable {separator name other root : String}

lemma compoundRoot?_eq_some_iff :
    compoundRoot? separator name = some root ↔
      root ≠ "" ∧ ∃ rest, Text.splitOnce? name separator = some (root, rest) := by
  rw [compoundRoot?, Option.filter_eq_some_iff, and_comm, decide_eq_true_eq,
    Option.map_eq_some_iff]
  refine and_congr_right' ⟨?_, ?_⟩
  · rintro ⟨⟨_, rest⟩, hsplit, rfl⟩
    exact ⟨rest, hsplit⟩
  · rintro ⟨rest, hsplit⟩
    exact ⟨(root, rest), hsplit, rfl⟩

lemma columnPath_of_none (h : compoundRoot? separator name = none) :
    columnPath separator name = [name] := by
  rw [columnPath, h]
  rfl

lemma columnPath_of_isSome (h : (compoundRoot? separator name).isSome) :
    columnPath separator name = Text.path name separator := by
  rw [columnPath, if_pos h]

lemma exists_columnPath_of_some (hseparator : separator ≠ "")
    (h : compoundRoot? separator name = some root) :
    ∃ second others, columnPath separator name = root :: second :: others := by
  obtain ⟨-, rest, hsplit⟩ := compoundRoot?_eq_some_iff.mp h
  rw [columnPath_of_isSome (Option.isSome_of_eq_some h), Text.path_of_some hseparator hsplit]
  obtain ⟨second, others, hrest⟩ := List.exists_cons_of_ne_nil (Text.path_ne_nil rest separator)
  exact ⟨second, others, by rw [hrest]⟩

lemma columnPath_ne_nil (separator name : String) : columnPath separator name ≠ [] := by
  rw [columnPath]
  split
  · exact Text.path_ne_nil name separator
  · exact List.cons_ne_nil name []

/-- No path begins with a compound name. -/
lemma ne_of_columnPath_eq_cons (hseparator : separator ≠ "")
    (hother : (compoundRoot? separator other).isSome) {rest : List String}
    (h : columnPath separator name = root :: rest) : root ≠ other := by
  rintro rfl
  obtain ⟨inner, hinner⟩ := Option.isSome_iff_exists.mp hother
  cases hname : compoundRoot? separator name with
  | none =>
    rw [columnPath_of_none hname, List.cons_eq_cons] at h
    rw [h.1, hinner] at hname
    cases hname
  | some first =>
    obtain ⟨second, others, hpath⟩ := exists_columnPath_of_some hseparator hname
    rw [hpath, List.cons_eq_cons] at h
    obtain ⟨-, rest, hsplit⟩ := compoundRoot?_eq_some_iff.mp hname
    obtain ⟨-, behind, hroot⟩ := compoundRoot?_eq_some_iff.mp hinner
    rw [← h.1, Text.splitOnce?_root hseparator hsplit] at hroot
    cases hroot

/-- **Columns of different names have different paths.** -/
theorem columnPath_inj (hseparator : separator ≠ "") :
    columnPath separator name = columnPath separator other ↔ name = other := by
  refine ⟨fun h => ?_, fun h => by rw [h]⟩
  cases hname : compoundRoot? separator name with
  | none =>
    cases hother : compoundRoot? separator other with
    | none =>
      rw [columnPath_of_none hname, columnPath_of_none hother] at h
      exact (List.cons_eq_cons.mp h).1
    | some root =>
      obtain ⟨second, others, hpath⟩ := exists_columnPath_of_some hseparator hother
      rw [columnPath_of_none hname, hpath] at h
      cases h
  | some root =>
    cases hother : compoundRoot? separator other with
    | none =>
      obtain ⟨second, others, hpath⟩ := exists_columnPath_of_some hseparator hname
      rw [columnPath_of_none hother, hpath] at h
      cases h
    | some first =>
      rw [columnPath_of_isSome (Option.isSome_of_eq_some hname),
        columnPath_of_isSome (Option.isSome_of_eq_some hother)] at h
      exact (Text.path_inj hseparator).mp h

end Columns

section Plans

variable {separator field root : String} {plan : UnnestPlan}

lemma UnnestPlan.add_of_none (h : compoundRoot? separator field = none) :
    plan.add separator field = plan := by
  rw [add]
  split
  · next first rest hsplit =>
    refine if_pos (not_not.mp fun hroot => ?_)
    rw [compoundRoot?_eq_some_iff.mpr ⟨hroot, rest, hsplit⟩] at h
    cases h
  · rfl

lemma UnnestPlan.add_of_some (h : compoundRoot? separator field = some root) :
    plan.add separator field =
      { fields := plan.fields ++ [field]
        roots := if plan.roots.contains root then plan.roots else plan.roots ++ [root] } := by
  obtain ⟨hroot, rest, hsplit⟩ := compoundRoot?_eq_some_iff.mp h
  rw [add, hsplit]
  exact if_neg hroot

lemma UnnestPlan.mem_fields_foldl_add (names : List String) :
    field ∈ (names.foldl (add separator) plan).fields ↔
      field ∈ plan.fields ∨ field ∈ names ∧ (compoundRoot? separator field).isSome := by
  induction names generalizing plan with
  | nil => simp
  | cons name rest ih =>
    rw [List.foldl_cons, ih]
    cases hname : compoundRoot? separator name with
    | none =>
      rw [add_of_none hname, List.mem_cons]
      refine or_congr_right (and_congr_left fun hfield => (or_iff_right ?_).symm)
      rintro rfl
      rw [hname] at hfield
      cases hfield
    | some root =>
      rw [add_of_some hname, List.mem_append, List.mem_singleton, List.mem_cons, or_assoc,
        or_and_right]
      refine or_congr_right (or_congr_left (iff_self_and.mpr ?_))
      rintro rfl
      rw [hname]
      rfl

lemma UnnestPlan.mem_fields_ofRow {row : Row} :
    field ∈ (ofRow separator row).fields ↔
      field ∈ row.keys ∧ (compoundRoot? separator field).isSome := by
  rw [ofRow, mem_fields_foldl_add, or_iff_right List.not_mem_nil]

lemma UnnestPlan.mem_roots_foldl_add (names : List String) :
    root ∈ (names.foldl (add separator) plan).roots ↔
      root ∈ plan.roots ∨ ∃ name ∈ names, compoundRoot? separator name = some root := by
  induction names generalizing plan with
  | nil => simp
  | cons name rest ih =>
    rw [List.foldl_cons, ih, List.exists_mem_cons_iff]
    cases hname : compoundRoot? separator name with
    | none =>
      rw [add_of_none hname, or_iff_right (show ¬ none = some root from nofun)]
    | some first =>
      have hroots : root ∈ (plan.add separator name).roots ↔ root ∈ plan.roots ∨ first = root := by
        rw [add_of_some hname]
        split
        · next hcontains =>
          refine (or_iff_left_of_imp ?_).symm
          rintro rfl
          exact List.contains_iff_mem.mp hcontains
        · rw [List.mem_append, List.mem_singleton, eq_comm]
      rw [hroots, Option.some.injEq, or_assoc]

lemma UnnestPlan.mem_roots_ofRow {row : Row} :
    root ∈ (ofRow separator row).roots ↔
      ∃ name ∈ row.keys, compoundRoot? separator name = some root := by
  rw [ofRow, mem_roots_foldl_add, or_iff_right List.not_mem_nil]

/-- A plan that is made for the names of a row places each column at its path. -/
lemma UnnestPlan.apply_eq_foldl {row : Row}
    (h : ∀ name ∈ row.keys, name ∈ plan.fields ↔ (compoundRoot? separator name).isSome) :
    plan.apply separator row = row.foldl (placeColumn separator) [] := by
  refine List.foldl_ext _ _ _ fun out column hcolumn => ?_
  have hplanned := h column.1 (List.mem_map_of_mem hcolumn)
  rw [place, placeColumn]
  cases hroot : compoundRoot? separator column.1 with
  | none =>
    have hfields : column.1 ∉ plan.fields := fun hmem => by
      rw [hplanned, hroot] at hmem
      cases hmem
    rw [columnPath_of_none hroot]
    exact if_neg fun hcontains => hfields (List.contains_iff_mem.mp hcontains)
  | some root =>
    have hsome := Option.isSome_of_eq_some hroot
    rw [columnPath_of_isSome hsome, if_pos (List.contains_iff_mem.mpr (hplanned.mpr hsome))]

lemma Row.unnested_eq_foldl (separator : String) (row : Row) :
    row.unnested separator = row.foldl (placeColumn separator) [] := by
  refine UnnestPlan.apply_eq_foldl fun name hname => ?_
  rw [UnnestPlan.mem_fields_ofRow, and_iff_right hname]

lemma Row.unnested_concat (separator : String) (row : Row) (column : String × Value) :
    Row.unnested separator (row ++ [column]) =
      placeColumn separator (row.unnested separator) column := by
  rw [unnested_eq_foldl, unnested_eq_foldl, List.foldl_append, List.foldl_cons, List.foldl_nil]

end Plans

/-! ## One column -/

section Placing

variable {separator field : String} {value : Value} {out : Row} {column : String × Value}

lemma places_placeColumn (h : ¬ out.BlockedAt (columnPath separator column.1)) :
    Places column.2 out (columnPath separator column.1) (placeColumn separator out column) := by
  cases hout : insertPath out column.2 (columnPath separator column.1) with
  | none => exact absurd ((insertPath_eq_none_iff (columnPath_ne_nil _ _)).mp hout) h
  | some placed =>
    rw [placeColumn, hout]
    exact places_of_insertPath hout

lemma placeColumn_of_blockedAt (column : String × Value)
    (h : out.BlockedAt (columnPath separator column.1)) :
    placeColumn separator out column = out.set column.1 column.2 := by
  rw [placeColumn, (insertPath_eq_none_iff (columnPath_ne_nil _ _)).mpr h, Option.getD_none]

/-- Only the paths of compound columns can be blocked. -/
lemma isSome_of_blockedAt (h : out.BlockedAt (columnPath separator field)) :
    (compoundRoot? separator field).isSome := by
  cases hroot : compoundRoot? separator field with
  | none =>
    rw [columnPath_of_none hroot] at h
    exact absurd h not_blockedAt_singleton
  | some root => rfl

variable (hseparator : separator ≠ "")
include hseparator

lemma lookup?_placeColumn_of_blockedAt (h : out.BlockedAt (columnPath separator column.1)) :
    (placeColumn separator out column).lookup? (columnPath separator field) =
      out.lookup? (columnPath separator field) := by
  rw [placeColumn_of_blockedAt column h]
  obtain ⟨first, rest, hpath⟩ := List.exists_cons_of_ne_nil (columnPath_ne_nil separator field)
  have hne := ne_of_columnPath_eq_cons hseparator (isSome_of_blockedAt h) hpath
  rw [hpath, Row.lookup?_set, if_neg hne.symm]

/-- A column that does not lead to the path of another one leaves the value there as it is. -/
lemma lookup?_placeColumn_iff (hleaf : value.isLeaf = true)
    (h : ¬ columnPath separator column.1 <+: columnPath separator field) :
    (placeColumn separator out column).lookup? (columnPath separator field) = some value ↔
      out.lookup? (columnPath separator field) = some value := by
  by_cases hblocked : out.BlockedAt (columnPath separator column.1)
  · rw [lookup?_placeColumn_of_blockedAt hseparator hblocked]
  · obtain ⟨rest, hbelow, -⟩ | ⟨habove, fields, hobject⟩ | ⟨-, hsame⟩ :=
      (places_placeColumn hblocked).lookup?_cases (columnPath separator field)
    · exact absurd (hbelow ▸ List.prefix_append _ rest) h
    · -- a leaf above the column would have blocked it
      rw [hobject]
      refine iff_of_false (fun heq => ?_) fun hvalue => hblocked ⟨_, value, habove, hvalue, hleaf⟩
      cases heq
      cases hleaf
    · rw [hsame]

/-- What a column that leads to a path leaves there. -/
lemma lookup?_placeColumn_append_iff {rest : List String}
    (h : columnPath separator column.1 ++ rest = columnPath separator field) :
    (placeColumn separator out column).lookup? (columnPath separator field) = some value ↔
      ¬ out.BlockedAt (columnPath separator column.1) ∧ column.2.lookup? rest = some value := by
  by_cases hblocked : out.BlockedAt (columnPath separator column.1)
  · have hfield : out.BlockedAt (columnPath separator field) := h ▸ hblocked.append rest
    rw [lookup?_placeColumn_of_blockedAt hseparator hblocked, Row.lookup?_of_blockedAt hfield]
    exact iff_of_false nofun fun hboth => hboth.1 hblocked
  · rw [← h, (places_placeColumn hblocked).lookup?_append, and_iff_right hblocked]

/-- Under a compound name, only the column of that name puts anything. -/
lemma get?_placeColumn (hfield : (compoundRoot? separator field).isSome) (h : column.1 ≠ field) :
    (placeColumn separator out column).get? field = out.get? field := by
  by_cases hblocked : out.BlockedAt (columnPath separator column.1)
  · rw [placeColumn_of_blockedAt column hblocked, Table.get?_set, if_neg h]
  · obtain ⟨first, rest, hpath⟩ :=
      List.exists_cons_of_ne_nil (columnPath_ne_nil separator column.1)
    have hne := ne_of_columnPath_eq_cons hseparator hfield hpath
    rw [← Row.lookup?_singleton, ← Row.lookup?_singleton]
    refine (places_placeColumn hblocked).lookup?_of_areApart ?_
    rw [hpath]
    exact ⟨fun hbegins => hne (List.cons_prefix_cons.mp hbegins).1,
      fun hbegins => hne (List.cons_prefix_cons.mp hbegins).1.symm⟩

end Placing

/-! ## All columns -/

/-- The last column of a row that leads to a path is not blocked and has the value there. -/
def Row.LastHolds (separator : String) (row : Row) (path : List String) (value : Value) : Prop :=
  ∃ front name own back rest, row = front ++ (name, own) :: back ∧
    columnPath separator name ++ rest = path ∧
    (∀ later ∈ Table.keys back, ¬ columnPath separator later <+: path) ∧
    ¬ (Row.unnested separator front).BlockedAt (columnPath separator name) ∧
    own.lookup? rest = some value

/-- The value of a field is kept: at the path of its column, or under its name where the columns
before have blocked the path. -/
def Row.Keeps (separator : String) (before : Row) (field : String) (value : Value) (after : Row) :
    Prop :=
  let out := Row.unnested separator (before ++ (field, value) :: after)
  out.lookup? (columnPath separator field) = some value ∨
    (before.unnested separator).BlockedAt (columnPath separator field) ∧
      out.get? field = some value

section Rows

variable {separator field : String} {value : Value} {row before after : Row}
  {column : String × Value} {path : List String}

lemma lastHolds_concat_iff (h : ¬ columnPath separator column.1 <+: path) :
    Row.LastHolds separator (row ++ [column]) path value ↔ row.LastHolds separator path value := by
  constructor
  · rintro ⟨front, name, own, back, rest, hrow, rfl, hback, hrest⟩
    obtain rfl | ⟨others, last, rfl⟩ := List.eq_nil_or_concat' back
    · obtain ⟨-, hcolumn⟩ := List.append_inj' hrow rfl
      obtain rfl := List.singleton_inj.mp hcolumn
      exact absurd (List.prefix_append _ rest) h
    · rw [← List.cons_append, ← List.append_assoc] at hrow
      obtain ⟨rfl, -⟩ := List.append_inj' hrow rfl
      refine ⟨front, name, own, others, rest, rfl, rfl, fun later hlater => ?_, hrest⟩
      refine hback later ?_
      rw [Table.keys, List.map_append]
      exact List.mem_append_left _ hlater
  · rintro ⟨front, name, own, back, rest, rfl, rfl, hback, hrest⟩
    refine ⟨front, name, own, back ++ [column], rest, by simp, rfl, fun later hlater => ?_, hrest⟩
    rw [Table.keys, List.map_append, List.mem_append] at hlater
    rcases hlater with hlater | hlater
    · exact hback later hlater
    · rw [List.map_singleton, List.mem_singleton] at hlater
      exact hlater ▸ h

lemma lastHolds_concat_append_iff {rest : List String}
    (h : columnPath separator column.1 ++ rest = path) :
    Row.LastHolds separator (row ++ [column]) path value ↔
      ¬ (row.unnested separator).BlockedAt (columnPath separator column.1) ∧
        column.2.lookup? rest = some value := by
  constructor
  · rintro ⟨front, name, own, back, more, hrow, hpath, hback, hrest⟩
    obtain rfl | ⟨others, last, rfl⟩ := List.eq_nil_or_concat' back
    · obtain ⟨rfl, hcolumn⟩ := List.append_inj' hrow rfl
      obtain rfl := List.singleton_inj.mp hcolumn
      obtain rfl := List.append_cancel_left (h.trans hpath.symm)
      exact hrest
    · rw [← List.cons_append, ← List.append_assoc] at hrow
      obtain ⟨-, hcolumn⟩ := List.append_inj' hrow rfl
      obtain rfl := List.singleton_inj.mp hcolumn
      refine absurd (h ▸ List.prefix_append _ rest) (hback column.1 ?_)
      rw [Table.keys, List.map_append]
      exact List.mem_append_right _ List.mem_cons_self
  · intro hrest
    exact ⟨row, column.1, column.2, [], rest, rfl, h,
      fun later hlater => absurd hlater List.not_mem_nil, hrest⟩

/-- **The last column counts.** -/
theorem lookup?_unnested_iff (hseparator : separator ≠ "") (hleaf : value.isLeaf = true) :
    (row.unnested separator).lookup? (columnPath separator field) = some value ↔
      row.LastHolds separator (columnPath separator field) value := by
  induction row using List.reverseRecOn with
  | nil =>
    refine iff_of_false (fun h => ?_) ?_
    · obtain ⟨first, rest, hpath⟩ := List.exists_cons_of_ne_nil (columnPath_ne_nil separator field)
      rw [hpath] at h
      cases h
    · rintro ⟨front, name, own, back, rest, hrow, -⟩
      simp at hrow
  | append_singleton row column ih =>
    rw [Row.unnested_concat]
    by_cases h : columnPath separator column.1 <+: columnPath separator field
    · obtain ⟨rest, hrest⟩ := h
      rw [lookup?_placeColumn_append_iff hseparator hrest, lastHolds_concat_append_iff hrest]
    · rw [lookup?_placeColumn_iff hseparator hleaf h, ih, lastHolds_concat_iff h]

lemma get?_foldl_placeColumn (hseparator : separator ≠ "")
    (hfield : (compoundRoot? separator field).isSome) {out : Row}
    (h : field ∉ Table.keys after) :
    (after.foldl (placeColumn separator) out).get? field = out.get? field := by
  induction after generalizing out with
  | nil => rfl
  | cons column rest ih =>
    have hkeys : field ∉ column.1 :: Table.keys rest := h
    rw [List.mem_cons, not_or] at hkeys
    rw [List.foldl_cons, ih hkeys.2, get?_placeColumn hseparator hfield (Ne.symm hkeys.1)]

/-- A column that is blocked when it is placed keeps its value under its own name. -/
lemma get?_unnested_of_blockedAt (hseparator : separator ≠ "") (h : field ∉ Table.keys after)
    (hblocked : (before.unnested separator).BlockedAt (columnPath separator field)) :
    (Row.unnested separator (before ++ (field, value) :: after)).get? field = some value := by
  rw [Row.unnested_eq_foldl, List.foldl_append, List.foldl_cons,
    ← Row.unnested_eq_foldl separator before,
    get?_foldl_placeColumn hseparator (isSome_of_blockedAt hblocked) h,
    placeColumn_of_blockedAt (field, value) hblocked, Table.get?_set, if_pos rfl]

/-- Where no later column is a nested row, a value that has been put in place is the last one unless
a later column leads to it. -/
lemma lastHolds_iff_of_plain (hseparator : separator ≠ "")
    (hnames : Row.NamesDistinct (before ++ (field, value) :: after))
    (hplain : ∀ later ∈ after, later.2.isObject = false)
    (hfree : ¬ (before.unnested separator).BlockedAt (columnPath separator field)) :
    Row.LastHolds separator (before ++ (field, value) :: after) (columnPath separator field)
        value ↔
      ∀ later ∈ Table.keys after, ¬ columnPath separator later <+: columnPath separator field := by
  constructor
  · rintro ⟨front, name, own, back, rest, hrow, hpath, hback, -, hvalue⟩
    obtain ⟨middle, hbefore, hrest⟩ | ⟨middle, hfront, hafter⟩ := List.append_eq_append_iff.mp hrow
    · -- the last column is this one or one behind it
      cases middle with
      | nil =>
        obtain ⟨-, rfl⟩ := List.cons_eq_cons.mp hrest
        exact hback
      | cons other others =>
        obtain ⟨-, rfl⟩ := List.cons_eq_cons.mp hrest
        have hown : own.isObject = false := hplain (name, own) (by simp)
        have hnil : rest = [] := by
          by_contra hne
          obtain ⟨second, more, rfl⟩ := List.exists_cons_of_ne_nil hne
          rw [Value.lookup?_cons_of_plain hown] at hvalue
          cases hvalue
        rw [hnil, List.append_nil, columnPath_inj hseparator] at hpath
        subst hpath
        rw [Row.NamesDistinct, Table.keys, List.map_append, List.nodup_append] at hnames
        have hnot : name ∉ (others ++ (name, own) :: back).map Prod.fst :=
          (List.nodup_cons.mp hnames.2.1).1
        exact absurd (by simp) hnot
    · cases middle with
      | nil =>
        obtain ⟨-, rfl⟩ := List.cons_eq_cons.mp hafter
        exact hback
      | cons other others =>
        obtain ⟨-, rfl⟩ := List.cons_eq_cons.mp hafter
        exact absurd List.prefix_rfl (hback field (by simp [Table.keys]))
  · intro h
    refine ⟨before, field, value, after, [], rfl, List.append_nil _, h, hfree, ?_⟩
    exact Value.lookup?_nil value

end Rows

/-- **Which values unnesting keeps.**  A value that is neither null nor a nested row is kept exactly
where the path of its column is blocked, so that it stays under its name, or where the last column
that leads to this path is not blocked and has the value there.  Where no later column is a nested
row, the second case is that no later column leads to the path at all. -/
theorem Row.keeps_iff {separator field : String} {value : Value} {before after : Row}
    (hseparator : separator ≠ "")
    (hnames : Row.NamesDistinct (before ++ (field, value) :: after))
    (hleaf : value.isLeaf = true) :
    (Keeps separator before field value after ↔
      (before.unnested separator).BlockedAt (columnPath separator field) ∨
        LastHolds separator (before ++ (field, value) :: after) (columnPath separator field)
          value) ∧
    ((∀ later ∈ after, later.2.isObject = false) →
      (Keeps separator before field value after ↔
        (before.unnested separator).BlockedAt (columnPath separator field) ∨
          ∀ later ∈ Table.keys after,
            ¬ columnPath separator later <+: columnPath separator field)) := by
  have hfield : field ∉ Table.keys after := by
    rw [Row.NamesDistinct, Table.keys, List.map_append, List.nodup_append] at hnames
    exact (List.nodup_cons.mp hnames.2.1).1
  have hkeeps : Keeps separator before field value after ↔
      (before.unnested separator).BlockedAt (columnPath separator field) ∨
        LastHolds separator (before ++ (field, value) :: after) (columnPath separator field)
          value := by
    rw [Keeps, lookup?_unnested_iff hseparator hleaf, or_comm]
    refine or_congr_left (and_iff_left_of_imp fun hblocked => ?_)
    exact get?_unnested_of_blockedAt hseparator hfield hblocked
  refine ⟨hkeeps, fun hplain => ?_⟩
  rw [hkeeps]
  by_cases hfree : (before.unnested separator).BlockedAt (columnPath separator field)
  · exact iff_of_true (.inl hfree) (.inl hfree)
  · rw [or_iff_right hfree, or_iff_right hfree]
    exact lastHolds_iff_of_plain hseparator hnames hplain hfree

/-- A column that finds its path blocked, before another one that is blocked by it. -/
theorem Row.keeps_blocked :
    Row.NamesDistinct [("a", .integer 1), ("a.b", .integer 2), ("a.b.c", .integer 3)] ∧
    (Value.integer 2).isLeaf = true ∧
    (Row.unnested "." [("a", .integer 1)]).BlockedAt ["a", "b"] ∧
    Keeps "." [("a", .integer 1)] "a.b" (.integer 2) [("a.b.c", .integer 3)] := by
  have hnames : Row.NamesDistinct [("a", .integer 1), ("a.b", .integer 2), ("a.b.c", .integer 3)] :=
    by decide
  have hpath : columnPath "." "a.b" = ["a", "b"] := by cbv
  have hrow : Row.unnested "." [("a", .integer 1)] = [("a", .integer 1)] := by cbv
  have hblocked : (Row.unnested "." [("a", .integer 1)]).BlockedAt ["a", "b"] := by
    rw [hrow]
    exact ⟨["a"], .integer 1, isAbove_iff.mpr ⟨"b", [], rfl⟩, rfl, rfl⟩
  exact ⟨hnames, rfl, hblocked,
    (Row.keeps_iff (by decide) hnames rfl).1.mpr (.inl (hpath.symm ▸ hblocked))⟩

/-- A later column takes the place of the nested row that an earlier one has been put in. -/
theorem Row.not_keeps_replaced :
    Row.unnested "." [("a.b", .integer 1), ("a", .integer 2)] = [("a", .integer 2)] ∧
    ¬ Keeps "." [] "a.b" (.integer 1) [("a", .integer 2)] := by
  have hpath : columnPath "." "a.b" = ["a", "b"] := by cbv
  have hrow : Row.unnested "." [("a.b", .integer 1), ("a", .integer 2)] = [("a", .integer 2)] := by
    cbv
  refine ⟨hrow, ?_⟩
  rw [Keeps, List.nil_append, hrow, hpath]
  rintro (hkept | ⟨-, hkept⟩) <;> cases hkept

end QueryTerms
