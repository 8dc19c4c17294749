import QueryTerms.Proofs.Row.Paths

/-!
# Collapsing absent branches

A nested row of nothing but null stands for something absent, and it is turned into null.  This is
done from the inside out, since a row may hold nothing but null only once the rows in it have been
turned into null.

**Collapsing.**  A value in a collapsed row is where it was, unless a nested row around it has
turned into null (`lookup?_collapseNulls_iff`), which happens where every leaf below is null
(`isNull_collapseNulls_iff`).

**Normal form.**  `Value.IsCollapsed` says that nothing is left to be collapsed.  Collapsing gets
there, and the values that it leaves as they are are those that are there already
(`collapseNulls_eq_self_iff`).

**Null branches.**  `Value.isNullBranch` asks for null at every leaf and takes an empty nested row
for absent, which collapsing does not.  Otherwise the two agree: `collapseNulls_eq_null_iff`.
-/

namespace QueryTerms

/-! ## Collapsing -/

section Collapsing

variable {value found : Value} {fields : Row} {path : List String}

lemma collapseFields_eq_map (fields : List (String × Value)) :
    collapseFields fields = fields.map fun entry => (entry.1, collapseNulls entry.2) := by
  induction fields with
  | nil => rfl
  | cons entry rest ih => rw [collapseFields, ih, List.map_cons]

lemma get?_collapseFields (name : String) (fields : Row) :
    Table.get? name (collapseFields fields) = (fields.get? name).map collapseNulls := by
  induction fields with
  | nil => rfl
  | cons entry rest ih =>
    rw [collapseFields, Table.get?_cons, Table.get?_cons]
    split
    · rfl
    · exact ih

lemma collapseNulls_of_plain (h : value.isObject = false) : collapseNulls value = value := by
  cases value with
  | object fields => cases h
  | _ => rw [collapseNulls]; exact nofun

lemma Value.isNull_iff {value : Value} : value.isNull = true ↔ value = .null := by
  cases value <;> simp [isNull]

lemma isNull_collapseNulls_object :
    (collapseNulls (.object fields)).isNull = true ↔
      fields ≠ [] ∧ ∀ entry ∈ fields, (collapseNulls entry.2).isNull = true := by
  have hcollapsed : (collapseNulls (.object fields)).isNull =
      (!(collapseFields fields).isEmpty &&
        (collapseFields fields).all fun entry => entry.2.isNull) := by
    rw [collapseNulls]
    split
    · next h => exact h.symm
    · next h => exact (Bool.not_eq_true _ ▸ h).symm
  rw [hcollapsed, collapseFields_eq_map]
  simp

lemma collapseNulls_object_of_not_isNull
    (h : (collapseNulls (.object fields)).isNull = false) :
    collapseNulls (.object fields) = .object (collapseFields fields) := by
  rw [collapseNulls] at h ⊢
  split
  · next hnull =>
    rw [if_pos hnull] at h
    cases h
  · rfl

lemma isLeaf_collapseNulls_object : (collapseNulls (.object fields)).isLeaf = false := by
  cases hnull : (collapseNulls (.object fields)).isNull with
  | true => rw [Value.isNull_iff.mp hnull]; rfl
  | false => rw [collapseNulls_object_of_not_isNull hnull]; rfl

/-- **A value stays unless a nested row around it becomes null.** -/
theorem lookup?_collapseNulls_iff :
    (collapseNulls value).lookup? path = some found ↔
      (∀ outer inner, IsAbove outer path → value.lookup? outer = some inner →
        (collapseNulls inner).isNull = false) ∧
      ∃ inner, value.lookup? path = some inner ∧ collapseNulls inner = found := by
  induction path generalizing value with
  | nil =>
    rw [Value.lookup?_nil, Value.lookup?_nil]
    refine ⟨fun h => ⟨fun _ _ habove => absurd habove not_isAbove_nil, value, rfl, ?_⟩, ?_⟩
    · exact Option.some.inj h
    · rintro ⟨-, inner, hinner, rfl⟩
      rw [Option.some.inj hinner]
  | cons name rest ih =>
    have hself : IsAbove [] (name :: rest) := isAbove_iff.mpr ⟨name, rest, rfl⟩
    cases hobject : value.isObject with
    | false =>
      rw [collapseNulls_of_plain hobject, Value.lookup?_cons_of_plain hobject]
      simp
    | true =>
      obtain ⟨fields, rfl⟩ := Value.isObject_iff.mp hobject
      cases hnull : (collapseNulls (.object fields)).isNull with
      | true =>
        refine iff_of_false (fun h => ?_) fun h => ?_
        · rw [Value.isNull_iff.mp hnull] at h
          cases h
        · rw [h.1 [] _ hself (Value.lookup?_nil _)] at hnull
          cases hnull
      | false =>
        rw [collapseNulls_object_of_not_isNull hnull, Value.lookup?_object_cons,
          Value.lookup?_object_cons, get?_collapseFields]
        cases hget : Table.get? name fields with
        | none => exact iff_of_false nofun fun ⟨_, _, h, _⟩ => nomatch h
        | some inner =>
          rw [Option.map_some, Option.bind_some, Option.bind_some, ih]
          refine and_congr_left fun _ => ⟨fun h outer other habove hother => ?_, ?_⟩
          · cases outer with
            | nil =>
              rw [Value.lookup?_nil] at hother
              rw [← Option.some.inj hother]
              exact hnull
            | cons first others =>
              obtain rfl := (List.cons_prefix_cons.mp habove.1).1
              rw [Value.lookup?_object_cons, hget] at hother
              exact h others other (isAbove_cons_iff.mp habove) hother
          · intro h outer other habove hother
            refine h (name :: outer) other (isAbove_cons_iff.mpr habove) ?_
            rw [Value.lookup?_object_cons, hget]
            exact hother

/-- **What becomes null**: null itself, and a nested row with nothing but null at its leaves. -/
theorem isNull_collapseNulls_iff (h : value.deeplyDistinct = true) :
    (collapseNulls value).isNull = true ↔
      ∀ path inner, value.lookup? path = some inner →
        inner.isNull = true ∨ ∃ fields, inner = .object fields ∧ fields ≠ [] := by
  induction value using Value.induction_on_fields with
  | plain value hplain =>
    rw [collapseNulls_of_plain hplain]
    constructor
    · intro hnull path inner hinner
      cases path with
      | nil =>
        rw [Value.lookup?_nil] at hinner
        exact .inl (Option.some.inj hinner ▸ hnull)
      | cons name rest =>
        rw [Value.lookup?_cons_of_plain hplain] at hinner
        cases hinner
    · intro hall
      refine (hall [] value (Value.lookup?_nil value)).resolve_right ?_
      rintro ⟨fields, rfl, -⟩
      cases hplain
  | object fields ih =>
    have hnames := (Row.deeplyDistinct_iff.mp h).1
    rw [isNull_collapseNulls_object]
    constructor
    · rintro ⟨hne, hall⟩ path inner hinner
      cases path with
      | nil =>
        rw [Value.lookup?_nil] at hinner
        exact .inr ⟨fields, (Option.some.inj hinner).symm, hne⟩
      | cons name rest =>
        obtain ⟨own, hget, hrest⟩ := Option.bind_eq_some_iff.mp hinner
        have hentry := (Table.get?_eq_some_iff_mem hnames).mp hget
        have hown := (ih _ hentry (Value.deeplyDistinct_of_get? h hget)).mp (hall _ hentry)
        exact hown rest inner hrest
    · intro hall
      refine ⟨?_, fun entry hentry => ?_⟩
      · obtain hnull | ⟨own, heq, hne⟩ := hall [] _ (Value.lookup?_nil _)
        · cases hnull
        · cases heq
          exact hne
      · obtain ⟨name, own⟩ := entry
        have hget := (Table.get?_eq_some_iff_mem hnames).mpr hentry
        refine (ih _ hentry (Value.deeplyDistinct_of_get? h hget)).mpr fun path inner hinner => ?_
        refine hall (name :: path) inner ?_
        rw [Value.lookup?_object_cons, hget]
        exact hinner

lemma deeplyDistinct_collapseNulls (h : value.deeplyDistinct = true) :
    (collapseNulls value).deeplyDistinct = true := by
  induction value using Value.induction_on_fields with
  | plain value hplain => rwa [collapseNulls_of_plain hplain]
  | object fields ih =>
    cases hnull : (collapseNulls (.object fields)).isNull with
    | true =>
      rw [Value.isNull_iff.mp hnull]
      rfl
    | false =>
      obtain ⟨hnames, hvalues⟩ := Row.deeplyDistinct_iff.mp h
      rw [collapseNulls_object_of_not_isNull hnull, collapseFields_eq_map]
      refine Row.deeplyDistinct_iff.mpr ⟨?_, fun other hother => ?_⟩
      · rw [Row.NamesDistinct, Table.keys, List.map_map]
        exact hnames
      · rw [Table.values, List.map_map] at hother
        obtain ⟨entry, hentry, rfl⟩ := List.mem_map.mp hother
        exact ih entry hentry (hvalues _ (List.mem_map_of_mem hentry))

end Collapsing

/-! ## Leaves -/

section Leaves

variable {value leaf : Value} {fields : Row} {path : List String}

/-- A value with a leaf below it does not become null. -/
lemma isNull_collapseNulls_of_leaf (hleaf : leaf.isLeaf = true)
    (h : value.lookup? path = some leaf) : (collapseNulls value).isNull = false := by
  induction path generalizing value with
  | nil =>
    rw [Value.lookup?_nil, Option.some.injEq] at h
    rw [h, collapseNulls_of_plain (Value.isObject_of_isLeaf hleaf)]
    rw [Value.isLeaf, Bool.and_eq_true, Bool.not_eq_true'] at hleaf
    exact hleaf.1
  | cons name rest ih =>
    obtain ⟨fields, inner, rfl, hget, hrest⟩ := Value.exists_object_of_lookup?_cons h
    rw [← Bool.not_eq_true, isNull_collapseNulls_object]
    rintro ⟨-, hall⟩
    have hnull := hall _ (Table.mem_of_get?_eq_some hget)
    rw [ih hrest] at hnull
    cases hnull

/-- **Leaves stay where they are**, and there are no others. -/
theorem lookup?_collapseNulls_leaf_iff (hleaf : leaf.isLeaf = true) :
    (collapseNulls value).lookup? path = some leaf ↔ value.lookup? path = some leaf := by
  rw [lookup?_collapseNulls_iff]
  constructor
  · rintro ⟨-, inner, hinner, rfl⟩
    cases hobject : inner.isObject with
    | false => rwa [collapseNulls_of_plain hobject]
    | true =>
      obtain ⟨fields, rfl⟩ := Value.isObject_iff.mp hobject
      rw [isLeaf_collapseNulls_object] at hleaf
      cases hleaf
  · intro h
    refine ⟨fun outer inner habove hinner => ?_, leaf, h, ?_⟩
    · obtain ⟨name, rest, rfl⟩ := isAbove_iff.mp habove
      rw [Value.lookup?_append, hinner, Option.bind_some] at h
      exact isNull_collapseNulls_of_leaf hleaf h
    · exact collapseNulls_of_plain (Value.isObject_of_isLeaf hleaf)

end Leaves

/-! ## Normal form -/

/-- No nested row in the value has fields and nothing but null in them. -/
def Value.IsCollapsed (value : Value) : Prop :=
  ∀ path fields, value.lookup? path = some (.object fields) → fields ≠ [] →
    ∃ entry ∈ fields, entry.2.isNull = false

section NormalForm

variable {value inner : Value} {fields : Row} {name : String}

/-- What is in a field of a collapsed row is collapsed. -/
lemma Value.IsCollapsed.of_get? (h : (Value.object fields).IsCollapsed)
    (hget : fields.get? name = some inner) : inner.IsCollapsed := by
  intro path own hown
  refine h (name :: path) own ?_
  rw [lookup?_object_cons, hget]
  exact hown

/-- **Collapsing reaches the normal form.** -/
theorem isCollapsed_collapseNulls (value : Value) : (collapseNulls value).IsCollapsed := by
  intro path fields hfields hne
  obtain ⟨-, inner, -, hinner⟩ := lookup?_collapseNulls_iff.mp hfields
  have hobject : inner.isObject = true := by
    by_contra hplain
    rw [Bool.not_eq_true] at hplain
    rw [collapseNulls_of_plain hplain] at hinner
    rw [hinner] at hplain
    cases hplain
  obtain ⟨own, rfl⟩ := Value.isObject_iff.mp hobject
  have hkept : (collapseNulls (.object own)).isNull = false := by
    rw [hinner]
    rfl
  rw [collapseNulls_object_of_not_isNull hkept, Value.object.injEq] at hinner
  subst hinner
  rw [← Bool.not_eq_true, isNull_collapseNulls_object] at hkept
  -- the row has fields, and has been kept: not all that was in them has become null
  rw [collapseFields_eq_map] at hne ⊢
  have hown : own ≠ [] := fun hnil => hne (by rw [hnil, List.map_nil])
  by_contra hall
  refine hkept ⟨hown, fun entry hentry => ?_⟩
  by_contra hvalue
  rw [Bool.not_eq_true] at hvalue
  exact hall ⟨_, List.mem_map_of_mem hentry, hvalue⟩

/-- **What collapsing leaves as it is**: the values in normal form. -/
theorem collapseNulls_eq_self_iff (h : value.deeplyDistinct = true) :
    collapseNulls value = value ↔ value.IsCollapsed := by
  refine ⟨fun heq => heq ▸ isCollapsed_collapseNulls value, fun hcollapsed => ?_⟩
  induction value using Value.induction_on_fields with
  | plain value hplain => exact collapseNulls_of_plain hplain
  | object fields ih =>
    have hnames := (Row.deeplyDistinct_iff.mp h).1
    have hentries : ∀ entry ∈ fields, collapseNulls entry.2 = entry.2 := by
      intro entry hentry
      have hget := (Table.get?_eq_some_iff_mem hnames).mpr hentry
      exact ih entry hentry (Value.deeplyDistinct_of_get? h hget) (hcollapsed.of_get? hget)
    have hkept : (collapseNulls (.object fields)).isNull = false := by
      rw [← Bool.not_eq_true, isNull_collapseNulls_object]
      rintro ⟨hne, hall⟩
      obtain ⟨entry, hentry, hvalue⟩ := hcollapsed [] fields (Value.lookup?_nil _) hne
      rw [← hentries entry hentry, hall entry hentry] at hvalue
      cases hvalue
    rw [collapseNulls_object_of_not_isNull hkept, collapseFields_eq_map, Value.object.injEq]
    conv_rhs => rw [← List.map_id fields]
    refine List.map_congr_left fun entry hentry => ?_
    rw [hentries entry hentry, id_eq]

end NormalForm

/-! ## Null branches -/

section NullBranches

variable {value : Value}

lemma Value.allNullBranches_iff {fields : List (String × Value)} :
    allNullBranches fields = true ↔ ∀ entry ∈ fields, entry.2.isNullBranch = true := by
  induction fields with
  | nil => simp [allNullBranches]
  | cons entry rest ih => rw [allNullBranches, Bool.and_eq_true, ih, List.forall_mem_cons]

/-- A null branch is a value without leaves. -/
lemma Value.isNullBranch_iff (h : value.deeplyDistinct = true) :
    value.isNullBranch = true ↔
      ∀ path inner, value.lookup? path = some inner → inner.isLeaf = false := by
  induction value using Value.induction_on_fields with
  | plain value hplain =>
    have hself : value.isNullBranch = true ↔ value.isLeaf = false := by
      cases value with
      | object fields => cases hplain
      | _ => simp [isNullBranch, isLeaf, isNull, isObject]
    rw [hself]
    constructor
    · intro hleaf path inner hinner
      cases path with
      | nil =>
        rw [lookup?_nil, Option.some.injEq] at hinner
        exact hinner ▸ hleaf
      | cons name rest =>
        rw [lookup?_cons_of_plain hplain] at hinner
        cases hinner
    · intro hall
      exact hall [] value (lookup?_nil value)
  | object fields ih =>
    rw [isNullBranch, allNullBranches_iff]
    constructor
    · intro hall path inner hinner
      cases path with
      | nil =>
        rw [lookup?_nil, Option.some.injEq] at hinner
        rw [← hinner]
        rfl
      | cons name rest =>
        rw [lookup?_object_cons] at hinner
        obtain ⟨own, hget, hrest⟩ := Option.bind_eq_some_iff.mp hinner
        have hentry := Table.mem_of_get?_eq_some hget
        exact (ih _ hentry (deeplyDistinct_of_get? h hget)).mp (hall _ hentry) rest inner hrest
    · intro hall entry hentry
      have hget := (Table.get?_eq_some_iff_mem (Row.deeplyDistinct_iff.mp h).1).mpr hentry
      refine (ih entry hentry (deeplyDistinct_of_get? h hget)).mpr fun path inner hinner => ?_
      refine hall (entry.1 :: path) inner ?_
      rw [lookup?_object_cons, hget]
      exact hinner

/-- **What becomes null**: the null branches without an empty nested row in them. -/
theorem collapseNulls_eq_null_iff (h : value.deeplyDistinct = true) :
    collapseNulls value = .null ↔
      value.isNullBranch = true ∧ ∀ path, value.lookup? path ≠ some (.object []) := by
  have hinner : ∀ inner : Value, (inner.isNull = true ∨ ∃ fields, inner = .object fields ∧
      fields ≠ []) ↔ inner.isLeaf = false ∧ inner ≠ .object [] := by
    intro inner
    cases inner <;> simp [Value.isLeaf, Value.isNull, Value.isObject]
  rw [← Value.isNull_iff, isNull_collapseNulls_iff h, Value.isNullBranch_iff h]
  constructor
  · intro hall
    refine ⟨fun path inner hpath => ((hinner inner).mp (hall path inner hpath)).1, ?_⟩
    intro path hpath
    exact ((hinner _).mp (hall path _ hpath)).2 rfl
  · rintro ⟨hleaves, hnone⟩ path inner hpath
    refine (hinner inner).mpr ⟨hleaves path inner hpath, ?_⟩
    rintro rfl
    exact hnone path hpath

end NullBranches

/-- **Collapsing null branches.**  In a collapsed value no nested row has fields and nothing but
null in them, and collapsing it again changes nothing.  The values that are neither null nor nested
rows are those from before, at the same paths.  A value without empty nested rows becomes null if
and only if it is a null branch. -/
theorem collapseNulls_normal_form {value : Value} (h : value.deeplyDistinct = true) :
    (collapseNulls value).IsCollapsed ∧
    collapseNulls (collapseNulls value) = collapseNulls value ∧
    (∀ path leaf, leaf.isLeaf = true →
      ((collapseNulls value).lookup? path = some leaf ↔ value.lookup? path = some leaf)) ∧
    ((∀ path, value.lookup? path ≠ some (.object [])) →
      (collapseNulls value = .null ↔ value.isNullBranch = true)) := by
  refine ⟨isCollapsed_collapseNulls value, ?_, fun path leaf => lookup?_collapseNulls_leaf_iff, ?_⟩
  · exact (collapseNulls_eq_self_iff (deeplyDistinct_collapseNulls h)).mpr
      (isCollapsed_collapseNulls value)
  · intro hnone
    rw [collapseNulls_eq_null_iff h, and_iff_left hnone]

/-- An order that nobody has placed, tagged with a row that collapsing does not go into. -/
theorem collapseNulls_normal_form_orders :
    let absent : Value := .object [("name", .null), ("at", .object [("zip", .null)])]
    let order : Value := .object [("id", .integer 1), ("by", absent), ("tags", .array [absent])]
    order.deeplyDistinct = true ∧
    collapseNulls order = .object [("id", .integer 1), ("by", .null), ("tags", .array [absent])] ∧
    (collapseNulls order).IsCollapsed ∧
    collapseNulls (collapseNulls order) = collapseNulls order ∧
    (collapseNulls order).lookup? ["id"] = some (.integer 1) ∧
    (∀ path, absent.lookup? path ≠ some (.object [])) ∧ collapseNulls absent = .null := by
  intro absent order
  have horder : order.deeplyDistinct = true := by decide
  have habsent : absent.deeplyDistinct = true := by decide
  have hnone : ∀ path, absent.lookup? path ≠ some (.object []) := by
    intro path hpath
    have hlisted : path ∈ [[], ["name"], ["at"], ["at", "zip"]] :=
      (mem_paths_iff habsent).mpr (Option.isSome_of_eq_some hpath)
    simp only [List.mem_cons, List.not_mem_nil, or_false] at hlisted
    rcases hlisted with rfl | rfl | rfl | rfl <;> simp [absent, Value.lookup?, Table.get?] at hpath
  obtain ⟨hcollapsed, hagain, hleaves, -⟩ := collapseNulls_normal_form horder
  exact ⟨horder, rfl, hcollapsed, hagain, (hleaves ["id"] (.integer 1) rfl).mpr rfl, hnone,
    ((collapseNulls_normal_form habsent).2.2.2 hnone).mpr rfl⟩

end QueryTerms
