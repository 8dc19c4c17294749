import QueryTerms.Proofs.Row.Conflicts

/-!
# Placing values at paths

A value is placed at a path through nested rows, which are made as needed.  Null on the way gives
way to a nested row; another value that is no nested row blocks the path.

**Blocked paths.**  `insertPath` fails on these only: `insertPath_eq_none_iff`.

**Look-ups.**  What placing does is told by the relation `Places` (`places_of_insertPath`).  The
value is at the path, nested rows are above it, and beside it everything is as it was
(`Places.lookup?_cases`); names stay distinct.
-/

namespace QueryTerms

/-! ## Blocked paths -/

/-- The value is neither null nor a nested row. -/
def Value.isLeaf (value : Value) : Bool := !value.isNull && !value.isObject

/-- One path leads through the end of another one, and further. -/
def IsAbove (outer path : List String) : Prop := outer <+: path ∧ outer ≠ path

/-- Neither path leads through the other one's end, and they differ. -/
def AreApart (path other : List String) : Prop := ¬ path <+: other ∧ ¬ other <+: path

instance (outer path : List String) : Decidable (IsAbove outer path) :=
  inferInstanceAs (Decidable (_ ∧ _))

/-- A value on the way that is neither null nor a nested row blocks the path. -/
def Row.BlockedAt (row : Row) (path : List String) : Prop :=
  ∃ outer value, IsAbove outer path ∧ row.lookup? outer = some value ∧ value.isLeaf = true

section Blocking

variable {row fields : Row} {value : Value} {name : String} {path outer rest : List String}

lemma isAbove_iff : IsAbove outer path ↔ ∃ name rest, path = outer ++ name :: rest := by
  constructor
  · rintro ⟨⟨rest, rfl⟩, hne⟩
    cases rest with
    | nil => exact absurd (List.append_nil outer).symm hne
    | cons name rest => exact ⟨name, rest, rfl⟩
  · rintro ⟨name, rest, rfl⟩
    refine ⟨List.prefix_append outer _, fun h => ?_⟩
    exact List.cons_ne_nil name rest (List.self_eq_append_right.mp h)

lemma isAbove_cons_iff : IsAbove (name :: outer) (name :: path) ↔ IsAbove outer path := by
  rw [IsAbove, IsAbove, List.prefix_cons_inj, Ne, List.cons_inj_right]

lemma IsAbove.trans_prefix (h : IsAbove outer path) (hrest : path <+: rest) :
    IsAbove outer rest := by
  obtain ⟨name, others, rfl⟩ := isAbove_iff.mp h
  obtain ⟨more, rfl⟩ := hrest
  exact isAbove_iff.mpr ⟨name, others ++ more, by rw [List.append_assoc, List.cons_append]⟩

/-- Different paths are apart, if neither one leads through the end of the other one. -/
lemma areApart_of_ne (hne : path ≠ outer) (hpath : ¬ IsAbove path outer)
    (houter : ¬ IsAbove outer path) : AreApart path outer :=
  ⟨fun h => hpath ⟨h, hne⟩, fun h => houter ⟨h, hne.symm⟩⟩

lemma not_isAbove_nil : ¬ IsAbove outer [] := fun h => h.2 (List.prefix_nil.mp h.1)

lemma eq_nil_of_isAbove_singleton (h : IsAbove outer [name]) : outer = [] := by
  obtain ⟨second, rest, heq⟩ := isAbove_iff.mp h
  cases outer with
  | nil => rfl
  | cons first others =>
    have hlength := congrArg List.length heq
    simp at hlength

/-- Nothing is below a value that is no nested row. -/
lemma Value.lookup?_cons_of_plain (h : value.isObject = false) :
    value.lookup? (name :: rest) = none := by
  cases value with
  | object fields => cases h
  | _ => rfl

lemma Value.isObject_of_isLeaf (h : value.isLeaf = true) : value.isObject = false := by
  cases value with
  | object fields => cases h
  | _ => rfl

lemma Row.lookup?_nil (row : Row) : row.lookup? [] = some (.object row) := Value.lookup?_nil _

/-- The row itself is no leaf. -/
lemma Row.ne_nil_of_isLeaf (hvalue : row.lookup? path = some value) (h : value.isLeaf = true) :
    path ≠ [] := by
  rintro rfl
  rw [lookup?_nil] at hvalue
  cases hvalue
  cases h

lemma Row.lookup?_cons (row : Row) (name : String) (rest : List String) :
    row.lookup? (name :: rest) = (row.get? name).bind fun inner => inner.lookup? rest := rfl

lemma Row.lookup?_singleton (row : Row) (name : String) : row.lookup? [name] = row.get? name := by
  rw [lookup?_cons]
  cases row.get? name with
  | none => rfl
  | some value => exact Value.lookup?_nil value

lemma Row.lookup?_append (row : Row) (path more : List String) :
    row.lookup? (path ++ more) = (row.lookup? path).bind fun inner => inner.lookup? more :=
  Value.lookup?_append (.object row) path more

lemma Row.lookup?_set (row : Row) (name other : String) (value : Value) (rest : List String) :
    Row.lookup? (row.set name value) (other :: rest) =
      if name = other then value.lookup? rest else row.lookup? (other :: rest) := by
  rw [lookup?_cons, Table.get?_set]
  split <;> rfl

lemma Row.lookup?_of_blockedAt (h : row.BlockedAt path) : row.lookup? path = none := by
  obtain ⟨outer, leaf, habove, hleaf, hvalue⟩ := h
  obtain ⟨name, rest, rfl⟩ := isAbove_iff.mp habove
  rw [lookup?_append, hleaf, Option.bind_some,
    Value.lookup?_cons_of_plain (Value.isObject_of_isLeaf hvalue)]

lemma Row.BlockedAt.append (h : row.BlockedAt path) (more : List String) :
    row.BlockedAt (path ++ more) := by
  obtain ⟨outer, leaf, habove, hleaf, hvalue⟩ := h
  exact ⟨outer, leaf, habove.trans_prefix (List.prefix_append path more), hleaf, hvalue⟩

/-- The nested row that a path goes on in: a new one where there is none yet. -/
def branchOf? : Option Value → Option Row
  | none => some []
  | some .null => some []
  | some (.object fields) => some fields
  | some _ => none

lemma branchOf?_eq_none_iff {slot : Option Value} :
    branchOf? slot = none ↔ ∃ value, slot = some value ∧ value.isLeaf = true := by
  cases slot with
  | none => simp [branchOf?]
  | some value => cases value <;> simp [branchOf?, Value.isLeaf, Value.isNull, Value.isObject]

lemma lookup?_of_branchOf? (h : branchOf? (row.get? name) = some fields) (hrest : rest ≠ []) :
    fields.lookup? rest = row.lookup? (name :: rest) := by
  obtain ⟨second, others, rfl⟩ := List.exists_cons_of_ne_nil hrest
  rw [Row.lookup?_cons row]
  cases hslot : row.get? name with
  | none =>
    rw [hslot] at h
    cases h
    rfl
  | some value =>
    rw [hslot] at h
    cases value <;> cases h <;> rfl

lemma insertPath_cons (row : Row) (value : Value) (name : String) (hrest : rest ≠ []) :
    insertPath row value (name :: rest) =
      (branchOf? (row.get? name)).bind fun fields =>
        (insertPath fields value rest).map fun inner => row.set name (.object inner) := by
  rw [insertPath]
  · cases row.get? name with
    | none => rfl
    | some value => cases value <;> rfl
  · exact hrest

lemma not_blockedAt_singleton : ¬ row.BlockedAt [name] := by
  rintro ⟨outer, value, habove, hvalue, hleaf⟩
  exact Row.ne_nil_of_isLeaf hvalue hleaf (eq_nil_of_isAbove_singleton habove)

lemma blockedAt_cons_iff (h : branchOf? (row.get? name) = some fields) :
    row.BlockedAt (name :: rest) ↔ fields.BlockedAt rest := by
  constructor
  · rintro ⟨outer, value, habove, hvalue, hleaf⟩
    cases outer with
    | nil => exact absurd rfl (Row.ne_nil_of_isLeaf hvalue hleaf)
    | cons first others =>
      obtain rfl : first = name := (List.cons_prefix_cons.mp habove.1).1
      have hothers : others ≠ [] := by
        rintro rfl
        rw [Row.lookup?_singleton] at hvalue
        have hnone := branchOf?_eq_none_iff.mpr ⟨value, hvalue, hleaf⟩
        rw [h] at hnone
        cases hnone
      rw [← lookup?_of_branchOf? h hothers] at hvalue
      exact ⟨others, value, isAbove_cons_iff.mp habove, hvalue, hleaf⟩
  · rintro ⟨outer, value, habove, hvalue, hleaf⟩
    rw [lookup?_of_branchOf? h (Row.ne_nil_of_isLeaf hvalue hleaf)] at hvalue
    exact ⟨name :: outer, value, isAbove_cons_iff.mpr habove, hvalue, hleaf⟩

/-- **Placing fails on blocked paths only.** -/
theorem insertPath_eq_none_iff (hpath : path ≠ []) :
    insertPath row value path = none ↔ row.BlockedAt path := by
  induction path generalizing row with
  | nil => exact absurd rfl hpath
  | cons name rest ih =>
    by_cases hrest : rest = []
    · subst hrest
      exact iff_of_false nofun not_blockedAt_singleton
    · rw [insertPath_cons row value name hrest]
      cases hbranch : branchOf? (row.get? name) with
      | none =>
        obtain ⟨leaf, hslot, hleaf⟩ := branchOf?_eq_none_iff.mp hbranch
        refine iff_of_true rfl ⟨[name], leaf, ?_, (row.lookup?_singleton name).trans hslot, hleaf⟩
        obtain ⟨second, others, rfl⟩ := List.exists_cons_of_ne_nil hrest
        exact isAbove_iff.mpr ⟨second, others, rfl⟩
      | some fields =>
        rw [Option.bind_some, Option.map_eq_none_iff, ih hrest, blockedAt_cons_iff hbranch]

end Blocking

/-! ## Look-ups -/

lemma Row.DeeplyDistinct.set {row : Row} {value : Value} (h : row.DeeplyDistinct) (name : String)
    (hvalue : value.deeplyDistinct = true) : Row.DeeplyDistinct (row.set name value) := by
  obtain ⟨hnames, hvalues⟩ := Row.deeplyDistinct_iff.mp h
  refine Row.deeplyDistinct_iff.mpr ⟨hnames.set name value, fun other hother => ?_⟩
  rcases Table.mem_values_set hother with rfl | hother
  · exact hvalue
  · exact hvalues other hother

/-- A row becomes another one when a value is placed at a path. -/
inductive Places (value : Value) : Row → List String → Row → Prop where
  | here (row : Row) (name : String) : Places value row [name] (row.set name value)
  | inside {row fields inner : Row} {name : String} {rest : List String}
      (hbranch : branchOf? (row.get? name) = some fields) (h : Places value fields rest inner) :
      Places value row (name :: rest) (row.set name (.object inner))

lemma places_of_insertPath {row out : Row} {value : Value} {path : List String}
    (h : insertPath row value path = some out) : Places value row path out := by
  induction path generalizing row out with
  | nil => cases h
  | cons name rest ih =>
    by_cases hrest : rest = []
    · subst hrest
      cases h
      exact .here row name
    · rw [insertPath_cons row value name hrest] at h
      obtain ⟨fields, hbranch, hmap⟩ := Option.bind_eq_some_iff.mp h
      obtain ⟨inner, hinner, rfl⟩ := Option.map_eq_some_iff.mp hmap
      exact .inside hbranch (ih hinner)

namespace Places

variable {row out : Row} {value : Value} {path other : List String}

/-- The value is at the path. -/
lemma lookup?_append (h : Places value row path out) (rest : List String) :
    out.lookup? (path ++ rest) = value.lookup? rest := by
  induction h with
  | here row name => rw [List.singleton_append, Row.lookup?_set, if_pos rfl]
  | inside _ _ ih =>
    rw [List.cons_append, Row.lookup?_set, if_pos rfl]
    exact ih

/-- Nested rows are above it. -/
lemma exists_object (h : Places value row path out) (habove : IsAbove other path) :
    ∃ fields, out.lookup? other = some (.object fields) := by
  induction h generalizing other with
  | here row name =>
    obtain rfl := eq_nil_of_isAbove_singleton habove
    exact ⟨_, Row.lookup?_nil _⟩
  | inside _ _ ih =>
    cases other with
    | nil => exact ⟨_, Row.lookup?_nil _⟩
    | cons first others =>
      obtain rfl := (List.cons_prefix_cons.mp habove.1).1
      rw [Row.lookup?_set, if_pos rfl]
      exact ih (isAbove_cons_iff.mp habove)

/-- Beside the path everything is as it was. -/
lemma lookup?_of_areApart (h : Places value row path out) (hapart : AreApart path other) :
    out.lookup? other = row.lookup? other := by
  obtain ⟨hbelow, habove⟩ := hapart
  induction h generalizing other with
  | here row name =>
    cases other with
    | nil => exact absurd List.nil_prefix habove
    | cons first others =>
      rw [Row.lookup?_set, if_neg]
      rintro rfl
      exact hbelow (List.cons_prefix_cons.mpr ⟨rfl, List.nil_prefix⟩)
  | @inside row fields inner name rest hbranch _ ih =>
    cases other with
    | nil => exact absurd List.nil_prefix habove
    | cons first others =>
      rw [Row.lookup?_set]
      split
      · next heq =>
        subst heq
        rw [List.prefix_cons_inj] at hbelow habove
        have hothers : others ≠ [] := fun hnil => habove (hnil ▸ List.nil_prefix)
        rw [← lookup?_of_branchOf? hbranch hothers]
        exact ih hbelow habove
      · rfl

/-- Every path leads to the value or below it, or lies above it or beside it. -/
lemma lookup?_cases (h : Places value row path out) (other : List String) :
    (∃ rest, other = path ++ rest ∧ out.lookup? other = value.lookup? rest) ∨
      (IsAbove other path ∧ ∃ fields, out.lookup? other = some (.object fields)) ∨
        AreApart path other ∧ out.lookup? other = row.lookup? other := by
  by_cases hbelow : path <+: other
  · obtain ⟨rest, rfl⟩ := hbelow
    exact .inl ⟨rest, rfl, h.lookup?_append rest⟩
  · by_cases habove : other <+: path
    · have habove : IsAbove other path := ⟨habove, fun heq => hbelow (heq ▸ List.prefix_rfl)⟩
      exact .inr (.inl ⟨habove, h.exists_object habove⟩)
    · exact .inr (.inr ⟨⟨hbelow, habove⟩, h.lookup?_of_areApart ⟨hbelow, habove⟩⟩)

/-- Names stay distinct in all rows on the way. -/
lemma deeplyDistinct (h : Places value row path out) (hvalue : value.deeplyDistinct = true)
    (hrow : row.DeeplyDistinct) : out.DeeplyDistinct := by
  induction h with
  | here row name => exact hrow.set name hvalue
  | @inside row fields inner name rest hbranch _ ih =>
    refine hrow.set name (ih ?_)
    cases hslot : row.get? name with
    | none =>
      rw [hslot] at hbranch
      cases hbranch
      rfl
    | some slot =>
      rw [hslot] at hbranch
      cases slot with
      | null =>
        cases hbranch
        rfl
      | object own =>
        cases hbranch
        exact Value.deeplyDistinct_of_get? hrow hslot
      | _ => cases hbranch

end Places

end QueryTerms
