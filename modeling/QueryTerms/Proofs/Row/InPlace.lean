import QueryTerms.Proofs.Row.Paths

/-!
# Placing in place

A value is placed in a row that is changed on the way down: a missing field becomes an empty nested
row, null gives way to one, and only then it is seen whether the rest of the path is free.  So a
path that turns out to be blocked might leave something behind.  It does not: what has just been
made is empty, and nothing in an empty row blocks a path.

**Step by step.**  `insertInPlace` leaves a row and says whether the value is in it.
`insertInPlace_eq` relates it to `insertPath`, which gives a row or none.

**Nested rows on the way.**  They keep their fields in order, and the next name of the path comes
last if it is new: `Places.keys`.

**All or nothing.**  `insertInPlace_all_or_nothing`.
-/

namespace QueryTerms

/-! ## Step by step -/

/-- The row with something to go on in under a name: an empty nested row where the field is missing
or null. -/
def Row.openSlot (row : Row) (name : String) : Row :=
  let added := row.setNew name (.object [])
  match added.get? name with
  | some .null => added.set name (.object [])
  | _ => added

/-- The row as placing a value at a path leaves it, and whether the value has been placed. -/
def insertInPlace (row : Row) (value : Value) : List String → Row × Bool
  | [] => (row, false)
  | [name] => (row.set name value, true)
  | name :: rest =>
    let opened := row.openSlot name
    match opened.get? name with
    | some (.object fields) =>
      let (inner, placed) := insertInPlace fields value rest
      (opened.set name (.object inner), placed)
    | _ => (opened, false)

section InPlace

variable {row fields : Row} {value : Value} {slot : Option Value} {name : String}
  {rest : List String}

/-- A path goes on in the nested row that is there, or in an empty one. -/
lemma branchOf?_eq_some_iff :
    branchOf? slot = some fields ↔
      slot = some (.object fields) ∨ fields = [] ∧ (slot = none ∨ slot = some .null) := by
  cases slot with
  | none => simp [branchOf?, eq_comm]
  | some value => cases value <;> simp [branchOf?, eq_comm]

/-- What is neither missing nor null is left alone. -/
lemma Row.openSlot_eq_self (h : row.get? name = some value) (hvalue : value.isNull = false) :
    row.openSlot name = row := by
  have hhas : Table.has name row = true := Option.isSome_of_eq_some h
  rw [openSlot, Table.setNew, if_pos hhas]
  simp only [h]
  cases value with
  | null => cases hvalue
  | _ => rfl

lemma Row.get?_openSlot (h : branchOf? (row.get? name) = some fields) :
    Table.get? name (row.openSlot name) = some (.object fields) := by
  have hadded : Table.get? name (Table.setNew name (.object []) row) =
      some ((row.get? name).getD (.object [])) := by
    rw [Table.get?_setNew, if_pos rfl]
  obtain hget | ⟨rfl, hget | hget⟩ := branchOf?_eq_some_iff.mp h
  · rwa [openSlot_eq_self hget rfl]
  · rw [hget, Option.getD_none] at hadded
    simp only [openSlot, hadded]
  · rw [hget, Option.getD_some] at hadded
    simp only [openSlot, hadded]
    rw [Table.get?_set, if_pos rfl]

/-- What has been made to go on in does not show once it is overwritten. -/
lemma Row.set_openSlot (row : Row) (name : String) (value : Value) :
    Table.set name value (row.openSlot name) = row.set name value := by
  have hadded : Table.set name value (Table.setNew name (.object []) row) = row.set name value := by
    rw [Table.setNew]
    split
    · rfl
    · next hhas =>
      have hname : name ∉ Table.keys row := fun hmem =>
        hhas ((Table.has_iff_mem_keys name row).mpr hmem)
      rw [← Table.set_of_notMem hname, Table.set_set]
  rw [openSlot]
  split
  · rw [Table.set_set, hadded]
  · exact hadded

lemma insertInPlace_cons (row : Row) (value : Value) (name : String) (hrest : rest ≠ []) :
    insertInPlace row value (name :: rest) =
      match Table.get? name (row.openSlot name) with
      | some (.object fields) =>
        (Table.set name (.object (insertInPlace fields value rest).1) (row.openSlot name),
          (insertInPlace fields value rest).2)
      | _ => (row.openSlot name, false) := by
  rw [insertInPlace]
  exact hrest

/-- In an empty row no path is blocked. -/
lemma insertPath_nil_ne_none (value : Value) (hrest : rest ≠ []) :
    insertPath [] value rest ≠ none := by
  rw [Ne, insertPath_eq_none_iff hrest]
  rintro ⟨outer, leaf, -, hlookup, hleaf⟩
  obtain ⟨first, others, rfl⟩ := List.exists_cons_of_ne_nil (Row.ne_nil_of_isLeaf hlookup hleaf)
  cases hlookup

/-- **No failure follows a change.**  A nested row that blocks the rest of a path has been there. -/
lemma get?_of_insertPath_eq_none (hrest : rest ≠ [])
    (hbranch : branchOf? (row.get? name) = some fields)
    (h : insertPath fields value rest = none) : row.get? name = some (.object fields) := by
  obtain hget | ⟨rfl, -⟩ := branchOf?_eq_some_iff.mp hbranch
  · exact hget
  · exact absurd h (insertPath_nil_ne_none value hrest)

/-- Placing in place leaves the row with the value, or the row as it was. -/
theorem insertInPlace_eq (row : Row) (value : Value) (path : List String) :
    insertInPlace row value path =
      ((insertPath row value path).getD row, (insertPath row value path).isSome) := by
  induction path generalizing row with
  | nil => rfl
  | cons name rest ih =>
    by_cases hrest : rest = []
    · subst hrest
      rfl
    · rw [insertInPlace_cons row value name hrest, insertPath_cons row value name hrest]
      cases hbranch : branchOf? (row.get? name) with
      | none =>
        obtain ⟨leaf, hleaf, hvalue⟩ := branchOf?_eq_none_iff.mp hbranch
        rw [Value.isLeaf, Bool.and_eq_true, Bool.not_eq_true', Bool.not_eq_true'] at hvalue
        rw [Row.openSlot_eq_self hleaf hvalue.1, hleaf]
        cases leaf with
        | object own => cases hvalue.2
        | _ => rfl
      | some fields =>
        rw [Row.get?_openSlot hbranch]
        simp only [ih, Row.set_openSlot]
        rw [Option.bind_some]
        cases hinner : insertPath fields value rest with
        | some inner => rfl
        | none =>
          have hget := get?_of_insertPath_eq_none hrest hbranch hinner
          rw [Option.getD_none, Table.set_eq_self hget]
          rfl

end InPlace

/-! ## Nested rows on the way -/

/-- The names in the nested row at a path; none where there is no nested row. -/
def Row.namesAt (row : Row) (path : List String) : List String :=
  match row.lookup? path with
  | some (.object fields) => Table.keys fields
  | _ => []

section Names

variable {row out fields : Row} {value : Value} {path outer rest : List String} {name : String}

/-- The names are those of the nested row that the path goes on in. -/
lemma Row.namesAt_of_branchOf? (h : branchOf? (row.get? name) = some fields) :
    row.namesAt (name :: rest) = fields.namesAt rest := by
  by_cases hrest : rest = []
  · subst hrest
    rw [namesAt, namesAt, lookup?_singleton, lookup?_nil]
    obtain hget | ⟨rfl, hget | hget⟩ := branchOf?_eq_some_iff.mp h
    · rw [hget]
    · rw [hget]
      rfl
    · rw [hget]
      rfl
  · rw [namesAt, namesAt, lookup?_of_branchOf? h hrest]

/-- **A nested row on the way keeps its fields in order**, and takes in the next name of the path at
the end if it does not have it. -/
theorem Places.keys (h : Places value row path out) (hpath : path = outer ++ name :: rest) :
    ∃ fields, out.lookup? outer = some (.object fields) ∧
      Table.keys fields =
        if name ∈ row.namesAt outer then row.namesAt outer else row.namesAt outer ++ [name] := by
  have hset : ∀ (row : Row) (value : Value), Table.keys (row.set name value) =
      if name ∈ row.namesAt [] then row.namesAt [] else row.namesAt [] ++ [name] := by
    intro row value
    rw [Table.keys_set]
    simp only [Table.has_iff_mem_keys]
    rfl
  induction h generalizing outer with
  | here row own =>
    have habove : IsAbove outer [own] := isAbove_iff.mpr ⟨name, rest, hpath⟩
    obtain rfl := eq_nil_of_isAbove_singleton habove
    obtain ⟨rfl, -⟩ := List.cons.inj hpath
    exact ⟨_, Row.lookup?_nil _, hset row value⟩
  | @inside row own inner first others hbranch _ ih =>
    cases outer with
    | nil =>
      obtain ⟨rfl, -⟩ := List.cons.inj hpath
      exact ⟨_, Row.lookup?_nil _, hset row (.object inner)⟩
    | cons second more =>
      obtain ⟨rfl, hothers⟩ := List.cons.inj hpath
      rw [Row.lookup?_set, if_pos rfl, Row.namesAt_of_branchOf? hbranch]
      exact ih hothers

end Names

/-! ## All or nothing -/

/-- The row has the value at the path and is as it was elsewhere. -/
structure IsPlaced (value : Value) (row : Row) (path : List String) (out : Row) : Prop where
  /-- The value is at the path. -/
  value : out.lookup? path = some value
  /-- Paths that lead neither through the end of this one nor to a nested row around it lead where
  they have led. -/
  beside : ∀ other, AreApart path other → out.lookup? other = row.lookup? other
  /-- Nested rows around the value keep their fields in order and take in one more at most. -/
  around : ∀ outer name rest, path = outer ++ name :: rest →
    ∃ fields, out.lookup? outer = some (.object fields) ∧
      Table.keys fields =
        if name ∈ row.namesAt outer then row.namesAt outer else row.namesAt outer ++ [name]

lemma Places.isPlaced {value : Value} {row out : Row} {path : List String}
    (h : Places value row path out) : IsPlaced value row path out where
  value := by
    have hvalue := h.lookup?_append []
    rwa [List.append_nil, Value.lookup?_nil] at hvalue
  beside _ := h.lookup?_of_areApart
  around _ _ _ := h.keys

/-- **Placing is all or nothing.**  It fails if and only if the path is empty or something on the
way is neither null nor a nested row, and then the row is as it was.  Otherwise the value is at the
path, and the row is as it was beside it. -/
theorem insertInPlace_all_or_nothing (row : Row) (value : Value) (path : List String) :
    insertInPlace row value path =
      ((insertPath row value path).getD row, (insertPath row value path).isSome) ∧
    ((insertInPlace row value path).2 = false ↔ path = [] ∨ row.BlockedAt path) ∧
    ((insertInPlace row value path).2 = false → (insertInPlace row value path).1 = row) ∧
    ((insertInPlace row value path).2 = true →
      IsPlaced value row path (insertInPlace row value path).1) := by
  rw [insertInPlace_eq]
  refine ⟨rfl, ?_, fun hfailed => ?_, fun hplaced => ?_⟩
  · rw [Option.isSome_eq_false_iff, Option.isNone_iff_eq_none]
    by_cases hpath : path = []
    · subst hpath
      exact iff_of_true rfl (.inl rfl)
    · rw [insertPath_eq_none_iff hpath, or_iff_right hpath]
  · rw [Option.isSome_eq_false_iff, Option.isNone_iff_eq_none] at hfailed
    rw [hfailed, Option.getD_none]
  · obtain ⟨out, hout⟩ := Option.isSome_iff_exists.mp hplaced
    rw [hout, Option.getD_some]
    exact (places_of_insertPath hout).isPlaced

end QueryTerms
