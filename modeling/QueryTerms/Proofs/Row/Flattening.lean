import Mathlib.Data.List.Nodup
import QueryTerms.Proofs.Row.Paths
import QueryTerms.Proofs.Text.Separator

/-!
# Rows written flat

A row can be written flat, with every value under the components of its path and separators between
them, and a flat row can be read back by cutting its names.  Between the two forms stands the list
of the values at which paths end, each with its path.

**Ends.**  `Value.ends` lists them depth first.  Nested rows are no ends, except for the empty one.

**Writing.**  `flatten_eq` gives a flat row as a table of ends.

**Reading.**  `unflatten_of_placeAll?` reads a flat row by placing values one after another.  The
ends of a row, placed in an empty one, give the row with its order of fields (`placeAll?_ends`).
A value whose path is apart from those of all ends becomes one more end (`exists_placeAll?`).

**Both ways.**  `Row.flatten_inverse`.
-/

namespace QueryTerms

/-! ## Ends -/

/-- The value is not a nested row with fields. -/
def Value.isEnd : Value → Bool
  | .object fields => fields.isEmpty
  | _ => true

mutual

/-- The values at which paths end, each with its path, depth first. -/
def Value.ends : Value → List (List String × Value)
  | .object fields => if fields.isEmpty then [([], .object [])] else fieldEnds fields
  | value => [([], value)]

/-- The ends in the fields of a row, in order. -/
def fieldEnds : List (String × Value) → List (List String × Value)
  | [] => []
  | (name, value) :: rest =>
    value.ends.map (fun last => (name :: last.1, last.2)) ++ fieldEnds rest

end

section Ends

variable {value : Value} {fields : Row} {last : List String × Value}

lemma Value.isEnd_of_plain (h : value.isObject = false) : value.isEnd = true := by
  cases value with
  | object fields => cases h
  | _ => rfl

lemma Value.isEnd_iff : value.isEnd = true ↔ ∀ fields, value = .object fields → fields = [] := by
  cases value with
  | object own => simp [isEnd]
  | _ => exact iff_of_true rfl nofun

lemma Value.ends_of_isEnd (h : value.isEnd = true) : value.ends = [([], value)] := by
  cases value with
  | object fields =>
    obtain rfl := isEnd_iff.mp h fields rfl
    rfl
  | _ => rfl

lemma Value.ends_object (h : fields ≠ []) : (Value.object fields).ends = fieldEnds fields := by
  rw [ends, if_neg (by simpa using h)]

lemma fieldEnds_eq_flatMap (fields : Row) :
    fieldEnds fields =
      fields.flatMap fun entry => entry.2.ends.map fun last => (entry.1 :: last.1, last.2) := by
  induction fields with
  | nil => rfl
  | cons entry rest ih =>
    obtain ⟨name, value⟩ := entry
    rw [fieldEnds, ih, List.flatMap_cons]

lemma fieldEnds_append (fields more : Row) :
    fieldEnds (fields ++ more) = fieldEnds fields ++ fieldEnds more := by
  rw [fieldEnds_eq_flatMap, fieldEnds_eq_flatMap, fieldEnds_eq_flatMap, List.flatMap_append]

lemma mem_fieldEnds_iff :
    last ∈ fieldEnds fields ↔
      ∃ entry ∈ fields, ∃ inner ∈ entry.2.ends, last = (entry.1 :: inner.1, inner.2) := by
  rw [fieldEnds_eq_flatMap, List.mem_flatMap]
  refine exists_congr fun entry => and_congr_right fun _ => ?_
  rw [List.mem_map]
  exact exists_congr fun inner => and_congr_right fun _ => eq_comm

lemma ne_nil_of_mem_fieldEnds (h : last ∈ fieldEnds fields) : last.1 ≠ [] := by
  obtain ⟨entry, -, inner, -, rfl⟩ := mem_fieldEnds_iff.mp h
  exact List.cons_ne_nil _ _

lemma ne_nil_of_perm_fieldEnds {others : List (List String × Value)}
    (h : (fieldEnds fields).Perm (last :: others)) : fields ≠ [] := by
  rintro rfl
  exact List.cons_ne_nil last others h.nil_eq.symm

/-- Some path ends in every value. -/
lemma Value.ends_ne_nil (value : Value) : value.ends ≠ [] := by
  induction value using Value.induction_on_fields with
  | plain value hplain =>
    rw [ends_of_isEnd (isEnd_of_plain hplain)]
    exact List.cons_ne_nil _ _
  | object fields ih =>
    cases fields with
    | nil => exact List.cons_ne_nil _ _
    | cons entry rest =>
      rw [ends_object (List.cons_ne_nil entry rest), fieldEnds]
      refine List.append_ne_nil_of_left_ne_nil (fun hmap => ?_) _
      exact ih entry List.mem_cons_self (List.map_eq_nil_iff.mp hmap)

/-- The ends of a value lie at paths of it. -/
lemma Value.mem_paths_of_mem_ends (h : last ∈ value.ends) : last.1 ∈ value.paths := by
  induction value using Value.induction_on_fields generalizing last with
  | plain value hplain =>
    rw [ends_of_isEnd (isEnd_of_plain hplain), List.mem_singleton] at h
    subst h
    cases value with
    | object fields => cases hplain
    | _ => exact List.mem_singleton_self _
  | object fields ih =>
    by_cases hempty : fields = []
    · subst hempty
      rw [ends_of_isEnd rfl, List.mem_singleton] at h
      subst h
      exact List.mem_singleton_self _
    · rw [ends_object hempty] at h
      obtain ⟨entry, hentry, inner, hinner, rfl⟩ := mem_fieldEnds_iff.mp h
      rw [paths, fieldPaths_eq_flatMap]
      exact List.mem_cons_of_mem _ (List.mem_flatMap.mpr
        ⟨entry, hentry, List.mem_map_of_mem (ih entry hentry hinner)⟩)

lemma mem_paths_of_mem_fieldEnds (h : last ∈ fieldEnds fields) :
    last.1 ∈ (Value.object fields).paths := by
  refine Value.mem_paths_of_mem_ends ?_
  rwa [Value.ends_object]
  rintro rfl
  cases h

lemma nodup_fieldEnds_of_forall (hnames : Row.NamesDistinct fields)
    (h : ∀ entry ∈ fields, (entry.2.ends.map Prod.fst).Nodup) :
    ((fieldEnds fields).map Prod.fst).Nodup := by
  have hpaths : (fieldEnds fields).map Prod.fst =
      fields.flatMap fun entry => (entry.2.ends.map Prod.fst).map (entry.1 :: ·) := by
    rw [fieldEnds_eq_flatMap, List.map_flatMap]
    simp only [List.map_map, Function.comp_def]
  rw [hpaths, List.nodup_flatMap]
  refine ⟨fun entry hentry => ?_, (List.pairwise_map.mp hnames).imp fun hne => ?_⟩
  · exact (h entry hentry).map fun _ _ heq => (List.cons.inj heq).2
  · intro path hpath hother
    obtain ⟨front, -, rfl⟩ := List.mem_map.mp hpath
    obtain ⟨back, -, heq⟩ := List.mem_map.mp hother
    exact hne (List.cons.inj heq).1.symm

/-- No two ends of a value are at the same path. -/
lemma Value.nodup_ends (h : value.deeplyDistinct = true) : (value.ends.map Prod.fst).Nodup := by
  induction value using Value.induction_on_fields with
  | plain value hplain =>
    rw [ends_of_isEnd (isEnd_of_plain hplain)]
    exact List.nodup_singleton _
  | object fields ih =>
    by_cases hempty : fields = []
    · subst hempty
      exact List.nodup_singleton _
    · obtain ⟨hnames, hvalues⟩ := Row.deeplyDistinct_iff.mp h
      rw [ends_object hempty]
      exact nodup_fieldEnds_of_forall hnames fun entry hentry =>
        ih entry hentry (hvalues _ (List.mem_map_of_mem hentry))

lemma nodup_fieldEnds (h : Row.DeeplyDistinct fields) : ((fieldEnds fields).map Prod.fst).Nodup :=
  nodup_fieldEnds_of_forall (Row.deeplyDistinct_iff.mp h).1 fun _ hentry =>
    Value.nodup_ends ((Row.deeplyDistinct_iff.mp h).2 _ (List.mem_map_of_mem hentry))

end Ends

/-! ## Writing -/

/-- An end under a name: the components of its path with separators between them. -/
def joinedEnd (separator : String) (last : List String × Value) : String × Value :=
  (String.intercalate separator last.1, last.2)

section Writing

variable {separator : String}

/-- A name with more in front of its first component. -/
lemma append_intercalate_cons (outer first : String) (path : List String) :
    outer ++ String.intercalate separator (first :: path) =
      String.intercalate separator ((outer ++ first) :: path) := by
  cases path with
  | nil => rw [String.intercalate_singleton, String.intercalate_singleton]
  | cons second rest =>
    rw [String.intercalate_cons_cons, String.intercalate_cons_cons, ← String.append_assoc,
      ← String.append_assoc]

lemma flattenFields_of_forall {fields : List (String × Value)}
    (h : ∀ entry ∈ fields, ∀ (name : String) (out : Row),
      flattenValue separator name out entry.2 =
        out.extend (entry.2.ends.map fun last => joinedEnd separator (name :: last.1, last.2)))
    (outer : String) (out : Row) :
    flattenFields separator outer out fields =
      out.extend ((fieldEnds fields).map fun last =>
        (outer ++ String.intercalate separator last.1, last.2)) := by
  induction fields generalizing out with
  | nil => rfl
  | cons entry rest ih =>
    obtain ⟨name, value⟩ := entry
    obtain ⟨hvalue, hrest⟩ := List.forall_mem_cons.mp h
    rw [flattenFields, hvalue, ih hrest, fieldEnds, List.map_append, List.map_map]
    simp only [Table.extend, List.foldl_append, Function.comp_def, append_intercalate_cons,
      joinedEnd]

/-- The ends of a value are written one after another. -/
lemma flattenValue_eq (name : String) (out : Row) (value : Value) :
    flattenValue separator name out value =
      out.extend (value.ends.map fun last => joinedEnd separator (name :: last.1, last.2)) := by
  induction value using Value.induction_on_fields generalizing name out with
  | plain value hplain =>
    cases value with
    | object fields => cases hplain
    | _ => rfl
  | object fields ih =>
    by_cases hempty : fields = []
    · subst hempty
      rfl
    · rw [flattenValue, if_neg (by simpa using hempty),
        flattenFields_of_forall fun entry hentry name out => ih entry hentry name out,
        Value.ends_object hempty]
      congr 1
      refine List.map_congr_left fun last hlast => ?_
      obtain ⟨first, rest, hpath⟩ := List.exists_cons_of_ne_nil (ne_nil_of_mem_fieldEnds hlast)
      rw [joinedEnd, hpath, String.intercalate_cons_cons]

/-- **A flat row is the table of the ends**, under their joined names. -/
theorem flatten_eq (row : Row) :
    flatten separator row = Table.ofPairs ((fieldEnds row).map (joinedEnd separator)) := by
  rw [flatten, flattenFields_of_forall fun _ _ name out => flattenValue_eq name out _]
  simp only [String.empty_append]
  rfl

/-- Ends whose names are distinct are the flat row. -/
lemma flatten_of_nodup {row : Row}
    (h : (Table.keys ((fieldEnds row).map (joinedEnd separator))).Nodup) :
    flatten separator row = (fieldEnds row).map (joinedEnd separator) := by
  rw [flatten_eq, Table.ofPairs_eq_self h]

end Writing

/-! ## Reading -/

/-- The row with values placed at their paths one after another, unless one is blocked. -/
def placeAll? (row : Row) (ends : List (List String × Value)) : Option Row :=
  ends.foldlM (fun out last => insertPath out last.2 last.1) row

/-- A column as the end that it stands for. -/
def columnEnd (separator : String) (column : String × Value) : List String × Value :=
  (Text.path column.1 separator, column.2)

section Reading

variable {separator name : String} {row out fields : Row} {ends : List (List String × Value)}

lemma placeAll?_cons (row : Row) (last : List String × Value) (ends : List (List String × Value)) :
    placeAll? row (last :: ends) =
      (insertPath row last.2 last.1).bind fun next => placeAll? next ends := rfl

/-- A flat row whose columns are not blocked is read by placing them. -/
lemma unflatten_of_placeAll? (hseparator : separator ≠ "")
    (h : placeAll? [] (row.map (columnEnd separator)) = some out) :
    unflatten separator row = out := by
  rw [unflatten]
  generalize ([] : Row) = start at h ⊢
  induction row generalizing start with
  | nil => exact Option.some.inj h
  | cons column rest ih =>
    obtain ⟨field, value⟩ := column
    rw [List.map_cons, placeAll?_cons] at h
    obtain ⟨next, hnext, hrest⟩ := Option.bind_eq_some_iff.mp h
    rw [columnEnd] at hnext
    rw [List.foldl_cons]
    have hstep : (if Text.occurs separator.toList field.toList then
        (insertPath start value (Text.path field separator)).getD start
        else Table.set field value start) = next := by
      split
      · rw [hnext, Option.getD_some]
      · next hoccurs =>
        rw [Text.occurs, Bool.not_eq_true, Option.isSome_eq_false_iff,
          Option.isNone_iff_eq_none] at hoccurs
        rw [Text.path_of_none hseparator (Text.splitOnce?_eq_none_iff.mpr hoccurs)] at hnext
        exact Option.some.inj hnext
    dsimp only
    rw [hstep]
    exact ih next hrest

/-- Values below one field are placed in the nested row there. -/
lemma placeAll?_map_cons (hne : ends ≠ []) (hpaths : ∀ last ∈ ends, last.1 ≠ [])
    (hbranch : branchOf? (row.get? name) = some fields) :
    placeAll? row (ends.map fun last => (name :: last.1, last.2)) =
      (placeAll? fields ends).map fun inner => row.set name (.object inner) := by
  induction ends generalizing row fields with
  | nil => exact absurd rfl hne
  | cons last rest ih =>
    obtain ⟨hlast, hrest⟩ := List.forall_mem_cons.mp hpaths
    rw [List.map_cons, placeAll?_cons, placeAll?_cons, insertPath_cons row last.2 name hlast,
      hbranch, Option.bind_some]
    cases insertPath fields last.2 last.1 with
    | none => rfl
    | some inner =>
      rw [Option.map_some, Option.bind_some, Option.bind_some]
      by_cases hempty : rest = []
      · subst hempty
        rfl
      · have hslot : branchOf? ((row.set name (.object inner)).get? name) = some inner := by
          rw [Table.get?_set, if_pos rfl]
          rfl
        rw [ih hempty hrest hslot]
        simp only [Table.set_set]

/-- The ends of fields are placed field by field, if those of each value are. -/
lemma placeAll?_fieldEnds_of_forall
    (h : ∀ entry ∈ fields, ∀ {out : Row}, entry.1 ∉ Table.keys out →
      placeAll? out (entry.2.ends.map fun last => (entry.1 :: last.1, last.2)) =
        some (out ++ [entry]))
    (hnames : (Table.keys (out ++ fields)).Nodup) :
    placeAll? out (fieldEnds fields) = some (out ++ fields) := by
  induction fields generalizing out with
  | nil => rw [List.append_nil]; rfl
  | cons entry rest ih =>
    obtain ⟨hentry, hrest⟩ := List.forall_mem_cons.mp h
    have hnew : entry.1 ∉ Table.keys out := by
      rw [Table.keys, List.map_append, List.nodup_append] at hnames
      exact fun hmem => hnames.2.2 entry.1 hmem entry.1 List.mem_cons_self rfl
    rw [← List.singleton_append, ← List.append_assoc] at hnames ⊢
    rw [List.singleton_append, fieldEnds, placeAll?, List.foldlM_append, ← placeAll?, hentry hnew]
    exact ih hrest hnames

lemma placeAll?_ends {value : Value} (h : value.deeplyDistinct = true)
    (hname : name ∉ Table.keys out) :
    placeAll? out (value.ends.map fun last => (name :: last.1, last.2)) =
      some (out ++ [(name, value)]) := by
  induction value using Value.induction_on_fields generalizing name out with
  | plain value hplain =>
    rw [Value.ends_of_isEnd (Value.isEnd_of_plain hplain), ← Table.set_of_notMem hname]
    rfl
  | object fields ih =>
    by_cases hempty : fields = []
    · subst hempty
      rw [← Table.set_of_notMem hname]
      rfl
    · obtain ⟨hnames, hvalues⟩ := Row.deeplyDistinct_iff.mp h
      have hfields : placeAll? [] (fieldEnds fields) = some fields :=
        placeAll?_fieldEnds_of_forall
          (fun entry hentry _ hnew =>
            ih entry hentry (hvalues _ (List.mem_map_of_mem hentry)) hnew) hnames
      have hbranch : branchOf? (out.get? name) = some [] := by
        rw [Table.get?_eq_none_iff.mpr hname]
        rfl
      have hends := Value.ends_ne_nil (.object fields)
      rw [Value.ends_object hempty] at hends ⊢
      rw [placeAll?_map_cons hends (fun _ => ne_nil_of_mem_fieldEnds) hbranch, hfields,
        Option.map_some, Table.set_of_notMem hname]

/-- **A row is made of its ends**, in the order of its fields. -/
theorem placeAll?_fieldEnds {row : Row} (h : row.DeeplyDistinct) :
    placeAll? [] (fieldEnds row) = some row := by
  obtain ⟨hnames, hvalues⟩ := Row.deeplyDistinct_iff.mp h
  exact placeAll?_fieldEnds_of_forall
    (fun entry hentry _ hnew => placeAll?_ends (hvalues _ (List.mem_map_of_mem hentry)) hnew) hnames

/-! ### Values at paths of their own -/

/-- A value that comes under a new name brings its ends. -/
lemma fieldEnds_set_of_notMem (hname : name ∉ Table.keys row) (value : Value) :
    fieldEnds (row.set name value) =
      fieldEnds row ++ value.ends.map fun last => (name :: last.1, last.2) := by
  rw [Table.set_of_notMem hname, fieldEnds_append]
  congr 1
  exact List.append_nil _

/-- The ends below a field are among those of the row. -/
lemma mem_fieldEnds_of_get? {value : Value} (hget : row.get? name = some value)
    {last : List String × Value} (h : last ∈ value.ends) :
    (name :: last.1, last.2) ∈ fieldEnds row :=
  mem_fieldEnds_iff.mpr ⟨_, Table.mem_of_get?_eq_some hget, last, h, rfl⟩

/-- A nested row that takes the place of another one replaces its ends. -/
lemma perm_fieldEnds_set {value inner : Value} (added : List (List String × Value))
    (hget : row.get? name = some value) (h : inner.ends.Perm (added ++ value.ends)) :
    (fieldEnds (row.set name inner)).Perm
      (added.map (fun last => (name :: last.1, last.2)) ++ fieldEnds row) := by
  obtain ⟨front, back, rfl, hfront⟩ := Table.get?_eq_some_iff.mp hget
  have hmap := h.map fun last => (name :: last.1, last.2)
  rw [List.map_append] at hmap
  rw [Table.set_append_cons hfront, fieldEnds_append, fieldEnds_append, fieldEnds, fieldEnds]
  have hinner := (hmap.append_right (fieldEnds back)).append_left (fieldEnds front)
  rw [List.append_assoc] at hinner
  exact hinner.trans (List.perm_append_comm_assoc _ _ _)

/-- **A value at a path of its own becomes one more end.** -/
theorem exists_insertPath {value : Value} {path : List String} (hpath : path ≠ [])
    (hvalue : value.isEnd = true) (hapart : ∀ last ∈ fieldEnds row, AreApart path last.1) :
    ∃ out, insertPath row value path = some out ∧
      (fieldEnds out).Perm ((path, value) :: fieldEnds row) := by
  induction path generalizing row with
  | nil => exact absurd rfl hpath
  | cons name rest ih =>
    by_cases hrest : rest = []
    · -- a field of this name would hold an end below the path
      subst hrest
      have hname : name ∉ Table.keys row := by
        rw [← Table.get?_eq_none_iff, ← Option.not_isSome_iff_eq_none, Option.isSome_iff_exists]
        rintro ⟨slot, hslot⟩
        obtain ⟨last, hlast⟩ := List.exists_mem_of_ne_nil _ slot.ends_ne_nil
        exact (hapart _ (mem_fieldEnds_of_get? hslot hlast)).1
          (List.cons_prefix_cons.mpr ⟨rfl, List.nil_prefix⟩)
      refine ⟨row.set name value, rfl, ?_⟩
      rw [fieldEnds_set_of_notMem hname, Value.ends_of_isEnd hvalue]
      exact List.perm_append_singleton _ _
    · rw [insertPath_cons row value name hrest]
      cases hslot : row.get? name with
      | none =>
        have hfresh : ∀ last ∈ fieldEnds [], AreApart rest last.1 := nofun
        obtain ⟨inner, hinner, hperm⟩ := ih hrest hfresh
        have hne := ne_nil_of_perm_fieldEnds hperm
        refine ⟨row.set name (.object inner), by rw [branchOf?, Option.bind_some, hinner]; rfl, ?_⟩
        rw [fieldEnds_set_of_notMem (Table.get?_eq_none_iff.mp hslot), Value.ends_object hne]
        have hends := (hperm.map fun last => (name :: last.1, last.2)).append_left (fieldEnds row)
        exact hends.trans (List.perm_append_singleton _ _)
      | some slot =>
        -- an end in this field itself would be above the path
        have hobject : slot.isEnd ≠ true := fun hend => by
          have hself : ([], slot) ∈ slot.ends := by
            rw [Value.ends_of_isEnd hend]
            exact List.mem_singleton_self _
          exact (hapart _ (mem_fieldEnds_of_get? hslot hself)).2
            (List.cons_prefix_cons.mpr ⟨rfl, List.nil_prefix⟩)
        obtain ⟨fields, rfl⟩ : ∃ fields, slot = .object fields := by
          cases slot with
          | object fields => exact ⟨fields, rfl⟩
          | _ => exact absurd rfl hobject
        have hfields : fields ≠ [] := fun hempty => hobject (by rw [hempty]; rfl)
        have hinside : ∀ last ∈ fieldEnds fields, AreApart rest last.1 := fun last hlast => by
          rw [← Value.ends_object hfields] at hlast
          have hboth := hapart _ (mem_fieldEnds_of_get? hslot hlast)
          rwa [AreApart, List.prefix_cons_inj, List.prefix_cons_inj] at hboth
        obtain ⟨inner, hinner, hperm⟩ := ih hrest hinside
        have hne := ne_nil_of_perm_fieldEnds hperm
        refine ⟨row.set name (.object inner), by rw [branchOf?, Option.bind_some, hinner]; rfl, ?_⟩
        rw [← Value.ends_object hfields, ← Value.ends_object hne] at hperm
        exact perm_fieldEnds_set [(rest, value)] hslot hperm

/-- Values at paths apart from each other become ends, and nothing else does. -/
theorem exists_placeAll? (hpaths : ∀ last ∈ ends, last.1 ≠ [] ∧ last.2.isEnd = true)
    (hapart : (fieldEnds row ++ ends).Pairwise fun last other => AreApart last.1 other.1) :
    ∃ out, placeAll? row ends = some out ∧ (fieldEnds out).Perm (fieldEnds row ++ ends) := by
  induction ends generalizing row with
  | nil => exact ⟨row, rfl, by rw [List.append_nil]⟩
  | cons last rest ih =>
    obtain ⟨⟨hpath, hvalue⟩, hrest⟩ := List.forall_mem_cons.mp hpaths
    have hsymm : ∀ {first second : List String × Value}, AreApart first.1 second.1 →
        AreApart second.1 first.1 := fun h => ⟨h.2, h.1⟩
    have hlast : ∀ other ∈ fieldEnds row, AreApart last.1 other.1 := fun other hother =>
      hsymm ((List.pairwise_append.mp hapart).2.2 other hother last List.mem_cons_self)
    obtain ⟨next, hnext, hperm⟩ := exists_insertPath hpath hvalue hlast
    have hall : (fieldEnds next ++ rest).Perm (fieldEnds row ++ last :: rest) :=
      (hperm.append_right rest).trans List.perm_middle.symm
    obtain ⟨out, hout, hends⟩ := ih hrest (hall.symm.pairwise hapart hsymm)
    exact ⟨out, by rw [placeAll?_cons, hnext, Option.bind_some, hout], hends.trans hall⟩

end Reading

/-! ## Both ways -/

section Inverse

variable {separator : String} {row : Row}

/-- The names of a flat row are the joined paths of its ends. -/
lemma keys_map_joinedEnd (ends : List (List String × Value)) :
    Table.keys (ends.map (joinedEnd separator)) =
      (ends.map Prod.fst).map (String.intercalate separator) := by
  rw [Table.keys, List.map_map, List.map_map]
  rfl

/-- A row is read back from its flat form, if no name holds the separating character. -/
lemma unflatten_flatten {c : Char} (hdistinct : row.DeeplyDistinct)
    (hnames : ∀ path ∈ (Value.object row).paths, ∀ name ∈ path, c ∉ name.toList) :
    unflatten (String.singleton c) (flatten (String.singleton c) row) = row := by
  have hcut : ∀ last ∈ fieldEnds row,
      Text.path (String.intercalate (String.singleton c) last.1) (String.singleton c) = last.1 :=
    fun last hlast => Text.path_intercalate (ne_nil_of_mem_fieldEnds hlast)
      (hnames _ (mem_paths_of_mem_fieldEnds hlast))
  have hcolumns : ((fieldEnds row).map (joinedEnd (String.singleton c))).map
      (columnEnd (String.singleton c)) = fieldEnds row := by
    rw [List.map_map, List.map_congr_left (g := id), List.map_id]
    exact fun last hlast => Prod.ext (hcut last hlast) rfl
  have hkeys : (Table.keys ((fieldEnds row).map (joinedEnd (String.singleton c)))).Nodup := by
    rw [keys_map_joinedEnd]
    refine (nodup_fieldEnds hdistinct).map_on fun path hpath other hother heq => ?_
    obtain ⟨last, hlast, rfl⟩ := List.mem_map.mp hpath
    obtain ⟨second, hsecond, rfl⟩ := List.mem_map.mp hother
    rw [← hcut last hlast, heq, hcut second hsecond]
  have hseparator : String.singleton c ≠ "" := fun hempty => by
    have hlist := congrArg String.toList hempty
    rw [String.toList_singleton] at hlist
    exact List.cons_ne_nil c [] hlist
  refine unflatten_of_placeAll? hseparator ?_
  rw [flatten_of_nodup hkeys, hcolumns, placeAll?_fieldEnds hdistinct]

/-- The columns of a flat row end at paths that are apart from each other. -/
lemma pairwise_columnEnd (hseparator : separator ≠ "") (hdistinct : row.NamesDistinct)
    (hpaths : ∀ name ∈ Table.keys row, ∀ other ∈ Table.keys row,
      ¬ IsAbove (Text.path name separator) (Text.path other separator)) :
    (row.map (columnEnd separator)).Pairwise fun last other => AreApart last.1 other.1 := by
  refine List.pairwise_map.mpr ((List.pairwise_map.mp hdistinct).imp_of_mem ?_)
  intro column other hcolumn hother hne
  have hfirst : column.1 ∈ Table.keys row := List.mem_map_of_mem hcolumn
  have hsecond : other.1 ∈ Table.keys row := List.mem_map_of_mem hother
  exact areApart_of_ne ((Text.path_inj hseparator).not.mpr hne) (hpaths _ hfirst _ hsecond)
    (hpaths _ hsecond _ hfirst)

/-- A flat row is written again from what was read, with its columns in some order. -/
lemma flatten_unflatten (hseparator : separator ≠ "") (hdistinct : row.NamesDistinct)
    (hends : ∀ column ∈ row, column.2.isEnd = true)
    (hpaths : ∀ name ∈ Table.keys row, ∀ other ∈ Table.keys row,
      ¬ IsAbove (Text.path name separator) (Text.path other separator)) :
    (flatten separator (unflatten separator row)).Perm row := by
  have hplaces : ∀ last ∈ row.map (columnEnd separator), last.1 ≠ [] ∧ last.2.isEnd = true := by
    intro last hlast
    obtain ⟨column, hcolumn, rfl⟩ := List.mem_map.mp hlast
    exact ⟨Text.path_ne_nil column.1 separator, hends column hcolumn⟩
  have hapart : (fieldEnds [] ++ row.map (columnEnd separator)).Pairwise
      fun last other => AreApart last.1 other.1 :=
    pairwise_columnEnd hseparator hdistinct hpaths
  obtain ⟨out, hout, hperm⟩ := exists_placeAll? hplaces hapart
  have hjoined : (row.map (columnEnd separator)).map (joinedEnd separator) = row := by
    rw [List.map_map, List.map_congr_left (g := id), List.map_id]
    exact fun column _ => Prod.ext (Text.intercalate_path hseparator column.1) rfl
  have hcolumns : ((fieldEnds out).map (joinedEnd separator)).Perm row := by
    have hmap := hperm.map (joinedEnd separator)
    rwa [fieldEnds, List.nil_append, hjoined] at hmap
  have hkeys : (Table.keys ((fieldEnds out).map (joinedEnd separator))).Nodup :=
    (hcolumns.map Prod.fst).nodup_iff.mpr hdistinct
  rw [unflatten_of_placeAll? hseparator hout, flatten_of_nodup hkeys]
  exact hcolumns

end Inverse

/-- **Flat rows and nested rows.**  A row whose names, at the top and in nested rows, do not hold
the separating character is read back from its flat form, with all fields in their order.  A row
without nested fields, in which no name has a path that leads through the end of another one's, has
the columns that are written of what is read from it. -/
theorem Row.flatten_inverse :
    (∀ (c : Char) (row : Row), row.DeeplyDistinct →
      (∀ path ∈ (Value.object row).paths, ∀ name ∈ path, c ∉ name.toList) →
      unflatten (String.singleton c) (flatten (String.singleton c) row) = row) ∧
    ∀ (separator : String) (row : Row), separator ≠ "" → row.NamesDistinct →
      (∀ column ∈ row, column.2.isEnd = true) →
      (∀ name ∈ Table.keys row, ∀ other ∈ Table.keys row,
        ¬ IsAbove (Text.path name separator) (Text.path other separator)) →
      (flatten separator (unflatten separator row)).Perm row :=
  ⟨fun _ _ hdistinct hnames => unflatten_flatten hdistinct hnames,
    fun _ _ hseparator hdistinct hends hpaths =>
      flatten_unflatten hseparator hdistinct hends hpaths⟩

/-- An order with an empty name, null and a nested row without fields. -/
def nestedOrder : Row :=
  [("id", .integer 1), ("by", .object [("", .null), ("at", .object [])]), ("", .string "new")]

/-- The columns of an order, those of the buyer apart from each other. -/
def scatteredOrder : Row :=
  [("by.name", .string "Bob"), ("id", .integer 1), ("by.", .null), (".", .object [])]

/-- The nested order comes back as it was, the columns of the other one in another order. -/
theorem Row.flatten_inverse_orders :
    (nestedOrder.DeeplyDistinct ∧
      (∀ path ∈ (Value.object nestedOrder).paths, ∀ name ∈ path, '.' ∉ name.toList) ∧
      unflatten "." (flatten "." nestedOrder) = nestedOrder) ∧
    scatteredOrder.NamesDistinct ∧ (∀ column ∈ scatteredOrder, column.2.isEnd = true) ∧
    (∀ name ∈ Table.keys scatteredOrder, ∀ other ∈ Table.keys scatteredOrder,
      ¬ IsAbove (Text.path name ".") (Text.path other ".")) ∧
    (flatten "." (unflatten "." scatteredOrder)).Perm scatteredOrder ∧
    flatten "." (unflatten "." scatteredOrder) ≠ scatteredOrder := by
  have hdistinct : nestedOrder.DeeplyDistinct := by decide
  have hnames : ∀ path ∈ (Value.object nestedOrder).paths, ∀ name ∈ path,
      '.' ∉ name.toList := by decide
  have hcolumns : scatteredOrder.NamesDistinct := by decide
  have hends : ∀ column ∈ scatteredOrder, column.2.isEnd = true := by decide
  have hpaths : ∀ name ∈ Table.keys scatteredOrder, ∀ other ∈ Table.keys scatteredOrder,
      ¬ IsAbove (Text.path name ".") (Text.path other ".") := by decide
  have hwritten : flatten "." (unflatten "." scatteredOrder) =
      [("by.name", .string "Bob"), ("by.", .null), ("id", .integer 1), (".", .object [])] := by cbv
  refine ⟨⟨hdistinct, hnames, Row.flatten_inverse.1 '.' nestedOrder hdistinct hnames⟩, hcolumns,
    hends, hpaths, Row.flatten_inverse.2 "." scatteredOrder (by decide) hcolumns hends hpaths, ?_⟩
  rw [hwritten]
  exact fun h => absurd (congrArg Table.keys h) (by decide)

end QueryTerms
