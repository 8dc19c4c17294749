import QueryTerms.Proofs.Row.Overlay

/-!
# Where a merge fails

A merge goes through the fields of the source in order and, in each of them, through the nested rows
that both sides have.  It stops where a nested row meets a value that is neither a nested row nor
null.

**Paths.**  `Value.lookup?` follows field names through nested rows, and `Value.paths` lists the
paths of a value depth first, in the order of the fields (`mem_paths_iff`).

**Conflicts.**  Whether rows clash at a path does not depend on what has been merged before, so that
a merge stops at the first path of the source at which they do (`conflict_mergeValue`).

**Merged rows.**  A merge without conflicts is an overlay; `lookup?_overlay` reads it along paths.
`Row.merge_along_paths` says all of this about two rows.
-/

namespace QueryTerms

/-! ## Paths -/

/-- What stands at a path of field names through nested rows. -/
def Value.lookup? : Value → List String → Option Value
  | value, [] => some value
  | .object fields, name :: rest => (Table.get? name fields).bind fun inner => inner.lookup? rest
  | _, _ :: _ => none

mutual

/-- The paths of a value, depth first: that of the value itself, then those through its fields. -/
def Value.paths : Value → List (List String)
  | .object fields => [] :: fieldPaths fields
  | _ => [[]]

/-- The paths through the fields of a row, in order. -/
def fieldPaths : List (String × Value) → List (List String)
  | [] => []
  | (name, value) :: rest => value.paths.map (name :: ·) ++ fieldPaths rest

end

/-- What stands at a path of field names, from a row on. -/
def Row.lookup? (row : Row) (path : List String) : Option Value := (Value.object row).lookup? path

section Paths

variable {value found : Value} {path : List String}

lemma Value.lookup?_nil (value : Value) : value.lookup? [] = some value := by
  cases value <;> rfl

lemma Value.lookup?_object_cons (fields : Row) (name : String) (rest : List String) :
    (Value.object fields).lookup? (name :: rest) =
      (fields.get? name).bind fun inner => inner.lookup? rest := rfl

/-- Only a nested row has fields. -/
lemma Value.exists_object_of_lookup?_cons {name : String} {rest : List String}
    (h : value.lookup? (name :: rest) = some found) :
    ∃ fields inner, value = .object fields ∧ Table.get? name fields = some inner ∧
      inner.lookup? rest = some found := by
  cases value with
  | object fields =>
    obtain ⟨inner, hinner, hrest⟩ := Option.bind_eq_some_iff.mp h
    exact ⟨fields, inner, rfl, hinner, hrest⟩
  | _ => cases h

lemma Value.exists_object_of_lookup? {fields : Row}
    (h : value.lookup? path = some (.object fields)) : ∃ own, value = .object own := by
  cases path with
  | nil =>
    rw [lookup?_nil] at h
    exact ⟨fields, Option.some.inj h⟩
  | cons name rest =>
    obtain ⟨own, -, hown, -⟩ := exists_object_of_lookup?_cons h
    exact ⟨own, hown⟩

lemma Value.lookup?_append (value : Value) (path more : List String) :
    value.lookup? (path ++ more) = (value.lookup? path).bind fun inner => inner.lookup? more := by
  induction path generalizing value with
  | nil => rw [List.nil_append, lookup?_nil, Option.bind_some]
  | cons name rest ih =>
    cases value with
    | object fields =>
      rw [List.cons_append, lookup?_object_cons, lookup?_object_cons, Option.bind_assoc]
      exact Option.bind_congr fun inner _ => ih inner
    | _ => rfl

lemma Value.deeplyDistinct_of_get? {fields : Row} {name : String}
    (h : (Value.object fields).deeplyDistinct = true) (hget : fields.get? name = some value) :
    value.deeplyDistinct = true :=
  (Row.deeplyDistinct_iff.mp h).2 value (Table.mem_values_of_get?_eq_some hget)

lemma Value.deeplyDistinct_of_lookup? (h : value.deeplyDistinct = true)
    (hfound : value.lookup? path = some found) : found.deeplyDistinct = true := by
  induction path generalizing value with
  | nil =>
    rw [lookup?_nil, Option.some.injEq] at hfound
    exact hfound ▸ h
  | cons name rest ih =>
    obtain ⟨fields, inner, rfl, hget, hrest⟩ := exists_object_of_lookup?_cons hfound
    exact ih (deeplyDistinct_of_get? h hget) hrest

lemma fieldPaths_eq_flatMap (fields : List (String × Value)) :
    fieldPaths fields = fields.flatMap fun entry => entry.2.paths.map (entry.1 :: ·) := by
  induction fields with
  | nil => rfl
  | cons entry rest ih =>
    obtain ⟨name, value⟩ := entry
    rw [fieldPaths, ih, List.flatMap_cons]

lemma ne_nil_of_mem_fieldPaths {fields : List (String × Value)} (h : path ∈ fieldPaths fields) :
    path ≠ [] := by
  rw [fieldPaths_eq_flatMap] at h
  obtain ⟨entry, -, hpath⟩ := List.mem_flatMap.mp h
  obtain ⟨rest, -, rfl⟩ := List.mem_map.mp hpath
  exact List.cons_ne_nil _ _

/-- **The listed paths are those that lead somewhere.** -/
theorem mem_paths_iff (h : value.deeplyDistinct = true) :
    path ∈ value.paths ↔ (value.lookup? path).isSome := by
  induction value using Value.induction_on_fields generalizing path with
  | plain value hplain =>
    cases value with
    | object fields => cases hplain
    | _ => cases path <;> simp [Value.paths, Value.lookup?]
  | object fields ih =>
    cases path with
    | nil => simp [Value.paths, Value.lookup?_nil]
    | cons name rest =>
      have hnames := (Row.deeplyDistinct_iff.mp h).1
      rw [Value.paths, List.mem_cons, or_iff_right (List.cons_ne_nil _ _), fieldPaths_eq_flatMap,
        List.mem_flatMap, Value.lookup?_object_cons]
      constructor
      · rintro ⟨⟨other, inner⟩, hentry, hpath⟩
        obtain ⟨tail, htail, heq⟩ := List.mem_map.mp hpath
        obtain ⟨rfl, rfl⟩ := List.cons.inj heq
        have hget := (Table.get?_eq_some_iff_mem hnames).mpr hentry
        rw [hget, Option.bind_some]
        exact (ih _ hentry (Value.deeplyDistinct_of_get? h hget)).mp htail
      · intro hsome
        obtain ⟨found, hfound⟩ := Option.isSome_iff_exists.mp hsome
        obtain ⟨inner, hget, hrest⟩ := Option.bind_eq_some_iff.mp hfound
        have hentry := (Table.get?_eq_some_iff_mem hnames).mp hget
        refine ⟨(name, inner), hentry, List.mem_map.mpr ⟨rest, ?_, rfl⟩⟩
        exact (ih _ hentry (Value.deeplyDistinct_of_get? h hget)).mpr
          (Option.isSome_of_eq_some hrest)

end Paths

/-! ## Conflicts -/

/-- One of the values is a nested row, the other one neither a nested row nor null. -/
def Value.clashes (x y : Value) : Bool :=
  (x.isObject && !y.isObject && !y.isNull) || (y.isObject && !x.isObject && !x.isNull)

/-- The values clash that two values hold at a path. -/
def Value.clashesAt (x y : Value) (path : List String) : Bool :=
  match x.lookup? path, y.lookup? path with
  | some inner, some other => inner.clashes other
  | _, _ => false

/-- The values clash that two rows hold at a path. -/
def Row.clashesAt (target source : Row) (path : List String) : Bool :=
  (Value.object target).clashesAt (.object source) path

section Conflicts

variable {target source : Row}

lemma Value.clashesAt_nil (x y : Value) : x.clashesAt y [] = x.clashes y := by
  rw [clashesAt, lookup?_nil, lookup?_nil]

lemma Value.clashesAt_self (value : Value) (path : List String) :
    value.clashesAt value path = false := by
  rw [clashesAt]
  cases value.lookup? path with
  | none => rfl
  | some inner => cases inner <;> rfl

lemma Value.clashesAt_cons_of_none {name : String} (h : target.get? name = none) (y : Value)
    (path : List String) : (Value.object target).clashesAt y (name :: path) = false := by
  rw [clashesAt, lookup?_object_cons, h, Option.bind_none]

lemma Value.clashesAt_cons_of_some {name : String} {x y : Value} (hx : target.get? name = some x)
    (hy : source.get? name = some y) (path : List String) :
    (Value.object target).clashesAt (.object source) (name :: path) = x.clashesAt y path := by
  rw [clashesAt, lookup?_object_cons, lookup?_object_cons, hx, hy, Option.bind_some,
    Option.bind_some, clashesAt]

/-- A value that is no nested row clashes nowhere below itself. -/
lemma Value.clashesAt_cons_of_plain {x y : Value} (h : x.isObject = false ∨ y.isObject = false)
    (name : String) (rest : List String) : x.clashesAt y (name :: rest) = false := by
  have hnone : ∀ value : Value, value.isObject = false → value.lookup? (name :: rest) = none := by
    intro value hplain
    cases value with
    | object fields => cases hplain
    | _ => rfl
  rw [clashesAt]
  rcases h with hx | hy
  · rw [hnone x hx]
  · rw [hnone y hy]
    cases x.lookup? (name :: rest) <;> rfl

lemma find?_clashesAt_of_plain {x y : Value} (h : x.isObject = false ∨ y.isObject = false) :
    y.paths.find? (x.clashesAt y) = if x.clashes y then some [] else none := by
  obtain ⟨below, hpaths, hbelow⟩ : ∃ below, y.paths = [] :: below ∧ ∀ path ∈ below, path ≠ [] := by
    cases y with
    | object fields => exact ⟨fieldPaths fields, rfl, fun _ => ne_nil_of_mem_fieldPaths⟩
    | _ => exact ⟨[], rfl, nofun⟩
  have hnone : below.find? (x.clashesAt y) = none := by
    refine List.find?_eq_none.mpr ?_
    intro path hpath
    cases path with
    | nil => exact absurd rfl (hbelow [] hpath)
    | cons name rest => rw [Value.clashesAt_cons_of_plain h]; exact Bool.false_ne_true
  rw [hpaths, List.find?_cons, Value.clashesAt_nil, hnone]
  cases x.clashes y <;> rfl

/-- In the field of a name, rows clash where the two values of that field do. -/
lemma find?_clashesAt_field {name : String} {incoming : Value}
    (h : source.get? name = some incoming) :
    (incoming.paths.map (name :: ·)).find? (target.clashesAt source) =
      (target.get? name).bind fun existing =>
        (incoming.paths.find? (existing.clashesAt incoming)).map (name :: ·) := by
  rw [List.find?_map]
  cases htarget : target.get? name with
  | none =>
    rw [Option.bind_none, Option.map_eq_none_iff, List.find?_eq_none]
    intro path _
    rw [Function.comp_apply, Row.clashesAt, Value.clashesAt_cons_of_none htarget]
    exact Bool.false_ne_true
  | some existing =>
    rw [Option.bind_some]
    congr 2
    funext path
    exact Value.clashesAt_cons_of_some htarget h path

lemma findSome?_congr_mem {α β : Type} {f g : α → Option β} {items : List α}
    (h : ∀ item ∈ items, f item = g item) : items.findSome? f = items.findSome? g := by
  induction items with
  | nil => rfl
  | cons item rest ih =>
    rw [List.forall_mem_cons] at h
    rw [List.findSome?_cons, List.findSome?_cons, h.1, ih h.2]

/-- A merge stops at the first field that stops it; what was merged before is in other fields. -/
lemma conflict_mergeFields (h : source.NamesDistinct) :
    (mergeFields target source).2 = source.findSome? fun entry =>
      (target.get? entry.1).bind fun existing => (mergeValue entry.1 existing entry.2).2 := by
  induction source generalizing target with
  | nil => rw [mergeFields, List.findSome?_nil]
  | cons entry rest ih =>
    obtain ⟨field, incoming⟩ := entry
    obtain ⟨hfield, hrest⟩ := List.nodup_cons.mp h
    have hlater : ∀ value : Value, (mergeFields (target.set field value) rest).2 =
        rest.findSome? fun entry =>
          (target.get? entry.1).bind fun existing => (mergeValue entry.1 existing entry.2).2 := by
      intro value
      rw [ih hrest]
      refine findSome?_congr_mem fun entry hentry => ?_
      have hmem : entry.1 ∈ Table.keys rest := List.mem_map_of_mem hentry
      have hother : field ≠ entry.1 := fun heq => hfield (heq ▸ hmem)
      rw [Table.get?_set, if_neg hother]
    rw [mergeFields, List.findSome?_cons]
    cases hget : target.get? field with
    | none => exact hlater incoming
    | some existing =>
      simp only [Option.bind_some]
      cases hvalue : mergeValue field existing incoming with
      | mk value conflict =>
        cases conflict with
        | none => exact hlater value
        | some conflict => rfl

/-- Where one of two values is no nested row, a merge stops if they clash. -/
lemma conflict_mergeValue_of_plain {existing incoming : Value} (field : String)
    (h : existing.isObject = false ∨ incoming.isObject = false) :
    (mergeValue field existing incoming).2 =
      (incoming.paths.find? (existing.clashesAt incoming)).map fun path =>
        path.getLastD field := by
  have hvalue : (mergeValue field existing incoming).2 =
      if existing.clashes incoming then some field else none := by
    cases incoming with
    | object source =>
      cases existing with
      | object target => simp [Value.isObject] at h
      | _ => simp [mergeValue, Value.clashes, Value.isObject, Value.isNull]
    | _ => cases existing <;> simp [mergeValue, Value.clashes, Value.isObject, Value.isNull]
  rw [hvalue, find?_clashesAt_of_plain h]
  split <;> rfl

/-- **The first conflict of a merge** is at the first path of the source at which the two sides
clash; it is named after the last field of that path. -/
theorem conflict_mergeValue {existing incoming : Value} (field : String)
    (h : incoming.deeplyDistinct = true) :
    (mergeValue field existing incoming).2 =
      (incoming.paths.find? (existing.clashesAt incoming)).map fun path =>
        path.getLastD field := by
  induction incoming using Value.induction_on_fields generalizing field existing with
  | plain incoming hplain => exact conflict_mergeValue_of_plain field (.inr hplain)
  | object source ih =>
    cases hexisting : existing.isObject with
    | false => exact conflict_mergeValue_of_plain field (.inl hexisting)
    | true =>
      obtain ⟨target, rfl⟩ := Value.isObject_iff.mp hexisting
      have hnames := (Row.deeplyDistinct_iff.mp h).1
      have hrow : (mergeValue field (.object target) (.object source)).2 =
          (mergeFields target source).2 := by
        rw [mergeValue]
      have hself : ¬ Row.clashesAt target source [] = true := by
        rw [Row.clashesAt, Value.clashesAt_nil]
        exact Bool.false_ne_true
      change _ = Option.map _ (List.find? (Row.clashesAt target source) _)
      rw [hrow, conflict_mergeFields hnames, Value.paths, List.find?_cons_of_neg hself,
        fieldPaths_eq_flatMap, List.find?_flatMap, List.map_findSome?]
      refine findSome?_congr_mem fun entry hentry => ?_
      obtain ⟨name, incoming⟩ := entry
      have hsource := (Table.get?_eq_some_iff_mem hnames).mpr hentry
      rw [Function.comp_apply, find?_clashesAt_field hsource]
      cases Table.get? name target with
      | none => rfl
      | some existing =>
        rw [Option.bind_some, Option.bind_some, Option.map_map,
          ih _ hentry name (Value.deeplyDistinct_of_get? h hsource)]
        congr 1
        funext path
        rw [Function.comp_apply, List.getLastD_cons]

lemma clashesAt_nil (target source : Row) : target.clashesAt source [] = false := by
  rw [Row.clashesAt, Value.clashesAt_nil]
  rfl

/-- Rows clash at paths of the source only. -/
lemma mem_fieldPaths_of_clashesAt {path : List String} (hs : source.DeeplyDistinct)
    (h : target.clashesAt source path = true) : path ∈ fieldPaths source := by
  have hpath : path ∈ (Value.object source).paths := by
    refine (mem_paths_iff hs).mpr ?_
    rw [Row.clashesAt, Value.clashesAt] at h
    cases hfound : (Value.object source).lookup? path with
    | some found => rfl
    | none =>
      rw [hfound] at h
      cases hother : (Value.object target).lookup? path <;> simp [hother] at h
  rw [Value.paths, List.mem_cons] at hpath
  rcases hpath with rfl | hpath
  · rw [clashesAt_nil] at h
    cases h
  · exact hpath

lemma conflict_rows (hs : source.DeeplyDistinct) : (mergeFields target source).2 =
    ((fieldPaths source).find? (target.clashesAt source)).map fun path => path.getLastD "" := by
  have hvalue : (mergeValue "" (.object target) (.object source)).2 = _ :=
    conflict_mergeValue "" hs
  have hself : ¬ target.clashesAt source [] = true := by
    rw [clashesAt_nil]
    exact Bool.false_ne_true
  change _ = Option.map _ (([] :: fieldPaths source).find? (target.clashesAt source)) at hvalue
  rw [mergeValue, List.find?_cons_of_neg hself] at hvalue
  exact hvalue

lemma merge_eq_error_iff_conflict {error : QueryError} :
    target.merge source = .error error ↔
      ∃ field, (mergeFields target source).2 = some field ∧ error = .fieldConflict field := by
  rw [Row.merge]
  cases mergeFields target source with
  | mk row conflict =>
    cases conflict with
    | none => simp
    | some field => simp [eq_comm]

/-- **A merge fails with the first conflict**, the first path at which the rows clash. -/
theorem merge_eq_error_iff (hs : source.DeeplyDistinct) {error : QueryError} :
    target.merge source = .error error ↔
      ∃ before path after name, fieldPaths source = before ++ path :: after ∧
        target.clashesAt source path = true ∧
        (∀ earlier ∈ before, target.clashesAt source earlier = false) ∧
        path.getLast? = some name ∧ error = .fieldConflict name := by
  rw [merge_eq_error_iff_conflict, conflict_rows hs]
  constructor
  · rintro ⟨field, hfield, rfl⟩
    obtain ⟨path, hfind, hname⟩ := Option.map_eq_some_iff.mp hfield
    obtain ⟨hclash, before, after, hsplit, hbefore⟩ := List.find?_eq_some_iff_append.mp hfind
    refine ⟨before, path, after, field, hsplit, hclash, ?_, ?_, rfl⟩
    · intro earlier hearlier
      simpa using hbefore earlier hearlier
    · have hpath : path ∈ fieldPaths source := mem_fieldPaths_of_clashesAt hs hclash
      rw [← hname, List.getLastD_eq_getLast?, List.getLast?_eq_some_getLast
        (ne_nil_of_mem_fieldPaths hpath), Option.getD_some]
  · rintro ⟨before, path, after, name, hsplit, hclash, hbefore, hname, rfl⟩
    refine ⟨name, Option.map_eq_some_iff.mpr ⟨path, ?_, ?_⟩, rfl⟩
    · refine List.find?_eq_some_iff_append.mpr ⟨hclash, before, after, hsplit, ?_⟩
      intro earlier hearlier
      simpa using hbefore earlier hearlier
    · rw [List.getLastD_eq_getLast?, hname, Option.getD_some]

lemma exists_merge_eq_ok_iff (hs : source.DeeplyDistinct) :
    (∃ merged, target.merge source = .ok merged) ↔
      ∀ path, target.clashesAt source path = false := by
  have hok : (∃ merged, target.merge source = .ok merged) ↔
      (mergeFields target source).2 = none := by
    rw [Row.merge]
    cases mergeFields target source with
    | mk row conflict => cases conflict <;> simp
  rw [hok, conflict_rows hs, Option.map_eq_none_iff, List.find?_eq_none]
  constructor
  · intro h path
    rw [← Bool.not_eq_true]
    exact fun hclash => h path (mem_fieldPaths_of_clashesAt hs hclash) hclash
  · intro h path _
    rw [h path]
    exact Bool.false_ne_true

end Conflicts

/-! ## Merged rows -/

section Merged

variable {target source : Row}

lemma keys_overlay_of_distinct (ht : target.NamesDistinct) (hs : source.NamesDistinct) :
    Table.keys (overlay target source) =
      target.keys ++ source.keys.filter fun name => name ∉ target.keys := by
  rw [keys_overlay ht, List.eraseDups_append, Table.eraseDups_of_nodup ht, List.removeAll,
    Table.eraseDups_of_nodup (hs.filter _)]
  simp

/-- Where both rows have nested rows, the overlay has the overlay of these. -/
lemma lookup?_overlay {path : List String} {t s : Row} (hs : source.DeeplyDistinct)
    (htarget : target.lookup? path = some (.object t))
    (hsource : source.lookup? path = some (.object s)) :
    Row.lookup? (overlay target source) path = some (.object (overlay t s)) := by
  induction path generalizing target source with
  | nil =>
    cases htarget
    cases hsource
    rfl
  | cons name rest ih =>
    obtain ⟨x, hx, hinner⟩ := Option.bind_eq_some_iff.mp htarget
    obtain ⟨y, hy, hother⟩ := Option.bind_eq_some_iff.mp hsource
    obtain ⟨inner, rfl⟩ := Value.exists_object_of_lookup? hinner
    obtain ⟨other, rfl⟩ := Value.exists_object_of_lookup? hother
    refine Option.bind_eq_some_iff.mpr ⟨.object (overlay inner other), ?_, ?_⟩
    · rw [get?_overlay (Row.deeplyDistinct_iff.mp hs).1, hx, hy, Option.merge_some_some,
        overlayValue_object]
    · exact ih (Value.deeplyDistinct_of_get? hs hy) hinner hother

/-- A value that is laid over itself stays as it is. -/
lemma overlayValue_self {value : Value} (h : value.deeplyDistinct = true) :
    overlayValue value value = value := by
  induction value using Value.induction_on_fields with
  | plain value hplain =>
    rw [overlayValue_of_plain hplain, hplain, if_neg Bool.false_ne_true]
  | object fields ih =>
    have hnames := (Row.deeplyDistinct_iff.mp h).1
    have hkeys : Table.keys (overlay fields fields) = Table.keys fields := by
      rw [keys_overlay_of_distinct hnames hnames, List.filter_eq_nil_iff.mpr, List.append_nil]
      simp
    rw [overlayValue_object, Value.object.injEq]
    refine Table.ext_get? ?_ hkeys fun name => ?_
    · rw [hkeys]
      exact hnames
    · rw [get?_overlay hnames]
      cases hget : Table.get? name fields with
      | none => rfl
      | some value =>
        have hentry := (Table.get?_eq_some_iff_mem hnames).mp hget
        rw [Option.merge_some_some, ih _ hentry (Value.deeplyDistinct_of_get? h hget)]

/-- Without a conflict, a nested row that is not met by another one is met by null. -/
lemma overlayValue_of_not_clashes {x y : Value} (h : x.clashes y = false)
    (hone : ¬ (x.isObject = true ∧ y.isObject = true)) :
    overlayValue x y = if x.isObject && y.isNull then x else y := by
  cases hy : y.isObject with
  | true =>
    obtain ⟨source, rfl⟩ := Value.isObject_iff.mp hy
    have hx : x.isObject = false := by
      rw [← Bool.not_eq_true]
      exact fun hx => hone ⟨hx, hy⟩
    rw [overlayValue_object_of_plain hx, hx, Bool.false_and, if_neg Bool.false_ne_true]
  | false =>
    rw [overlayValue_of_plain hy]
    cases hx : x.isObject with
    | false => rfl
    | true =>
      have hnull : y.isNull = true := by
        simpa [Value.clashes, hx, hy] using h
      rw [hnull]
      rfl

/-- A merged row at a path at which both rows have nested rows. -/
lemma merged_at_path {merged t s : Row} {path : List String} (hs : source.DeeplyDistinct)
    (h : target.merge source = .ok merged)
    (htarget : target.lookup? path = some (.object t))
    (hsource : source.lookup? path = some (.object s)) :
    Row.lookup? merged path = some (.object (overlay t s)) ∧
      ∀ name x y, t.get? name = some x → s.get? name = some y → x.clashes y = false := by
  rw [← overlay_of_merge h]
  refine ⟨lookup?_overlay hs htarget hsource, fun name x y hx hy => ?_⟩
  have hclear := (exists_merge_eq_ok_iff hs).mp ⟨merged, h⟩ (path ++ [name])
  have hboth : ∀ row inner : Row, ∀ value, row.lookup? path = some (.object inner) →
      inner.get? name = some value → row.lookup? (path ++ [name]) = some value := by
    intro row inner value hinner hvalue
    rw [Row.lookup?, Value.lookup?_append, ← Row.lookup?, hinner, Option.bind_some,
      Value.lookup?_object_cons, hvalue, Option.bind_some, Value.lookup?_nil]
  have hfound := hboth target t x htarget hx
  have hother := hboth source s y hsource hy
  rw [Row.lookup?] at hfound hother
  rw [Row.clashesAt, Value.clashesAt, hfound, hother] at hclear
  exact hclear

lemma merge_self (h : target.DeeplyDistinct) : target.merge target = .ok target := by
  obtain ⟨merged, hmerged⟩ := (exists_merge_eq_ok_iff h).mpr fun path =>
    Value.clashesAt_self (.object target) path
  have hself : overlayValue (.object target) (.object target) = .object target :=
    overlayValue_self h
  rw [overlayValue_object, Value.object.injEq, overlay_of_merge hmerged] at hself
  rw [hmerged, hself]

end Merged

/-- **What a merge does, path by path.**  It fails if there is a path through nested rows of both
sides to a nested row on one side and a value on the other that is neither a nested row nor null,
and the error names the last field of the first such path.  Else the merged row has a nested row at
each path where both sides have one: with the fields of the target and then the new ones of the
source, each with the only value there is or, for a common field, with the source's value, unless
that is null and the target's a nested row.  Merging a row into itself changes nothing. -/
theorem Row.merge_along_paths {target source : Row} (ht : target.DeeplyDistinct)
    (hs : source.DeeplyDistinct) :
    ((∃ error, target.merge source = .error error) ↔
      ∃ path, target.clashesAt source path = true) ∧
    (∀ error, target.merge source = .error error ↔
      ∃ before path after name, fieldPaths source = before ++ path :: after ∧
        target.clashesAt source path = true ∧
        (∀ earlier ∈ before, target.clashesAt source earlier = false) ∧
        path.getLast? = some name ∧ error = .fieldConflict name) ∧
    (∀ merged, target.merge source = .ok merged → ∀ (path : List String) (t s : Row),
      target.lookup? path = some (.object t) → source.lookup? path = some (.object s) →
      ∃ m : Row, Row.lookup? merged path = some (.object m) ∧
        m.keys = t.keys ++ s.keys.filter (fun name => name ∉ t.keys) ∧
        (∀ name, s.get? name = none → m.get? name = t.get? name) ∧
        (∀ name, t.get? name = none → m.get? name = s.get? name) ∧
        ∀ name x y, t.get? name = some x → s.get? name = some y →
          ¬ (x.isObject = true ∧ y.isObject = true) →
          m.get? name = some (if x.isObject && y.isNull then x else y)) ∧
    target.merge target = .ok target := by
  refine ⟨?_, fun error => merge_eq_error_iff hs, ?_, merge_self ht⟩
  · constructor
    · rintro ⟨error, herror⟩
      obtain ⟨_, path, _, _, _, hclash, _⟩ := (merge_eq_error_iff hs).mp herror
      exact ⟨path, hclash⟩
    · rintro ⟨path, hclash⟩
      cases hmerge : target.merge source with
      | error error => exact ⟨error, rfl⟩
      | ok merged =>
        rw [(exists_merge_eq_ok_iff hs).mp ⟨merged, hmerge⟩ path] at hclash
        cases hclash
  · intro merged hmerged path t s htarget hsource
    obtain ⟨hlookup, hclear⟩ := merged_at_path hs hmerged htarget hsource
    have htNames := (Row.deeplyDistinct_iff.mp (Value.deeplyDistinct_of_lookup? ht htarget)).1
    have hsNames := (Row.deeplyDistinct_iff.mp (Value.deeplyDistinct_of_lookup? hs hsource)).1
    refine ⟨overlay t s, hlookup, keys_overlay_of_distinct htNames hsNames, ?_, ?_, ?_⟩
    · intro name hnone
      rw [get?_overlay hsNames, hnone, Option.merge_none_right]
    · intro name hnone
      rw [get?_overlay hsNames, hnone, Option.merge_none_left]
    · intro name x y hx hy hone
      rw [get?_overlay hsNames, hx, hy, Option.merge_some_some,
        overlayValue_of_not_clashes (hclear name x y hx hy) hone]

/-- The address inside the user clashes before the total outside does. -/
theorem Row.merge_along_paths_users :
    let target : Row := [("total", .object []),
      ("user", .object [("address", .object [("city", .string "x")]), ("name", .null)])]
    let source : Row := [("user", .object [("name", .object []), ("address", .integer 3)]),
      ("total", .integer 7)]
    target.merge source = .error (.fieldConflict "address") ∧ target.merge target = .ok target := by
  intro target source
  have ht : target.DeeplyDistinct := by decide
  have hs : source.DeeplyDistinct := by decide
  have hmerge := merge_along_paths ht hs
  refine ⟨(hmerge.2.1 _).mpr ?_, hmerge.2.2.2⟩
  exact ⟨[["user"], ["user", "name"]], ["user", "address"], [["total"]], "address", rfl, rfl,
    by decide, rfl, rfl⟩

end QueryTerms
