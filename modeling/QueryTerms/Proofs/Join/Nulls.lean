import Mathlib
import QueryTerms.Proofs.Join.Attach
import QueryTerms.Proofs.Join.Nest

/-!
# What null joins with

Keys are compared by their text, and null has no text: it has the key of empty text.  Null is left
out of what an operand is asked for, but not of what its rows are looked up under.

**Keys without text.**  `HasBlankKey` says that a row has the key of null, `NoneBlank` that no row
of an operand has.

**Left joins.**  A row that `MeetsNone` of the operands' rows comes out as it was.  Where its key is
null it meets none exactly if none has the key of null: `meetsNone_iff`.

**Trees.**  `nestAll` is the passage of one row through the children of a tree.  A field for which
the join value is null holds no rows exactly if none has the key of null:
`get?_nestAll_eq_nil_iff`.

**Nodes.**  `Node.run_null_joins_iff` says both of the nodes of a query, and
`Node.run_null_joins_blank` has a row that null joins with.
-/

namespace QueryTerms

/-! ## Keys without text -/

/-- The row has the key that null has. -/
def HasBlankKey (fields : KeyFields) (row : Row) : Prop :=
  KeyValue.ofRow? fields row = some (.ofValue .null)

instance (fields : KeyFields) (row : Row) : Decidable (HasBlankKey fields row) :=
  inferInstanceAs (Decidable (_ = _))

/-- No row has the key that null has. -/
def NoneBlank (fields : KeyFields) (rows : List Row) : Prop :=
  ∀ row ∈ rows, ¬ HasBlankKey fields row

instance (fields : KeyFields) (rows : List Row) : Decidable (NoneBlank fields rows) :=
  inferInstanceAs (Decidable (∀ row ∈ rows, ¬ HasBlankKey fields row))

/-- One field backs the key, and it is null. -/
def HasNullKey (fields : KeyFields) (row : Row) : Prop :=
  ∃ field, fields = .single field ∧ row.get? field = some .null

section Blank

variable {fields : KeyFields} {row : Row} {rows : List Row}

lemma HasNullKey.hasBlankKey (h : HasNullKey fields row) : HasBlankKey fields row := by
  obtain ⟨field, rfl, hnull⟩ := h
  rw [HasBlankKey, KeyValue.ofRow?, KeyFields.valueOf, hnull, Option.map_some]

lemma rowsWith_null_eq_nil_iff :
    rowsWith fields (.ofValue .null) rows = [] ↔ NoneBlank fields rows := by
  rw [rowsWith, List.filter_eq_nil_iff]
  simp only [decide_eq_true_eq]
  rfl

lemma blank_notMem_keys_iff {node : String} {table : Table KeyValue Row}
    (h : associate fields node rows = .ok table) :
    KeyValue.ofValue .null ∉ table.keys ↔ NoneBlank fields rows := by
  rw [mem_keys_associate h, not_exists]
  simp only [not_and]
  rfl

end Blank

/-! ## Left joins -/

/-- The row meets no row on its way through the operands. -/
def MeetsNone (fields : KeyFields) (lookups : List (Table KeyValue Row)) (row : Row) : Prop :=
  partnersAlong fields lookups row = .ok (lookups.map fun _ => none)

section Attach

variable {fields : KeyFields} {lookups : List (Table KeyValue Row)} {row out : Row}

lemma meetsNone_cons_iff {lookup : Table KeyValue Row} :
    MeetsNone fields (lookup :: lookups) row ↔
      partner fields row lookup = none ∧ MeetsNone fields lookups row := by
  rw [MeetsNone, partnersAlong, attachRow_eq, List.map_cons]
  constructor
  · intro h
    obtain ⟨next, hnext, h⟩ := bind_eq_ok_iff.mp h
    obtain ⟨others, hothers, h⟩ := bind_eq_ok_iff.mp h
    obtain ⟨hpartner, rfl⟩ := List.cons.inj (Except.ok.inj h)
    rw [hpartner] at hnext
    cases hnext
    exact ⟨hpartner, hothers⟩
  · rintro ⟨hpartner, hrest⟩
    rw [hpartner]
    exact bind_eq_ok_iff.mpr ⟨row, rfl, bind_eq_ok_iff.mpr ⟨_, hrest, rfl⟩⟩

/-- Who meets none comes out as before. -/
lemma MeetsNone.eq (h : MeetsNone fields lookups row)
    (hout : lookups.foldlM (fun row lookup => attachRow fields lookup row) row = .ok out) :
    out = row := by
  induction lookups with
  | nil =>
    cases hout
    rfl
  | cons lookup rest ih =>
    obtain ⟨hpartner, hrest⟩ := meetsNone_cons_iff.mp h
    rw [List.foldlM_cons, attachRow_eq, hpartner] at hout
    exact ih hrest hout

/-- **Null meets what has its key.** -/
theorem meetsNone_iff (h : HasBlankKey fields row) :
    MeetsNone fields lookups row ↔ ∀ lookup ∈ lookups, KeyValue.ofValue .null ∉ lookup.keys := by
  induction lookups with
  | nil => exact ⟨fun _ _ hmem => (List.not_mem_nil hmem).elim, fun _ => rfl⟩
  | cons lookup rest ih =>
    rw [meetsNone_cons_iff, ih, List.forall_mem_cons, partner, h, Option.bind_some,
      Table.get?_eq_none_iff]

end Attach

/-! ## Trees -/

/-- A row in its passage through the children of a tree. -/
def nestAll (children : List (NestJoin × Table KeyValue (List Row))) (row : Row) : Row :=
  children.foldl (fun row child => nestRow child.1 child.2 row) row

section Tree

variable {join : NestJoin} {groups : Table KeyValue (List Row)} {row : Row}
  {children : List (NestJoin × Table KeyValue (List Row))}

/-- What a row with the key of null gets from one child. -/
lemma nestRow_of_hasBlankKey (h : HasBlankKey join.parent row) :
    nestRow join groups row = row.set join.field
      (.array (((groups.get? (.ofValue .null)).getD []).map fun child =>
        .object (join.child.strip child))) := by
  rw [nestRow, h, Option.bind_some]

lemma get?_nestAll_of_notMem {field : String}
    (h : ∀ child ∈ children, child.1.field ≠ field) (row : Row) :
    (nestAll children row).get? field = row.get? field := by
  induction children generalizing row with
  | nil => rfl
  | cons child rest ih =>
    obtain ⟨hchild, hrest⟩ := List.forall_mem_cons.mp h
    rw [nestAll, List.foldl_cons, ← nestAll, ih hrest, nestRow, Table.get?_set, if_neg hchild]

/-- **A child's field is empty where nothing has the key of null.**  No earlier child is nested into
the join field, and no later one into the child's own. -/
theorem get?_nestAll_eq_nil_iff {before after : List (NestJoin × Table KeyValue (List Row))}
    (hnull : HasNullKey join.parent row)
    (hbefore : ∀ earlier ∈ before, earlier.1.field ∉ join.parent.fields)
    (hafter : ∀ later ∈ after, later.1.field ≠ join.field) :
    (nestAll (before ++ (join, groups) :: after) row).get? join.field = some (.array []) ↔
      (groups.get? (.ofValue .null)).getD [] = [] := by
  obtain ⟨field, hfield, hrow⟩ := hnull
  rw [hfield] at hbefore
  have harrives : HasBlankKey join.parent (nestAll before row) := by
    refine HasNullKey.hasBlankKey ⟨field, hfield, ?_⟩
    rw [get?_nestAll_of_notMem, hrow]
    intro earlier hearlier heq
    exact hbefore earlier hearlier (heq ▸ List.mem_singleton_self _)
  have hsplit : nestAll (before ++ (join, groups) :: after) row =
      nestAll after (nestRow join groups (nestAll before row)) := by
    simp only [nestAll, List.foldl_append, List.foldl_cons]
  rw [hsplit, get?_nestAll_of_notMem hafter, nestRow_of_hasBlankKey harrives, Table.get?_set,
    if_pos rfl, Option.some.injEq, Value.array.injEq, List.map_eq_nil_iff]

/-- A row with the key of null at every join keeps it, as empty lists have it too. -/
theorem get?_nestAll_of_hasBlankKey (hrow : ∀ child ∈ children, ∃ field,
      child.1.parent = .single field ∧ HasBlankKey (.single field) row)
    (hnone : ∀ child ∈ children, (child.2.get? (.ofValue .null)).getD [] = []) :
    ∀ child ∈ children, (nestAll children row).get? child.1.field = some (.array []) := by
  induction children generalizing row with
  | nil => exact fun _ hmem => (List.not_mem_nil hmem).elim
  | cons child rest ih =>
    obtain ⟨⟨field, hfield, hblank⟩, hrestrow⟩ := List.forall_mem_cons.mp hrow
    obtain ⟨hempty, hrestnone⟩ := List.forall_mem_cons.mp hnone
    have hnext : nestRow child.1 child.2 row = row.set child.1.field (.array []) := by
      rw [nestRow_of_hasBlankKey (hfield ▸ hblank), hempty, List.map_nil]
    have hrest : ∀ other ∈ rest,
        (nestAll (child :: rest) row).get? other.1.field = some (.array []) := by
      intro other hother
      rw [nestAll, List.foldl_cons, ← nestAll, hnext]
      refine ih (fun later hlater => ?_) hrestnone other hother
      obtain ⟨parent, hparent, hkey⟩ := hrestrow later hlater
      refine ⟨parent, hparent, ?_⟩
      rw [HasBlankKey, KeyValue.ofRow?, KeyFields.valueOf, Table.get?_set]
      split
      · rfl
      · exact hkey
    refine List.forall_mem_cons.mpr ⟨?_, hrest⟩
    by_cases hagain : ∃ later ∈ rest, later.1.field = child.1.field
    · obtain ⟨later, hlater, heq⟩ := hagain
      exact heq ▸ hrest later hlater
    · have hafter : ∀ later ∈ rest, later.1.field ≠ child.1.field :=
        fun later hlater heq => hagain ⟨later, hlater, heq⟩
      rw [nestAll, List.foldl_cons, ← nestAll, hnext, get?_nestAll_of_notMem hafter,
        Table.get?_set, if_pos rfl]

/-- Visible fields are left alone when hidden ones are dropped. -/
lemma get?_dropHidden_of_not_isHidden {nested : List Nested} {field : String}
    (h : ¬ IsHidden (nested.map Nested.join) field) (row : Row) :
    (dropHidden nested row).get? field = row.get? field := by
  rw [dropHidden]
  induction nested generalizing row with
  | nil => rfl
  | cons child rest ih =>
    rw [List.map_cons, isHidden_cons, not_or] at h
    rw [List.foldl_cons, ih h.2]
    split
    · next hhidden =>
      exact KeyFields.get?_strip_of_notMem (fun hmem => h.1 ⟨hhidden, hmem⟩) row
    · rfl

/-- The loop over the children, row by row. -/
lemma foldlM_nestChild_eq_ok {name : String} {params : Params} {nested : List Nested}
    {rows next : List Row} {sent : List Statement}
    (h : nested.foldlM (nestChild name params) rows = ⟨.ok next, sent⟩) :
    ∃ answers : List (List Row × Table KeyValue (List Row)),
      List.Forall₂ (fun child answer =>
        (∃ values asked, child.operand.fetch (restrictedTo params child.join.param values) =
          ⟨.ok answer.1, asked⟩) ∧
        groupRows child.join.child child.operand.name answer.1 = .ok answer.2) nested answers ∧
      next = rows.map (nestAll ((nested.map Nested.join).zip (answers.map Prod.snd))) := by
  induction nested generalizing rows sent with
  | nil =>
    obtain ⟨rfl, -⟩ := Execution.pure_eq_ok_iff.mp h
    exact ⟨[], .nil, (List.map_id _).symm⟩
  | cons child rest ih =>
    rw [List.foldlM_cons] at h
    obtain ⟨filled, _, _, hchild, hrest, -⟩ := Execution.bind_eq_ok_iff.mp h
    obtain ⟨values, -, hasked⟩ := Execution.liftM_bind_eq_ok_iff.mp hchild
    obtain ⟨fetched, asked, _, hfetch, hfill, -⟩ := Execution.bind_eq_ok_iff.mp hasked
    obtain ⟨groups, hgroups, hfilled⟩ := Execution.liftM_bind_eq_ok_iff.mp hfill
    obtain ⟨rfl, -⟩ := Execution.pure_eq_ok_iff.mp hfilled
    obtain ⟨answers, hanswers, rfl⟩ := ih hrest
    refine ⟨(fetched, groups) :: answers, .cons ⟨⟨values, asked, hfetch⟩, hgroups⟩ hanswers, ?_⟩
    rw [List.map_map]
    rfl

end Tree

/-! ## Operands -/

section Rows

variable {params : Params} {sent : List Statement} {out : List Row}

/-- What a left join makes of the rows whose key is null. -/
structure NullsAttached (fields : KeyFields) (lookups : List (Table KeyValue Row))
    (given : List (KeyFields × List Row)) (row out : Row) : Prop where
  /-- The row meets no other if none has its key. -/
  meetsNone_iff : HasNullKey fields row →
    (MeetsNone fields lookups row ↔ ∀ operand ∈ given, NoneBlank operand.1 operand.2)
  /-- A row that meets no other stays as it is. -/
  unchanged : MeetsNone fields lookups row → out = row

/-- The rows behind what operands are looked up in. -/
lemma exists_given {key : String} {joined : List Operand}
    {answers : List (Table KeyValue Row × List Statement)}
    (h : List.Forall₂ (fun operand answer =>
      operand.fetchByKey key params = ⟨.ok answer.1, answer.2⟩) joined answers) :
    ∃ given : List (List Row),
      List.Forall₂ (fun operand rows => ∃ asked, operand.fetch params = ⟨.ok rows, asked⟩)
        joined given ∧
      ((∀ lookup ∈ answers.map Prod.fst, KeyValue.ofValue .null ∉ lookup.keys) ↔
        ∀ operand ∈ (joined.map fun operand => operand.keyFields key).zip given,
          NoneBlank operand.1 operand.2) := by
  induction h with
  | nil => exact ⟨[], .nil, by simp⟩
  | cons hanswer _ ih =>
    obtain ⟨given, hgiven, hiff⟩ := ih
    obtain ⟨fetched, asked, _, hfetched, hlookup, -⟩ := Execution.bind_eq_ok_iff.mp hanswer
    obtain ⟨hassociate, -⟩ := Execution.ofExcept_eq_ok_iff.mp hlookup
    refine ⟨fetched :: given, .cons ⟨asked, hfetched⟩ hgiven, ?_⟩
    rw [List.map_cons, List.map_cons, List.zip_cons_cons, List.forall_mem_cons,
      List.forall_mem_cons, hiff, blank_notMem_keys_iff hassociate]

lemma attachRows_nulls {key : String} {base : Operand} {joined : List Operand}
    (h : attachRows key base joined params = ⟨.ok out, sent⟩) :
    ∃ rows before, base.fetch params = ⟨.ok rows, before⟩ ∧ (rows = [] → out = []) ∧
      (rows ≠ [] → ∃ (given : List (List Row)) (lookups : List (Table KeyValue Row)),
        List.Forall₂ (fun operand rows' => ∃ asked, operand.fetch
          (restrictedTo params key (distinctKeys (base.keyFields key) rows)) =
            ⟨.ok rows', asked⟩) joined given ∧
        List.Forall₂ (fun operand lookup => ∃ asked, operand.fetchByKey key
          (restrictedTo params key (distinctKeys (base.keyFields key) rows)) =
            ⟨.ok lookup, asked⟩) joined lookups ∧
        List.Forall₂ (NullsAttached (base.keyFields key) lookups
          ((joined.map fun operand => operand.keyFields key).zip given)) rows out) := by
  obtain ⟨rows, before, hrows, hnone, hsome⟩ := attachRows_eq_ok h
  refine ⟨rows, before, hrows, fun hempty => (hnone hempty).1, fun hne => ?_⟩
  obtain ⟨answers, hanswers, -, hout⟩ := hsome hne
  obtain ⟨given, hgiven, hiff⟩ := exists_given hanswers
  refine ⟨given, answers.map Prod.fst, hgiven, ?_, hout.imp fun row result hpassage => ?_⟩
  · exact List.forall₂_map_right_iff.mpr (hanswers.imp fun _ _ hanswer => ⟨_, hanswer⟩)
  · exact ⟨fun hnull => (meetsNone_iff hnull.hasBlankKey).trans hiff,
      fun hmeets => hmeets.eq hpassage⟩

/-- What a tree makes of the rows whose key is null for some of its children. -/
structure NullsNested (children : List (NestJoin × List Row)) (row out : Row) : Prop where
  /-- If no child's row has the key of null, then nothing joins with null. -/
  allEmpty : (∀ child ∈ children, HasNullKey child.1.parent row) →
    (∀ child ∈ children, NoneBlank child.1.child child.2) →
    ∀ child ∈ children, ¬ IsHidden (children.map Prod.fst) child.1.field →
      out.get? child.1.field = some (.array [])
  /-- The field of one child, where no other child is nested into it or into its join field. -/
  empty_iff : ∀ before join fetched after, children = before ++ (join, fetched) :: after →
    HasNullKey join.parent row → (∀ earlier ∈ before, earlier.1.field ∉ join.parent.fields) →
    (∀ later ∈ after, later.1.field ≠ join.field) →
    ¬ IsHidden (children.map Prod.fst) join.field →
    (out.get? join.field = some (.array []) ↔ NoneBlank join.child fetched)

/-- The two sides of an answer: the rows that a child gave, and the groups that they form. -/
lemma NullsNested.of_nestAll {answered : List (NestJoin × List Row × Table KeyValue (List Row))}
    (hgroups : ∀ child ∈ answered,
      (child.2.2.get? (.ofValue .null)).getD [] = rowsWith child.1.child (.ofValue .null) child.2.1)
    {row out : Row} (hout : ∀ field, ¬ IsHidden (answered.map Prod.fst) field → out.get? field =
      (nestAll (answered.map fun child => (child.1, child.2.2)) row).get? field) :
    NullsNested (answered.map fun child => (child.1, child.2.1)) row out := by
  have hjoins : (answered.map fun child => (child.1, child.2.1)).map Prod.fst =
      answered.map Prod.fst := List.map_map
  refine ⟨fun hnull hnone child hchild hvisible => ?_,
    fun before join fetched after hsplit hnull hbefore hafter hvisible => ?_⟩
  · rw [hjoins] at hvisible
    rw [hout _ hvisible]
    obtain ⟨own, hown, rfl⟩ := List.mem_map.mp hchild
    rw [List.forall_mem_map] at hnull hnone
    refine get?_nestAll_of_hasBlankKey (List.forall_mem_map.mpr fun other hother => ?_)
      (List.forall_mem_map.mpr fun other hother => ?_) (own.1, own.2.2)
      (List.mem_map_of_mem hown)
    · obtain ⟨field, hfield, hrow⟩ := hnull other hother
      exact ⟨field, hfield, HasNullKey.hasBlankKey ⟨field, rfl, hrow⟩⟩
    · rw [hgroups other hother]
      exact rowsWith_null_eq_nil_iff.mpr (hnone other hother)
  · rw [hjoins] at hvisible
    obtain ⟨front, back, rfl, rfl, hback⟩ := List.map_eq_append_iff.mp hsplit
    obtain ⟨own, rest, rfl, hown, rfl⟩ := List.map_eq_cons_iff.mp hback
    obtain ⟨rfl, rfl⟩ := Prod.mk.inj hown
    rw [List.forall_mem_map] at hbefore hafter
    rw [hout _ hvisible, List.map_append, List.map_cons,
      get?_nestAll_eq_nil_iff hnull (List.forall_mem_map.mpr hbefore)
        (List.forall_mem_map.mpr hafter), hgroups own (by simp)]
    exact rowsWith_null_eq_nil_iff

lemma nestRows_nulls {parent : Operand} {nested : List Nested}
    (h : nestRows parent nested params = ⟨.ok out, sent⟩) :
    ∃ rows before, parent.fetch params = ⟨.ok rows, before⟩ ∧ (rows = [] → out = []) ∧
      (rows ≠ [] → ∃ given : List (List Row),
        List.Forall₂ (fun child rows' => ∃ values asked, child.operand.fetch
          (restrictedTo params child.join.param values) = ⟨.ok rows', asked⟩) nested given ∧
        List.Forall₂ (NullsNested ((nested.map Nested.join).zip given)) rows out) := by
  obtain ⟨rows, before, _, hrows, hnest, -⟩ := Execution.bind_eq_ok_iff.mp h
  refine ⟨rows, before, hrows, ?_, fun hne => ?_⟩
  · rintro rfl
    exact (Execution.pure_eq_ok_iff.mp hnest).1.symm
  · rw [if_neg (by simpa using hne)] at hnest
    obtain ⟨filled, hfold, rfl⟩ := Execution.bind_pure_eq_ok_iff.mp hnest
    obtain ⟨answers, hanswers, rfl⟩ := foldlM_nestChild_eq_ok hfold
    refine ⟨answers.map Prod.fst,
      List.forall₂_map_right_iff.mpr (hanswers.imp fun _ _ hanswer => hanswer.1), ?_⟩
    have hjoins : ((nested.map Nested.join).zip answers).map Prod.fst = nested.map Nested.join :=
      List.map_fst_zip (by rw [List.length_map, hanswers.length_eq])
    have hgroups : ∀ child ∈ (nested.map Nested.join).zip answers,
        (child.2.2.get? (.ofValue .null)).getD [] =
          rowsWith child.1.child (.ofValue .null) child.2.1 := by
      intro child hchild
      rw [List.zip_map_left] at hchild
      obtain ⟨⟨own, answer⟩, hmem, rfl⟩ := List.mem_map.mp hchild
      exact get?_groupRows ((List.forall₂_iff_zip.mp hanswers).2 hmem).2 _
    rw [List.map_map, List.forall₂_map_right_iff, List.forall₂_same, List.zip_map_right,
      List.zip_map_right]
    intro row _
    refine NullsNested.of_nestAll hgroups fun field hvisible => ?_
    rw [hjoins] at hvisible
    exact get?_dropHidden_of_not_isHidden hvisible _

end Rows

/-! ## Nodes -/

/-- **What null joins with, in a left join and in a tree.**  A row whose key is null is returned as
the base gave it, or has an empty list for a child, exactly if no row of the operands has the key of
null, which is that of empty text. -/
theorem Node.run_null_joins_iff {context : Context} {info : NodeInfo} {params : Params}
    {result : Shaped} {sent : List Statement} :
    (∀ (key : String) (base : Node) (joined : List Node),
      (attach info key base joined).run context params = ⟨.ok result, sent⟩ →
      ∃ rows before out,
        (base.operand context).fetch (info.withDefaults params) = ⟨.ok rows, before⟩ ∧
        result = finish info (.ofRows out base.info.output.rows) ∧ (rows = [] → out = []) ∧
        (rows ≠ [] → ∃ (given : List (List Row)) (lookups : List (Table KeyValue Row)),
          List.Forall₂ (fun node rows' => ∃ asked, (node.operand context).fetch
            (restrictedTo (info.withDefaults params) key
              (distinctKeys (base.info.keyFields key) rows)) = ⟨.ok rows', asked⟩) joined given ∧
          List.Forall₂ (fun node lookup => ∃ asked, (node.operand context).fetchByKey key
            (restrictedTo (info.withDefaults params) key
              (distinctKeys (base.info.keyFields key) rows)) = ⟨.ok lookup, asked⟩)
            joined lookups ∧
          List.Forall₂ (NullsAttached (base.info.keyFields key) lookups
            ((joined.map fun node => node.info.keyFields key).zip given)) rows out)) ∧
    ∀ (base : Node) (children : List (NestJoin × Node)),
      (tree info base children).run context params = ⟨.ok result, sent⟩ →
      ∃ rows before out,
        (base.operand context).fetch (info.withDefaults params) = ⟨.ok rows, before⟩ ∧
        result = finish info (.ofRows out base.info.output.rows) ∧ (rows = [] → out = []) ∧
        (rows ≠ [] → ∃ given : List (List Row),
          List.Forall₂ (fun child rows' => ∃ values asked, (child.2.operand context).fetch
            (restrictedTo (info.withDefaults params) child.1.param values) = ⟨.ok rows', asked⟩)
            children given ∧
          List.Forall₂ (NullsNested ((children.map Prod.fst).zip given)) rows out) := by
  refine ⟨fun key base joined hrun => ?_, fun base children hrun => ?_⟩
  · obtain ⟨out, hattach, rfl⟩ := run_attach_eq_ok_iff.mp hrun
    obtain ⟨rows, before, hrows, hnone, hsome⟩ := attachRows_nulls hattach
    refine ⟨rows, before, out, hrows, rfl, hnone, fun hne => ?_⟩
    obtain ⟨given, lookups, hgiven, hlookups, hout⟩ := hsome hne
    rw [List.forall₂_map_left_iff] at hgiven hlookups
    rw [List.map_map] at hout
    exact ⟨given, lookups, hgiven, hlookups, hout⟩
  · obtain ⟨out, hnest, rfl⟩ := run_tree_eq_ok_iff.mp hrun
    obtain ⟨rows, before, hrows, hnone, hsome⟩ := nestRows_nulls hnest
    refine ⟨rows, before, out, hrows, rfl, hnone, fun hne => ?_⟩
    obtain ⟨given, hgiven, hout⟩ := hsome hne
    rw [List.forall₂_map_left_iff] at hgiven
    rw [List.map_map] at hout
    exact ⟨given, hgiven, hout⟩

/-- A user without an id, beside one that has an order. -/
theorem Node.run_null_joins_none :
    let users : List Row := [[("id", .null)], [("id", .integer 1)]]
    let orders : List Row := [[("user_id", .integer 1), ("total", .integer 7)]]
    let join : NestJoin := { field := "orders", param := "user", parent := .single "id",
                             child := .single "user_id", hidden := false }
    let context := Context.answering [("users", users), ("orders", orders)]
    (∃ next, ((attach { name := "users+orders" } "user" (keyed "users" "user" "id")
        [keyed "orders" "user" "user_id"]).run context []).outcome =
          .ok (.rows ([("id", .null)] :: next))) ∧
      ∃ row next, ((tree { name := "users" } (keyed "users" "user" "id")
        [(join, keyed "orders" "user" "user_id")]).run context []).outcome =
          .ok (.rows (row :: next)) ∧ row.get? "orders" = some (.array []) := by
  intro users orders join context
  have hattach : (attach { name := "users+orders" } "user" (keyed "users" "user" "id")
      [keyed "orders" "user" "user_id"]).run context [] =
      ⟨.ok (.rows [[("id", .null)], [("id", .integer 1), ("user_id", .integer 1),
        ("total", .integer 7)]]), [⟨"users", []⟩, ⟨"orders", []⟩]⟩ := by
    cbv
  have htree : (tree { name := "users" } (keyed "users" "user" "id")
      [(join, keyed "orders" "user" "user_id")]).run context [] =
      ⟨.ok (.rows [[("id", .null), ("orders", .array [])], [("id", .integer 1),
        ("orders", .array [.object [("total", .integer 7)]])]]),
        [⟨"users", []⟩, ⟨"orders", []⟩]⟩ := by
    cbv
  have husers : ((keyed "users" "user" "id").operand context).fetch [] =
      ⟨.ok users, [⟨"users", []⟩]⟩ := by
    cbv
  have horders : ∀ values, ((keyed "orders" "user" "user_id").operand context).fetch
      [("user", .array values)] = ⟨.ok orders, [⟨"orders", []⟩]⟩ := by
    intro values
    cbv
  constructor
  · obtain ⟨rows, before, out, hrows, hresult, -, hsome⟩ := run_null_joins_iff.1 _ _ _ hattach
    cases husers.symm.trans hrows
    obtain ⟨given, lookups, hgiven, -, hout⟩ := hsome (List.cons_ne_nil _ _)
    obtain _ | @⟨_, fetched, _, _, ⟨_, hfetched⟩, ⟨⟩⟩ := hgiven
    obtain ⟨rfl, -⟩ := Execution.ok_inj ((horders _).symm.trans hfetched)
    obtain ⟨first, next, hfirst, -, rfl⟩ := List.forall₂_cons_left_iff.mp hout
    have hnull : HasNullKey (.single "id") [("id", .null)] := ⟨"id", rfl, rfl⟩
    have hmeets := (hfirst.meetsNone_iff hnull).mpr (by decide)
    refine ⟨next, ?_⟩
    rw [hattach, hresult, hfirst.unchanged hmeets]
    rfl
  · obtain ⟨rows, before, out, hrows, hresult, -, hsome⟩ := run_null_joins_iff.2 _ _ htree
    cases husers.symm.trans hrows
    obtain ⟨given, hgiven, hout⟩ := hsome (List.cons_ne_nil _ _)
    obtain _ | @⟨_, fetched, _, _, ⟨_, _, hfetched⟩, ⟨⟩⟩ := hgiven
    obtain ⟨rfl, -⟩ := Execution.ok_inj ((horders _).symm.trans hfetched)
    obtain ⟨first, next, hfirst, -, rfl⟩ := List.forall₂_cons_left_iff.mp hout
    refine ⟨first, next, ?_, ?_⟩
    · rw [htree, hresult]
      rfl
    · refine (hfirst.empty_iff [] join orders [] rfl ⟨"id", rfl, rfl⟩ (List.forall_mem_nil _)
        (List.forall_mem_nil _) ?_).mpr ?_
      · decide
      · decide

/-- **Null joins with empty text.**  Another user's id is empty, and so is that of the order; the
user without an id gets it as well, in a left join and in a tree. -/
theorem Node.run_null_joins_blank :
    let users : List Row := [[("id", .null), ("name", .string "a")],
      [("id", .string ""), ("name", .string "b")]]
    let orders : List Row := [[("user_id", .string ""), ("total", .integer 7)]]
    let join : NestJoin := { field := "orders", param := "user", parent := .single "id",
                             child := .single "user_id", hidden := false }
    let context := Context.answering [("users", users), ("orders", orders)]
    ((attach { name := "users+orders" } "user" (keyed "users" "user" "id")
        [keyed "orders" "user" "user_id"]).run context []).outcome =
      .ok (.rows (users.map fun user =>
        user ++ [("user_id", .string ""), ("total", .integer 7)])) ∧
      ((tree { name := "users" } (keyed "users" "user" "id")
        [(join, keyed "orders" "user" "user_id")]).run context []).outcome =
      .ok (.rows (users.map fun user =>
        user ++ [("orders", .array [.object [("total", .integer 7)]])])) := by
  intro users orders join context
  exact ⟨by cbv, by cbv⟩

end QueryTerms
