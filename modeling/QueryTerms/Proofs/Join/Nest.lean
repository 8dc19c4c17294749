import Mathlib
import QueryTerms.Proofs.Key
import QueryTerms.Proofs.Query.Names
import QueryTerms.Proofs.Row.Grouping

/-!
# What nesting gives

Several children are nested one after another into the same rows.  Each reads its join fields from
rows that the children before it have changed, and hidden join fields are only dropped in the end.

**One row.**  `NestJoin.partners` are the rows of a child that join with a row, by comparing keys
pair by pair.  `Filled` is the loop invariant: a row in which some children are nested already, and
all else is as it was.  `Filled.nestRow` is its step.

**All rows.**  `forall₂_filled_of_nestChild` is the step of the loop over the children,
`nestRows_eq_ok` the whole run.

**Trees.**  `Node.run_tree_nests` says it of the nodes of a query.
-/

namespace QueryTerms

/-! ## One row -/

namespace NestJoin

/-- The rows of a child that join with a row of the parent, in order. -/
def partners (join : NestJoin) (fetched : List Row) (row : Row) : List Row :=
  fetched.filter fun child => KeyValue.ofRow? join.child child = KeyValue.ofRow? join.parent row

/-- The rows of a child that join with a row of the parent, without their join fields. -/
def nested (join : NestJoin) (fetched : List Row) (row : Row) : Value :=
  .array <| (join.partners fetched row).map fun child =>
    .object (child.filter fun entry => entry.1 ∉ join.child.fields)

end NestJoin

/-- The field serves one of the joins, and nothing else. -/
def IsHidden (joins : List NestJoin) (field : String) : Prop :=
  ∃ join ∈ joins, join.hidden = true ∧ field ∈ join.parent.fields

instance (joins : List NestJoin) (field : String) : Decidable (IsHidden joins field) :=
  inferInstanceAs (Decidable (∃ join ∈ joins, _))

/-- `out` is `row` with the rows of some children in their fields, and otherwise the same. -/
structure Filled (children : List (NestJoin × List Row)) (row out : Row) : Prop where
  distinct : out.NamesDistinct
  nested : ∀ child ∈ children, out.get? child.1.field = some (child.1.nested child.2 row)
  others : ∀ field, field ∉ children.map (fun child => child.1.field) →
    out.get? field = row.get? field

/-- `out` is `row` with the rows of its children nested, without the fields that serve joins
only. -/
structure IsNesting (children : List (NestJoin × List Row)) (row out : Row) : Prop where
  nested : ∀ child ∈ children, out.get? child.1.field = some (child.1.nested child.2 row)
  hidden : ∀ field, IsHidden (children.map Prod.fst) field → out.get? field = none
  others : ∀ field, field ∉ children.map (fun child => child.1.field) →
    ¬ IsHidden (children.map Prod.fst) field → out.get? field = row.get? field

namespace Filled

variable {done : List (NestJoin × List Row)} {row out : Row} {join : NestJoin}

lemma nil (h : row.NamesDistinct) : Filled [] row row where
  distinct := h
  nested _ hmem := absurd hmem List.not_mem_nil
  others _ _ := rfl

/-- Join fields that no child has been nested into still hold the key of the row. -/
lemma valueOf_eq (h : Filled done row out)
    (hapart : ∀ child ∈ done, child.1.field ∉ join.parent.fields) :
    join.parent.valueOf out = join.parent.valueOf row := by
  refine KeyFields.valueOf_congr fun field hfield => h.others field ?_
  rintro hmem
  obtain ⟨child, hchild, rfl⟩ := List.mem_map.mp hmem
  exact hapart child hchild hfield

lemma nestRow {name : String} {fetched : List Row} {groups : Table KeyValue (List Row)}
    (h : Filled done row out) (hapart : ∀ child ∈ done, child.1.field ∉ join.parent.fields)
    (hnew : join.field ∉ done.map fun child => child.1.field)
    (hkey : (join.parent.valueOf row).isSome) (hfetched : Row.AllDistinct fetched)
    (hgroups : groupRows join.child name fetched = .ok groups) :
    Filled (done ++ [(join, fetched)]) row (nestRow join groups out) := by
  obtain ⟨value, hvalue⟩ := Option.isSome_iff_exists.mp hkey
  have hrow : KeyValue.ofRow? join.parent row = some (.ofValue value) := by
    rw [KeyValue.ofRow?, hvalue, Option.map_some]
  have hout : KeyValue.ofRow? join.parent out = some (.ofValue value) := by
    rw [KeyValue.ofRow?, h.valueOf_eq hapart, hvalue, Option.map_some]
  have hnested : QueryTerms.nestRow join groups out =
      out.set join.field (join.nested fetched row) := by
    rw [QueryTerms.nestRow, hout, Option.bind_some, get?_groupRows hgroups, NestJoin.nested,
      NestJoin.partners, hrow]
    congr 2
    refine List.map_congr_left fun child hchild => ?_
    have hmem : child ∈ fetched := List.mem_of_mem_filter hchild
    rw [KeyFields.strip_eq_filter (hfetched child hmem)]
  rw [hnested]
  refine ⟨h.distinct.set join.field _, fun child hchild => ?_, fun field hfield => ?_⟩
  · rw [Table.get?_set]
    rcases List.mem_append.mp hchild with hchild | hchild
    · have hne : join.field ≠ child.1.field := fun heq =>
        hnew (heq ▸ List.mem_map_of_mem hchild)
      rw [if_neg hne]
      exact h.nested child hchild
    · obtain rfl := List.mem_singleton.mp hchild
      exact if_pos rfl
  · rw [List.map_append, List.mem_append, not_or] at hfield
    have hne : join.field ≠ field := fun heq => hfield.2 (heq ▸ List.mem_singleton_self _)
    rw [Table.get?_set, if_neg hne]
    exact h.others field hfield.1

end Filled

/-! ## Hidden join fields -/

lemma isHidden_cons {join : NestJoin} {joins : List NestJoin} {field : String} :
    IsHidden (join :: joins) field ↔
      (join.hidden = true ∧ field ∈ join.parent.fields) ∨ IsHidden joins field := by
  simp only [IsHidden, List.mem_cons, exists_eq_or_imp]

/-- Dropping hidden join fields leaves the other entries. -/
lemma get?_dropHidden {children : List Nested} {row : Row} (h : row.NamesDistinct)
    (field : String) :
    (dropHidden children row).get? field =
      if IsHidden (children.map Nested.join) field then none else row.get? field := by
  rw [dropHidden]
  induction children generalizing row with
  | nil =>
    rw [if_neg]
    · rfl
    · rintro ⟨join, hjoin, -⟩
      cases hjoin
  | cons child rest ih =>
    rw [List.foldl_cons, List.map_cons]
    cases hhidden : child.join.hidden with
    | false =>
      rw [if_neg Bool.false_ne_true, ih h]
      simp only [isHidden_cons, hhidden, Bool.false_eq_true, false_and, false_or]
    | true =>
      rw [if_pos rfl, ih (h.strip child.join.parent), KeyFields.get?_strip h]
      by_cases hmem : field ∈ child.join.parent.fields
      · rw [if_pos hmem, ite_self, if_pos (isHidden_cons.mpr (.inl ⟨hhidden, hmem⟩))]
      · simp only [isHidden_cons, hmem, and_false, false_or, if_false]

lemma Filled.dropHidden {done : List (NestJoin × List Row)} {row out : Row}
    {children : List Nested} (h : Filled done row out)
    (hdone : done.map Prod.fst = children.map Nested.join)
    (hapart : ∀ child ∈ done, ∀ join ∈ done.map Prod.fst, child.1.field ∉ join.parent.fields) :
    IsNesting done row (dropHidden children out) := by
  refine ⟨fun child hchild => ?_, fun field hhidden => ?_, fun field hfield hhidden => ?_⟩
  · have hvisible : ¬ IsHidden (done.map Prod.fst) child.1.field := by
      rintro ⟨join, hjoin, -, hmem⟩
      exact hapart child hchild join hjoin hmem
    rw [get?_dropHidden h.distinct, ← hdone, if_neg hvisible]
    exact h.nested child hchild
  · rw [get?_dropHidden h.distinct, ← hdone, if_pos hhidden]
  · rw [get?_dropHidden h.distinct, ← hdone, if_neg hhidden]
    exact h.others field hfield

/-! ## All rows -/

/-- The children gave these rows and sent these statements, each of them asked once, for the
distinct key values of the parent's rows. -/
def AskedFor (params : Params) (rows : List Row) (children : List Nested)
    (answers : List (List Row × List Statement)) : Prop :=
  List.Forall₂ (fun child answer =>
    child.operand.fetch
        (restrictedTo params child.join.param (distinctKeys child.join.parent rows)) =
      ⟨.ok answer.1, answer.2⟩) children answers

section Rows

variable {rows current next : List Row} {done : List (NestJoin × List Row)} {name : String}
  {params : Params} {sent : List Statement}

lemma distinctKeys_filled {join : NestJoin}
    (hapart : ∀ earlier ∈ done, earlier.1.field ∉ join.parent.fields)
    (h : List.Forall₂ (Filled done) rows current) :
    distinctKeys join.parent current = distinctKeys join.parent rows := by
  rw [distinctKeys, distinctKeys]
  congr 2
  induction h with
  | nil => rfl
  | cons hrow _ ih => rw [List.filterMap_cons, List.filterMap_cons, hrow.valueOf_eq hapart, ih]

lemma forall₂_filled_nestRow {join : NestJoin} {fetched : List Row}
    {groups : Table KeyValue (List Row)} (h : List.Forall₂ (Filled done) rows current)
    (hapart : ∀ earlier ∈ done, earlier.1.field ∉ join.parent.fields)
    (hnew : join.field ∉ done.map fun earlier => earlier.1.field)
    (hkeys : ∀ row ∈ current, (join.parent.valueOf row).isSome) (hfetched : Row.AllDistinct fetched)
    (hgroups : groupRows join.child name fetched = .ok groups) :
    List.Forall₂ (Filled (done ++ [(join, fetched)])) rows (current.map (nestRow join groups)) := by
  induction h with
  | nil => exact .nil
  | cons hrow _ ih =>
    obtain ⟨hkey, hkeys⟩ := List.forall_mem_cons.mp hkeys
    rw [hrow.valueOf_eq hapart] at hkey
    exact .cons (hrow.nestRow hapart hnew hkey hfetched hgroups) (ih hkeys)

/-- One child: it is asked for the keys of the parent's rows, and its rows are added to what was
nested before. -/
lemma forall₂_filled_of_nestChild {child : Nested} (h : List.Forall₂ (Filled done) rows current)
    (hmaps : child.operand.GivesMaps)
    (hapart : ∀ earlier ∈ done, earlier.1.field ∉ child.join.parent.fields)
    (hnew : child.join.field ∉ done.map fun earlier => earlier.1.field)
    (hrun : nestChild name params current child = ⟨.ok next, sent⟩) :
    ∃ fetched, child.operand.fetch (restrictedTo params child.join.param
        (distinctKeys child.join.parent rows)) = ⟨.ok fetched, sent⟩ ∧
      List.Forall₂ (Filled (done ++ [(child.join, fetched)])) rows next := by
  obtain ⟨values, hvalues, hasked⟩ := Execution.liftM_bind_eq_ok_iff.mp hrun
  obtain ⟨fetched, asked, _, hfetch, hfill, rfl⟩ := Execution.bind_eq_ok_iff.mp hasked
  obtain ⟨groups, hgroups, hnext⟩ := Execution.liftM_bind_eq_ok_iff.mp hfill
  obtain ⟨rfl, rfl⟩ := Execution.pure_eq_ok_iff.mp hnext
  obtain ⟨hkeys, rfl⟩ := collectValues_eq_ok_iff.mp hvalues
  rw [distinctKeys_filled hapart h] at hfetch
  have hfetched : Row.AllDistinct fetched := hmaps _ fetched (by rw [hfetch])
  rw [List.append_nil]
  exact ⟨fetched, hfetch, forall₂_filled_nestRow h hapart hnew hkeys hfetched hgroups⟩

/-- All children: the loop adds what each of them gives to what was nested before. -/
lemma forall₂_filled_of_foldlM {children : List Nested}
    (h : List.Forall₂ (Filled done) rows current)
    (hmaps : ∀ child ∈ children, child.operand.GivesMaps)
    (hfields : (done.map (fun child => child.1.field) ++
      children.map fun child => child.join.field).Nodup)
    (hapart : ∀ child ∈ children, ∀ field ∈ done.map (fun child => child.1.field) ++
      children.map (fun child => child.join.field), field ∉ child.join.parent.fields)
    (hrun : children.foldlM (nestChild name params) current = ⟨.ok next, sent⟩) :
    ∃ answers, AskedFor params rows children answers ∧ sent = answers.flatMap Prod.snd ∧
      List.Forall₂ (Filled (done ++ (children.map Nested.join).zip (answers.map Prod.fst)))
        rows next := by
  induction children generalizing done current sent with
  | nil =>
    obtain ⟨rfl, rfl⟩ := Execution.pure_eq_ok_iff.mp hrun
    refine ⟨[], .nil, rfl, ?_⟩
    rwa [List.map_nil, List.map_nil, List.zip_nil_left, List.append_nil]
  | cons child rest ih =>
    rw [List.foldlM_cons] at hrun
    obtain ⟨filled, asked, others, hchild, hrest, rfl⟩ := Execution.bind_eq_ok_iff.mp hrun
    have hnew : child.join.field ∉ done.map fun earlier => earlier.1.field := fun hmem =>
      (List.nodup_append.mp hfields).2.2 _ hmem _ List.mem_cons_self rfl
    obtain ⟨fetched, hfetch, hfilled⟩ := forall₂_filled_of_nestChild h
      (hmaps child List.mem_cons_self)
      (fun earlier hearlier => hapart child List.mem_cons_self _
        (List.mem_append_left _ (List.mem_map_of_mem hearlier))) hnew hchild
    have hnames : done.map (fun child => child.1.field) ++
          (child :: rest).map (fun child => child.join.field) =
        (done ++ [(child.join, fetched)]).map (fun child => child.1.field) ++
          rest.map fun child => child.join.field := by
      simp
    rw [hnames] at hfields hapart
    obtain ⟨answers, hanswers, rfl, hnext⟩ := ih hfilled
      (fun other hmem => hmaps other (List.mem_cons_of_mem _ hmem)) hfields
      (fun other hmem => hapart other (List.mem_cons_of_mem _ hmem)) hrest
    refine ⟨(fetched, asked) :: answers, .cons hfetch hanswers, rfl, ?_⟩
    rwa [List.append_assoc] at hnext

/-- **Nesting, on operands.**  Rows come out in the number and order in which the parent gave them,
each with its children nested, and each child was asked once; without rows no child is asked. -/
theorem nestRows_eq_ok {parent : Operand} {children : List Nested} {out : List Row}
    (hparent : parent.GivesMaps) (hmaps : ∀ child ∈ children, child.operand.GivesMaps)
    (hfields : (children.map fun child => child.join.field).Nodup)
    (hapart : ∀ child ∈ children, ∀ other ∈ children, child.join.field ∉ other.join.parent.fields)
    (hrun : nestRows parent children params = ⟨.ok out, sent⟩) :
    ∃ rows before, parent.fetch params = ⟨.ok rows, before⟩ ∧
      (rows = [] → out = [] ∧ sent = before) ∧
      (rows ≠ [] → ∃ answers, AskedFor params rows children answers ∧
        sent = before ++ answers.flatMap Prod.snd ∧
        List.Forall₂ (IsNesting ((children.map Nested.join).zip (answers.map Prod.fst))) rows
          out) := by
  obtain ⟨rows, before, after, hrows, hnest, rfl⟩ := Execution.bind_eq_ok_iff.mp hrun
  refine ⟨rows, before, hrows, ?_, ?_⟩
  · rintro rfl
    obtain ⟨rfl, rfl⟩ := Execution.pure_eq_ok_iff.mp hnest
    exact ⟨rfl, List.append_nil before⟩
  · intro hne
    rw [if_neg (by simpa using hne)] at hnest
    obtain ⟨filled, hfold, rfl⟩ := Execution.bind_pure_eq_ok_iff.mp hnest
    have hrowsDistinct : Row.AllDistinct rows := hparent params rows (by rw [hrows])
    have hstart : List.Forall₂ (Filled []) rows rows :=
      List.forall₂_same.mpr fun row hrow => .nil (hrowsDistinct row hrow)
    have hnames : ∀ child ∈ children, ∀ field ∈ children.map (fun child => child.join.field),
        field ∉ child.join.parent.fields := by
      intro other hother field hfield
      obtain ⟨child, hchild, rfl⟩ := List.mem_map.mp hfield
      exact hapart child hchild other hother
    obtain ⟨answers, hanswers, rfl, hfilled⟩ :=
      forall₂_filled_of_foldlM hstart hmaps hfields hnames hfold
    refine ⟨answers, hanswers, rfl, ?_⟩
    rw [List.nil_append] at hfilled
    generalize hdone : (children.map Nested.join).zip (answers.map Prod.fst) = done at hfilled ⊢
    have hjoins : done.map Prod.fst = children.map Nested.join := by
      rw [← hdone]
      exact List.map_fst_zip (by simp [hanswers.length_eq])
    rw [List.forall₂_map_right_iff]
    refine hfilled.imp fun row filled h => h.dropHidden hjoins fun child hchild join hjoin => ?_
    rw [hjoins] at hjoin
    have hmem : child.1 ∈ children.map Nested.join := hjoins ▸ List.mem_map_of_mem hchild
    obtain ⟨own, hown, heq⟩ := List.mem_map.mp hmem
    obtain ⟨other, hother, rfl⟩ := List.mem_map.mp hjoin
    exact heq ▸ hapart own hown other hother

end Rows

/-! ## Trees -/

/-- **A tree nests the rows of its children under the rows of its base.**  The output fields of the
children differ from each other and from the fields that joins read. -/
theorem Node.run_tree_nests {context : Context} {info : NodeInfo} {base : Node}
    {children : List (NestJoin × Node)} {params : Params} {result : Shaped}
    {sent : List Statement} (hmaps : context.GivesMaps)
    (hfields : (children.map fun child => child.1.field).Nodup)
    (hapart : ∀ child ∈ children, ∀ other ∈ children, child.1.field ∉ other.1.parent.fields)
    (hrun : (tree info base children).run context params = ⟨.ok result, sent⟩) :
    ∃ rows before out,
      (base.operand context).fetch (info.withDefaults params) = ⟨.ok rows, before⟩ ∧
      result = finish info (.ofRows out base.info.output.rows) ∧
      (rows = [] → out = [] ∧ sent = before) ∧
      (rows ≠ [] → ∃ answers : List (List Row × List Statement),
        List.Forall₂ (fun child answer =>
          (child.2.operand context).fetch (restrictedTo (info.withDefaults params) child.1.param
            (distinctKeys child.1.parent rows)) = ⟨.ok answer.1, answer.2⟩) children answers ∧
        sent = before ++ answers.flatMap Prod.snd ∧
        List.Forall₂ (IsNesting ((children.map Prod.fst).zip (answers.map Prod.fst))) rows
          out) := by
  obtain ⟨out, hnest, rfl⟩ := run_tree_eq_ok_iff.mp hrun
  obtain ⟨rows, before, hrows, hnone, hsome⟩ :=
    nestRows_eq_ok (operand_givesMaps hmaps base)
      (List.forall_mem_map.mpr fun child _ => operand_givesMaps hmaps child.2)
      (by simpa [Function.comp_def] using hfields)
      (List.forall_mem_map.mpr fun child hchild => List.forall_mem_map.mpr fun other hother =>
        hapart child hchild other hother) hnest
  refine ⟨rows, before, out, hrows, rfl, hnone, fun hne => ?_⟩
  obtain ⟨answers, hanswers, hsent, hout⟩ := hsome hne
  rw [AskedFor, List.forall₂_map_left_iff] at hanswers
  rw [List.map_map] at hout
  exact ⟨answers, hanswers, hsent, hout⟩

/-- Users with their orders; the field `ref` of the users serves the join only. -/
theorem Node.run_tree_nests_orders :
    let users : List Row := [[("ref", .integer 1)], [("ref", .integer 2)], [("ref", .integer 1)]]
    let orders : List Row := [[("user_id", .string "1"), ("total", .integer 7)]]
    let join : NestJoin := { field := "orders", param := "user", parent := .single "ref",
                             child := .single "user_id", hidden := true }
    let context := Context.answering [("users", users), ("orders", orders)]
    ∃ out, ((tree { name := "users(orders)" } (keyed "users" "user" "ref")
        [(join, keyed "orders" "user" "user_id")]).run context []).outcome = .ok (.rows out) ∧
      List.Forall₂ (IsNesting [(join, orders)]) users out := by
  intro users orders join context
  have hmaps : context.GivesMaps := Context.givesMaps_answering (by decide)
  have hrun : (tree { name := "users(orders)" } (keyed "users" "user" "ref")
      [(join, keyed "orders" "user" "user_id")]).run context [] =
      ⟨.ok (.rows [[("orders", .array [.object [("total", .integer 7)]])], [("orders", .array [])],
        [("orders", .array [.object [("total", .integer 7)]])]]),
        [⟨"users", []⟩, ⟨"orders", []⟩]⟩ := by
    cbv
  have husers : ((keyed "users" "user" "ref").operand context).fetch [] =
      ⟨.ok users, [⟨"users", []⟩]⟩ := by
    cbv
  have horders : ((keyed "orders" "user" "user_id").operand context).fetch
      [("user", .array [.integer 1, .integer 2])] = ⟨.ok orders, [⟨"orders", []⟩]⟩ := by
    cbv
  have hkeys : distinctKeys join.parent users = [.integer 1, .integer 2] := by cbv
  obtain ⟨rows, before, out, hrows, hresult, -, hsome⟩ :=
    run_tree_nests hmaps (by decide) (by decide) hrun
  cases husers.symm.trans hrows
  obtain ⟨answers, hanswers, -, hout⟩ := hsome (List.cons_ne_nil _ _)
  obtain _ | @⟨_, ⟨fetched, _⟩, _, _, hanswer, ⟨⟩⟩ := hanswers
  rw [hkeys] at hanswer
  obtain ⟨rfl, -⟩ := Execution.ok_inj (horders.symm.trans hanswer)
  refine ⟨out, ?_, hout⟩
  rw [hrun, hresult]
  rfl

end QueryTerms
