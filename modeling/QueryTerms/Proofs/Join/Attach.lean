import Mathlib
import QueryTerms.Proofs.Key
import QueryTerms.Proofs.Query.Operand
import QueryTerms.Proofs.Row.Grouping
import QueryTerms.Proofs.Row.Merge

/-!
# What attaching gives

A row passes the operands one after another, and each of them looks it up by the key that the row
has by then.  An operand may have a column named like a field of the base's key; merged in, it
changes what the later operands see.

**One row.**  `partner` is the row that an operand has for a row, `partnersAlong` are those that a
row meets on its way, and `mergeAll` merges rows in without looking at keys again.
`JoinsOnOwnKey` says that a row meets the partners of its own key.

**When that is so.**  `KeepsKey`: merging partners never leads a later operand to another row.
`joinsOnOwnKey_iff` says that this is the exact condition, `keepsKey_of_columns_apart` that it holds
where operands have no column named like a field of the key.

**All rows.**  `attachRows_eq_ok` takes the loop over operands, which changes all rows at each
step, apart into one run per row.  `Node.run_attach_joinsOnOwnKey_iff` says it of the nodes of a
query.
-/

namespace QueryTerms

/-! ## One row -/

/-- The row of an operand that has the key of a row. -/
def partner (fields : KeyFields) (row : Row) (lookup : Table KeyValue Row) : Option Row :=
  (KeyValue.ofRow? fields row).bind lookup.get?

/-- A row with another one merged in, if there is one. -/
def mergeFound (row : Row) : Option Row → Except QueryError Row
  | some found => row.merge found
  | none => .ok row

/-- A row with others merged in, one after another. -/
def mergeAll (row : Row) (found : List (Option Row)) : Except QueryError Row :=
  found.foldlM mergeFound row

/-- The rows that a row meets in its passage through the operands. -/
def partnersAlong (fields : KeyFields) :
    List (Table KeyValue Row) → Row → Except QueryError (List (Option Row))
  | [], _ => .ok []
  | lookup :: rest, row => do
    let next ← attachRow fields lookup row
    let others ← partnersAlong fields rest next
    return partner fields row lookup :: others

/-- The row passes the operands with the partners of the key that it has to begin with, and comes
out with just these merged in. -/
structure JoinsOnOwnKey (fields : KeyFields) (lookups : List (Table KeyValue Row))
    (row out : Row) : Prop where
  merged : mergeAll row (lookups.map (partner fields row)) = .ok out
  partners : partnersAlong fields lookups row = .ok (lookups.map (partner fields row))

/-- Merging in the partners of the row's own key leads no later operand to another row. -/
def KeepsKey (fields : KeyFields) (lookups : List (Table KeyValue Row)) (row : Row) : Prop :=
  ∀ before lookup after merged, lookups = before ++ lookup :: after →
    mergeAll row (before.map (partner fields row)) = .ok merged →
    partner fields merged lookup = partner fields row lookup

section Row

variable {fields : KeyFields} {lookups : List (Table KeyValue Row)} {row out : Row}

lemma attachRow_eq (lookup : Table KeyValue Row) (row : Row) :
    attachRow fields lookup row = mergeFound row (partner fields row lookup) := by
  rw [attachRow, partner]
  split
  · next hnone => rw [hnone, Option.bind_none, mergeFound]
  · next key hkey =>
    rw [hkey, Option.bind_some]
    split
    · next hnone => rw [hnone, mergeFound]
    · next found hfound => rw [hfound, mergeFound]

lemma mergeAll_cons (row : Row) (found : Option Row) (rest : List (Option Row)) :
    mergeAll row (found :: rest) = mergeFound row found >>= fun next => mergeAll next rest :=
  List.foldlM_cons

/-- The induction behind `joinsOnOwnKey_iff`: `row` is as it arrives at the operands that are left,
`own` as it set out. -/
lemma partnersAlong_eq_iff {own : Row}
    (h : lookups.foldlM (fun row lookup => attachRow fields lookup row) row = .ok out) :
    (mergeAll row (lookups.map (partner fields own)) = .ok out ∧
        partnersAlong fields lookups row = .ok (lookups.map (partner fields own))) ↔
      ∀ before lookup after merged, lookups = before ++ lookup :: after →
        mergeAll row (before.map (partner fields own)) = .ok merged →
        partner fields merged lookup = partner fields own lookup := by
  induction lookups generalizing row with
  | nil =>
    cases h
    refine ⟨fun _ before lookup after _ hsplit => ?_, fun _ => ⟨rfl, rfl⟩⟩
    exact absurd hsplit.symm (List.append_ne_nil_of_right_ne_nil _ (List.cons_ne_nil _ _))
  | cons lookup rest ih =>
    rw [List.foldlM_cons] at h
    obtain ⟨next, hnext, hrest⟩ := bind_eq_ok_iff.mp h
    have hfound : mergeFound row (partner fields row lookup) = .ok next :=
      (attachRow_eq lookup row).symm.trans hnext
    rw [List.map_cons, mergeAll_cons, partnersAlong, hnext]
    constructor
    · rintro ⟨hmerged, hpartners⟩
      obtain ⟨_, ⟨⟩, hpartners⟩ := bind_eq_ok_iff.mp hpartners
      obtain ⟨others, hothers, heq⟩ := bind_eq_ok_iff.mp hpartners
      obtain ⟨hhead, rfl⟩ := List.cons.inj (Except.ok.inj heq)
      rw [hhead] at hfound
      rw [hfound] at hmerged
      have hkeeps := (ih hrest).mp ⟨hmerged, hothers⟩
      rintro (_ | ⟨first, before⟩) other after merged hsplit hbefore
      · obtain ⟨rfl, -⟩ := List.cons.inj hsplit
        cases hbefore
        exact hhead
      · obtain ⟨rfl, htail⟩ := List.cons.inj hsplit
        rw [List.map_cons, mergeAll_cons, hfound] at hbefore
        exact hkeeps before other after merged htail hbefore
    · intro hkeeps
      have hhead : partner fields row lookup = partner fields own lookup :=
        hkeeps [] lookup rest row rfl rfl
      rw [hhead] at hfound
      have hothers := (ih hrest).mpr fun before other after merged hsplit hbefore => by
        refine hkeeps (lookup :: before) other after merged (by rw [hsplit, List.cons_append]) ?_
        rw [List.map_cons, mergeAll_cons, hfound]
        exact hbefore
      refine ⟨?_, ?_⟩
      · rw [hfound]
        exact hothers.1
      · rw [hhead]
        exact bind_eq_ok_iff.mpr ⟨next, rfl, bind_eq_ok_iff.mpr ⟨_, hothers.2, rfl⟩⟩

/-- **A row joins on its own key exactly where merging keeps it.** -/
theorem joinsOnOwnKey_iff
    (h : lookups.foldlM (fun row lookup => attachRow fields lookup row) row = .ok out) :
    JoinsOnOwnKey fields lookups row out ↔ KeepsKey fields lookups row := by
  rw [KeepsKey, ← partnersAlong_eq_iff h]
  constructor
  · intro hjoins
    exact ⟨hjoins.merged, hjoins.partners⟩
  · rintro ⟨hmerged, hpartners⟩
    exact ⟨hmerged, hpartners⟩

/-- Operands without a column named like a field of the key never change it. -/
theorem keepsKey_of_columns_apart (hmaps : ∀ lookup ∈ lookups, Row.AllDistinct lookup.values)
    (hapart : ∀ lookup ∈ lookups, ∀ found ∈ lookup.values, ∀ field ∈ fields.fields,
      found.get? field = none) : KeepsKey fields lookups row := by
  intro before lookup after merged hsplit hmerged
  have hsame : ∀ field ∈ fields.fields, merged.get? field = row.get? field := by
    intro field hfield
    refine foldlM_induction (P := fun merged => Table.get? field merged = row.get? field) ?_ rfl
      hmerged
    intro current found next hfound hcurrent hnext
    cases found with
    | none =>
      cases hnext
      exact hcurrent
    | some found =>
      obtain ⟨earlier, hearlier, heq⟩ := List.mem_map.mp hfound
      obtain ⟨key, -, hget⟩ := Option.bind_eq_some_iff.mp heq
      have hmem : earlier ∈ lookups := hsplit ▸ List.mem_append_left _ hearlier
      have hvalue : found ∈ earlier.values := Table.mem_values_of_get?_eq_some hget
      rw [get?_merge (hmaps earlier hmem found hvalue) hnext, Row.get?_inFrontOf,
        hapart earlier hmem found hvalue field hfield, Option.map_none, Option.none_or, hcurrent]
  rw [partner, partner, KeyFields.ofRow?_congr hsame]

end Row

/-! ## All rows -/

section Rows

variable {key : String} {params : Params} {rows out : List Row} {sent : List Statement}

/-- The loop over the operands: each of them is asked once, and looks every row up. -/
lemma foldlM_attachOperand_eq_ok {fields : KeyFields} {joined : List Operand}
    (h : joined.foldlM (attachOperand fields key params) rows = ⟨.ok out, sent⟩) :
    ∃ answers : List (Table KeyValue Row × List Statement),
      List.Forall₂ (fun operand answer =>
        operand.fetchByKey key params = ⟨.ok answer.1, answer.2⟩) joined answers ∧
      sent = answers.flatMap Prod.snd ∧
      (answers.map Prod.fst).foldlM (fun rows lookup => rows.mapM (attachRow fields lookup)) rows =
        .ok out := by
  induction joined generalizing rows sent with
  | nil =>
    obtain ⟨rfl, rfl⟩ := Execution.pure_eq_ok_iff.mp h
    exact ⟨[], .nil, rfl, rfl⟩
  | cons operand rest ih =>
    rw [List.foldlM_cons] at h
    obtain ⟨next, first, others, hoperand, hrest, rfl⟩ := Execution.bind_eq_ok_iff.mp h
    obtain ⟨lookup, asked, _, hlookup, hmerge, rfl⟩ := Execution.bind_eq_ok_iff.mp hoperand
    obtain ⟨hnext, rfl⟩ := Execution.ofExcept_eq_ok_iff.mp hmerge
    obtain ⟨answers, hanswers, rfl, hfold⟩ := ih hrest
    refine ⟨(lookup, asked) :: answers, .cons hlookup hanswers, ?_, ?_⟩
    · rw [List.append_nil, List.flatMap_cons]
    · rw [List.map_cons, List.foldlM_cons]
      exact bind_eq_ok_iff.mpr ⟨next, hnext, hfold⟩

/-- **Attaching, on operands.**  The base is asked first.  Without rows no other operand is asked;
otherwise each is, once, for the distinct keys of the base, and each row takes its own way through
what they gave. -/
theorem attachRows_eq_ok {base : Operand} {joined : List Operand}
    (h : attachRows key base joined params = ⟨.ok out, sent⟩) :
    ∃ rows before, base.fetch params = ⟨.ok rows, before⟩ ∧
      (rows = [] → out = [] ∧ sent = before) ∧
      (rows ≠ [] → ∃ answers : List (Table KeyValue Row × List Statement),
        List.Forall₂ (fun operand answer => operand.fetchByKey key
          (restrictedTo params key (distinctKeys (base.keyFields key) rows)) =
            ⟨.ok answer.1, answer.2⟩) joined answers ∧
        sent = before ++ answers.flatMap Prod.snd ∧
        List.Forall₂ (fun row result => (answers.map Prod.fst).foldlM
          (fun row lookup => attachRow (base.keyFields key) lookup row) row = .ok result) rows
          out) := by
  obtain ⟨rows, before, after, hrows, hattach, rfl⟩ := Execution.bind_eq_ok_iff.mp h
  refine ⟨rows, before, hrows, ?_, ?_⟩
  · rintro rfl
    obtain ⟨rfl, rfl⟩ := Execution.pure_eq_ok_iff.mp hattach
    exact ⟨rfl, List.append_nil before⟩
  · intro hne
    rw [if_neg (by simpa using hne)] at hattach
    obtain ⟨values, hvalues, hfold⟩ := Execution.liftM_bind_eq_ok_iff.mp hattach
    obtain ⟨-, rfl⟩ := collectValues_eq_ok_iff.mp hvalues
    obtain ⟨answers, hanswers, rfl, hout⟩ := foldlM_attachOperand_eq_ok hfold
    exact ⟨answers, hanswers, rfl, foldlM_mapM_eq_ok_iff.mp hout⟩

end Rows

/-! ## Nodes -/

/-- **When a left join joins on the base's own key.**  Every row of the base comes out with the rows
of its own key merged in, and meets no others, if and only if merging these in never leads a later
operand to another row. -/
theorem Node.run_attach_joinsOnOwnKey_iff {context : Context} {info : NodeInfo} {key : String}
    {base : Node} {joined : List Node} {params : Params} {result : Shaped}
    {sent : List Statement}
    (hrun : (attach info key base joined).run context params = ⟨.ok result, sent⟩) :
    ∃ rows before out,
      (base.operand context).fetch (info.withDefaults params) = ⟨.ok rows, before⟩ ∧
      result = finish info (.ofRows out base.info.output.rows) ∧
      (rows = [] → out = [] ∧ sent = before) ∧
      (rows ≠ [] → ∃ answers : List (Table KeyValue Row × List Statement),
        List.Forall₂ (fun node answer => (node.operand context).fetchByKey key
          (restrictedTo (info.withDefaults params) key
            (distinctKeys (base.info.keyFields key) rows)) = ⟨.ok answer.1, answer.2⟩)
          joined answers ∧
        sent = before ++ answers.flatMap Prod.snd ∧
        (List.Forall₂ (JoinsOnOwnKey (base.info.keyFields key) (answers.map Prod.fst)) rows out ↔
          ∀ row ∈ rows, KeepsKey (base.info.keyFields key) (answers.map Prod.fst) row)) := by
  obtain ⟨out, hattach, rfl⟩ := run_attach_eq_ok_iff.mp hrun
  obtain ⟨rows, before, hrows, hnone, hsome⟩ := attachRows_eq_ok hattach
  refine ⟨rows, before, out, hrows, rfl, hnone, fun hne => ?_⟩
  obtain ⟨answers, hanswers, hsent, hout⟩ := hsome hne
  rw [List.forall₂_map_left_iff] at hanswers
  exact ⟨answers, hanswers, hsent,
    forall₂_iff_forall_mem hout fun _ _ hpassage => joinsOnOwnKey_iff hpassage⟩

/-- Users with orders and profiles, joined on the user's own key. -/
theorem Node.run_attach_joinsOnOwnKey_profiles :
    let users : List Row := [[("id", .integer 1)], [("id", .integer 2)]]
    let order : Row := [("user_id", .integer 1), ("total", .integer 7)]
    let profile : Row := [("user_id", .integer 2), ("bio", .string "b")]
    let context := Context.answering
      [("users", users), ("orders", [order]), ("profiles", [profile])]
    ∃ out, ((attach { name := "users+orders+profiles" } "user" (keyed "users" "user" "id")
        [keyed "orders" "user" "user_id", keyed "profiles" "user" "user_id"]).run
          context []).outcome = .ok (.rows out) ∧
      List.Forall₂ (JoinsOnOwnKey (.single "id") [[(⟨"1"⟩, order)], [(⟨"2"⟩, profile)]]) users
        out := by
  intro users order profile context
  have hrun : (attach { name := "users+orders+profiles" } "user" (keyed "users" "user" "id")
      [keyed "orders" "user" "user_id", keyed "profiles" "user" "user_id"]).run context [] =
      ⟨.ok (.rows [("id", .integer 1) :: order, ("id", .integer 2) :: profile]),
        [⟨"users", []⟩, ⟨"orders", []⟩, ⟨"profiles", []⟩]⟩ := by
    cbv
  have husers : ((keyed "users" "user" "id").operand context).fetch [] =
      ⟨.ok users, [⟨"users", []⟩]⟩ := by
    cbv
  have horders : ((keyed "orders" "user" "user_id").operand context).fetchByKey "user"
      [("user", .array [.integer 1, .integer 2])] =
      ⟨.ok [(⟨"1"⟩, order)], [⟨"orders", []⟩]⟩ := by
    cbv
  have hprofiles : ((keyed "profiles" "user" "user_id").operand context).fetchByKey "user"
      [("user", .array [.integer 1, .integer 2])] =
      ⟨.ok [(⟨"2"⟩, profile)], [⟨"profiles", []⟩]⟩ := by
    cbv
  have hkeys : distinctKeys ((keyed "users" "user" "id").info.keyFields "user") users =
      [.integer 1, .integer 2] := by
    cbv
  have hkeeps : ∀ row ∈ users,
      KeepsKey (.single "id") [[(⟨"1"⟩, order)], [(⟨"2"⟩, profile)]] row := fun row _ =>
    keepsKey_of_columns_apart (by decide)
      (by simp [KeyFields.fields, Table.values, Table.get?, order, profile])
  obtain ⟨rows, before, out, hrows, hresult, -, hsome⟩ := run_attach_joinsOnOwnKey_iff hrun
  cases husers.symm.trans hrows
  obtain ⟨answers, hanswers, -, hiff⟩ := hsome (List.cons_ne_nil _ _)
  obtain _ | @⟨_, ⟨first, _⟩, _, _, hfirst, hanswers⟩ := hanswers
  obtain _ | @⟨_, ⟨second, _⟩, _, _, hsecond, ⟨⟩⟩ := hanswers
  rw [hkeys] at hfirst hsecond
  obtain ⟨rfl, -⟩ := Execution.ok_inj (horders.symm.trans hfirst)
  obtain ⟨rfl, -⟩ := Execution.ok_inj (hprofiles.symm.trans hsecond)
  refine ⟨out, ?_, hiff.mpr hkeeps⟩
  rw [hrun, hresult]
  rfl

/-- **An operand's own `id` can lead a row astray.**  The order of the first user has the id 2;
merged in, it sends the row of the first user on to the profile of the second one. -/
theorem Node.run_attach_other_profile :
    let users : List Row := [[("id", .integer 1)], [("id", .integer 2)]]
    let order : Row := [("user_id", .integer 1), ("id", .integer 2)]
    let first : Row := [("user_id", .integer 1), ("bio", .string "a")]
    let second : Row := [("user_id", .integer 2), ("bio", .string "b")]
    let lookups := [[(⟨"1"⟩, order)], [(⟨"1"⟩, first), (⟨"2"⟩, second)]]
    let context := Context.answering
      [("users", users), ("orders", [order]), ("profiles", [first, second])]
    ∃ out, ((attach { name := "users+orders+profiles" } "user" (keyed "users" "user" "id")
        [keyed "orders" "user" "user_id", keyed "profiles" "user" "user_id"]).run
          context []).outcome = .ok (.rows out) ∧
      List.Forall₂ (fun node lookup => ((operand context node).fetchByKey "user"
          [("user", .array [.integer 1, .integer 2])]).outcome = .ok lookup)
        [keyed "orders" "user" "user_id", keyed "profiles" "user" "user_id"] lookups ∧
      ¬ List.Forall₂ (JoinsOnOwnKey (.single "id") lookups) users out := by
  intro users order first second lookups context
  refine ⟨[[("id", .integer 2), ("user_id", .integer 2), ("bio", .string "b")],
    [("id", .integer 2), ("user_id", .integer 2), ("bio", .string "b")]], by cbv,
    .cons (by cbv) (.cons (by cbv) .nil), ?_⟩
  intro hjoins
  have hfirst := (List.forall₂_cons.mp hjoins).1
  have hown : mergeAll [("id", .integer 1)] (lookups.map (partner (.single "id")
      [("id", .integer 1)])) =
      .ok [("id", .integer 2), ("user_id", .integer 1), ("bio", .string "a")] := by
    cbv
  have hmerged := hown.symm.trans hfirst.merged
  simp at hmerged

end QueryTerms
