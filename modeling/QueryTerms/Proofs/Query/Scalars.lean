import Mathlib
import QueryTerms.Proofs.Query.Batches

/-!
# Single values in batches

A leaf that gives a single value gives the first value of the first row.  Sent in batches it gives
the first value, over all batches, that is not null: a row that holds null is taken for no row.

**One statement.**  `firstValue` is the value that is fetched from rows.

**Several statements.**  Joining the values of batches passes over those that are null
(`foldl_concat_scalar`), which gives the value of all rows together unless that is null
(`firstPresent_eq_iff`).

**Running.**  `runLeaf_scalar_iff` says when a leaf gives the same with and without batches.
-/

namespace QueryTerms

/-! ## One statement -/

/-- The first value of the first row, or null. -/
def firstValue (rows : List Row) : Value := (rows.head?.bind Cursor.firstField).getD .null

lemma fetch_scalar (rows : List Row) :
    Cursor.fetch { rows } .one .one = .scalar (firstValue rows) := rfl

lemma firstValue_append_of_ne_nil {front : List Row} (h : front ≠ []) (back : List Row) :
    firstValue (front ++ back) = firstValue front := by
  rw [firstValue, List.head?_append_of_ne_nil front h, firstValue]

/-! ## Several statements -/

/-- The first value that is not null, or null. -/
def firstPresent : List Value → Value
  | [] => .null
  | .null :: rest => firstPresent rest
  | value :: _ => value

section Parts

variable {value : Value} {values : List Value} {parts : List (List Value)}
  {rows : List Value → List Row}

lemma firstPresent_cons_of_ne (h : value ≠ .null) : firstPresent (value :: values) = value := by
  cases value with
  | null => exact absurd rfl h
  | _ => rfl

lemma firstPresent_eq_null_iff : firstPresent values = .null ↔ ∀ value ∈ values, value = .null := by
  induction values with
  | nil => exact iff_of_true rfl nofun
  | cons value rest ih =>
    rw [List.forall_mem_cons]
    by_cases hvalue : value = .null
    · rw [hvalue, firstPresent, ih, and_iff_right rfl]
    · rw [firstPresent_cons_of_ne hvalue, iff_false_intro hvalue, false_and]

/-- Joining passes over what is null. -/
lemma foldl_concat_scalar (start : Value) (values : List Value) :
    (values.map Shaped.scalar).foldl concat (.scalar start) =
      .scalar (firstPresent (start :: values)) := by
  induction values generalizing start with
  | nil => cases start <;> rfl
  | cons value rest ih =>
    rw [List.map_cons, List.foldl_cons]
    by_cases hstart : start = .null
    · rw [hstart]
      exact ih value
    · have hconcat : concat (.scalar start) (.scalar value) = .scalar start := by
        cases start with
        | null => exact absurd rfl hstart
        | _ => rfl
      rw [hconcat, ih, firstPresent_cons_of_ne hstart, firstPresent_cons_of_ne hstart]

/-- A value of all rows that is not null is the first one that is not null over the parts. -/
lemma firstPresent_of_ne_null (h : firstValue (parts.flatMap rows) ≠ .null) :
    firstPresent (parts.map fun part => firstValue (rows part)) =
      firstValue (parts.flatMap rows) := by
  induction parts with
  | nil => exact absurd rfl h
  | cons part rest ih =>
    rw [List.flatMap_cons] at h ⊢
    rw [List.map_cons]
    by_cases hempty : rows part = []
    · rw [hempty, List.nil_append] at h ⊢
      exact ih h
    · rw [firstValue_append_of_ne_nil hempty] at h ⊢
      exact firstPresent_cons_of_ne h

/-- **When the batches agree with all rows together.** -/
lemma firstPresent_eq_iff :
    firstPresent (parts.map fun part => firstValue (rows part)) =
        firstValue (parts.flatMap rows) ↔
      (firstValue (parts.flatMap rows) = .null →
        ∀ part ∈ parts, firstValue (rows part) = .null) := by
  constructor
  · intro h hnull part hpart
    exact firstPresent_eq_null_iff.mp (h.trans hnull) _ (List.mem_map_of_mem hpart)
  · intro h
    by_cases hnull : firstValue (parts.flatMap rows) = .null
    · rw [hnull, firstPresent_eq_null_iff, List.forall_mem_map]
      exact h hnull
    · exact firstPresent_of_ne_null hnull

end Parts

/-! ## Running -/

section Running

variable {context : Context} {info : NodeInfo} {source : LeafSource} {params values : Params}
  {leaf sql param : String} {size : Nat} {items : List Value} {rows : List Value → List Row}

/-- The rows of a whole list are those of its parts, by induction on the parts. -/
lemma AddsUp.rows_eq_flatMap (h : AddsUp context sql info values param items rows)
    {parts : List (List Value)} (hne : parts ≠ []) (hparts : ∀ part ∈ parts, part ≠ [])
    (hwithin : parts.flatten <:+: items) : rows parts.flatten = parts.flatMap rows := by
  induction parts with
  | nil => exact absurd rfl hne
  | cons part rest ih =>
    obtain ⟨hpart, hrest⟩ := List.forall_mem_cons.mp hparts
    rw [List.flatten_cons] at hwithin ⊢
    rw [List.flatMap_cons]
    by_cases hlast : rest = []
    · rw [hlast, List.flatten_nil, List.append_nil, List.flatMap_nil, List.append_nil]
    · obtain ⟨second, others, rfl⟩ := List.exists_cons_of_ne_nil hlast
      have hback : (second :: others).flatten ≠ [] := by
        rw [List.flatten_cons]
        exact List.append_ne_nil_of_left_ne_nil (List.forall_mem_cons.mp hrest).1 _
      have hsuffix : (second :: others).flatten <:+: items :=
        (List.suffix_append part _).isInfix.trans hwithin
      rw [h.append part _ hpart hback hwithin, ih hlast hrest hsuffix]

/-- The value of a leaf, with and without batches. -/
lemma runStatement_scalar_eq_ok (leaf : String) {bound : Table String Bound}
    (h : IsBatched info (effectiveParams info context.config params) param size items)
    (hrows : info.output.rows = .one) (hcolumns : info.output.columns = .one)
    (hadds : AddsUp context sql info (effectiveParams info context.config params) param items rows)
    {text : List Value → String}
    (hrender : ∀ part, Sql.render context.database.literal sql
      ((effectiveParams info context.config params).set param (.array part)) info.params =
        .ok ⟨text part, bound⟩) :
    runStatement context leaf sql info params =
        ⟨.ok (.scalar (firstPresent ((chunks (max size 1) items).map fun part =>
          firstValue (rows part)))),
          (chunks (max size 1) items).map fun part => ⟨text part, bound⟩⟩ ∧
      runStatement context leaf sql info.unbatched params =
        ⟨.ok (.scalar (firstValue (rows items))), [⟨text items, bound⟩]⟩ := by
  have hpart : ∀ part, part ≠ [] → part <:+: items →
      runOnce context leaf sql info
          ((effectiveParams info context.config params).set param (.array part)) =
        ⟨.ok (.scalar (firstValue (rows part))), [⟨text part, bound⟩]⟩ := by
    intro part hne hwithin
    rw [runOnce_eq_ok leaf hadds hne hwithin (hrender part), hrows, hcolumns, fetch_scalar]
  have hsplit := isSplit_chunks (Nat.le_max_right size 1) items
  have hone := hpart items h.items_ne_nil (List.infix_refl items)
  rw [Table.set_eq_self h.given] at hone
  constructor
  · obtain ⟨first, rest, hchunks⟩ :=
      List.exists_cons_of_ne_nil (hsplit.parts_ne_nil h.items_ne_nil)
    rw [hchunks] at hsplit
    rw [runStatement_of_isBatched h, hchunks, runBatches_eq_foldl fun part hmem =>
      hpart part (hsplit.ne_nil part hmem) (hsplit.infix_of_mem hmem)]
    have hjoined := foldl_concat_scalar (firstValue (rows first))
      (rest.map fun part => firstValue (rows part))
    rw [List.map_map] at hjoined
    refine Execution.bind_pure_eq_ok_iff.mpr ⟨_, rfl, ?_⟩
    exact congrArg (shapeResult (shapingOf context leaf info)) hjoined
  · rw [runStatement_unbatched]
    exact Execution.bind_pure_eq_ok_iff.mpr ⟨_, hone, rfl⟩

/-- **When a single value does not depend on batches.**  Either the statement of the leaf cannot be
had or rendered, and nothing is sent.  Or the leaf gives the first value of the first row over all
parts if the list is not sent in batches, and the first one of these that is not null if it is;
these are the same exactly if the former is not null or no part begins with a value. -/
theorem runLeaf_scalar_iff
    (h : IsBatched info (effectiveParams info context.config params) param size items)
    (hrows : info.output.rows = .one) (hcolumns : info.output.columns = .one)
    (hadds : ∀ sql, source.statement context = .ok sql →
      AddsUp context sql info (effectiveParams info context.config params) param items rows) :
    (∃ cause, runLeaf context info source params = .fail cause ∧
      runLeaf context info.unbatched source params = .fail cause ∧
      (source.statement context = .error cause ∨ ∃ sql, source.statement context = .ok sql ∧
        Sql.render context.database.literal sql (effectiveParams info context.config params)
          info.params = .error cause)) ∨
    ∃ sql parts batched, source.statement context = .ok sql ∧
      IsSplit (max size 1) items parts ∧
      SendsParts context sql info (effectiveParams info context.config params) param parts
        (runLeaf context info source params).statements ∧
      batched = firstPresent (parts.map fun part => firstValue (rows part)) ∧
      (runLeaf context info source params).outcome = .ok (.scalar batched) ∧
      (runLeaf context info.unbatched source params).outcome =
        .ok (.scalar (firstValue (parts.flatMap rows))) ∧
      (batched = firstValue (parts.flatMap rows) ↔
        (firstValue (parts.flatMap rows) = .null →
          ∀ part ∈ parts, firstValue (rows part) = .null)) := by
  obtain hfails | ⟨sql, bound, hsql, hrender⟩ := runLeaf_eq_fail_or h
  · exact .inl hfails
  · obtain ⟨hbatched, hwhole⟩ :=
      runStatement_scalar_eq_ok source.id h hrows hcolumns (hadds sql hsql) hrender
    have hsplit := isSplit_chunks (Nat.le_max_right size 1) items
    have hwithin : (chunks (max size 1) items).flatten <:+: items := by rw [hsplit.flatten]
    have hall := (hadds sql hsql).rows_eq_flatMap (hsplit.parts_ne_nil h.items_ne_nil)
      hsplit.ne_nil hwithin
    rw [hsplit.flatten] at hall
    rw [runLeaf_of_statement hsql, runLeaf_of_statement hsql, hbatched, hwhole, hall]
    refine .inr ⟨sql, chunks (max size 1) items, _, hsql, hsplit, ?_, rfl, rfl, rfl,
      firstPresent_eq_iff⟩
    rw [SendsParts, List.forall₂_map_right_iff, List.forall₂_same]
    exact fun part _ => hrender part

end Running

/-- Three numbers, one in a statement: the first one has no row, the second one has the value that
is found, with and without batches. -/
theorem runLeaf_scalar_totals :
    let total : Value → List Row := fun number =>
      match number with
      | .integer 1 => []
      | number => [[("total", number)]]
    let first := Value.integer 1
    let second := Value.integer 2
    let third := Value.integer 3
    let context := Context.answering
      [("IN (1)", total first), ("IN (2)", total second), ("IN (3)", total third),
        ("IN (1,2)", total second), ("IN (2,3)", total second ++ total third),
        ("IN (1,2,3)", total second ++ total third)]
    let source : LeafSource := .compiled "IN (:numbers)" [] []
    let info : NodeInfo :=
      { name := "total", params := [("numbers", { batch := some 1 })]
        output := { rows := .one, columns := .one } }
    let numbers := [first, second, third]
    let params := [("numbers", Value.array numbers)]
    runLeaf context info source params = ⟨.ok (.scalar second),
        [⟨"IN (1)", []⟩, ⟨"IN (2)", []⟩, ⟨"IN (3)", []⟩]⟩ ∧
      (runLeaf context info.unbatched source params).outcome = .ok (.scalar second) := by
  intro total first second third context source info numbers params
  have hrun : runLeaf context info source params = ⟨.ok (.scalar second),
      [⟨"IN (1)", []⟩, ⟨"IN (2)", []⟩, ⟨"IN (3)", []⟩]⟩ := by cbv
  have hvalues : effectiveParams info context.config params = params := by cbv
  have hbatched : IsBatched info (effectiveParams info context.config params) "numbers" 1
      numbers := by
    rw [hvalues]
    exact ⟨by decide, ⟨_, rfl, rfl⟩, rfl, by decide, by simp [info]⟩
  have hadds : ∀ sql, source.statement context = .ok sql →
      AddsUp context sql info (effectiveParams info context.config params) "numbers" numbers
        (List.flatMap total) := by
    rintro _ ⟨⟩
    rw [hvalues]
    refine ⟨fun part rendered hpart hwithin hrender => ?_, fun _ _ _ _ _ => List.flatMap_append⟩
    have hcases : part = [first] ∨ part = [second] ∨ part = [third] ∨ part = [first, second] ∨
        part = [second, third] ∨ part = [first, second, third] := by
      simp only [numbers, List.infix_cons_iff, List.prefix_cons_iff, List.prefix_nil,
        List.infix_nil, hpart, false_or] at hwithin
      aesop
    rcases hcases with rfl | rfl | rfl | rfl | rfl | rfl
    all_goals
      cbv at hrender
      cases hrender
      exact ⟨_, rfl, rfl⟩
  obtain ⟨cause, hfail, -⟩ | ⟨sql, parts, batched, -, hsplit, -, -, hbatches, hwhole, hiff⟩ :=
    runLeaf_scalar_iff hbatched rfl rfl hadds
  · rw [hrun] at hfail
    cases hfail
  · rw [hrun] at hbatches
    cases hbatches
    have hall : parts.flatMap (List.flatMap total) = numbers.flatMap total := by
      rw [← hsplit.flatten, List.flatMap_def, List.flatMap_def, List.map_flatten,
        List.flatten_flatten, List.map_map]
      rfl
    have hsame : second = firstValue (parts.flatMap (List.flatMap total)) := by
      refine hiff.mpr fun hnull => ?_
      rw [hall] at hnull
      cases hnull
    rw [← hsame] at hwhole
    exact ⟨hrun, hwhole⟩

/-- **A null in the first row gets lost.**  Of two numbers the first one has a row that holds null:
this is the value of both together, and it is passed over in batches. -/
theorem runLeaf_scalar_null :
    let total : Value → List Row := fun number =>
      match number with
      | .integer 1 => [[("total", .null)]]
      | number => [[("total", number)]]
    let first := Value.integer 1
    let second := Value.integer 2
    let context := Context.answering [("IN (1)", total first), ("IN (2)", total second),
      ("IN (1,2)", total first ++ total second)]
    let sql := "IN (:numbers)"
    let source : LeafSource := .compiled sql [] []
    let info : NodeInfo :=
      { name := "total", params := [("numbers", { batch := some 1 })]
        output := { rows := .one, columns := .one } }
    let numbers := [first, second]
    let params := [("numbers", Value.array numbers)]
    source.statement context = .ok sql ∧
      IsBatched info (effectiveParams info context.config params) "numbers" 1 numbers ∧
      AddsUp context sql info (effectiveParams info context.config params) "numbers" numbers
        (List.flatMap total) ∧
      runLeaf context info source params =
        ⟨.ok (.scalar second), [⟨"IN (1)", []⟩, ⟨"IN (2)", []⟩]⟩ ∧
      runLeaf context info.unbatched source params = ⟨.ok (.scalar .null), [⟨"IN (1,2)", []⟩]⟩ := by
  intro total first second context sql source info numbers params
  have hvalues : effectiveParams info context.config params = params := by cbv
  rw [hvalues]
  have hbatched : IsBatched info params "numbers" 1 numbers :=
    ⟨by decide, ⟨_, rfl, rfl⟩, rfl, by decide, by simp [info]⟩
  have hadds : AddsUp context sql info params "numbers" numbers (List.flatMap total) := by
    refine ⟨fun part rendered hpart hwithin hrender => ?_, fun _ _ _ _ _ => List.flatMap_append⟩
    have hcases : part = [first] ∨ part = [second] ∨ part = [first, second] := by
      simp only [numbers, List.infix_cons_iff, List.prefix_cons_iff, List.prefix_nil,
        List.infix_nil, hpart, false_or] at hwithin
      aesop
    rcases hcases with rfl | rfl | rfl
    all_goals
      cbv at hrender
      cases hrender
      exact ⟨_, rfl, rfl⟩
  exact ⟨rfl, hbatched, hadds, by cbv, by cbv⟩

end QueryTerms
