import QueryTerms.Proofs.Join.Filter

/-!
# The course of a chain

A chain asks its operands from right to left, until one of them is not to be asked, or fails, or
there are none left.  This file says which operands a chain asks, what it asks them for, what it
makes of their rows, and how it ends, also when it ends with an error.

**Asking.**  `Asks` is the condition on the rows under which the next operand is asked, `unasked`
what the chain ends with otherwise.  Rows without the base's key fields are a third reason to stop,
besides having no rows and having too many keys.

**Courses.**  `Course` are the steps up to some point, `Ends` what happens there; they compute the
chain (`filterFrom_of_course`), and every chain has them (`exists_course`).

**Steps.**  `Narrowing.Merges` are the rows after a step.

**Runs.**  `Node.run_filter_course` puts these together.
-/

namespace QueryTerms

/-! ## Asking -/

section Asking

variable {key : String} {limit : Nat} {base operand : Operand} {params : Params} {rows : List Row}

/-- The chain asks its next operand: there are rows, all of them hold the base's key fields, and
they have no more keys than are allowed. -/
structure Asks (key : String) (limit : Nat) (base : Operand) (rows : List Row) : Prop where
  present : rows ≠ []
  keyed : ∀ row ∈ rows, ((base.keyFields key).valueOf row).isSome
  within : (distinctKeys (base.keyFields key) rows).length ≤ limit

/-- What the chain ends with where it does not ask its next operand. -/
def unasked (key : String) (limit : Nat) (base : Operand) (rows : List Row) :
    Except QueryError (List Row) :=
  if rows = [] then .ok []
  else if ∀ row ∈ rows, ((base.keyFields key).valueOf row).isSome then
    .error (.limitExceeded (distinctKeys (base.keyFields key) rows).length limit)
  else .error (missingKey (base.keyFields key) base.name)

/-- What an operand is asked for: the parameters of the chain, and the keys of the rows. -/
def asked (key : String) (base : Operand) (params : Params) (rows : List Row) : Params :=
  restrictedTo params key (distinctKeys (base.keyFields key) rows)

lemma collectValues_eq_ok (hkeyed : ∀ row ∈ rows, ((base.keyFields key).valueOf row).isSome) :
    collectValues (base.keyFields key) base.name rows =
      .ok (distinctKeys (base.keyFields key) rows) :=
  collectValues_eq_ok_iff.mpr ⟨hkeyed, rfl⟩

/-- A step that asks its operand looks the answer up by key and narrows the rows by it. -/
lemma filterStep_of_asks (h : Asks key limit base rows) :
    filterStep key limit base operand params rows =
      operand.fetch (asked key base params rows) >>= fun fetched =>
        Execution.ofExcept <|
          associate (operand.keyFields key) operand.name fetched >>= fun lookup =>
            narrow (base.keyFields key) (operand.keyFields key) lookup rows := by
  rw [filterStep, Execution.liftM_bind_of_ok (collectValues_eq_ok h.keyed),
    if_neg (Nat.not_lt_of_le h.within), Operand.fetchByKey, bind_assoc]
  refine bind_congr fun fetched => ?_
  cases associate (operand.keyFields key) operand.name fetched <;> rfl

/-- A step that does not ask its operand fails. -/
lemma filterStep_of_not_asks (hpresent : rows ≠ []) (h : ¬ Asks key limit base rows) :
    filterStep key limit base operand params rows = ⟨unasked key limit base rows, []⟩ := by
  rw [filterStep, unasked, if_neg hpresent]
  split
  · next hkeyed =>
    have hexceeds : limit < (distinctKeys (base.keyFields key) rows).length :=
      Nat.lt_of_not_le fun hwithin => h ⟨hpresent, hkeyed, hwithin⟩
    rw [Execution.liftM_bind_of_ok (collectValues_eq_ok hkeyed), if_pos hexceeds, Execution.fail]
  · next hunkeyed =>
    have hmissing : ∃ row ∈ rows, (base.keyFields key).valueOf row = none := by
      simpa using hunkeyed
    rw [Execution.liftM_bind_of_error (collectValues_eq_error hmissing), Execution.fail]

end Asking

/-! ## Courses -/

/-- From these operands and rows, the chain takes these steps; it then has these operands left, and
these rows. -/
inductive Course (key : String) (limit : Nat) (base : Operand) (params : Params) :
    List Operand → List Row → List Narrowing → List Operand → List Row → Prop
  | here (operands : List Operand) (rows : List Row) :
      Course key limit base params operands rows [] operands rows
  | step {operand : Operand} {rest remaining : List Operand} {rows last : List Row}
      {step : Narrowing} {steps : List Narrowing} :
      step.operand = operand → step.rows = rows → rows ≠ [] →
      step.IsTaken key limit base params →
      Course key limit base params rest step.next steps remaining last →
      Course key limit base params (operand :: rest) rows (step :: steps) remaining last

/-- With these operands left and these rows, the chain takes no further step and ends like this. -/
inductive Ends (key : String) (limit : Nat) (base : Operand) (params : Params) :
    List Operand → List Row → Execution (List Row) → Prop
  /-- All operands have been asked. -/
  | finished (rows : List Row) : Ends key limit base params [] rows ⟨.ok rows, []⟩
  /-- The next operand is not asked, and nothing is sent. -/
  | unasked {operand : Operand} {rest : List Operand} {rows : List Row} :
      ¬ Asks key limit base rows →
      Ends key limit base params (operand :: rest) rows ⟨unasked key limit base rows, []⟩
  /-- The next operand fails. -/
  | failed {operand : Operand} {rest : List Operand} {rows : List Row} {cause : QueryError}
      {sent : List Statement} :
      Asks key limit base rows →
      operand.fetch (asked key base params rows) = ⟨.error cause, sent⟩ →
      Ends key limit base params (operand :: rest) rows ⟨.error cause, sent⟩
  /-- The next operand gives rows that lack its key fields, or cannot be merged. -/
  | rejected {operand : Operand} {rest : List Operand} {rows fetched : List Row}
      {cause : QueryError} {sent : List Statement} :
      Asks key limit base rows →
      operand.fetch (asked key base params rows) = ⟨.ok fetched, sent⟩ →
      (associate (operand.keyFields key) operand.name fetched >>= fun lookup =>
        narrow (base.keyFields key) (operand.keyFields key) lookup rows) = .error cause →
      Ends key limit base params (operand :: rest) rows ⟨.error cause, sent⟩

section Courses

variable {key : String} {limit : Nat} {base : Operand} {params : Params}
  {operands remaining : List Operand} {rows last : List Row} {steps : List Narrowing}
  {ending : Execution (List Row)}

lemma Narrowing.IsTaken.asks {step : Narrowing} (h : step.IsTaken key limit base params)
    (hpresent : step.rows ≠ []) : Asks key limit base step.rows :=
  ⟨hpresent, h.keyed, h.within⟩

namespace Course

/-- The operands are asked in their order, and none is left out. -/
lemma operands_eq (h : Course key limit base params operands rows steps remaining last) :
    operands = steps.map Narrowing.operand ++ remaining := by
  induction h with
  | here => rfl
  | step hoperand _ _ _ _ ih => rw [List.map_cons, List.cons_append, hoperand, ← ih]

lemma isTaken (h : Course key limit base params operands rows steps remaining last) :
    ∀ step ∈ steps, Asks key limit base step.rows ∧ step.IsTaken key limit base params := by
  induction h with
  | here => exact nofun
  | step _ hrows hpresent htaken _ ih =>
    exact List.forall_mem_cons.mpr ⟨⟨htaken.asks (hrows ▸ hpresent), htaken⟩, ih⟩

end Course

lemma filterFrom_of_ends (h : Ends key limit base params operands rows ending) :
    filterFrom key limit base params operands rows = ending := by
  cases h with
  | finished => rfl
  | unasked hasks =>
    rw [filterFrom]
    by_cases hrows : rows = []
    · rw [hrows, unasked, if_pos rfl, if_pos List.isEmpty_nil]
      rfl
    · rw [if_neg (by simpa using hrows), filterStep_of_not_asks hrows hasks, unasked, if_neg hrows]
      split <;> rfl
  | failed hasks hfetch =>
    rw [filterFrom, if_neg (by simpa using hasks.present), filterStep_of_asks hasks, hfetch,
      Execution.error_bind, Execution.error_bind]
  | rejected hasks hfetch hrejected =>
    rw [filterFrom, if_neg (by simpa using hasks.present), filterStep_of_asks hasks, hfetch,
      Execution.ok_bind, hrejected, Execution.ofExcept, List.append_nil, Execution.error_bind]

/-- **The course of a chain and its end compute it.**  What the steps send comes before what is sent
in the end. -/
theorem filterFrom_of_course (h : Course key limit base params operands rows steps remaining last)
    (hends : Ends key limit base params remaining last ending) :
    filterFrom key limit base params operands rows =
      ⟨ending.outcome, steps.flatMap Narrowing.sent ++ ending.statements⟩ := by
  induction h with
  | here => exact filterFrom_of_ends hends
  | @step operand rest remaining rows last step steps hoperand hrows hpresent htaken _ ih =>
    have hstep : filterStep key limit base operand params rows = ⟨.ok step.next, step.sent⟩ := by
      rw [← hoperand, ← hrows]
      exact filterStep_eq_ok_iff.mpr ⟨step.fetched, step.lookup, htaken⟩
    rw [filterFrom, if_neg (by simpa using hpresent), hstep, Execution.ok_bind, ih hends,
      List.flatMap_cons, List.append_assoc]

/-- **Every chain has a course, and an end.** -/
theorem exists_course (key : String) (limit : Nat) (base : Operand) (params : Params)
    (operands : List Operand) (rows : List Row) :
    ∃ steps remaining last ending, Course key limit base params operands rows steps remaining last ∧
      Ends key limit base params remaining last ending := by
  induction operands generalizing rows with
  | nil => exact ⟨[], [], rows, _, .here [] rows, .finished rows⟩
  | cons operand rest ih =>
    -- Only a step in which nothing goes wrong leads on to the operands left of it.
    by_cases hasks : Asks key limit base rows
    · obtain ⟨outcome, sent, hfetch⟩ : ∃ outcome sent,
          operand.fetch (asked key base params rows) = ⟨outcome, sent⟩ := ⟨_, _, rfl⟩
      cases outcome with
      | error cause => exact ⟨[], _, rows, _, .here _ rows, .failed hasks hfetch⟩
      | ok fetched =>
        cases hmerged : associate (operand.keyFields key) operand.name fetched >>= fun lookup =>
            narrow (base.keyFields key) (operand.keyFields key) lookup rows with
        | error cause => exact ⟨[], _, rows, _, .here _ rows, .rejected hasks hfetch hmerged⟩
        | ok next =>
          obtain ⟨lookup, hlookup, hnarrow⟩ := bind_eq_ok_iff.mp hmerged
          obtain ⟨steps, remaining, last, ending, hcourse, hends⟩ := ih next
          have htaken : Narrowing.IsTaken key limit base params
              ⟨operand, rows, fetched, lookup, sent, next⟩ :=
            ⟨hasks.keyed, hasks.within, hfetch, hlookup, hnarrow⟩
          exact ⟨_, remaining, last, ending, .step rfl rfl hasks.present htaken hcourse, hends⟩
    · exact ⟨[], _, rows, _, .here _ rows, .unasked hasks⟩

end Courses

/-! ## Steps -/

/-- The row that the look-up of a step has under the key of a row. -/
def Narrowing.found? (key : String) (base : Operand) (step : Narrowing) (row : Row) : Option Row :=
  (KeyValue.ofRow? (base.keyFields key) row).bind step.lookup.get?

/-- The rows after a step.  First come the rows whose key the look-up has, in order, each with the
row of the look-up merged in.  Then come the rows of the look-up whose keys no row has, each once
and in the order of the look-up, with their key in those of the base's key fields that they lack. -/
structure Narrowing.Merges (key : String) (base : Operand) (step : Narrowing) : Prop where
  once : step.lookup.keys.Nodup
  next : ∃ kept,
    List.Forall₂
      (fun row out => ∃ found, step.found? key base row = some found ∧ row.merge found = .ok out)
      (step.rows.filter fun row => (step.found? key base row).isSome) kept ∧
    step.next = kept ++ (step.lookup.filter fun entry =>
        entry.1 ∉ step.rows.filterMap (KeyValue.ofRow? (base.keyFields key))).map fun entry =>
      entry.2.extendNew (renamedKey (step.operand.keyFields key) (base.keyFields key) entry.2)

section Steps

/-- Re-keying adds the key under the names of the base's fields. -/
lemma rekey_eq_extendNew (source target : KeyFields) (row : Row) :
    rekey source target row = row.extendNew (renamedKey source target row) := by
  rw [rekey]
  split
  · next heq =>
    -- The names that would be added are in the row already.
    subst heq
    refine (Table.extendNew_eq_self fun entry hentry => ?_).symm
    have hhas : Table.has entry.1 (row ++ renamedKey source source row) :=
      (Table.has_iff_mem_keys _ _).mpr (List.mem_map_of_mem (List.mem_append_right row hentry))
    rwa [Table.has, get?_renamedKey_self] at hhas
  · rw [Table.extendNew, renamedKey]
    generalize target.fields.zip _ = pairs
    generalize hout : row = out
    clear hout
    induction pairs generalizing out with
    | nil => rfl
    | cons pair rest ih =>
      obtain ⟨field, value⟩ := pair
      cases value with
      | none => exact ih out
      | some value => exact ih (out.setNew field value)

/-- The rows that are kept are those that the look-up has a row for. -/
lemma forall₂_of_keepRow {fields : KeyFields} {lookup : Table KeyValue Row} {rows kept : List Row}
    (h : rows.filterMapM (keepRow fields lookup) = .ok kept) :
    List.Forall₂
      (fun row out => ∃ found, (KeyValue.ofRow? fields row).bind lookup.get? = some found ∧
        row.merge found = .ok out)
      (rows.filter fun row => ((KeyValue.ofRow? fields row).bind lookup.get?).isSome) kept := by
  induction rows generalizing kept with
  | nil =>
    cases h
    exact .nil
  | cons row rest ih =>
    rw [List.filterMapM_cons] at h
    obtain ⟨first, hfirst, hrest⟩ := bind_eq_ok_iff.mp h
    rw [keepRow] at hfirst
    split at hfirst
    · next found hfound =>
      obtain ⟨out, hout, rfl⟩ := map_eq_ok_iff.mp hfirst
      obtain ⟨others, hothers, heq⟩ := bind_eq_ok_iff.mp hrest
      cases heq
      rw [List.filter_cons_of_pos (by rw [hfound, Option.isSome_some])]
      exact .cons ⟨found, hfound, hout⟩ (ih hothers)
    · next hnone =>
      cases hfirst
      rw [List.filter_cons_of_neg (by simp [hnone])]
      exact ih hrest

lemma Narrowing.IsTaken.merges {key : String} {limit : Nat} {base : Operand} {params : Params}
    {step : Narrowing} (h : step.IsTaken key limit base params) : step.Merges key base := by
  obtain ⟨kept, hkept, hnext⟩ := bind_eq_ok_iff.mp h.narrow
  refine ⟨nodup_keys_associate h.lookup, kept, forall₂_of_keepRow hkept, ?_⟩
  rw [← Except.ok.inj hnext]
  simp only [rekey_eq_extendNew, List.contains_eq_mem, decide_not]

end Steps

/-! ## Runs -/

/-- **What a chain does, step by step.**  The base comes first; if it fails, that is all.  Then the
operands are asked from right to left, each for the keys of the rows that are there by then, as long
as there are rows, all of them hold the base's key fields, and they have no more distinct keys than
allowed.  `Ends` says what happens after the last step: all operands were asked, or the next one is
not asked, or it is asked and fails, or its rows cannot be looked up or merged. -/
theorem Node.run_filter_course (context : Context) (info : NodeInfo) (key : String)
    (narrowing : List Node) (base : Node) (params : Params) :
    let given := info.withDefaults params
    let limit := context.config.filterKeyLimit
    let operands := (narrowing.map (operand context)).reverse
    let first := (base.operand context).fetch given
    let whole := (filter info key narrowing base).run context params
    (∀ cause, first.outcome = .error cause → whole = ⟨.error cause, first.statements⟩) ∧
    ∀ rows, first.outcome = .ok rows → ∃ steps remaining last ending,
      Course key limit (base.operand context) given operands rows steps remaining last ∧
      Ends key limit (base.operand context) given remaining last ending ∧
      operands = steps.map Narrowing.operand ++ remaining ∧
      (∀ step ∈ steps, Asks key limit (base.operand context) step.rows ∧
        step.IsTaken key limit (base.operand context) given ∧
        step.Merges key (base.operand context)) ∧
      whole = ⟨ending.outcome.map fun out => finish info (.rows out),
        first.statements ++ (steps.flatMap Narrowing.sent ++ ending.statements)⟩ := by
  intro given limit operands first whole
  obtain ⟨outcome, before, hfirst⟩ : ∃ outcome before, first = ⟨outcome, before⟩ := ⟨_, _, rfl⟩
  have hwhole : whole = (first >>= fun rows =>
      filterFrom key limit (base.operand context) given operands rows) >>= fun out =>
        pure (finish info (.rows out)) := by
    change run context (filter info key narrowing base) params = _
    rw [run, operandsOf_eq_map]
    rfl
  rw [hwhole, hfirst]
  refine ⟨?_, ?_⟩
  · rintro cause rfl
    rw [Execution.error_bind, Execution.error_bind]
  · rintro rows rfl
    obtain ⟨steps, remaining, last, ending, hcourse, hends⟩ :=
      exists_course key limit (base.operand context) given operands rows
    refine ⟨steps, remaining, last, ending, hcourse, hends, hcourse.operands_eq, ?_, ?_⟩
    · intro step hstep
      obtain ⟨hasks, htaken⟩ := hcourse.isTaken step hstep
      exact ⟨hasks, htaken, htaken.merges⟩
    · rw [Execution.ok_bind, filterFrom_of_course hcourse hends]
      cases ending.outcome with
      | error cause => rfl
      | ok out => exact congrArg (Execution.mk _) (List.append_nil _)

/-- Users narrowed to those with orders, then to those with notes.  There are notes of users without
orders, so that three keys are left, which is one too many: the tags are not asked. -/
theorem Node.run_filter_course_notes :
    let users : List Row := [[("id", .integer 1)], [("id", .integer 2)], [("id", .null)]]
    let orders : List Row := [[("user_id", .integer 2)], [("user_id", .integer 9)]]
    let notes : List Row := [[("user_id", .integer 2)], [("user_id", .integer 3)],
      [("user_id", .integer 4)]]
    let context := { Context.answering [("users", users), ("orders", orders), ("notes", notes)] with
      config := { filterKeyLimit := 2 } }
    let base := (keyed "users" "user" "id").operand context
    let operands := ["orders", "notes", "tags"].map fun id =>
      (keyed id "user" "user_id").operand context
    ∃ steps remaining last ending,
      Course "user" 2 base [] operands users steps remaining last ∧
      Ends "user" 2 base [] remaining last ending ∧
      (∀ step ∈ steps, Asks "user" 2 base step.rows ∧ step.Merges "user" base) ∧
      ending.outcome = .error (.limitExceeded 3 2) ∧
      steps.flatMap Narrowing.sent ++ ending.statements =
        [⟨"orders", []⟩, ⟨"notes", []⟩] := by
  intro users orders notes context base operands
  have husers : base.fetch [] = ⟨.ok users, [⟨"users", []⟩]⟩ := by
    cbv
  have hrun : (filter { name := "tags:notes:orders:users" } "user"
      [keyed "tags" "user" "user_id", keyed "notes" "user" "user_id",
        keyed "orders" "user" "user_id"] (keyed "users" "user" "id")).run context [] =
      ⟨.error (.limitExceeded 3 2), [⟨"users", []⟩, ⟨"orders", []⟩, ⟨"notes", []⟩]⟩ := by
    cbv
  obtain ⟨steps, remaining, last, ending, hcourse, hends, -, hsteps, hwhole⟩ :=
    (run_filter_course context { name := "tags:notes:orders:users" } "user"
      [keyed "tags" "user" "user_id", keyed "notes" "user" "user_id",
        keyed "orders" "user" "user_id"] (keyed "users" "user" "id") []).2 users
      (congrArg Execution.outcome husers)
  obtain ⟨houtcome, hsent⟩ := Execution.mk.inj (hrun.symm.trans hwhole)
  refine ⟨steps, remaining, last, ending, hcourse, hends, fun step hstep => ?_, ?_, ?_⟩
  · obtain ⟨hasks, -, hmerges⟩ := hsteps step hstep
    exact ⟨hasks, hmerges⟩
  · cases hending : ending.outcome with
    | error cause =>
      rw [hending] at houtcome
      exact congrArg Except.error (Except.error.inj houtcome).symm
    | ok out =>
      rw [hending] at houtcome
      cases houtcome
  · have hall : (⟨"users", []⟩ : Statement) :: [⟨"orders", []⟩, ⟨"notes", []⟩] =
        ⟨"users", []⟩ :: (steps.flatMap Narrowing.sent ++ ending.statements) :=
      hsent.trans (congrArg (fun run => run.statements ++ _) husers)
    exact (List.cons.inj hall).2.symm

/-- **A row without the key is a reason of its own to stop.**  The rows of the base have no key
field, so that there are no keys, which are not too many; the operand is not asked, and the result
is neither empty nor too large a key set. -/
theorem Node.run_filter_unkeyed :
    let users : List Row := [[("name", .string "a")]]
    let orders : List Row := [[("user_id", .integer 1)]]
    let context := Context.answering [("users", users), ("orders", orders)]
    ((keyed "users" "user" "id").operand context).fetch [] = ⟨.ok users, [⟨"users", []⟩]⟩ ∧
    users ≠ [] ∧ (distinctKeys (.single "id") users).length ≤ context.config.filterKeyLimit ∧
    (filter { name := "orders:users" } "user" [keyed "orders" "user" "user_id"]
        (keyed "users" "user" "id")).run context [] =
      ⟨.error (.schema (.missingKey ["id"] "users")), [⟨"users", []⟩]⟩ := by
  intro users orders context
  refine ⟨by cbv, List.cons_ne_nil _ _, by cbv, by cbv⟩

end QueryTerms
