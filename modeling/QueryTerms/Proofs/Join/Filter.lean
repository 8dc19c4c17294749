import Mathlib
import QueryTerms.Proofs.Key
import QueryTerms.Proofs.Query.Names
import QueryTerms.Proofs.Row.Grouping
import QueryTerms.Proofs.Row.Merge

/-!
# What filtering gives

A chain narrows rows by one operand after another.  Every step reads the key of a row from the
base's fields, although the rows by then hold what other operands have put there.

**Chains.**  `Narrowing` is one step with all that happens in it, `Chain` a run of such steps from
right to left; `filterFrom_eq_ok_iff` says that the loop runs such a chain.

**Keys.**  A step keeps or adds rows under the keys of its look-up: `keysAfter`, which are the keys
of the operand's rows (`mem_keysAfter`).  Whether the rows that come out still read these keys is
another matter.

**When they do.**  `ColumnsAgree`: where an operand's row has columns named like the base's key
fields, these spell its key as well.  `carriesKeys_iff` says that this is the exact condition for
one step, `Node.run_filter_carriesKeys_iff` for a run.
-/

namespace QueryTerms

/-! ## Chains -/

/-- One step of a chain. -/
structure Narrowing where
  operand : Operand
  /-- The rows before the step. -/
  rows : List Row
  /-- What the operand gave, as rows and by key. -/
  fetched : List Row
  lookup : Table KeyValue Row
  sent : List Statement
  /-- The rows after the step. -/
  next : List Row

section Chains

variable {key : String} {limit : Nat} {base : Operand} {params : Params}

/-- The step was taken: the operand was asked for the distinct keys of the rows, which are few
enough, and the rows were narrowed by what it gave. -/
structure Narrowing.IsTaken (key : String) (limit : Nat) (base : Operand) (params : Params)
    (step : Narrowing) : Prop where
  keyed : ∀ row ∈ step.rows, ((base.keyFields key).valueOf row).isSome
  within : (distinctKeys (base.keyFields key) step.rows).length ≤ limit
  fetch : step.operand.fetch
    (restrictedTo params key (distinctKeys (base.keyFields key) step.rows)) =
      ⟨.ok step.fetched, step.sent⟩
  lookup : associate (step.operand.keyFields key) step.operand.name step.fetched =
    .ok step.lookup
  narrow : narrow (base.keyFields key) (step.operand.keyFields key) step.lookup step.rows =
    .ok step.next

/-- From these operands and rows, the chain takes these steps and ends with these rows.  It stops
where the operands, or the rows, are used up. -/
inductive Chain (key : String) (limit : Nat) (base : Operand) (params : Params) :
    List Operand → List Row → List Narrowing → List Row → Prop
  | done (rows : List Row) : Chain key limit base params [] rows [] rows
  | stopped (operands : List Operand) : Chain key limit base params operands [] [] []
  | step {operand : Operand} {rest : List Operand} {rows out : List Row} {step : Narrowing}
      {steps : List Narrowing} :
      step.operand = operand → step.rows = rows → rows ≠ [] →
      step.IsTaken key limit base params → Chain key limit base params rest step.next steps out →
      Chain key limit base params (operand :: rest) rows (step :: steps) out

namespace Chain

variable {operands : List Operand} {rows out : List Row} {steps : List Narrowing}

lemma steps_of_no_operands (h : Chain key limit base params [] rows steps out) :
    steps = [] ∧ rows = out := by
  cases h with
  | done => exact ⟨rfl, rfl⟩
  | stopped => exact ⟨rfl, rfl⟩

lemma steps_of_no_rows (h : Chain key limit base params operands [] steps out) :
    steps = [] ∧ [] = out := by
  cases h with
  | done => exact ⟨rfl, rfl⟩
  | stopped => exact ⟨rfl, rfl⟩
  | step _ _ hne => exact absurd rfl hne

lemma eq_of_no_steps (h : Chain key limit base params operands rows [] out) : rows = out := by
  cases h with
  | done => rfl
  | stopped => rfl

/-- With an operand and rows, there is a first step. -/
lemma first_step {operand : Operand} {rest : List Operand}
    (h : Chain key limit base params (operand :: rest) rows steps out) (hne : rows ≠ []) :
    ∃ step others, steps = step :: others ∧ step.operand = operand ∧ step.rows = rows ∧
      step.IsTaken key limit base params ∧
      Chain key limit base params rest step.next others out := by
  cases h with
  | stopped => exact absurd rfl hne
  | step hoperand hrows _ htaken hrest => exact ⟨_, _, rfl, hoperand, hrows, htaken, hrest⟩

end Chain

lemma filterStep_eq_ok_iff {operand : Operand} {rows next : List Row} {sent : List Statement} :
    filterStep key limit base operand params rows = ⟨.ok next, sent⟩ ↔
      ∃ fetched lookup, Narrowing.IsTaken key limit base params
        ⟨operand, rows, fetched, lookup, sent, next⟩ := by
  rw [filterStep, Execution.liftM_bind_eq_ok_iff]
  constructor
  · rintro ⟨values, hvalues, hstep⟩
    obtain ⟨hkeyed, rfl⟩ := collectValues_eq_ok_iff.mp hvalues
    split at hstep
    · cases hstep
    · next hwithin =>
      obtain ⟨lookup, asked, _, hlookup, hnarrow, rfl⟩ := Execution.bind_eq_ok_iff.mp hstep
      obtain ⟨hnext, rfl⟩ := Execution.ofExcept_eq_ok_iff.mp hnarrow
      obtain ⟨fetched, sent, _, hfetch, hassociate, rfl⟩ := Execution.bind_eq_ok_iff.mp hlookup
      obtain ⟨htable, rfl⟩ := Execution.ofExcept_eq_ok_iff.mp hassociate
      rw [List.append_nil, List.append_nil]
      exact ⟨fetched, lookup, hkeyed, Nat.le_of_not_lt hwithin, hfetch, htable, hnext⟩
  · rintro ⟨fetched, lookup, hkeyed, hwithin, hfetch, hassociate, hnarrow⟩
    refine ⟨_, collectValues_eq_ok_iff.mpr ⟨hkeyed, rfl⟩, ?_⟩
    rw [if_neg (Nat.not_lt_of_le hwithin)]
    refine Execution.bind_eq_ok_iff.mpr ⟨lookup, sent, [], ?_, ?_, (List.append_nil sent).symm⟩
    · exact Execution.bind_eq_ok_iff.mpr ⟨fetched, sent, [], hfetch,
        Execution.ofExcept_eq_ok_iff.mpr ⟨hassociate, rfl⟩, (List.append_nil sent).symm⟩
    · exact Execution.ofExcept_eq_ok_iff.mpr ⟨hnarrow, rfl⟩

/-- **The loop runs a chain**, and sends what its steps send. -/
theorem filterFrom_eq_ok_iff {operands : List Operand} {rows out : List Row}
    {sent : List Statement} :
    filterFrom key limit base params operands rows = ⟨.ok out, sent⟩ ↔
      ∃ steps, Chain key limit base params operands rows steps out ∧
        sent = steps.flatMap Narrowing.sent := by
  induction operands generalizing rows sent with
  | nil =>
    rw [filterFrom, Execution.pure_eq_ok_iff]
    constructor
    · rintro ⟨rfl, rfl⟩
      exact ⟨[], .done rows, rfl⟩
    · rintro ⟨steps, hchain, rfl⟩
      obtain ⟨rfl, rfl⟩ := hchain.steps_of_no_operands
      exact ⟨rfl, rfl⟩
  | cons operand rest ih =>
    rw [filterFrom]
    cases rows with
    | nil =>
      rw [if_pos List.isEmpty_nil, Execution.pure_eq_ok_iff]
      constructor
      · rintro ⟨rfl, rfl⟩
        exact ⟨[], .stopped _, rfl⟩
      · rintro ⟨steps, hchain, rfl⟩
        obtain ⟨rfl, rfl⟩ := hchain.steps_of_no_rows
        exact ⟨rfl, rfl⟩
    | cons row others =>
      rw [if_neg (by simp), Execution.bind_eq_ok_iff]
      constructor
      · rintro ⟨next, before, after, hstep, hrest, rfl⟩
        obtain ⟨fetched, lookup, htaken⟩ := filterStep_eq_ok_iff.mp hstep
        obtain ⟨steps, hchain, rfl⟩ := ih.mp hrest
        exact ⟨_, .step rfl rfl (List.cons_ne_nil row others) htaken hchain, rfl⟩
      · rintro ⟨steps, hchain, rfl⟩
        obtain ⟨step, others, rfl, hoperand, hrows, htaken, hrest⟩ :=
          hchain.first_step (List.cons_ne_nil _ _)
        refine ⟨step.next, step.sent, _, ?_, ih.mpr ⟨others, hrest, rfl⟩, rfl⟩
        rw [← hoperand, ← hrows]
        exact filterStep_eq_ok_iff.mpr ⟨step.fetched, step.lookup, htaken⟩

end Chains

/-! ## Keys -/

/-- The key of a row under the names of other fields. -/
def renamedKey (source target : KeyFields) (row : Row) : Row :=
  (target.fields.zip (source.fields.map fun field => row.get? field)).filterMap
    fun pair => pair.2.map fun value => (pair.1, value)

/-- The keys under which a step hands rows on: those of the rows that the look-up has, then those of
the look-up that no row has. -/
def keysAfter (base : KeyFields) (lookup : Table KeyValue Row) (rows : List Row) :
    List KeyValue :=
  let asked := rows.filterMap (KeyValue.ofRow? base)
  asked.filter (fun key => lookup.has key) ++
    (lookup.filter fun entry => !asked.contains entry.1).map Prod.fst

/-- Where the row found for a key has columns named like the base's key fields, these spell the
same key.  A row that is kept has the base's key fields itself, one that is added brings its own
key. -/
structure ColumnsAgree (base operand : KeyFields) (lookup : Table KeyValue Row)
    (rows : List Row) : Prop where
  kept : ∀ row ∈ rows, ∀ key found, KeyValue.ofRow? base row = some key →
    lookup.get? key = some found → KeyValue.ofRow? base (found.inFrontOf row) = some key
  added : ∀ entry ∈ lookup, entry.1 ∉ rows.filterMap (KeyValue.ofRow? base) →
    KeyValue.ofRow? base (entry.2 ++ renamedKey operand base entry.2) = some entry.1

section Keys

variable {base operand : KeyFields} {lookup : Table KeyValue Row} {rows next : List Row}

lemma get?_renamedKey_self (fields : KeyFields) (row : Row) (name : String) :
    (row ++ renamedKey fields fields row).get? name = row.get? name := by
  rw [Table.get?_append, renamedKey]
  generalize fields.fields = names
  induction names with
  | nil => rw [List.zip_nil_left, List.filterMap_nil, Table.get?_nil, Option.or_none]
  | cons field rest ih =>
    rw [List.map_cons, List.zip_cons_cons]
    cases hfield : Table.get? field row with
    | none => exact ih
    | some value =>
      simp only [List.filterMap_cons, Option.map_some, Table.get?_cons]
      split
      · next heq => rw [← heq, hfield, Option.some_or]
      · exact ih

/-- Re-keying puts the row's own key behind its other columns. -/
lemma get?_rekey (source target : KeyFields) (row : Row) (name : String) :
    (rekey source target row).get? name = (row ++ renamedKey source target row).get? name := by
  rw [rekey]
  split
  · next heq => rw [heq, get?_renamedKey_self]
  · rw [renamedKey]
    generalize target.fields.zip _ = pairs
    induction pairs generalizing row with
    | nil => rw [List.foldl_nil, List.filterMap_nil, List.append_nil]
    | cons pair rest ih =>
      obtain ⟨field, value⟩ := pair
      rw [List.foldl_cons]
      cases value with
      | none => exact ih row
      | some value =>
        simp only [ih, List.filterMap_cons, Option.map_some, Table.get?_append,
          Table.get?_setNew, Table.get?_cons]
        by_cases heq : field = name
        · subst heq
          rw [if_pos rfl, if_pos rfl]
          cases Table.get? field row <;> rfl
        · rw [if_neg heq, if_neg heq]

/-- The keys under which rows are handed on are those of the look-up. -/
lemma mem_keysAfter {key : KeyValue} :
    key ∈ keysAfter base lookup rows ↔ key ∈ lookup.keys := by
  rw [keysAfter, List.mem_append, List.mem_filter, Table.has_iff_mem_keys]
  constructor
  · rintro (⟨-, hmem⟩ | hmem)
    · exact hmem
    · obtain ⟨entry, hentry, rfl⟩ := List.mem_map.mp hmem
      exact List.mem_map_of_mem (List.mem_of_mem_filter hentry)
  · intro hmem
    by_cases hasked : key ∈ rows.filterMap (KeyValue.ofRow? base)
    · exact .inl ⟨hasked, hmem⟩
    · obtain ⟨entry, hentry, rfl⟩ := List.mem_map.mp hmem
      exact .inr (List.mem_map_of_mem (List.mem_filter.mpr ⟨hentry, by simpa using hasked⟩))

/-- The rows that are kept read their keys if and only if the columns merged in agree. -/
lemma map_kept_eq_iff {kept : List Row} (hmaps : Row.AllDistinct lookup.values)
    (h : rows.filterMapM (keepRow base lookup) = .ok kept) :
    kept.map (KeyValue.ofRow? base) =
        ((rows.filterMap (KeyValue.ofRow? base)).filter fun key => lookup.has key).map some ↔
      ∀ row ∈ rows, ∀ key found, KeyValue.ofRow? base row = some key →
        lookup.get? key = some found → KeyValue.ofRow? base (found.inFrontOf row) = some key := by
  induction rows generalizing kept with
  | nil =>
    rw [List.filterMapM_nil] at h
    cases h
    simp
  | cons row rest ih =>
    rw [List.filterMapM_cons] at h
    obtain ⟨first, hfirst, hrest⟩ := bind_eq_ok_iff.mp h
    rw [List.forall_mem_cons]
    rw [keepRow] at hfirst
    cases hkey : KeyValue.ofRow? base row with
    | none =>
      rw [hkey, Option.bind_none] at hfirst
      cases hfirst
      rw [List.filterMap_cons_none hkey, ih hrest]
      refine ⟨fun hall => ⟨?_, hall⟩, And.right⟩
      intro key found hnone
      cases hnone
    | some key =>
      rw [hkey, Option.bind_some] at hfirst
      rw [List.filterMap_cons_some hkey, List.filter_cons]
      cases hfound : lookup.get? key with
      | none =>
        rw [hfound] at hfirst
        cases hfirst
        rw [Table.has, hfound, if_neg (by simp), ih hrest]
        refine ⟨fun hall => ⟨?_, hall⟩, And.right⟩
        rintro _ found ⟨⟩ hget
        rw [hfound] at hget
        cases hget
      | some found =>
        rw [hfound] at hfirst
        obtain ⟨merged, hmerged, rfl⟩ := map_eq_ok_iff.mp hfirst
        obtain ⟨others, hothers, heq⟩ := bind_eq_ok_iff.mp hrest
        cases heq
        have hover : KeyValue.ofRow? base merged = KeyValue.ofRow? base (found.inFrontOf row) :=
          KeyFields.ofRow?_congr fun field _ =>
            get?_merge (hmaps found (Table.mem_values_of_get?_eq_some hfound)) hmerged field
        rw [Table.has, hfound, if_pos Option.isSome_some, List.map_cons, List.map_cons,
          List.cons.injEq, ih hothers, hover]
        refine and_congr_left fun _ => ⟨?_, fun hall => hall key found rfl hfound⟩
        rintro hagree _ other ⟨⟩ hget
        obtain rfl := Option.some.inj (hfound.symm.trans hget)
        exact hagree

/-- **A step hands rows on that read their keys exactly where columns agree.** -/
theorem carriesKeys_iff (hmaps : Row.AllDistinct lookup.values)
    (h : narrow base operand lookup rows = .ok next) :
    next.map (KeyValue.ofRow? base) = (keysAfter base lookup rows).map some ↔
      ColumnsAgree base operand lookup rows := by
  obtain ⟨kept, hkept, hnext⟩ := bind_eq_ok_iff.mp h
  cases hnext
  have hadded : ((lookup.filter fun entry =>
        !(rows.filterMap (KeyValue.ofRow? base)).contains entry.1).map fun entry =>
          rekey operand base entry.2).map (KeyValue.ofRow? base) =
      ((lookup.filter fun entry =>
        !(rows.filterMap (KeyValue.ofRow? base)).contains entry.1).map Prod.fst).map some ↔
      ∀ entry ∈ lookup, entry.1 ∉ rows.filterMap (KeyValue.ofRow? base) →
        KeyValue.ofRow? base (entry.2 ++ renamedKey operand base entry.2) = some entry.1 := by
    rw [List.map_map, List.map_map, List.map_inj_left]
    simp only [List.mem_filter, Bool.not_eq_true', List.contains_eq_mem, decide_eq_false_iff_not,
      and_imp, Function.comp_apply]
    refine forall₂_congr fun entry _ => ?_
    rw [KeyFields.ofRow?_congr fun field _ => get?_rekey operand base entry.2 field]
  rw [keysAfter, List.map_append, List.map_append]
  constructor
  · intro heq
    -- The rows that are added are as many as their keys, so that the lists agree part by part.
    obtain ⟨hfirst, hsecond⟩ := List.append_inj' heq (by simp only [List.length_map])
    exact ⟨(map_kept_eq_iff hmaps hkept).mp hfirst, hadded.mp hsecond⟩
  · intro hagree
    rw [(map_kept_eq_iff hmaps hkept).mpr hagree.kept, hadded.mpr hagree.added]

/-- Columns agree where the operand, with a key field of its own name, has none named like the
base's. -/
theorem columnsAgree_of_columns_apart {source target : String}
    (hkeys : ∀ entry ∈ lookup, KeyValue.ofRow? (.single source) entry.2 = some entry.1)
    (hapart : ∀ entry ∈ lookup, entry.2.get? target = none) :
    ColumnsAgree (.single target) (.single source) lookup rows where
  kept row _ key found hkey hfound := by
    have hnone : found.get? target = none := hapart (key, found) (Table.mem_of_get?_eq_some hfound)
    rw [KeyValue.ofRow?, KeyFields.valueOf, Row.get?_inFrontOf, hnone, Option.map_none,
      Option.none_or]
    exact hkey
  added entry hentry _ := by
    obtain ⟨value, hvalue, hkey⟩ := KeyValue.ofRow?_eq_some_iff.mp (hkeys entry hentry)
    have hsource : Table.get? source entry.2 = some value := hvalue
    have hrenamed : renamedKey (.single source) (.single target) entry.2 = [(target, value)] := by
      simp [renamedKey, KeyFields.fields, hsource]
    rw [KeyValue.ofRow?, KeyFields.valueOf, hrenamed, Table.get?_append, hapart entry hentry,
      Option.none_or, Table.get?_cons, if_pos rfl, Option.map_some, hkey]

end Keys

/-! ## Runs -/

/-- The rows after the step read, through the base's key fields, the keys under which they were kept
or added. -/
def Narrowing.CarriesKeys (key : String) (base : Operand) (step : Narrowing) : Prop :=
  step.next.map (KeyValue.ofRow? (base.keyFields key)) =
    (keysAfter (base.keyFields key) step.lookup step.rows).map some

section Runs

variable {key : String} {limit : Nat} {base : Operand} {params : Params}

lemma Narrowing.IsTaken.carriesKeys_iff {step : Narrowing}
    (h : step.IsTaken key limit base params) (hmaps : step.operand.GivesMaps) :
    step.CarriesKeys key base ↔
      ColumnsAgree (base.keyFields key) (step.operand.keyFields key) step.lookup step.rows := by
  have hfetched : Row.AllDistinct step.fetched := hmaps _ step.fetched (by rw [h.fetch])
  exact QueryTerms.carriesKeys_iff (hfetched.associate h.lookup) h.narrow

/-- Where rows carry their keys, the base reads from them the keys that the operand has. -/
lemma Narrowing.IsTaken.mem_keys_iff {step : Narrowing} (h : step.IsTaken key limit base params)
    (hcarries : step.CarriesKeys key base) (own : KeyValue) :
    (∃ row ∈ step.next, KeyValue.ofRow? (base.keyFields key) row = some own) ↔
      ∃ row ∈ step.fetched, KeyValue.ofRow? (step.operand.keyFields key) row = some own := by
  calc (∃ row ∈ step.next, KeyValue.ofRow? (base.keyFields key) row = some own)
    _ ↔ some own ∈ step.next.map (KeyValue.ofRow? (base.keyFields key)) := List.mem_map.symm
    _ ↔ own ∈ keysAfter (base.keyFields key) step.lookup step.rows := by
      rw [hcarries]
      simp only [List.mem_map, Option.some.injEq, exists_eq_right]
    _ ↔ own ∈ step.lookup.keys := mem_keysAfter
    _ ↔ ∃ row ∈ step.fetched, KeyValue.ofRow? (step.operand.keyFields key) row = some own :=
      mem_keys_associate h.lookup own

variable {operands : List Operand} {rows out : List Row} {steps : List Narrowing}

namespace Chain

lemma isTaken (h : Chain key limit base params operands rows steps out) :
    ∀ step ∈ steps, step.IsTaken key limit base params := by
  induction h with
  | done => exact fun _ hmem => absurd hmem List.not_mem_nil
  | stopped => exact fun _ hmem => absurd hmem List.not_mem_nil
  | step _ _ _ htaken _ ih => exact List.forall_mem_cons.mpr ⟨htaken, ih⟩

/-- Operands are asked in their order, and none is left out. -/
lemma operands_prefix (h : Chain key limit base params operands rows steps out) :
    steps.map Narrowing.operand <+: operands := by
  induction h with
  | done => exact List.nil_prefix
  | stopped => exact List.nil_prefix
  | step hoperand _ _ _ _ ih =>
    rw [List.map_cons, hoperand]
    exact (List.prefix_cons_inj _).mpr ih

/-- The chain ends with the rows of its last step. -/
lemma next_of_getLast? (h : Chain key limit base params operands rows steps out)
    {last : Narrowing} (hlast : steps.getLast? = some last) : last.next = out := by
  induction h with
  | done => cases hlast
  | stopped => cases hlast
  | @step _ _ _ _ step steps _ _ _ _ hrest ih =>
    cases steps with
    | nil =>
      cases hlast
      exact hrest.eq_of_no_steps
    | cons next steps => exact ih (by rwa [List.getLast?_cons_cons] at hlast)

end Chain

end Runs

/-- **When the rows of a chain carry their keys.**  The last step taken is the leftmost operand's,
if all were asked.  The rows of the result have the keys of that operand's rows, and the rows of
every step on the way carry the keys under which they were kept or added, if and only if at every
step the columns named like the base's key fields agree with these keys. -/
theorem Node.run_filter_carriesKeys_iff {context : Context} {info : NodeInfo} {key : String}
    {narrowing : List Node} {base : Node} {params : Params} {result : Shaped}
    {sent : List Statement} (hmaps : context.GivesMaps)
    (hrun : (filter info key narrowing base).run context params = ⟨.ok result, sent⟩) :
    ∃ rows before steps out,
      (base.operand context).fetch (info.withDefaults params) = ⟨.ok rows, before⟩ ∧
      Chain key context.config.filterKeyLimit (base.operand context) (info.withDefaults params)
        (narrowing.map (operand context)).reverse rows steps out ∧
      result = finish info (.rows out) ∧
      sent = before ++ steps.flatMap Narrowing.sent ∧
      ∀ last, steps.getLast? = some last →
        (steps.length = narrowing.length →
          (narrowing.map (operand context)).head? = some last.operand) ∧
        ((∀ step ∈ steps, step.CarriesKeys key (base.operand context)) ∧
            (∀ own, (∃ row ∈ out, KeyValue.ofRow? (base.info.keyFields key) row = some own) ↔
              ∃ row ∈ last.fetched,
                KeyValue.ofRow? (last.operand.keyFields key) row = some own) ↔
          ∀ step ∈ steps, ColumnsAgree (base.info.keyFields key) (step.operand.keyFields key)
            step.lookup step.rows) := by
  obtain ⟨out, hfilter, rfl⟩ := run_filter_eq_ok_iff.mp hrun
  obtain ⟨rows, before, after, hrows, hfrom, rfl⟩ := Execution.bind_eq_ok_iff.mp hfilter
  obtain ⟨steps, hchain, rfl⟩ := filterFrom_eq_ok_iff.mp hfrom
  refine ⟨rows, before, steps, out, hrows, hchain, rfl, rfl, fun last hlast => ⟨?_, ?_⟩⟩
  · intro hlength
    have hall : steps.map Narrowing.operand = (narrowing.map (operand context)).reverse :=
      hchain.operands_prefix.eq_of_length (by simpa using hlength)
    rw [← List.getLast?_reverse, ← hall, List.getLast?_map, hlast, Option.map_some]
  · have hoperand : ∀ step ∈ steps, step.operand.GivesMaps := by
      intro step hstep
      have hmem := hchain.operands_prefix.subset (List.mem_map_of_mem hstep)
      obtain ⟨node, -, heq⟩ := List.mem_map.mp (List.mem_reverse.mp hmem)
      exact heq ▸ operand_givesMaps hmaps node
    have hiff : (∀ step ∈ steps, step.CarriesKeys key (base.operand context)) ↔
        ∀ step ∈ steps, ColumnsAgree (base.info.keyFields key) (step.operand.keyFields key)
          step.lookup step.rows :=
      forall₂_congr fun step hstep =>
        (hchain.isTaken step hstep).carriesKeys_iff (hoperand step hstep)
    rw [← hiff]
    refine and_iff_left_of_imp fun hcarries own => ?_
    have hmem : last ∈ steps := List.mem_of_getLast? hlast
    rw [← hchain.next_of_getLast? hlast]
    exact (hchain.isTaken last hmem).mem_keys_iff (hcarries last hmem) own

/-- Users narrowed to those with orders, and the orders of a user that the base does not have: the
result has the users of the orders. -/
theorem Node.run_filter_carriesKeys_orders :
    let users : List Row := [[("id", .integer 1)], [("id", .integer 2)]]
    let first : Row := [("user_id", .integer 2), ("total", .integer 7)]
    let second : Row := [("user_id", .integer 9), ("total", .integer 8)]
    let context := Context.answering [("users", users), ("orders", [first, second])]
    ∃ out, ((filter { name := "orders:users" } "user" [keyed "orders" "user" "user_id"]
        (keyed "users" "user" "id")).run context []).outcome = .ok (.rows out) ∧
      ∀ own, (∃ row ∈ out, KeyValue.ofRow? (.single "id") row = some own) ↔
        ∃ row ∈ [first, second], KeyValue.ofRow? (.single "user_id") row = some own := by
  intro users first second context
  have hmaps : context.GivesMaps := Context.givesMaps_answering (by decide)
  have hrun : (filter { name := "orders:users" } "user" [keyed "orders" "user" "user_id"]
      (keyed "users" "user" "id")).run context [] =
      ⟨.ok (.rows [("id", .integer 2) :: first, second ++ [("id", .integer 9)]]),
        [⟨"users", []⟩, ⟨"orders", []⟩]⟩ := by
    cbv
  have husers : ((keyed "users" "user" "id").operand context).fetch [] =
      ⟨.ok users, [⟨"users", []⟩]⟩ := by
    cbv
  have horders : ((keyed "orders" "user" "user_id").operand context).fetch
      [("user", .array [.integer 1, .integer 2])] =
      ⟨.ok [first, second], [⟨"orders", []⟩]⟩ := by
    cbv
  have hkeys : distinctKeys ((keyed "users" "user" "id").info.keyFields "user") users =
      [.integer 1, .integer 2] := by
    cbv
  have hlookup : associate (.single "user_id") "orders" [first, second] =
      .ok [(⟨"2"⟩, first), (⟨"9"⟩, second)] := by
    cbv
  have hagree : ColumnsAgree (.single "id") (.single "user_id")
      [(⟨"2"⟩, first), (⟨"9"⟩, second)] users :=
    columnsAgree_of_columns_apart
      (List.forall_mem_cons.mpr ⟨by cbv, List.forall_mem_singleton.mpr (by cbv)⟩)
      (List.forall_mem_cons.mpr ⟨rfl, List.forall_mem_singleton.mpr rfl⟩)
  obtain ⟨rows, before, steps, out, hrows, hchain, hresult, -, hlast⟩ :=
    run_filter_carriesKeys_iff hmaps hrun
  cases husers.symm.trans hrows
  change Chain _ _ _ _ [operand context (keyed "orders" "user" "user_id")] users steps out at hchain
  obtain ⟨step, others, rfl, hoperand, hstart, htaken, hrest⟩ :=
    hchain.first_step (List.cons_ne_nil _ _)
  obtain ⟨rfl, -⟩ := hrest.steps_of_no_operands
  have hfetch := htaken.fetch
  rw [hoperand, hstart] at hfetch
  obtain ⟨hfetched, -⟩ := Execution.ok_inj (horders.symm.trans (hkeys ▸ hfetch))
  have htable := htaken.lookup
  rw [hoperand, ← hfetched] at htable
  have hfound := Except.ok.inj (hlookup.symm.trans htable)
  obtain ⟨-, hown⟩ := (hlast step rfl).2.mpr <| List.forall_mem_singleton.mpr <| by
    rw [hoperand, hstart, ← hfound]
    exact hagree
  rw [hoperand, ← hfetched] at hown
  refine ⟨out, ?_, hown⟩
  rw [hrun, hresult]
  rfl

/-- **An operand's own `id` takes the place of the key.**  The order of user 1 overwrites the user's
id with its own; the order of user 9, which the base does not have, keeps its own. -/
theorem Node.run_filter_other_id :
    let users : List Row := [[("id", .integer 1)], [("id", .integer 2)]]
    let orders : List Row := [[("user_id", .integer 1), ("id", .integer 7)],
      [("user_id", .integer 9), ("id", .integer 8)]]
    let context := Context.answering [("users", users), ("orders", orders)]
    ∃ out, ((filter { name := "orders:users" } "user" [keyed "orders" "user" "user_id"]
        (keyed "users" "user" "id")).run context []).outcome = .ok (.rows out) ∧
      (((keyed "orders" "user" "user_id").operand context).fetch
        [("user", .array [.integer 1, .integer 2])]).outcome = .ok orders ∧
      (∃ row ∈ orders, KeyValue.ofRow? (.single "user_id") row = some ⟨"1"⟩) ∧
      ∀ row ∈ out, KeyValue.ofRow? (.single "id") row ≠ some ⟨"1"⟩ := by
  intro users orders context
  refine ⟨[[("id", .integer 7), ("user_id", .integer 1)], [("user_id", .integer 9),
    ("id", .integer 8)]], by cbv, by cbv, ⟨_, List.mem_cons_self, by cbv⟩, ?_⟩
  have hkept : KeyValue.ofRow? (.single "id") [("id", .integer 7), ("user_id", .integer 1)] =
      some ⟨"7"⟩ := by
    cbv
  have hadded : KeyValue.ofRow? (.single "id") [("user_id", .integer 9), ("id", .integer 8)] =
      some ⟨"8"⟩ := by
    cbv
  refine List.forall_mem_cons.mpr ⟨?_, List.forall_mem_singleton.mpr ?_⟩
  · rw [hkept]
    decide
  · rw [hadded]
    decide

end QueryTerms
