import Mathlib
import QueryTerms.Proofs.Key
import QueryTerms.Proofs.Query.Operand
import QueryTerms.Proofs.Row.Gathering
import QueryTerms.Proofs.Row.Merge
import QueryTerms.Query.Build

/-!
# Which fields the rows of a union have

A union tells its keys as its first operands declare them, but its rows have the fields that the
operands' rows came with.  An operand that backs a key by another field brings rows in which the
first operand's field is missing.

**Names.**  Merging rows collects their fields: `mem_keys_merge`.

**Tables.**  `Brings` says that some entry of a key has a field.  The table of a union brings what
the rows of its operands bring, whether rows are put in an order or not: `brings_mergeByKey`.

**Nodes.**  `Node.run_merge_holdsKey_iff` says which rows of a union have the fields of its key, and
`Node.run_merge_other_field` has one that has not.
-/

namespace QueryTerms

/-! ## Names -/

lemma mem_keys_mergeFields {target source merged : Row}
    (h : mergeFields target source = (merged, none)) (name : String) :
    name ∈ merged.keys ↔ name ∈ target.keys ∨ name ∈ source.keys := by
  induction source generalizing target with
  | nil =>
    cases h
    exact (or_iff_left List.not_mem_nil).symm
  | cons entry rest ih =>
    obtain ⟨field, value⟩ := entry
    rw [ih (mergeFields_cons h), Table.mem_keys_set]
    simp only [Table.keys, List.map_cons, List.mem_cons]
    tauto

/-- A merged row has the fields of both rows. -/
lemma mem_keys_merge {target source merged : Row} (h : target.merge source = .ok merged)
    (name : String) : name ∈ merged.keys ↔ name ∈ target.keys ∨ name ∈ source.keys := by
  rw [Row.merge] at h
  split at h
  · next heq =>
    cases h
    exact mem_keys_mergeFields heq name
  · cases h

/-! ## Tables -/

/-- Under the key there is a row with the field. -/
def Brings (entries : Table KeyValue Row) (key : KeyValue) (field : String) : Prop :=
  ∃ row, (key, row) ∈ entries ∧ field ∈ Table.keys row

section Brings

variable {entries more table next merged start : Table KeyValue Row} {key own : KeyValue}
  {field : String} {row : Row} {order : Option OrderBy}

lemma brings_nil : ¬ Brings [] key field := fun ⟨_, hmem, _⟩ => List.not_mem_nil hmem

lemma brings_append :
    Brings (entries ++ more) key field ↔ Brings entries key field ∨ Brings more key field := by
  simp only [Brings, List.mem_append, or_and_right, exists_or]

lemma brings_cons :
    Brings ((own, row) :: entries) key field ↔
      (key = own ∧ field ∈ Table.keys row) ∨ Brings entries key field := by
  simp only [Brings, List.mem_cons, Prod.mk.injEq, or_and_right, exists_or, and_assoc,
    exists_and_left, exists_eq_left]

/-- Where keys are distinct, what is brought under a key is in the row of that key. -/
lemma brings_iff_of_mem (hnodup : table.keys.Nodup) (h : (key, row) ∈ table) :
    Brings table key field ↔ field ∈ Table.keys row := by
  refine ⟨fun ⟨other, hother, hfield⟩ => ?_, fun hfield => ⟨row, h, hfield⟩⟩
  have hsame : (key, other) = (key, row) := List.inj_on_of_nodup_map hnodup hother h rfl
  exact (Prod.mk.inj hsame).2 ▸ hfield

/-- One more row brings its own fields. -/
lemma brings_placeRow (h : placeRow order own row merged = .ok next) :
    Brings next key field ↔ Brings merged key field ∨ (key = own ∧ field ∈ Table.keys row) := by
  obtain ⟨front, back, existing, both, rfl, -, hboth, rfl⟩ | ⟨-, rfl⟩ := placeRow_eq_ok h
  · rw [brings_append, brings_cons, brings_append, brings_cons, mem_keys_merge hboth]
    tauto
  · have hsplit : Brings merged key field ↔
        Brings (merged.take (placeOf order row merged)) key field ∨
          Brings (merged.drop (placeOf order row merged)) key field := by
      rw [← brings_append, List.take_append_drop]
    rw [Table.insertAt, brings_append, brings_cons, hsplit]
    tauto

lemma nodup_keys_placeRow (hnodup : merged.keys.Nodup)
    (h : placeRow order own row merged = .ok next) : next.keys.Nodup := by
  obtain ⟨front, back, existing, both, rfl, -, hboth, rfl⟩ | ⟨hnew, rfl⟩ := placeRow_eq_ok h
  · simpa only [Table.keys, List.map_append, List.map_cons] using hnodup
  · have hkeys : (merged.insertAt (placeOf order row merged) own row).keys =
        merged.keys.take (placeOf order row merged) ++
          own :: merged.keys.drop (placeOf order row merged) := by
      simp only [Table.insertAt, Table.keys, List.map_append, List.map_cons, List.map_take,
        List.map_drop]
    rw [hkeys, List.perm_middle.nodup_iff, List.take_append_drop]
    exact List.nodup_cons.mpr ⟨hnew, hnodup⟩

lemma brings_placeAll (h : placeAll order start entries = .ok merged) :
    Brings merged key field ↔ Brings start key field ∨ Brings entries key field := by
  induction entries generalizing start with
  | nil =>
    cases h
    exact (or_iff_left brings_nil).symm
  | cons entry rest ih =>
    obtain ⟨next, hnext, hrest⟩ := bind_eq_ok_iff.mp h
    rw [ih hrest, brings_placeRow hnext, brings_cons, or_assoc]

lemma nodup_keys_placeAll (h : placeAll order [] entries = .ok merged) : merged.keys.Nodup := by
  refine foldlM_induction (P := fun table => table.keys.Nodup) ?_ List.nodup_nil h
  exact fun _ _ _ _ hnodup hnext => nodup_keys_placeRow hnodup hnext

/-- **A union brings what its sources bring**, under each key. -/
theorem brings_mergeByKey {sources : List KeyedRows} (h : mergeByKey order sources = .ok merged) :
    Brings merged key field ↔ Brings (allEntries sources) key field := by
  obtain ⟨tables, htables, hplaced⟩ := mergeByKey_eq_ok_iff.mp h
  rw [brings_placeAll hplaced, or_iff_right brings_nil]
  clear h hplaced
  induction htables with
  | nil => rfl
  | @cons source _ rest _ htable _ ih =>
    have hentries : allEntries (source :: rest) = source.entries ++ allEntries rest :=
      List.flatMap_cons
    rw [List.flatten_cons, brings_append, ih, hentries, brings_append,
      brings_placeAll (placeAll_of_associate htable), or_iff_right brings_nil]

end Brings

/-! ## Operands -/

/-- What the operands of a union gave, with their names and the fields of the key. -/
def unionSources (key : String) (operands : List Operand) (given : List (List Row)) :
    List KeyedRows :=
  (operands.zip given).map fun (operand, rows) =>
    { node := operand.name, rows, fields := operand.keyFields key }

section Operands

variable {key name : String} {declared : Option String} {order : Option OrderBy}
  {operands : List Operand} {params : Params} {sent : List Statement}

lemma fetchAll_eq_ok {results : List (Operand × List Row)}
    (h : fetchAll params operands = ⟨.ok results, sent⟩) :
    ∃ given : List (List Row),
      List.Forall₂ (fun operand rows => ∃ asked, operand.fetch params = ⟨.ok rows, asked⟩)
        operands given ∧ results = operands.zip given := by
  induction operands generalizing results sent with
  | nil =>
    obtain ⟨rfl, -⟩ := Execution.pure_eq_ok_iff.mp h
    exact ⟨[], .nil, rfl⟩
  | cons operand rest ih =>
    obtain ⟨rows, asked, _, hrows, hothers, -⟩ := Execution.bind_eq_ok_iff.mp h
    obtain ⟨others, hfetch, rfl⟩ := Execution.bind_pure_eq_ok_iff.mp hothers
    obtain ⟨given, hgiven, rfl⟩ := ih hfetch
    exact ⟨rows :: given, .cons ⟨asked, hrows⟩ hgiven, rfl⟩

lemma mergeRows_eq_ok {rows : List Row}
    (hkey : mergeKey declared name operands = .ok (some key))
    (h : mergeRows declared order name operands params = ⟨.ok rows, sent⟩) :
    ∃ (given : List (List Row)) (merged : Table KeyValue Row),
      List.Forall₂ (fun operand rows => ∃ asked, operand.fetch params = ⟨.ok rows, asked⟩)
        operands given ∧
      mergeByKey order (unionSources key operands given) = .ok merged ∧ rows = merged.values := by
  rw [mergeRows, Execution.liftM_bind_of_ok hkey] at h
  obtain ⟨results, _, _, hresults, hmerge, -⟩ := Execution.bind_eq_ok_iff.mp h
  obtain ⟨given, hgiven, rfl⟩ := fetchAll_eq_ok hresults
  obtain ⟨merged, hmerged, hrows⟩ := Execution.liftM_bind_eq_ok_iff.mp hmerge
  obtain ⟨rfl, -⟩ := Execution.pure_eq_ok_iff.mp hrows
  exact ⟨given, merged, hgiven, hmerged, rfl⟩

/-- Every key of a union is that of a row of some operand. -/
lemma exists_row_of_mem_keys {sources : List KeyedRows} {merged : Table KeyValue Row}
    (h : mergeByKey order sources = .ok merged) {own : KeyValue} (hown : own ∈ merged.keys) :
    ∃ source ∈ sources, ∃ row ∈ source.rows, KeyValue.ofRow? source.fields row = some own := by
  obtain ⟨tables, htables, hplaced⟩ := mergeByKey_eq_ok_iff.mp h
  obtain ⟨entry, hentry, rfl⟩ := List.mem_map.mp ((mem_keys_placeAll hplaced own).mp hown)
  obtain ⟨table, htable, hmem⟩ := List.mem_flatten.mp hentry
  obtain ⟨source, hsource, hok⟩ := exists_of_forall₂_right htables htable
  exact ⟨source, hsource, (mem_keys_associate hok entry.1).mp (List.mem_map_of_mem hmem)⟩

end Operands

/-! ## Nodes -/

/-- A union declares a key as its first operand does. -/
lemma unionKeys_fieldsOf {first : KeyMap} {rest : List KeyMap} {key : String}
    (h : first.has key = true) :
    (unionKeys (first :: rest)).fieldsOf key = first.fieldsOf key := by
  obtain ⟨fields, hfields⟩ := Option.isSome_iff_exists.mp h
  rw [KeyMap.fieldsOf, KeyMap.fieldsOf, get?_unionKeys, List.findSome?_cons, hfields]

/-- The rows with one key have, taken together, all fields that back it. -/
def Backed (fields : KeyFields) (sources : List KeyedRows) (own : KeyValue) : Prop :=
  ∀ field ∈ fields.fields, Brings (allEntries sources) own field

section Backed

variable {fields : KeyFields} {sources : List KeyedRows} {order : Option OrderBy}
  {merged : Table KeyValue Row}

/-- A merged row has a key exactly if the rows that it is merged of do together. -/
lemma valueOf_isSome_iff_backed (h : mergeByKey order sources = .ok merged) {own : KeyValue}
    {row : Row} (hmem : (own, row) ∈ merged) :
    (fields.valueOf row).isSome ↔ Backed fields sources own := by
  obtain ⟨_, -, hplaced⟩ := mergeByKey_eq_ok_iff.mp h
  rw [valueOf_isSome_iff]
  refine forall₂_congr fun field _ => ?_
  rw [← brings_mergeByKey h, brings_iff_of_mem (nodup_keys_placeAll hplaced) hmem]

lemma collectValues_iff_backed {name : String} {kept : Table KeyValue Row}
    (h : mergeByKey order sources = .ok merged) (hkept : kept ⊆ merged) :
    (∃ values, collectValues fields name kept.values = .ok values) ↔
      ∀ own ∈ kept.keys, Backed fields sources own := by
  simp only [collectValues_eq_ok_iff, exists_and_left, exists_eq, and_true]
  rw [Table.values, Table.keys, List.forall_mem_map, List.forall_mem_map]
  exact forall₂_congr fun entry hentry => valueOf_isSome_iff_backed h (hkept hentry)

/-- Where all sources back the key by the same fields, all keys are backed. -/
lemma backed_of_same (h : mergeByKey order sources = .ok merged)
    (hsame : ∀ source ∈ sources, source.fields = fields) :
    ∀ own ∈ merged.keys, Backed fields sources own := by
  intro own hown field hfield
  obtain ⟨source, hsource, row, hrow, hkey⟩ := exists_row_of_mem_keys h hown
  obtain ⟨value, hvalue, -⟩ := KeyValue.ofRow?_eq_some_iff.mp hkey
  rw [hsame source hsource] at hvalue
  have hfields := valueOf_isSome_iff.mp (Option.isSome_of_eq_some hvalue)
  have hentry : (own, row) ∈ source.entries :=
    List.mem_filterMap.mpr ⟨row, hrow, by rw [hkey, Option.map_some]⟩
  exact ⟨row, List.mem_flatMap.mpr ⟨source, hsource, hentry⟩, hfields field hfield⟩

end Backed

/-- **When the rows of a union have the key that the union tells.**  A row has it exactly if, for
each of the fields that back it, some operand gave a row with that field under the same key; all rows
have it if the operands back the key by the same fields.  The fields are those of the first
operand. -/
theorem Node.run_merge_holdsKey_iff {context : Context} {info : NodeInfo} {operands : List Node}
    {params : Params} {result : Shaped} {sent : List Statement} {key : String}
    (hkey : mergeKey info.output.key info.name (operands.map (operand context)) = .ok (some key))
    (hrun : (merge info operands).run context params = ⟨.ok result, sent⟩) :
    ∃ (given : List (List Row)) (sources : List KeyedRows) (merged kept : Table KeyValue Row),
      List.Forall₂ (fun node rows => ∃ asked,
        (node.operand context).fetch (info.withDefaults params) = ⟨.ok rows, asked⟩)
        operands given ∧
      sources = unionSources key (operands.map (operand context)) given ∧
      mergeByKey info.output.order sources = .ok merged ∧ kept <+: merged ∧
      result = .rows kept.values ∧
      (∀ own row, (own, row) ∈ kept →
        (((info.keyFields key).valueOf row).isSome ↔ Backed (info.keyFields key) sources own)) ∧
      ((∃ values, collectValues (info.keyFields key) info.name kept.values = .ok values) ↔
        ∀ own ∈ kept.keys, Backed (info.keyFields key) sources own) ∧
      ((∀ node ∈ operands, node.info.keyFields key = info.keyFields key) →
        ∀ own ∈ kept.keys, Backed (info.keyFields key) sources own) ∧
      (info.keys = unionKeys (operands.map fun node => node.info.keys) →
        ∀ first rest, operands = first :: rest → first.info.keys.has key = true →
          info.keyFields key = first.info.keyFields key) := by
  obtain ⟨rows, hrows, rfl⟩ := run_merge_eq_ok_iff.mp hrun
  obtain ⟨given, merged, hgiven, hmerged, rfl⟩ := mergeRows_eq_ok hkey hrows
  rw [List.forall₂_map_left_iff] at hgiven
  obtain ⟨kept, hkept, hresult⟩ : ∃ kept : Table KeyValue Row, kept <+: merged ∧
      truncate info.output.max (.rows merged.values) = .rows kept.values := by
    cases info.output.max with
    | none => exact ⟨merged, List.prefix_rfl, rfl⟩
    | some max => exact ⟨merged.take max, List.take_prefix max merged, by
        rw [truncate, Table.values, Table.values, List.map_take]⟩
  refine ⟨given, _, merged, kept, hgiven, rfl, hmerged, hkept, hresult,
    fun own row hmem => valueOf_isSome_iff_backed hmerged (hkept.subset hmem),
    collectValues_iff_backed hmerged hkept.subset, fun hsame own hown => ?_,
    fun hkeys first rest hfirst hhas => ?_⟩
  · refine backed_of_same hmerged (fun source hsource => ?_) own ((hkept.map Prod.fst).subset hown)
    obtain ⟨⟨operand, rows⟩, hmem, rfl⟩ := List.mem_map.mp hsource
    obtain ⟨node, hnode, rfl⟩ := List.mem_map.mp (List.of_mem_zip hmem).1
    exact hsame node hnode
  · rw [NodeInfo.keyFields, hkeys, hfirst, List.map_cons]
    exact unionKeys_fieldsOf hhas

/-- Users and orders that both know the user by `id`. -/
theorem Node.run_merge_holdsKey_users :
    let users : List Row := [[("id", .integer 1), ("name", .string "a")]]
    let orders : List Row := [[("id", .integer 1), ("total", .integer 7)], [("id", .integer 2)]]
    let context := Context.answering [("users", users), ("orders", orders)]
    ∃ rows values, ((merge { name := "users|orders", keys := [("user", .single "id")] }
        [keyed "users" "user" "id", keyed "orders" "user" "id"]).run context []).outcome =
          .ok (.rows rows) ∧
      collectValues (.single "id") "users|orders" rows = .ok values := by
  intro users orders context
  have hkey : mergeKey none "users|orders" ([keyed "users" "user" "id",
      keyed "orders" "user" "id"].map (operand context)) = .ok (some "user") := by
    cbv
  have hrun : (merge { name := "users|orders", keys := [("user", .single "id")] }
      [keyed "users" "user" "id", keyed "orders" "user" "id"]).run context [] =
      ⟨.ok (.rows [[("id", .integer 1), ("name", .string "a"), ("total", .integer 7)],
        [("id", .integer 2)]]), [⟨"users", []⟩, ⟨"orders", []⟩]⟩ := by
    cbv
  obtain ⟨given, sources, merged, kept, -, -, -, -, hresult, -, hcollect, hsame, -⟩ :=
    run_merge_holdsKey_iff hkey hrun
  obtain ⟨values, hvalues⟩ := hcollect.mpr (hsame (by decide))
  refine ⟨kept.values, values, ?_, hvalues⟩
  rw [hrun, hresult]

/-- **A union can lack its own key.**  Orders know the user by `user_id`, and each operand's rows
have the field that it declares; the union tells `id`, which the second user's row has not. -/
theorem Node.run_merge_other_field :
    let users : List Row := [[("id", .integer 1)]]
    let orders : List Row := [[("user_id", .integer 2)]]
    let store := (((Catalog.mk [] []).addCompiled "users"
      { keys := [("user", .single "id")] } "users").addCompiled "orders"
      { keys := [("user", .single "user_id")] } "orders").toStore
    let context := { Context.answering [("users", users), ("orders", orders)] with store }
    ∃ info operands,
      build store (.merge [.leaf "users", .leaf "orders"]) = .ok (.merge info operands) ∧
      (∀ node ∈ operands, node.info.keys.has "user" = true ∧
        ∃ rows, ((node.operand context).fetch []).outcome = .ok rows ∧
          ∀ row ∈ rows, ((node.info.keyFields "user").valueOf row).isSome) ∧
      ((merge info operands).run context []).outcome = .ok (.rows (users ++ orders)) ∧
      info.keyFields "user" = .single "id" ∧
      collectValues (info.keyFields "user") info.name (users ++ orders) =
        .error (missingKey (.single "id") "users|orders") := by
  intro users orders store context
  refine ⟨_, _, rfl, ?_, ?_, ?_, ?_⟩
  · refine List.forall_mem_cons.mpr ⟨⟨rfl, users, by cbv, by decide⟩,
      List.forall_mem_cons.mpr ⟨⟨rfl, orders, by cbv, by decide⟩, ?_⟩⟩
    exact fun _ hmem => absurd hmem List.not_mem_nil
  · cbv
  · rfl
  · rfl

end QueryTerms
