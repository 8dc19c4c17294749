import QueryTerms.Proofs.Query.Operand
import QueryTerms.Proofs.Row.Names

/-!
# The names in the rows of a query

If the database gives rows without repeated names, then so does every query: shaping, joining,
sorting and cutting all keep the names of a row distinct.

**Where rows come from.**  `Context.GivesMaps` is what the engine relies on: rows from the database,
and rows that a transform makes of such rows, are maps.

**Joins.**  Each join passes this on from its operands: `attachRows_gives` and its like.

**Runs.**  `Node.run_gives`, by induction over the nodes of a query.
-/

namespace QueryTerms

/-- Rows come from the database, and out of transforms, without repeated names. -/
structure Context.GivesMaps (context : Context) : Prop where
  execute : ∀ sql bound cursor, context.database.execute sql bound = .ok cursor →
    Row.AllDistinct cursor.rows
  transform : ∀ leaf transform rows, context.transforms leaf = some transform →
    Row.AllDistinct rows → Row.AllDistinct (transform rows)

/-- The rows of a result, if it has any, are without repeated names. -/
def Shaped.AllDistinct (result : Shaped) : Prop :=
  ∀ rows, result.toRows? = some rows → Row.AllDistinct rows

/-- The operand fetches rows without repeated names. -/
def Operand.GivesMaps (operand : Operand) : Prop :=
  ∀ params, (operand.fetch params).Gives Row.AllDistinct

/-! ## Joins -/

lemma attachRow_distinct {fields : KeyFields} {lookup : Table KeyValue Row} {row out : Row}
    (h : row.NamesDistinct) (hok : attachRow fields lookup row = .ok out) : out.NamesDistinct := by
  rw [attachRow] at hok
  split at hok
  · cases hok
    exact h
  · split at hok
    · cases hok
      exact h
    · exact h.merge hok

/-- Rows that others are attached to keep their names distinct. -/
theorem attachRows_gives {key : String} {base : Operand} {joined : List Operand} {params : Params}
    (hbase : base.GivesMaps) : (attachRows key base joined params).Gives Row.AllDistinct := by
  refine Execution.gives_bind (hbase params) fun rows hrows => ?_
  split
  · exact Execution.gives_pure hrows
  · refine Execution.gives_bind (Execution.gives_true _) fun values _ => ?_
    refine Execution.gives_foldlM hrows fun rows operand _ hrows => ?_
    refine Execution.gives_bind (Execution.gives_true _) fun lookup _ => ?_
    intro out hout row hrow
    obtain ⟨before, hbefore, hok⟩ := exists_of_forall₂_right (mapM_eq_ok_iff.mp hout) hrow
    exact attachRow_distinct (hrows before hbefore) hok

lemma narrow_distinct {base operand : KeyFields} {lookup : Table KeyValue Row}
    {rows out : List Row} (hrows : Row.AllDistinct rows) (hlookup : Row.AllDistinct lookup.values)
    (hok : narrow base operand lookup rows = .ok out) : Row.AllDistinct out := by
  obtain ⟨kept, hkept, hok⟩ := bind_eq_ok_iff.mp hok
  cases hok
  refine Row.AllDistinct.append ?_ ?_
  · intro row hrow
    obtain ⟨before, hbefore, hok⟩ := exists_of_filterMapM hkept hrow
    rw [keepRow] at hok
    split at hok
    · obtain ⟨merged, hmerged, heq⟩ := map_eq_ok_iff.mp hok
      cases heq
      exact (hrows before hbefore).merge hmerged
    · cases hok
  · intro row hrow
    obtain ⟨entry, hentry, rfl⟩ := List.mem_map.mp hrow
    have hmem : entry ∈ lookup := List.mem_of_mem_filter hentry
    exact (hlookup entry.2 (List.mem_map_of_mem hmem)).rekey operand base

lemma Operand.GivesMaps.fetchByKey {operand : Operand} (h : operand.GivesMaps) (key : String)
    (params : Params) :
    (operand.fetchByKey key params).Gives fun table => Row.AllDistinct (Table.values table) := by
  refine Execution.gives_bind (h params) fun rows hrows => ?_
  exact fun table htable => hrows.associate htable

/-- Rows that are narrowed keep their names distinct. -/
theorem filterRows_gives {key : String} {limit : Nat} {narrowing : List Operand} {base : Operand}
    {params : Params} (hbase : base.GivesMaps)
    (hnarrowing : ∀ operand ∈ narrowing, operand.GivesMaps) :
    (filterRows key limit narrowing base params).Gives Row.AllDistinct := by
  refine Execution.gives_bind (hbase params) fun rows hrows => ?_
  have hreverse : ∀ operand ∈ narrowing.reverse, operand.GivesMaps := fun operand hmem =>
    hnarrowing operand (List.mem_reverse.mp hmem)
  generalize narrowing.reverse = operands at hreverse
  induction operands generalizing rows with
  | nil => exact Execution.gives_pure hrows
  | cons operand rest ih =>
    rw [filterFrom]
    split
    · exact Execution.gives_pure hrows
    · refine Execution.gives_bind (P := Row.AllDistinct) ?_ fun narrowed hnarrowed =>
        ih narrowed hnarrowed fun other hmem => hreverse other (List.mem_cons_of_mem _ hmem)
      rw [filterStep]
      refine Execution.gives_bind (Execution.gives_true _) fun values _ => ?_
      split
      · exact nofun
      · have hoperand := hreverse operand List.mem_cons_self
        refine Execution.gives_bind (hoperand.fetchByKey key _) fun lookup hlookup => ?_
        exact fun out hout => narrow_distinct hrows hlookup hout

lemma fetchAll_gives {params : Params} {operands : List Operand}
    (h : ∀ operand ∈ operands, operand.GivesMaps) :
    (fetchAll params operands).Gives fun results =>
      ∀ result ∈ results, Row.AllDistinct result.2 := by
  induction operands with
  | nil => exact Execution.gives_pure fun _ hmem => absurd hmem List.not_mem_nil
  | cons operand rest ih =>
    refine Execution.gives_bind (h operand List.mem_cons_self params) fun rows hrows => ?_
    refine Execution.gives_bind (ih fun other hmem => h other (List.mem_cons_of_mem _ hmem))
      fun others hothers => ?_
    exact Execution.gives_pure (List.forall_mem_cons.mpr ⟨hrows, hothers⟩)

/-- The rows of a union have distinct names, whether they are merged by a key or all into one. -/
theorem mergeRows_gives {declared : Option String} {order : Option OrderBy} {name : String}
    {operands : List Operand} {params : Params}
    (h : ∀ operand ∈ operands, operand.GivesMaps) :
    (mergeRows declared order name operands params).Gives Row.AllDistinct := by
  refine Execution.gives_bind (Execution.gives_true _) fun key _ => ?_
  refine Execution.gives_bind (fetchAll_gives h) fun results hresults => ?_
  cases key with
  | none =>
    refine Execution.gives_pure ?_
    suffices hfold : ∀ merged, Row.AllDistinct merged → Row.AllDistinct
        (results.foldl (fun merged result => appendRows order merged result.2) merged) from
      hfold [] .nil
    induction results with
    | nil => exact fun merged hmerged => hmerged
    | cons result rest ih =>
      intro merged hmerged
      have hrest : ∀ other ∈ rest, Row.AllDistinct other.2 := fun other hmem =>
        hresults other (List.mem_cons_of_mem _ hmem)
      exact ih hrest _ (hmerged.appendRows (hresults result List.mem_cons_self) order)
  | some key =>
    refine Execution.gives_bind (P := fun table => Row.AllDistinct (Table.values table)) ?_
      fun merged hmerged => Execution.gives_pure hmerged
    refine fun merged hmerged => Row.AllDistinct.mergeByKey ?_ hmerged
    simp only [List.forall_mem_map]
    exact hresults

lemma nestRow_distinct {row : Row} (h : row.NamesDistinct) (join : NestJoin)
    (groups : Table KeyValue (List Row)) : (nestRow join groups row).NamesDistinct :=
  h.set join.field _

lemma dropHidden_distinct {row : Row} (h : row.NamesDistinct) (children : List Nested) :
    (dropHidden children row).NamesDistinct := by
  rw [dropHidden]
  induction children generalizing row with
  | nil => exact h
  | cons child rest ih =>
    have hfirst : Row.NamesDistinct
        (if child.join.hidden then child.join.parent.strip row else row) := by
      split
      · exact h.strip child.join.parent
      · exact h
    exact ih hfirst

/-- Rows that others are nested in keep their names distinct. -/
theorem nestRows_gives {parent : Operand} {children : List Nested} {params : Params}
    (hparent : parent.GivesMaps) : (nestRows parent children params).Gives Row.AllDistinct := by
  refine Execution.gives_bind (hparent params) fun rows hrows => ?_
  split
  · exact Execution.gives_pure hrows
  · refine Execution.gives_bind (P := Row.AllDistinct) ?_ fun filled hfilled => ?_
    · refine Execution.gives_foldlM hrows fun rows child _ hrows => ?_
      refine Execution.gives_bind (Execution.gives_true _) fun values _ => ?_
      refine Execution.gives_bind (Execution.gives_true _) fun fetched _ => ?_
      refine Execution.gives_bind (Execution.gives_true _) fun groups _ => ?_
      refine Execution.gives_pure (List.forall_mem_map.mpr fun row hrow => ?_)
      exact nestRow_distinct (hrows row hrow) child.join groups
    · refine Execution.gives_pure (List.forall_mem_map.mpr fun row hrow => ?_)
      exact dropHidden_distinct (hfilled row hrow) children

/-! ## Results -/

namespace Shaped.AllDistinct

variable {result : Shaped}

lemma rows {all : List Row} (h : Row.AllDistinct all) : (Shaped.rows all).AllDistinct := by
  rintro _ ⟨⟩
  exact h

lemma scalars (values : List Value) : (Shaped.scalars values).AllDistinct := nofun

lemma ofRows {all : List Row} (h : Row.AllDistinct all) (cardinality : Cardinality) :
    (Shaped.ofRows all cardinality).AllDistinct := by
  cases cardinality with
  | many => exact rows h
  | one =>
    rintro _ ⟨⟩ row hrow
    exact h row (List.mem_of_mem_head? (Option.mem_toList.mp hrow))

lemma fetch {cursor : Cursor} (h : Row.AllDistinct cursor.rows) (rows columns : Cardinality) :
    (cursor.fetch rows columns).AllDistinct := by
  cases columns with
  | many =>
    cases rows with
    | one => exact ofRows h .one
    | many => exact ofRows h .many
  | one => cases rows <;> exact nofun

lemma concat {first second : Shaped} (hfirst : first.AllDistinct) (hsecond : second.AllDistinct) :
    (concat first second).AllDistinct := by
  rw [QueryTerms.concat.eq_def]
  split
  · exact rows ((hfirst _ rfl).append (hsecond _ rfl))
  · exact scalars _
  · exact hsecond
  · exact hsecond
  · exact hfirst

lemma shapeResult {context : Context} (hmaps : context.GivesMaps) (leaf : String) (info : NodeInfo)
    (h : result.AllDistinct) : (shapeResult (shapingOf context leaf info) result).AllDistinct := by
  cases result with
  | rows all =>
    have hall : Row.AllDistinct all := h all rfl
    have hshaped : ∀ (shaping : Shaping) (plan : UnnestPlan),
        Row.AllDistinct (all.map (shaping.shapeRow plan)) := fun shaping plan =>
      List.forall_mem_map.mpr fun row hrow => (hall row hrow).shapeRow shaping plan
    refine rows ?_
    rw [Shaping.apply]
    split
    · next transform htransform =>
      exact hmaps.transform leaf transform _ htransform (hshaped _ _)
    · exact hshaped _ _
  | scalar value => exact h
  | scalars values => exact h
  | row one => exact h

lemma truncate (h : result.AllDistinct) (max : Option Nat) :
    (truncate max result).AllDistinct := by
  rw [QueryTerms.truncate.eq_def]
  split
  · exact rows fun row hrow => h _ rfl row (List.mem_of_mem_take hrow)
  · exact scalars _
  · exact h

lemma finish (h : result.AllDistinct) (info : NodeInfo) : (finish info result).AllDistinct := by
  refine truncate ?_ _
  rw [sortResult.eq_def]
  split
  · exact rows ((h _ rfl).sortRows _)
  · exact h

end Shaped.AllDistinct

/-! ## Runs -/

lemma NodeInfo.toOperand_givesMaps {info : NodeInfo} {run : Params → Execution Shaped}
    (hrun : ∀ params, (run params).Gives Shaped.AllDistinct) : (info.toOperand run).GivesMaps := by
  intro params
  refine Execution.gives_bind (hrun params) fun result hresult => ?_
  intro rows hrows
  change rowsOf info.name result = .ok rows at hrows
  rw [rowsOf] at hrows
  split at hrows
  · next hall =>
    cases hrows
    exact hresult _ hall
  · cases hrows

variable {context : Context}

lemma runOnce_gives (h : context.GivesMaps) (leaf sql : String) (info : NodeInfo)
    (values : Params) : (runOnce context leaf sql info values).Gives Shaped.AllDistinct := by
  refine Execution.gives_bind (P := fun cursor => Row.AllDistinct cursor.rows) ?_
    fun cursor hrows => Execution.gives_pure (.fetch hrows _ _)
  refine Execution.gives_bind (Execution.gives_true _) fun rendered _ => ?_
  intro cursor hcursor
  rw [Execution.send] at hcursor
  split at hcursor
  · next answer hanswer =>
    cases hcursor
    exact h.execute _ _ _ hanswer
  · cases hcursor

lemma runLeaf_gives (h : context.GivesMaps) (info : NodeInfo) (source : LeafSource)
    (params : Params) : (runLeaf context info source params).Gives Shaped.AllDistinct := by
  refine Execution.gives_bind (Execution.gives_true _) fun sql _ => ?_
  refine Execution.gives_bind (Execution.gives_true _) fun batched _ => ?_
  have honce := runOnce_gives h source.id sql info
  have hshape : ∀ result : Shaped, result.AllDistinct →
      (pure (shapeResult (shapingOf context source.id info) result) : Execution Shaped).Gives
        Shaped.AllDistinct :=
    fun result hresult => Execution.gives_pure (hresult.shapeResult h source.id info)
  cases batched with
  | none => exact Execution.gives_bind (honce _) hshape
  | some batched =>
    refine Execution.gives_bind ?_ hshape
    generalize chunks batched.size batched.items = batches
    cases batches with
    | nil => exact honce _
    | cons first rest =>
      refine Execution.gives_bind (honce _) fun result hresult => ?_
      refine Execution.gives_foldlM hresult fun result items _ hresult => ?_
      refine Execution.gives_bind (honce _) fun next hnext => ?_
      exact Execution.gives_pure (hresult.concat hnext)

namespace Node

mutual

/-- **The names in a row of a result are distinct.**  Leaves get maps from the database, the joins
make maps of maps. -/
theorem run_gives (h : context.GivesMaps) : ∀ (node : Node) (params : Params),
    (node.run context params).Gives Shaped.AllDistinct
  | .leaf info source, params => by
    rw [run]
    exact Execution.gives_bind (runLeaf_gives h info source _) fun result hresult =>
      Execution.gives_pure (hresult.finish info)
  | .merge info operands, params => by
    rw [run]
    exact Execution.gives_bind (mergeRows_gives (operandsOf_givesMaps h operands)) fun rows hrows =>
      Execution.gives_pure ((Shaped.AllDistinct.rows hrows).truncate _)
  | .attach info key base joined, params => by
    have hbase : (base.info.toOperand (base.run context)).GivesMaps :=
      NodeInfo.toOperand_givesMaps (run_gives h base)
    rw [run]
    exact Execution.gives_bind (attachRows_gives hbase) fun rows hrows =>
      Execution.gives_pure ((Shaped.AllDistinct.ofRows hrows _).finish info)
  | .filter info key narrowing base, params => by
    have hbase : (base.info.toOperand (base.run context)).GivesMaps :=
      NodeInfo.toOperand_givesMaps (run_gives h base)
    rw [run]
    exact Execution.gives_bind (filterRows_gives hbase (operandsOf_givesMaps h narrowing))
      fun rows hrows => Execution.gives_pure ((Shaped.AllDistinct.rows hrows).finish info)
  | .tree info base nested, params => by
    have hbase : (base.info.toOperand (base.run context)).GivesMaps :=
      NodeInfo.toOperand_givesMaps (run_gives h base)
    rw [run]
    exact Execution.gives_bind (nestRows_gives hbase) fun rows hrows =>
      Execution.gives_pure ((Shaped.AllDistinct.ofRows hrows _).finish info)

/-- Run as operands, nodes give rows with distinct names. -/
theorem operandsOf_givesMaps (h : context.GivesMaps) : ∀ (nodes : List Node),
    ∀ operand ∈ operandsOf context nodes, operand.GivesMaps
  | [] => fun _ hmem => absurd hmem List.not_mem_nil
  | node :: rest => by
    rw [operandsOf]
    exact List.forall_mem_cons.mpr
      ⟨NodeInfo.toOperand_givesMaps (run_gives h node), operandsOf_givesMaps h rest⟩

end

/-- Every node, as an operand, fetches maps. -/
lemma operand_givesMaps (h : context.GivesMaps) (node : Node) :
    (node.operand context).GivesMaps :=
  NodeInfo.toOperand_givesMaps (run_gives h node)

end Node

lemma Context.givesMaps_answering {answers : Table String (List Row)}
    (h : ∀ rows ∈ answers.values, Row.AllDistinct rows) : (answering answers).GivesMaps where
  execute sql bound cursor hcursor := by
    simp only [answering] at hcursor
    split at hcursor
    · next rows hrows =>
      cases hcursor
      exact h rows (Table.mem_values_of_get?_eq_some hrows)
    · cases hcursor
  transform _ _ _ htransform := nomatch htransform

end QueryTerms
