import QueryTerms.Join.Filter
import QueryTerms.Join.Merge
import QueryTerms.Join.Nest
import QueryTerms.Proofs.Row.Keyed
import QueryTerms.Shaping

/-!
# The names in a row

A row is a map in order: no name occurs twice in it.  Rows are lists here, so this is a property
to keep, and every operation on rows keeps it.

**Rows.**  `Row.NamesDistinct` through merging, nesting, casting, stripping and re-keying.

**Lists of rows.**  `associate`, `mergeByKey`, `sortRows` and the like only pass rows on that they
were given, or merge them.
-/

namespace QueryTerms

/-- No name occurs twice in the row. -/
def Row.NamesDistinct (row : Row) : Prop := (Table.keys row).Nodup

instance (row : Row) : Decidable row.NamesDistinct := inferInstanceAs (Decidable (List.Nodup _))

namespace Row.NamesDistinct

variable {row : Row}

lemma nil : Row.NamesDistinct [] := List.nodup_nil

lemma set (h : row.NamesDistinct) (name : String) (value : Value) :
    Row.NamesDistinct (Table.set name value row) :=
  Table.nodup_keys_set name value row h

lemma strip (h : row.NamesDistinct) (fields : KeyFields) :
    Row.NamesDistinct (fields.strip row) := by
  rw [KeyFields.strip]
  generalize fields.fields = names
  induction names generalizing row with
  | nil => exact h
  | cons name rest ih => exact ih (Table.nodup_keys_erase name h)

/-- Merging keeps the names of the target and adds others. -/
lemma mergeFields (h : row.NamesDistinct) (source : List (String × Value)) :
    (mergeFields row source).1.NamesDistinct := by
  induction source generalizing row with
  | nil => rwa [QueryTerms.mergeFields]
  | cons entry rest ih =>
    obtain ⟨field, incoming⟩ := entry
    rw [QueryTerms.mergeFields]
    split
    · exact ih (h.set field incoming)
    · split
      · exact ih (h.set field _)
      · exact h.set field _

lemma merge (h : row.NamesDistinct) {source merged : Row} (hm : row.merge source = .ok merged) :
    merged.NamesDistinct := by
  have hfields := h.mergeFields source
  rw [Row.merge] at hm
  split at hm
  · next heq =>
    cases hm
    rwa [heq] at hfields
  · cases hm

lemma rekey (h : row.NamesDistinct) (source target : KeyFields) :
    Row.NamesDistinct (rekey source target row) := by
  rw [QueryTerms.rekey]
  split
  · exact h
  · generalize target.fields.zip _ = pairs
    induction pairs generalizing row with
    | nil => exact h
    | cons pair rest ih =>
      obtain ⟨field, value⟩ := pair
      cases value with
      | none => exact ih h
      | some value => exact ih (Table.nodup_keys_setNew field value h)

/-! ## Shaping -/

lemma insertPath (h : row.NamesDistinct) {value : Value} {path : List String} {out : Row}
    (hout : insertPath row value path = some out) : out.NamesDistinct := by
  match path with
  | [] => cases hout
  | [name] =>
    cases hout
    exact h.set name value
  | name :: second :: others =>
    rw [QueryTerms.insertPath] at hout
    · split at hout
      all_goals first
        | cases hout
        | obtain ⟨inner, -, rfl⟩ := Option.map_eq_some_iff.mp hout
          exact h.set name _
    · exact List.cons_ne_nil _ _

lemma applyPlan (plan : UnnestPlan) (separator : String) :
    Row.NamesDistinct (plan.apply separator row) := by
  suffices hfold : ∀ out : Row, out.NamesDistinct →
      Row.NamesDistinct (row.foldl (plan.place separator) out) from hfold [] .nil
  induction row with
  | nil => exact fun out h => h
  | cons entry rest ih =>
    intro out h
    refine ih _ ?_
    rw [UnnestPlan.place]
    split
    · cases hpath : QueryTerms.insertPath out entry.2 (Text.path entry.1 separator) with
      | none => exact h.set entry.1 entry.2
      | some nested => exact h.insertPath hpath
    · exact h.set entry.1 entry.2

lemma castFields (h : row.NamesDistinct) (types : List (String × TypeDecl)) :
    Row.NamesDistinct (castFields types row) := by
  induction types generalizing row with
  | nil => rwa [QueryTerms.castFields]
  | cons entry rest ih =>
    obtain ⟨field, type⟩ := entry
    rw [QueryTerms.castFields]
    split
    · exact ih (h.set field _)
    · exact ih h

lemma shapeRow (h : row.NamesDistinct) (shaping : Shaping) (plan : UnnestPlan) :
    Row.NamesDistinct (shaping.shapeRow plan row) := by
  rw [Shaping.shapeRow]
  have hnested : Row.NamesDistinct
      (if plan.isEmpty then row else plan.apply shaping.separator row) := by
    split
    · exact h
    · exact applyPlan plan shaping.separator
  have hcast := hnested.castFields shaping.types
  generalize QueryTerms.castFields shaping.types _ = cast at hcast
  generalize plan.roots = roots
  induction roots generalizing cast with
  | nil => exact hcast
  | cons root rest ih =>
    refine ih _ ?_
    rw [Shaping.collapseRoot]
    split
    · exact hcast.set root _
    · exact hcast

end Row.NamesDistinct

/-! ## Lists of rows -/

namespace Row

/-- No name occurs twice in any of the rows. -/
def AllDistinct (rows : List Row) : Prop := ∀ row ∈ rows, row.NamesDistinct

instance (rows : List Row) : Decidable (AllDistinct rows) :=
  inferInstanceAs (Decidable (∀ row ∈ rows, row.NamesDistinct))

namespace AllDistinct

variable {rows : List Row}

lemma nil : AllDistinct [] := fun _ h => absurd h List.not_mem_nil

lemma append {more : List Row} (h : AllDistinct rows) (hmore : AllDistinct more) :
    AllDistinct (rows ++ more) := fun row hrow =>
  (List.mem_append.mp hrow).elim (h row) (hmore row)

lemma sortRows (h : AllDistinct rows) (order : OrderBy) : AllDistinct (sortRows order rows) :=
  fun row hrow => h row (mem_sortRows.mp hrow)

lemma appendRows {merged : List Row} (hmerged : AllDistinct merged) (h : AllDistinct rows)
    (order : Option OrderBy) : AllDistinct (appendRows order merged rows) := by
  cases order with
  | none => exact hmerged.append h
  | some order =>
    rw [QueryTerms.appendRows]
    induction rows generalizing merged with
    | nil => exact hmerged
    | cons first rest ih =>
      refine ih ?_ fun row hrow => h row (List.mem_cons_of_mem _ hrow)
      intro row hrow
      rcases mem_insertOrdered.mp hrow with rfl | hrow
      · exact h row List.mem_cons_self
      · exact hmerged row hrow

lemma associate {fields : KeyFields} {node : String} (h : AllDistinct rows)
    {table : Table KeyValue Row} (hok : associate fields node rows = .ok table) :
    AllDistinct table.values :=
  forall_associate (fun _ _ _ htarget _ hmerged => htarget.merge hmerged) h hok

lemma mergeByKey {order : Option OrderBy} {sources : List KeyedRows}
    (h : ∀ source ∈ sources, AllDistinct source.rows) {merged : Table KeyValue Row}
    (hok : mergeByKey order sources = .ok merged) : AllDistinct merged.values :=
  forall_mergeByKey (fun _ _ _ htarget _ hmerged => htarget.merge hmerged) h hok

end AllDistinct

end Row

end QueryTerms
