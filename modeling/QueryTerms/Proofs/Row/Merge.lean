import QueryTerms.Proofs.Row.Names

/-!
# The fields of a merged row

Merging goes through the fields of the source and changes the target under way.  Field by field the
outcome depends on the two rows only.

**Reading a merged row.**  It reads like `Row.inFrontOf`, the source in front of the target:
`get?_merge`.
-/

namespace QueryTerms

/-- What a field holds after a value has come in for it. -/
def Row.incoming (row : Row) (field : String) (value : Value) : Value :=
  match row.get? field with
  | some existing => (mergeValue field existing value).1
  | none => value

/-- The fields of the source, then those of the target; nested rows in both are merged. -/
def Row.inFrontOf (source target : Row) : Row :=
  (source.map fun entry => (entry.1, target.incoming entry.1 entry.2)) ++ target

lemma Row.get?_inFrontOf (source target : Row) (name : String) :
    (source.inFrontOf target).get? name =
      ((source.get? name).map (target.incoming name)).or (target.get? name) := by
  rw [inFrontOf, Table.get?_append]
  congr 1
  induction source with
  | nil => rfl
  | cons entry rest ih =>
    obtain ⟨field, value⟩ := entry
    rw [List.map_cons, Table.get?_cons, Table.get?_cons]
    by_cases heq : field = name
    · subst heq
      rw [if_pos rfl, if_pos rfl, Option.map_some]
    · rw [if_neg heq, if_neg heq, ih]

variable {target source merged : Row}

/-- One field of the source; the rest of it meets a target that is changed there only. -/
lemma mergeFields_cons {field : String} {value : Value}
    (h : mergeFields target ((field, value) :: source) = (merged, none)) :
    mergeFields (target.set field (target.incoming field value)) source = (merged, none) := by
  rw [mergeFields] at h
  rw [Row.incoming]
  split at h
  · next hnone => rwa [hnone]
  · next existing hexisting =>
    split at h
    · next heq =>
      rw [hexisting]
      change mergeFields (target.set field (mergeValue field existing value).1) source = _
      rwa [heq]
    · cases h

lemma get?_mergeFields (hsource : source.NamesDistinct)
    (h : mergeFields target source = (merged, none)) (name : String) :
    merged.get? name = (source.inFrontOf target).get? name := by
  induction source generalizing target with
  | nil =>
    rw [mergeFields] at h
    cases h
    rfl
  | cons entry rest ih =>
    obtain ⟨field, value⟩ := entry
    obtain ⟨hfield, hrest⟩ := List.nodup_cons.mp hsource
    rw [ih hrest (mergeFields_cons h), Row.get?_inFrontOf, Row.get?_inFrontOf, Table.get?_set,
      Table.get?_cons]
    by_cases heq : field = name
    · subst heq
      have hnone : Table.get? field rest = none := Table.get?_eq_none_iff.mpr hfield
      rw [hnone, if_pos rfl, if_pos rfl]
      rfl
    · have hsame : Row.incoming (target.set field (target.incoming field value)) name =
          target.incoming name := by
        funext other
        simp only [Row.incoming, Table.get?_set, if_neg heq]
      rw [if_neg heq, if_neg heq, hsame]

/-- **The fields of a merged row.** -/
theorem get?_merge (hsource : source.NamesDistinct) (h : target.merge source = .ok merged)
    (name : String) : merged.get? name = (source.inFrontOf target).get? name := by
  rw [Row.merge] at h
  split at h
  · next heq =>
    cases h
    exact get?_mergeFields hsource heq name
  · cases h

end QueryTerms
