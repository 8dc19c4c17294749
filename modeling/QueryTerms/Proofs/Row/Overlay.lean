import QueryTerms.Proofs.Gather
import QueryTerms.Proofs.Row.Names

/-!
# Merging without conflicts

Merging is partial: a nested row that meets a scalar is a conflict, and whether they meet may depend
on what has been merged before.  Where there is no conflict, merging is `overlay`, which lets nested
rows win instead of failing, and `overlay` does not depend on what is merged first.

**Overlay.**  A later value replaces an earlier one, except that a value which is no nested row
never replaces a nested row, and two nested rows are overlaid field by field.  A merge that succeeds
gives the overlay: `overlay_of_merge`.

**Names.**  A row is a map, and so are the rows nested in it (`Row.DeeplyDistinct`); overlaying
keeps this.

**In any order of brackets.**  `overlay_assoc`, which includes the order of fields.
-/

namespace QueryTerms

/-! ## Overlay -/

mutual

/-- The later value, unless it is no nested row and the earlier one is; nested rows are overlaid. -/
def overlayValue (existing : Value) : Value → Value
  | .object source =>
    match existing with
    | .object target => .object (overlay target source)
    | _ => .object source
  | incoming => if existing.isObject then existing else incoming

/-- The target with the fields of the source laid over it. -/
def overlay (target : Row) : List (String × Value) → Row
  | [] => target
  | (field, incoming) :: rest =>
    overlay
      (target.set field
        (((target.get? field).map fun existing => overlayValue existing incoming).getD incoming))
      rest

end

lemma overlay_eq_gather (target source : Row) :
    overlay target source = target.gather overlayValue source := by
  induction source generalizing target with
  | nil => rw [overlay, Table.gather, List.foldl_nil]
  | cons entry rest ih =>
    obtain ⟨field, incoming⟩ := entry
    rw [overlay, ih, Table.gather, Table.gather, List.foldl_cons, Table.gatherEntry]

/-- Induction over values and the fields of nested rows. -/
@[elab_as_elim]
theorem Value.induction_on_fields {P : Value → Prop} (value : Value)
    (plain : ∀ value : Value, value.isObject = false → P value)
    (object : ∀ fields, (∀ entry ∈ fields, P entry.2) → P (.object fields)) : P value :=
  @Value.rec P (fun _ => True) (fun fields => ∀ entry ∈ fields, P entry.2) (fun entry => P entry.2)
    (plain .null rfl) (fun b => plain (.boolean b) rfl) (fun x => plain (.float x) rfl)
    (fun n => plain (.integer n) rfl) (fun s => plain (.string s) rfl)
    (fun items _ => plain (.array items) rfl) object trivial (fun _ _ _ _ => trivial)
    (fun _ h => absurd h List.not_mem_nil)
    (fun _ _ hfirst hrest => List.forall_mem_cons.mpr ⟨hfirst, hrest⟩) (fun _ _ h => h) value

lemma overlayValue_of_plain {existing incoming : Value} (h : incoming.isObject = false) :
    overlayValue existing incoming = if existing.isObject then existing else incoming := by
  cases incoming with
  | object fields => cases h
  | _ => rw [overlayValue]; exact nofun

lemma overlayValue_object (target source : Row) :
    overlayValue (.object target) (.object source) = .object (overlay target source) := by
  rw [overlayValue]

lemma overlayValue_object_of_plain {existing : Value} (h : existing.isObject = false)
    (source : Row) : overlayValue existing (.object source) = .object source := by
  cases existing with
  | object fields => cases h
  | _ => rw [overlayValue]; exact nofun

lemma Value.isObject_iff {value : Value} :
    value.isObject = true ↔ ∃ fields, value = .object fields := by
  cases value <;> simp [isObject]

lemma isObject_overlayValue (existing incoming : Value) :
    (overlayValue existing incoming).isObject = (existing.isObject || incoming.isObject) := by
  cases hincoming : incoming.isObject with
  | false =>
    rw [overlayValue_of_plain hincoming, Bool.or_false]
    cases hexisting : existing.isObject <;> simp [hexisting, hincoming]
  | true =>
    obtain ⟨source, rfl⟩ := Value.isObject_iff.mp hincoming
    rw [Bool.or_true]
    cases hexisting : existing.isObject with
    | false => rw [overlayValue_object_of_plain hexisting, hincoming]
    | true =>
      obtain ⟨target, rfl⟩ := Value.isObject_iff.mp hexisting
      rw [overlayValue_object, Value.isObject]

lemma overlayValue_of_mergeValue_plain {field : String} {existing incoming value : Value}
    (hplain : incoming.isObject = false) (h : mergeValue field existing incoming = (value, none)) :
    overlayValue existing incoming = value := by
  rw [overlayValue_of_plain hplain]
  cases incoming with
  | object fields => cases hplain
  | null =>
    rw [mergeValue] at h
    split at h <;> simp_all
  | _ =>
    rw [mergeValue] at h
    · split at h <;> simp_all
    all_goals exact nofun

/-- A merge of fields that succeeds, if those of single values give the overlay. -/
lemma overlay_of_mergeFields_of_forall {target source merged : Row}
    (hfields : ∀ entry ∈ source, ∀ field existing value,
      mergeValue field existing entry.2 = (value, none) → overlayValue existing entry.2 = value)
    (h : mergeFields target source = (merged, none)) : overlay target source = merged := by
  induction source generalizing target with
  | nil =>
    rw [mergeFields] at h
    cases h
    rw [overlay]
  | cons entry rest ih =>
    obtain ⟨field, incoming⟩ := entry
    obtain ⟨hincoming, hrest⟩ := List.forall_mem_cons.mp hfields
    rw [mergeFields] at h
    rw [overlay]
    split at h
    · next hnone =>
      rw [hnone]
      exact ih hrest h
    · next existing hexisting =>
      split at h
      · next value hvalue =>
        rw [hexisting, Option.map_some, Option.getD_some, hincoming _ _ _ hvalue]
        exact ih hrest h
      · cases h

lemma overlayValue_of_mergeValue {field : String} {existing incoming value : Value}
    (h : mergeValue field existing incoming = (value, none)) :
    overlayValue existing incoming = value := by
  induction incoming using Value.induction_on_fields generalizing field existing value with
  | plain incoming hplain => exact overlayValue_of_mergeValue_plain hplain h
  | object source ih =>
    cases existing with
    | object target =>
      rw [mergeValue] at h
      cases hfields : mergeFields target source with
      | mk row conflict =>
        rw [hfields] at h
        cases h
        rw [overlayValue_object]
        refine congrArg _ (overlay_of_mergeFields_of_forall ?_ hfields)
        exact fun entry hentry _ _ _ hvalue => ih entry hentry hvalue
    | null =>
      rw [mergeValue] at h
      cases h
      rw [overlayValue_object_of_plain rfl]
    | _ =>
      rw [mergeValue] at h
      · cases h
      all_goals exact nofun

/-- **A merge that succeeds gives the overlay.** -/
theorem overlay_of_merge {target source merged : Row} (h : target.merge source = .ok merged) :
    overlay target source = merged := by
  rw [Row.merge] at h
  split at h
  · next hfields =>
    cases h
    exact overlay_of_mergeFields_of_forall (fun _ _ _ _ _ => overlayValue_of_mergeValue) hfields
  · cases h

/-! ## Names -/

mutual

/-- Whether no name occurs twice in a nested row, nor in the rows nested in it. -/
def Value.deeplyDistinct : Value → Bool
  | .object fields => decide (Table.keys fields).Nodup && allDeeplyDistinct fields
  | _ => true

def allDeeplyDistinct : List (String × Value) → Bool
  | [] => true
  | (_, value) :: rest => value.deeplyDistinct && allDeeplyDistinct rest

end

namespace Row

/-- No name occurs twice in the row, nor in the rows nested in it. -/
def DeeplyDistinct (row : Row) : Prop := (Value.object row).deeplyDistinct = true

instance (row : Row) : Decidable row.DeeplyDistinct :=
  inferInstanceAs (Decidable ((Value.object row).deeplyDistinct = true))

end Row

lemma allDeeplyDistinct_iff (fields : List (String × Value)) :
    allDeeplyDistinct fields = true ↔
      ∀ value ∈ Table.values fields, value.deeplyDistinct = true := by
  induction fields with
  | nil => simp [allDeeplyDistinct, Table.values]
  | cons entry rest ih => simp [allDeeplyDistinct, ih, Table.values]

lemma Row.deeplyDistinct_iff {row : Row} :
    row.DeeplyDistinct ↔
      row.NamesDistinct ∧ ∀ value ∈ Table.values row, value.deeplyDistinct = true := by
  rw [DeeplyDistinct, Value.deeplyDistinct, Bool.and_eq_true, decide_eq_true_iff,
    allDeeplyDistinct_iff]
  rfl

/-- Overlaying keeps names distinct if overlaying single values does. -/
lemma Row.DeeplyDistinct.overlay_of_forall {target source : Row} (ht : target.DeeplyDistinct)
    (hs : source.DeeplyDistinct)
    (hvalues : ∀ incoming ∈ Table.values source, ∀ existing : Value,
      existing.deeplyDistinct = true → (overlayValue existing incoming).deeplyDistinct = true) :
    (overlay target source).DeeplyDistinct := by
  obtain ⟨hnames, htarget⟩ := deeplyDistinct_iff.mp ht
  obtain ⟨-, hsource⟩ := deeplyDistinct_iff.mp hs
  rw [overlay_eq_gather, deeplyDistinct_iff]
  exact ⟨Table.nodup_keys_gather hnames source, Table.gather_forall htarget hsource hvalues⟩

lemma overlayValue_deeplyDistinct {existing incoming : Value}
    (he : existing.deeplyDistinct = true) (hi : incoming.deeplyDistinct = true) :
    (overlayValue existing incoming).deeplyDistinct = true := by
  induction incoming using Value.induction_on_fields generalizing existing with
  | plain incoming hplain =>
    rw [overlayValue_of_plain hplain]
    split
    · exact he
    · exact hi
  | object source ih =>
    cases existing with
    | object target =>
      rw [overlayValue_object]
      refine Row.DeeplyDistinct.overlay_of_forall he hi fun incoming hmem old hold => ?_
      obtain ⟨entry, hentry, rfl⟩ := List.mem_map.mp hmem
      exact ih entry hentry hold ((Row.deeplyDistinct_iff.mp hi).2 entry.2 hmem)
    | _ =>
      rw [overlayValue_object_of_plain rfl]
      exact hi

lemma Row.DeeplyDistinct.overlay {target source : Row} (ht : target.DeeplyDistinct)
    (hs : source.DeeplyDistinct) : (overlay target source).DeeplyDistinct := by
  have hvalue : (overlayValue (.object target) (.object source)).deeplyDistinct = true :=
    overlayValue_deeplyDistinct ht hs
  rwa [overlayValue_object] at hvalue

/-! ## In any order of brackets -/

lemma keys_overlay {target : Row} (htarget : target.NamesDistinct) (source : Row) :
    Table.keys (overlay target source) = (target.keys ++ source.keys).eraseDups := by
  rw [overlay_eq_gather, Table.keys_gather htarget]

lemma get?_overlay {target source : Row} (hsource : source.NamesDistinct) (name : String) :
    (overlay target source).get? name =
      Option.merge overlayValue (target.get? name) (source.get? name) := by
  rw [overlay_eq_gather, Table.get?_gather, Table.valuesAt_of_nodup hsource]
  cases target.get? name <;> cases source.get? name <;> rfl

/-- Three rows, if the fields of the last one can be laid over others in any order of brackets. -/
lemma overlay_assoc_of_forall {first second third : Row} (hf : first.DeeplyDistinct)
    (hs : second.DeeplyDistinct) (ht : third.DeeplyDistinct)
    (hassoc : ∀ z ∈ Table.values third, ∀ x y : Value, x.deeplyDistinct = true →
      y.deeplyDistinct = true →
      overlayValue (overlayValue x y) z = overlayValue x (overlayValue y z)) :
    overlay (overlay first second) third = overlay first (overlay second third) := by
  have hfirst := (Row.deeplyDistinct_iff.mp hf).1
  have hsecond := (Row.deeplyDistinct_iff.mp hs).1
  have hthird := (Row.deeplyDistinct_iff.mp ht).1
  have hback : (overlay second third).NamesDistinct :=
    (Row.deeplyDistinct_iff.mp (hs.overlay ht)).1
  refine Table.ext_get? (Row.deeplyDistinct_iff.mp ((hf.overlay hs).overlay ht)).1 ?_ fun name => ?_
  · have hlong : overlay (overlay first second) third = overlay first (second ++ third) := by
      simp only [overlay_eq_gather, Table.gather_append]
    rw [hlong, keys_overlay hfirst, keys_overlay hfirst, keys_overlay hsecond,
      Table.eraseDups_append_eraseDups, Table.keys, Table.keys, Table.keys, Table.keys,
      List.map_append]
  · rw [get?_overlay hthird, get?_overlay hsecond, get?_overlay hback, get?_overlay hthird]
    cases hz : third.get? name with
    | none => rw [Option.merge_none_right, Option.merge_none_right]
    | some z =>
      cases hx : first.get? name with
      | none => rw [Option.merge_none_left, Option.merge_none_left]
      | some x =>
        cases hy : second.get? name with
        | none => rw [Option.merge_none_left, Option.merge_none_right]
        | some y =>
          refine congrArg some (hassoc z (Table.mem_values_of_get?_eq_some hz) x y ?_ ?_)
          · exact (Row.deeplyDistinct_iff.mp hf).2 x (Table.mem_values_of_get?_eq_some hx)
          · exact (Row.deeplyDistinct_iff.mp hs).2 y (Table.mem_values_of_get?_eq_some hy)

lemma overlayValue_assoc {x y z : Value} (hx : x.deeplyDistinct = true)
    (hy : y.deeplyDistinct = true) (hz : z.deeplyDistinct = true) :
    overlayValue (overlayValue x y) z = overlayValue x (overlayValue y z) := by
  induction z using Value.induction_on_fields generalizing x y with
  | plain z hplain =>
    rw [overlayValue_of_plain hplain, overlayValue_of_plain hplain, isObject_overlayValue]
    cases hy : y.isObject with
    | true => rw [Bool.or_true, if_pos rfl, if_pos rfl]
    | false =>
      rw [Bool.or_false, if_neg Bool.false_ne_true, overlayValue_of_plain hy,
        overlayValue_of_plain hplain]
      cases hx : x.isObject <;> simp
  | object third ih =>
    cases hplain : y.isObject with
    | true =>
      obtain ⟨second, rfl⟩ := Value.isObject_iff.mp hplain
      cases hplain : x.isObject with
      | true =>
        obtain ⟨first, rfl⟩ := Value.isObject_iff.mp hplain
        simp only [overlayValue_object, Value.object.injEq]
        refine overlay_assoc_of_forall hx hy hz fun z hmem x y hx hy => ?_
        obtain ⟨entry, hentry, rfl⟩ := List.mem_map.mp hmem
        exact ih entry hentry hx hy ((Row.deeplyDistinct_iff.mp hz).2 entry.2 hmem)
      | false =>
        rw [overlayValue_object_of_plain hplain, overlayValue_object,
          overlayValue_object_of_plain hplain]
    | false =>
      rw [overlayValue_object_of_plain hplain, overlayValue_of_plain hplain]
      cases hx : x.isObject with
      | true => rw [if_pos rfl]
      | false =>
        rw [if_neg Bool.false_ne_true, overlayValue_object_of_plain hplain,
          overlayValue_object_of_plain hx]

/-- **Three rows are overlaid in any order of brackets**, with the same order of fields. -/
theorem overlay_assoc {first second third : Row} (hf : first.DeeplyDistinct)
    (hs : second.DeeplyDistinct) (ht : third.DeeplyDistinct) :
    overlay (overlay first second) third = overlay first (overlay second third) := by
  refine overlay_assoc_of_forall hf hs ht fun z hz x y hx hy => overlayValue_assoc hx hy ?_
  exact (Row.deeplyDistinct_iff.mp ht).2 z hz

end QueryTerms
