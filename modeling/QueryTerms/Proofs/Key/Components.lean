import Mathlib.Data.List.Forall2
import Mathlib.Tactic.Lemma
import QueryTerms.Key.Basic

/-!
# Comparing composite keys

A composite key value is compared by one text: the texts of its components with a separator between
them.  It should be compared component by component, and this file says exactly when it is.

**Pieces.**  A separator inside a component cannot be told from one between components.  What a
composite key is compared by are the pieces into which all separators cut it
(`KeyValue.ofValue_array_eq_iff`).

**Components.**  A boolean counts as `1` or `0` where it is a key, but as `true` or `false` where it
is a component.  Components that are equal as keys have the same pieces exactly if both or neither is
a boolean (`Value.pieces_eq_iff_isBoolean`).

**Composite keys.**  `KeyValue.compares_components_iff` puts the two together.
-/

namespace QueryTerms

/-! ## Pieces -/

/-- The pieces into which separators cut the text of a component. -/
def Value.pieces (value : Value) : List (List Char) := value.text.toList.splitOn '\x1f'

lemma Value.pieces_inj {x y : Value} : x.pieces = y.pieces ↔ x.text = y.text := by
  constructor
  · intro h
    have hjoined := congrArg (fun pieces => ['\x1f'].intercalate pieces) h
    simp only [pieces, List.intercalate_splitOn] at hjoined
    exact String.toList_inj.mp hjoined
  · intro h
    rw [pieces, pieces, h]

lemma Value.pieces_eq_singleton {x : Value} (h : '\x1f' ∉ x.text.toList) :
    x.pieces = [x.text.toList] :=
  List.splitOn_eq_singleton h

/-- Joined texts are cut between the texts and wherever the texts are cut themselves. -/
lemma splitOn_intercalate_eq_flatMap {α : Type} [DecidableEq α] (sep : α) {texts : List (List α)}
    (h : texts ≠ []) :
    ([sep].intercalate texts).splitOn sep = texts.flatMap fun text => text.splitOn sep := by
  induction texts with
  | nil => exact absurd rfl h
  | cons text rest ih =>
    cases rest with
    | nil => simp
    | cons next others =>
      have hcut := List.splitOnP_append_cons (p := (· == sep)) text
        ([sep].intercalate (next :: others)) (beq_self_eq_true sep)
      rw [List.intercalate_cons_cons, List.append_assoc, List.singleton_append, List.flatMap_cons,
        ← ih (List.cons_ne_nil next others)]
      exact hcut

/-- **Composite keys are compared by their pieces.** -/
theorem KeyValue.ofValue_array_eq_iff {xs ys : List Value} (hlength : xs.length = ys.length) :
    ofValue (.array xs) = ofValue (.array ys) ↔
      xs.flatMap Value.pieces = ys.flatMap Value.pieces := by
  cases xs with
  | nil =>
    rw [List.eq_nil_of_length_eq_zero hlength.symm]
    exact iff_of_true rfl rfl
  | cons x rest =>
    have hys : ys ≠ [] := List.ne_nil_of_length_pos (by rw [← hlength]; exact Nat.succ_pos _)
    have hcut : ∀ parts : List Value, parts ≠ [] →
        (String.intercalate unitSeparator (parts.map Value.text)).toList.splitOn '\x1f' =
          parts.flatMap Value.pieces := by
      intro parts hparts
      rw [String.toList_intercalate, List.map_map]
      refine (splitOn_intercalate_eq_flatMap '\x1f' (by simpa using hparts)).trans ?_
      rw [List.flatMap_map]
      rfl
    rw [ofValue, ofValue, KeyValue.mk.injEq, ← hcut (x :: rest) (List.cons_ne_nil x rest),
      ← hcut ys hys]
    constructor
    · intro h
      rw [h]
    · intro h
      have hjoined := congrArg (fun pieces => ['\x1f'].intercalate pieces) h
      simp only [List.intercalate_splitOn] at hjoined
      exact String.toList_inj.mp hjoined

/-! ## Components -/

namespace Value

/-- What a component of a key is: null, a boolean, an integer or text. -/
def IsScalar : Value → Prop
  | .null | .boolean _ | .integer _ | .string _ => True
  | _ => False

def isBoolean : Value → Bool
  | .boolean _ => true
  | _ => false

variable {x y : Value}

/-- Apart from booleans, a component counts in a composite key as it does alone. -/
lemma ofValue_eq_text (hx : x.IsScalar) (h : x.isBoolean = false) :
    KeyValue.ofValue x = ⟨x.text⟩ := by
  cases x with
  | boolean b => cases h
  | array items => cases hx
  | _ => rfl

/-- Of components of the same kind, those are equal as keys that have the same pieces. -/
lemma ofValue_eq_iff_pieces (hx : x.IsScalar) (hy : y.IsScalar)
    (h : x.isBoolean = y.isBoolean) : KeyValue.ofValue x = KeyValue.ofValue y ↔
      x.pieces = y.pieces := by
  rw [pieces_inj]
  cases hkind : x.isBoolean with
  | false =>
    rw [ofValue_eq_text hx hkind, ofValue_eq_text hy (h ▸ hkind), KeyValue.mk.injEq]
  | true =>
    rw [hkind] at h
    obtain ⟨b, rfl⟩ : ∃ b, x = .boolean b := by
      cases x with
      | boolean b => exact ⟨b, rfl⟩
      | _ => cases hkind
    obtain ⟨c, rfl⟩ : ∃ c, y = .boolean c := by
      cases y with
      | boolean c => exact ⟨c, rfl⟩
      | _ => cases h
    clear hx hy h hkind
    revert b c
    decide

/-- A boolean and a component that is equal to it as a key have one piece each, and not the same
one. -/
lemma pieces_boolean_ne (b : Bool) (hy : y.IsScalar) (hkind : y.isBoolean = false)
    (h : KeyValue.ofValue (.boolean b) = KeyValue.ofValue y) :
    (Value.boolean b).pieces.length = y.pieces.length ∧ (Value.boolean b).pieces ≠ y.pieces := by
  have htext : y.text = if b then "1" else "0" := by
    rw [ofValue_eq_text hy hkind] at h
    exact (congrArg KeyValue.text h).symm
  rw [pieces, pieces, htext]
  clear h htext
  revert b
  decide

/-- **Where a component counts as it does alone.**  Components that are equal as keys have the same
pieces exactly if both or neither is a boolean; in either case they have equally many. -/
theorem pieces_eq_iff_isBoolean (hx : x.IsScalar) (hy : y.IsScalar)
    (h : KeyValue.ofValue x = KeyValue.ofValue y) :
    x.pieces.length = y.pieces.length ∧
      (x.pieces = y.pieces ↔ x.isBoolean = y.isBoolean) := by
  by_cases hkind : x.isBoolean = y.isBoolean
  · have hsame := (ofValue_eq_iff_pieces hx hy hkind).mp h
    exact ⟨congrArg List.length hsame, iff_of_true hsame hkind⟩
  · suffices hdiffer : x.pieces.length = y.pieces.length ∧ x.pieces ≠ y.pieces from
      ⟨hdiffer.1, iff_of_false hdiffer.2 hkind⟩
    cases x with
    | boolean b =>
      refine pieces_boolean_ne b hy ?_ h
      rw [← Bool.not_eq_true]
      exact fun hbool => hkind hbool.symm
    | _ =>
      cases y with
      | boolean c =>
        obtain ⟨hlength, hne⟩ := pieces_boolean_ne c hx rfl h.symm
        exact ⟨hlength.symm, hne.symm⟩
      | _ => exact absurd rfl hkind

end Value

/-! ## Composite keys -/

/-- Joined lists that come in parts of equal length are equal part by part. -/
lemma flatMap_eq_iff_forall₂ {α β : Type} {f : α → List β} {xs ys : List α}
    (h : List.Forall₂ (fun x y => (f x).length = (f y).length) xs ys) :
    xs.flatMap f = ys.flatMap f ↔ List.Forall₂ (fun x y => f x = f y) xs ys := by
  induction h with
  | nil => exact iff_of_true rfl .nil
  | cons hfirst _ ih =>
    rw [List.flatMap_cons, List.flatMap_cons, List.forall₂_cons, ← ih]
    constructor
    · intro happend
      exact List.append_inj happend hfirst
    · rintro ⟨hhead, hrest⟩
      rw [hhead, hrest]

lemma forall₂_and_mem {α : Type} {R : α → α → Prop} {P : α → Prop} {xs ys : List α}
    (h : List.Forall₂ R xs ys) (hxs : ∀ x ∈ xs, P x) (hys : ∀ y ∈ ys, P y) :
    List.Forall₂ (fun x y => R x y ∧ P x ∧ P y) xs ys := by
  induction h with
  | nil => exact .nil
  | cons hfirst _ ih =>
    rw [List.forall_mem_cons] at hxs hys
    exact .cons ⟨hfirst, hxs.1, hys.1⟩ (ih hxs.2 hys.2)

namespace KeyValue

variable {xs ys : List Value}

/-- Composite keys whose components are equal as keys are equal if no boolean meets another kind. -/
lemma ofValue_array_eq_iff_isBoolean (hxs : ∀ x ∈ xs, x.IsScalar) (hys : ∀ y ∈ ys, y.IsScalar)
    (h : List.Forall₂ (fun x y => ofValue x = ofValue y) xs ys) :
    ofValue (.array xs) = ofValue (.array ys) ↔
      List.Forall₂ (fun x y => x.isBoolean = y.isBoolean) xs ys := by
  have hpairs := (forall₂_and_mem h hxs hys).imp fun x y hpair =>
    Value.pieces_eq_iff_isBoolean hpair.2.1 hpair.2.2 hpair.1
  have hlengths := hpairs.imp fun _ _ hpair => hpair.1
  rw [ofValue_array_eq_iff h.length_eq, flatMap_eq_iff_forall₂ hlengths]
  exact ⟨hpairs.mp fun _ _ hpair => hpair.2.mp, hpairs.mp fun _ _ hpair => hpair.2.mpr⟩

/-- Without separators in their texts and with booleans in the same places, composite keys are
compared component by component. -/
lemma ofValue_array_eq_iff_forall₂ (hxs : ∀ x ∈ xs, x.IsScalar) (hys : ∀ y ∈ ys, y.IsScalar)
    (hplain : ∀ value ∈ xs ++ ys, '\x1f' ∉ value.text.toList)
    (hkinds : List.Forall₂ (fun x y => x.isBoolean = y.isBoolean) xs ys) :
    ofValue (.array xs) = ofValue (.array ys) ↔
      List.Forall₂ (fun x y => ofValue x = ofValue y) xs ys := by
  obtain ⟨hplainLeft, hplainRight⟩ := List.forall_mem_append.mp hplain
  have hlengths : List.Forall₂ (fun x y => x.pieces.length = y.pieces.length) xs ys := by
    refine (forall₂_and_mem hkinds hplainLeft hplainRight).imp ?_
    rintro x y ⟨-, hx, hy⟩
    rw [Value.pieces_eq_singleton hx, Value.pieces_eq_singleton hy]
    rfl
  have hpairs := (forall₂_and_mem hkinds hxs hys).imp fun x y hpair =>
    Value.ofValue_eq_iff_pieces hpair.2.1 hpair.2.2 hpair.1
  rw [ofValue_array_eq_iff hkinds.length_eq, flatMap_eq_iff_forall₂ hlengths]
  exact ⟨hpairs.mp fun _ _ hpair => hpair.mpr, hpairs.mp fun _ _ hpair => hpair.mp⟩

/-- **When composite keys are compared component by component.**  For two composite keys whose
components are equal as keys, no boolean must stand where the other key has another kind; for two
others, the separators must not cut them into the same pieces.  It is enough that no text holds a
separator and that booleans stand in the same places. -/
theorem compares_components_iff (hlength : xs.length = ys.length)
    (hxs : ∀ x ∈ xs, x.IsScalar) (hys : ∀ y ∈ ys, y.IsScalar) :
    ((ofValue (.array xs) = ofValue (.array ys) ↔
        List.Forall₂ (fun x y => ofValue x = ofValue y) xs ys) ↔
      (List.Forall₂ (fun x y => ofValue x = ofValue y) xs ys →
        List.Forall₂ (fun x y => x.isBoolean = y.isBoolean) xs ys) ∧
      (¬ List.Forall₂ (fun x y => ofValue x = ofValue y) xs ys →
        xs.flatMap Value.pieces ≠ ys.flatMap Value.pieces)) ∧
    ((∀ value ∈ xs ++ ys, '\x1f' ∉ value.text.toList) →
      List.Forall₂ (fun x y => x.isBoolean = y.isBoolean) xs ys →
      (ofValue (.array xs) = ofValue (.array ys) ↔
        List.Forall₂ (fun x y => ofValue x = ofValue y) xs ys)) := by
  refine ⟨?_, fun hplain hkinds => ofValue_array_eq_iff_forall₂ hxs hys hplain hkinds⟩
  by_cases hpairs : List.Forall₂ (fun x y => ofValue x = ofValue y) xs ys
  · rw [iff_true_right hpairs, ofValue_array_eq_iff_isBoolean hxs hys hpairs]
    constructor
    · intro hkinds
      exact ⟨fun _ => hkinds, fun hnot => absurd hpairs hnot⟩
    · intro h
      exact h.1 hpairs
  · rw [iff_false_right hpairs, ofValue_array_eq_iff hlength]
    constructor
    · intro hpieces
      exact ⟨fun h => absurd h hpairs, fun _ => hpieces⟩
    · intro h
      exact h.2 hpairs

/-- A flag that one query returns as a boolean does not meet the same flag as a number, once there
is a second component. -/
theorem compares_components_flags :
    let xs : List Value := [.boolean true, .string "a"]
    let ys : List Value := [.integer 1, .string "a"]
    List.Forall₂ (fun x y => ofValue x = ofValue y) xs ys ∧
      ofValue (.array xs) ≠ ofValue (.array ys) := by
  intro xs ys
  have hpairs : List.Forall₂ (fun x y => ofValue x = ofValue y) xs ys :=
    .cons (by decide) (.cons rfl .nil)
  refine ⟨hpairs, fun h => ?_⟩
  have hxs : ∀ x ∈ xs, x.IsScalar := by simp [xs, Value.IsScalar]
  have hys : ∀ y ∈ ys, y.IsScalar := by simp [ys, Value.IsScalar]
  have hlength : xs.length = ys.length := rfl
  have hboth := (compares_components_iff hlength hxs hys).1.mp ⟨fun _ => hpairs, fun _ => h⟩
  have hkinds := hboth.1 hpairs
  simp [xs, ys, Value.isBoolean] at hkinds

/-- **Composite keys are not compared component by component.**  A boolean differs from the number
that it is equal to alone, and text that holds a separator makes two different keys equal. -/
theorem composite_ne_components :
    (ofValue (.boolean true) = ofValue (.integer 1) ∧
      ofValue (.array [.boolean true]) ≠ ofValue (.array [.integer 1])) ∧
    (ofValue (.string "a\x1fb") ≠ ofValue (.string "a") ∧
      ofValue (.array [.string "a\x1fb", .string "c"]) =
        ofValue (.array [.string "a", .string "b\x1fc"])) := by
  decide

end KeyValue

end QueryTerms
