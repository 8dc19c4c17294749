import Mathlib.Data.List.Infix
import Mathlib.Tactic.Lemma
import QueryTerms.Text.Separator

/-!
# Components of compound names

A compound name is cut at every separator.  This file says what the components tell about the name.

**Cutting once.**  The search for a separator fails exactly where none is
(`cutFirst?_eq_none_iff`), and the text before the first one holds none
(`cutFirst?_before_of_cutFirst?`).

**Cutting everywhere.**  Cutting everywhere is cutting at the first separator and everywhere behind
it (`pieces_of_some`).  The pieces make up the text, so that names with the same components are the
same: `path_inj`.
-/

namespace QueryTerms.Text

section Pieces

variable {sep text before after : List Char}

lemma cutFirst?_eq_none_iff : cutFirst? sep text = none ↔ ¬ sep <:+: text := by
  induction text with
  | nil =>
    rw [cutFirst?, List.infix_nil]
    cases sep <;> simp
  | cons c cs ih =>
    rw [cutFirst?, List.infix_cons_iff, not_or, ← ih, ← List.isPrefixOf_iff_prefix]
    by_cases hbegins : sep.isPrefixOf (c :: cs) = true
    · rw [if_pos hbegins]
      exact iff_of_false nofun fun h => h.1 hbegins
    · rw [if_neg hbegins, Option.map_eq_none_iff, and_iff_right hbegins]

/-- There is no separator before the first one. -/
lemma cutFirst?_before_of_cutFirst? (hsep : sep ≠ [])
    (h : cutFirst? sep text = some (before, after)) : cutFirst? sep before = none := by
  induction text generalizing before with
  | nil =>
    rw [cutFirst?] at h
    split at h
    · next hempty => exact absurd (List.isEmpty_iff.mp hempty) hsep
    · cases h
  | cons c cs ih =>
    rw [cutFirst?] at h
    split at h
    · cases h
      rw [cutFirst?_eq_none_iff, List.infix_nil]
      exact hsep
    · next hbegins =>
      obtain ⟨⟨front, back⟩, hcut, heq⟩ := Option.map_eq_some_iff.mp h
      cases heq
      rw [cutFirst?_eq_none_iff, List.infix_cons_iff, not_or, ← cutFirst?_eq_none_iff]
      refine ⟨fun hfront => hbegins (List.isPrefixOf_iff_prefix.mpr ?_), ih hcut⟩
      -- a separator at the beginning of what stands before it is one at the beginning of the text
      rw [cutFirst?_eq hcut, List.append_assoc]
      exact hfront.trans (List.prefix_append (c :: front) _)

lemma piecesFrom_skip (sep : List Char) (skip : Nat) (text : List Char) :
    piecesFrom sep skip text = piecesFrom sep 0 (text.drop skip) := by
  induction skip generalizing text with
  | zero => rfl
  | succ skip ih =>
    cases text with
    | nil => rfl
    | cons c cs =>
      rw [piecesFrom, ih]
      rfl

lemma pieces_eq (hsep : sep ≠ []) (text : List Char) :
    pieces sep text = (piecesFrom sep 0 text).1 :: (piecesFrom sep 0 text).2 := by
  rw [pieces, if_neg (by simpa using hsep)]

/-- What the walk along a text finds is what the search for the first separator does. -/
lemma piecesFrom_eq (hsep : sep ≠ []) (text : List Char) :
    piecesFrom sep 0 text =
      match cutFirst? sep text with
      | none => (text, [])
      | some (before, after) => (before, pieces sep after) := by
  induction text with
  | nil => rw [piecesFrom, cutFirst?_eq_none_iff.mpr (by simpa using hsep)]
  | cons c cs ih =>
    rw [piecesFrom, cutFirst?]
    split
    · have hdrop : (c :: cs).drop sep.length = cs.drop (sep.length - 1) := by
        obtain ⟨first, others, rfl⟩ := List.exists_cons_of_ne_nil hsep
        rfl
      simp only [hdrop, pieces_eq hsep, piecesFrom_skip sep (sep.length - 1)]
    · rw [ih]
      cases cutFirst? sep cs <;> rfl

lemma pieces_of_none (hsep : sep ≠ []) (h : cutFirst? sep text = none) :
    pieces sep text = [text] := by
  rw [pieces_eq hsep, piecesFrom_eq hsep, h]

lemma pieces_of_some (hsep : sep ≠ []) (h : cutFirst? sep text = some (before, after)) :
    pieces sep text = before :: pieces sep after := by
  rw [pieces_eq hsep, piecesFrom_eq hsep, h]

/-- The pieces, with separators between them, make up the text. -/
lemma intercalate_pieces (hsep : sep ≠ []) (text : List Char) :
    sep.intercalate (pieces sep text) = text := by
  induction hlength : text.length using Nat.strong_induction_on generalizing text with
  | _ length ih =>
    cases hcut : cutFirst? sep text with
    | none => rw [pieces_of_none hsep hcut, List.intercalate_singleton]
    | some cut =>
      obtain ⟨before, after⟩ := cut
      have htext := cutFirst?_eq hcut
      have hshorter : after.length < length := by
        rw [← hlength, htext, List.length_append, List.length_append]
        have := List.length_pos_iff.mpr hsep
        omega
      rw [pieces_of_some hsep hcut, List.intercalate_cons_of_ne_nil (pieces_ne_nil sep after),
        ih _ hshorter after rfl, htext]

lemma cutFirst?_singleton_append {c : Char} (h : c ∉ before) (after : List Char) :
    cutFirst? [c] (before ++ c :: after) = some (before, after) := by
  induction before with
  | nil =>
    have hbegins : [c].isPrefixOf (c :: after) = true :=
      List.isPrefixOf_iff_prefix.mpr ⟨after, rfl⟩
    rw [List.nil_append, cutFirst?, if_pos hbegins]
    rfl
  | cons first rest ih =>
    rw [List.mem_cons, not_or] at h
    have hbegins : ¬ [c].isPrefixOf (first :: (rest ++ c :: after)) = true := fun hbegins =>
      h.1 (List.cons_prefix_cons.mp (List.isPrefixOf_iff_prefix.mp hbegins)).1
    rw [List.cons_append, cutFirst?, if_neg hbegins, ih h.2, Option.map_some]

/-- Parts that are free of a character are cut where they were joined by it. -/
lemma pieces_intercalate {c : Char} {parts : List (List Char)} (hne : parts ≠ [])
    (h : ∀ part ∈ parts, c ∉ part) : pieces [c] ([c].intercalate parts) = parts := by
  have hsep : [c] ≠ [] := List.cons_ne_nil c []
  induction parts with
  | nil => exact absurd rfl hne
  | cons part rest ih =>
    obtain ⟨hpart, hrest⟩ := List.forall_mem_cons.mp h
    by_cases hlast : rest = []
    · subst hlast
      rw [List.intercalate_singleton, pieces_of_none hsep]
      rwa [cutFirst?_eq_none_iff, List.singleton_infix_iff]
    · rw [List.intercalate_cons_of_ne_nil hlast, List.append_assoc, List.singleton_append,
        pieces_of_some hsep (cutFirst?_singleton_append hpart _), ih hlast hrest]

end Pieces

/-! ## Compound names -/

section Names

variable {name other separator root rest : String}

lemma toList_ne_nil (hseparator : separator ≠ "") : separator.toList ≠ [] :=
  fun h => hseparator (String.toList_eq_nil_iff.mp h)

lemma cutFirst?_of_splitOnce? (h : splitOnce? name separator = some (root, rest)) :
    cutFirst? separator.toList name.toList = some (root.toList, rest.toList) := by
  obtain ⟨⟨before, after⟩, hcut, heq⟩ := Option.map_eq_some_iff.mp h
  cases heq
  rw [hcut, String.toList_ofList, String.toList_ofList]

lemma splitOnce?_eq_none_iff :
    splitOnce? name separator = none ↔ cutFirst? separator.toList name.toList = none :=
  Option.map_eq_none_iff

lemma path_of_none (hseparator : separator ≠ "") (h : splitOnce? name separator = none) :
    path name separator = [name] := by
  rw [path, pieces_of_none (toList_ne_nil hseparator) (splitOnce?_eq_none_iff.mp h),
    List.map_singleton, String.ofList_toList]

lemma path_of_some (hseparator : separator ≠ "")
    (h : splitOnce? name separator = some (root, rest)) :
    path name separator = root :: path rest separator := by
  rw [path, pieces_of_some (toList_ne_nil hseparator) (cutFirst?_of_splitOnce? h), List.map_cons,
    String.ofList_toList, path]

lemma path_ne_nil (name separator : String) : path name separator ≠ [] := by
  rw [path, Ne, List.map_eq_nil_iff]
  exact pieces_ne_nil _ _

/-- The first component is not compound. -/
lemma splitOnce?_root (hseparator : separator ≠ "")
    (h : splitOnce? name separator = some (root, rest)) : splitOnce? root separator = none :=
  splitOnce?_eq_none_iff.mpr
    (cutFirst?_before_of_cutFirst? (toList_ne_nil hseparator) (cutFirst?_of_splitOnce? h))

/-- Components joined again are the name. -/
lemma intercalate_path (hseparator : separator ≠ "") (name : String) :
    String.intercalate separator (path name separator) = name := by
  refine String.toList_inj.mp ?_
  have hparts : (path name separator).map String.toList = pieces separator.toList name.toList := by
    rw [path, List.map_map]
    exact List.map_id'' (fun part => String.toList_ofList) _
  rw [String.toList_intercalate, hparts, intercalate_pieces (toList_ne_nil hseparator)]

/-- **Names with the same components are the same.** -/
theorem path_inj (hseparator : separator ≠ "") :
    path name separator = path other separator ↔ name = other := by
  refine ⟨fun h => ?_, fun h => by rw [h]⟩
  rw [← intercalate_path hseparator name, h, intercalate_path hseparator]

/-- **Joined components are cut again**, if none of them holds the character between them. -/
theorem path_intercalate {c : Char} {names : List String} (hne : names ≠ [])
    (h : ∀ name ∈ names, c ∉ name.toList) :
    path (String.intercalate (String.singleton c) names) (String.singleton c) = names := by
  rw [path, String.toList_intercalate, String.toList_singleton, pieces_intercalate,
    List.map_map]
  · exact List.map_id'' (fun name => String.ofList_toList) names
  · exact fun hmap => hne (List.map_eq_nil_iff.mp hmap)
  · exact fun part hpart => by
      obtain ⟨name, hname, rfl⟩ := List.mem_map.mp hpart
      exact h name hname

end Names

end QueryTerms.Text
