import Mathlib.Data.List.Basic
import Mathlib.Data.List.TakeWhile
import Mathlib.Tactic.NthRewrite
import QueryTerms.Text.Blank

/-!
# Trimming

A text is white space, something that begins and ends otherwise, and white space again.

**Taking apart.**  `exists_eq_trim`.

**Putting together.**  What begins and ends with a character that is no white space is tight
(`IsTight`), and trimming finds it again in between (`trim_between`).  The three parts are thereby
determined by the text: `between_inj`.

**Trimming again.**  White space around a text does not change what it is trimmed to
(`trim_of_between`), and what stands around a character that is no white space is trimmed on either
side of it (`trim_append_cons`).
-/

namespace QueryTerms.Text

variable {before core after text : List Char}

lemma isBlank_of_mem (h : isBlankText text = true) {c : Char} (hc : c ∈ text) : isBlank c = true :=
  List.all_eq_true.mp h c hc

lemma isBlankText_append {first second : List Char} :
    isBlankText (first ++ second) = true ↔ isBlankText first = true ∧ isBlankText second = true := by
  rw [isBlankText, List.all_append, Bool.and_eq_true]
  rfl

lemma isBlankText_of_infix {part : List Char} (h : part <:+: text)
    (htext : isBlankText text = true) : isBlankText part = true :=
  List.all_eq_true.mpr fun _ hc => isBlank_of_mem htext (h.mem hc)

lemma isBlankText_takeWhile (text : List Char) : isBlankText (text.takeWhile isBlank) = true :=
  List.all_takeWhile

lemma isBlankText_reverse : isBlankText text.reverse = isBlankText text := by
  rw [isBlankText, List.all_reverse]
  rfl

/-- White space at the beginning of a text ends before anything else begins. -/
lemma exists_of_isBlankText_append {blank rest : List Char} {c : Char}
    (hblank : isBlankText blank = true) (hc : isBlank c = false)
    (h : blank ++ text = before ++ c :: rest) :
    ∃ middle, before = blank ++ middle ∧ text = middle ++ c :: rest := by
  obtain ⟨middle, hbefore, htext⟩ | ⟨middle, hbefore, htext⟩ := List.append_eq_append_iff.mp h
  · exact ⟨middle, hbefore, htext⟩
  · cases middle with
    | nil => exact ⟨[], by rw [hbefore]; simp, htext.symm⟩
    | cons d ds =>
      obtain ⟨rfl, -⟩ := List.cons.inj htext
      rw [isBlank_of_mem hblank (by rw [hbefore]; simp)] at hc
      cases hc

/-- White space at the end of a text begins behind everything else. -/
lemma exists_of_append_isBlankText {blank front : List Char} {c : Char}
    (hblank : isBlankText blank = true) (hc : isBlank c = false)
    (h : text ++ blank = front ++ [c] ++ after) :
    ∃ middle, after = middle ++ blank ∧ text = front ++ [c] ++ middle := by
  obtain ⟨middle, hfront, hafter⟩ | ⟨middle, htext, hafter⟩ := List.append_eq_append_iff.mp h
  · obtain rfl | ⟨ds, d, rfl⟩ := List.eq_nil_or_concat' middle
    · exact ⟨[], hafter.symm, by rw [hfront]; simp⟩
    · have hlast := congrArg List.getLast? hfront
      rw [← List.append_assoc, List.getLast?_concat, List.getLast?_concat,
        Option.some.injEq] at hlast
      rw [isBlank_of_mem hblank (by rw [hafter, hlast]; simp)] at hc
      cases hc
  · exact ⟨middle, hafter, htext⟩

lemma trim_nil : trim [] = [] := rfl

lemma isBlankText_nil : isBlankText [] = true := rfl

/-! ## Taking apart -/

/-- Trimming takes nothing but white space away. -/
theorem exists_eq_trim (text : List Char) :
    ∃ before after, isBlankText before = true ∧ isBlankText after = true ∧
      text = before ++ trim text ++ after := by
  have hend : trimStart text =
      trim text ++ ((trimStart text).reverse.takeWhile isBlank).reverse := by
    rw [trim, trimEnd, ← List.reverse_append, List.takeWhile_append_dropWhile,
      List.reverse_reverse]
  refine ⟨text.takeWhile isBlank, ((trimStart text).reverse.takeWhile isBlank).reverse,
    isBlankText_takeWhile text, ?_, ?_⟩
  · rw [isBlankText_reverse]
    exact isBlankText_takeWhile _
  · rw [List.append_assoc, ← hend]
    exact List.takeWhile_append_dropWhile.symm

/-! ## Putting together -/

/-- A text that neither begins nor ends with white space. -/
structure IsTight (text : List Char) : Prop where
  ne_nil : text ≠ []
  head : ∀ c ∈ text.head?, isBlank c = false
  last : ∀ c ∈ text.getLast?, isBlank c = false

lemma IsTight.of_forall (hne : text ≠ []) (h : ∀ c ∈ text, isBlank c = false) : IsTight text where
  ne_nil := hne
  head c hc := h c (List.mem_of_mem_head? hc)
  last c hc := h c (List.mem_of_mem_getLast? hc)

lemma IsTight.append {first second : List Char} (hf : IsTight first) (hs : IsTight second)
    (middle : List Char) : IsTight (first ++ middle ++ second) where
  ne_nil := List.append_ne_nil_of_right_ne_nil _ hs.ne_nil
  head := by
    rw [List.append_assoc, List.head?_append_of_ne_nil _ hf.ne_nil]
    exact hf.head
  last := by
    rw [List.getLast?_append_of_ne_nil _ hs.ne_nil]
    exact hs.last

lemma dropWhile_isBlank_eq (hne : core ≠ []) (h : ∀ c ∈ core.head?, isBlank c = false) :
    core.dropWhile isBlank = core := by
  cases core with
  | nil => exact absurd rfl hne
  | cons c cs => exact List.dropWhile_cons_of_neg (by rw [h c rfl]; decide)

/-- **Trimming finds what stands between white space.** -/
theorem trim_between (hb : isBlankText before = true) (ha : isBlankText after = true)
    (h : IsTight core) : trim (before ++ core ++ after) = core := by
  have hstart : trimStart (before ++ core ++ after) = core ++ after := by
    have hhead : ∀ c ∈ (core ++ after).head?, isBlank c = false := by
      rw [List.head?_append_of_ne_nil _ h.ne_nil]
      exact h.head
    rw [trimStart, List.append_assoc,
      List.dropWhile_append_of_pos fun c hc => isBlank_of_mem hb hc]
    exact dropWhile_isBlank_eq (List.append_ne_nil_of_left_ne_nil h.ne_nil _) hhead
  have hlast : core.reverse.dropWhile isBlank = core.reverse := by
    refine dropWhile_isBlank_eq (by simpa using h.ne_nil) ?_
    rw [List.head?_reverse]
    exact h.last
  rw [trim, hstart, trimEnd, List.reverse_append, List.dropWhile_append_of_pos, hlast,
    List.reverse_reverse]
  exact fun c hc => isBlank_of_mem ha (List.mem_reverse.mp hc)

/-- The text and what stands between white space determine the white space. -/
lemma between_inj {before' core' after' : List Char} (hb : isBlankText before = true)
    (hb' : isBlankText before' = true) (ha : isBlankText after = true)
    (ha' : isBlankText after' = true) (h : IsTight core) (h' : IsTight core')
    (heq : before ++ core ++ after = before' ++ core' ++ after') :
    before = before' ∧ core = core' ∧ after = after' := by
  have hcore : core = core' := by
    rw [← trim_between hb ha h, heq, trim_between hb' ha' h']
  subst hcore
  have htake : ∀ blank rest : List Char, isBlankText blank = true →
      (blank ++ core ++ rest).takeWhile isBlank = blank := by
    intro blank rest hblank
    obtain ⟨c, hc⟩ := Option.isSome_iff_exists.mp (List.isSome_head?.mpr h.ne_nil)
    obtain ⟨cs, rfl⟩ := List.head?_eq_some_iff.mp hc
    rw [List.append_assoc, List.takeWhile_append_of_pos fun d hd => isBlank_of_mem hblank hd,
      List.cons_append, List.takeWhile_cons_of_neg (by rw [h.head c hc]; decide), List.append_nil]
  have hbefore : before = before' := by
    rw [← htake before after hb, heq, htake before' after' hb']
  subst hbefore
  refine ⟨rfl, rfl, ?_⟩
  rw [List.append_assoc, List.append_assoc] at heq
  exact List.append_cancel_left (List.append_cancel_left heq)

/-! ## Trimming again -/

lemma isTight_trim (h : trim text ≠ []) : IsTight (trim text) where
  ne_nil := h
  head c hc := by
    have hprefix : trim text <+: trimStart text := by
      rw [trim, trimEnd, ← List.reverse_suffix, List.reverse_reverse]
      exact List.dropWhile_suffix isBlank
    obtain ⟨rest, hrest⟩ := hprefix
    have hhead := List.head?_dropWhile_not isBlank text
    rw [← trimStart, ← hrest, List.head?_append_of_ne_nil _ h, Option.mem_def.mp hc] at hhead
    exact hhead
  last c hc := by
    have hhead := List.head?_dropWhile_not isBlank (trimStart text).reverse
    rw [← List.getLast?_reverse, ← trimEnd, ← trim, Option.mem_def.mp hc] at hhead
    exact hhead

lemma trimStart_of_isBlankText (h : isBlankText text = true) : trimStart text = [] :=
  List.dropWhile_eq_nil_iff.mpr fun _ hc => isBlank_of_mem h hc

lemma isBlankText_trimStart (text : List Char) :
    isBlankText (trimStart text) = isBlankText text := by
  have hwhole := List.takeWhile_append_dropWhile (p := isBlank) (l := text)
  rw [Bool.eq_iff_iff, ← hwhole, isBlankText_append, hwhole]
  exact (and_iff_right (isBlankText_takeWhile text)).symm

lemma trimEnd_of_isBlankText (h : isBlankText text = true) : trimEnd text = [] := by
  rw [← isBlankText_reverse] at h
  rw [trimEnd, ← trimStart, trimStart_of_isBlankText h, List.reverse_nil]

lemma trim_of_isBlankText (h : isBlankText text = true) : trim text = [] := by
  rw [trim, trimStart_of_isBlankText h]
  rfl

lemma trim_eq_nil_iff : trim text = [] ↔ isBlankText text = true := by
  refine ⟨fun h => ?_, trim_of_isBlankText⟩
  obtain ⟨before, after, hbefore, hafter, htext⟩ := exists_eq_trim text
  rw [htext, h, List.append_nil]
  exact isBlankText_append.mpr ⟨hbefore, hafter⟩

/-- White space around a text does not change what it is trimmed to. -/
theorem trim_of_between (hb : isBlankText before = true) (ha : isBlankText after = true)
    (text : List Char) : trim (before ++ text ++ after) = trim text := by
  obtain ⟨front, back, hfront, hback, htext⟩ := exists_eq_trim text
  have houter : before ++ text ++ after = (before ++ front) ++ trim text ++ (back ++ after) := by
    nth_rewrite 1 [htext]
    simp only [List.append_assoc]
  have hbefore := isBlankText_append.mpr ⟨hb, hfront⟩
  have hafter := isBlankText_append.mpr ⟨hback, ha⟩
  rw [houter]
  by_cases hnil : trim text = []
  · rw [hnil, List.append_nil]
    exact trim_of_isBlankText (isBlankText_append.mpr ⟨hbefore, hafter⟩)
  · exact trim_between hbefore hafter (isTight_trim hnil)

lemma trim_trim (text : List Char) : trim (trim text) = trim text := by
  obtain ⟨before, after, hbefore, hafter, htext⟩ := exists_eq_trim text
  nth_rewrite 2 [htext]
  exact (trim_of_between hbefore hafter _).symm

lemma trim_trimStart (text : List Char) : trim (trimStart text) = trim text := by
  have h := trim_of_between (isBlankText_takeWhile text) isBlankText_nil (trimStart text)
  rw [List.append_nil, trimStart, List.takeWhile_append_dropWhile] at h
  exact h.symm

lemma exists_eq_trimEnd (text : List Char) :
    ∃ after, isBlankText after = true ∧ text = trimEnd text ++ after := by
  refine ⟨(text.reverse.takeWhile isBlank).reverse, ?_, ?_⟩
  · rw [isBlankText_reverse]
    exact isBlankText_takeWhile _
  · rw [trimEnd, ← List.reverse_append, List.takeWhile_append_dropWhile, List.reverse_reverse]

lemma trim_trimEnd (text : List Char) : trim (trimEnd text) = trim text := by
  obtain ⟨after, hafter, htext⟩ := exists_eq_trimEnd text
  nth_rewrite 2 [htext]
  exact (trim_of_between isBlankText_nil hafter _).symm

lemma isBlankText_trimEnd (text : List Char) : isBlankText (trimEnd text) = isBlankText text := by
  obtain ⟨after, hafter, htext⟩ := exists_eq_trimEnd text
  nth_rewrite 2 [htext]
  rw [Bool.eq_iff_iff, isBlankText_append]
  exact (and_iff_left hafter).symm

section AroundCharacter

variable {c : Char} (hc : isBlank c = false)
include hc

lemma trimStart_append_cons (front back : List Char) :
    trimStart (front ++ c :: back) = trimStart front ++ c :: back := by
  rw [trimStart, List.dropWhile_append, List.dropWhile_cons_of_neg (by rw [hc]; decide)]
  split
  · next hnil => rw [trimStart, List.isEmpty_iff.mp hnil, List.nil_append]
  · rfl

lemma trimEnd_append_cons (front back : List Char) :
    trimEnd (front ++ c :: back) = front ++ c :: trimEnd back := by
  have h := trimStart_append_cons hc back.reverse front.reverse
  rw [trimStart] at h
  rw [trimEnd, List.reverse_append, List.reverse_cons, List.append_assoc, List.singleton_append, h]
  simp [trimStart, trimEnd]

lemma trim_append_cons (front back : List Char) :
    trim (front ++ c :: back) = trimStart front ++ c :: trimEnd back := by
  rw [trim, trimStart_append_cons hc, trimEnd_append_cons hc]

end AroundCharacter

end QueryTerms.Text
