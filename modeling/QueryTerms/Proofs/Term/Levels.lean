import Mathlib
import QueryTerms.Proofs.Term.Reading

/-!
# How deep a reading goes

The reader counts the levels of nesting that it may still enter, and gives up where they run out.
This file is about readings without such a count.

**One level.**  On each level the reader cuts its text into atoms (`atomTexts`) and hands on what
stands in their parentheses (`nestedTexts`), from left to right and up to the first fault.
`IsLayer` says that of a reader in terms of the readers it is made of: what it finds out stays
when more is known (`settled`), and where it finds out nothing there is one text to blame
(`blames`).

**More levels.**  More levels never change what is found out (`readNested_mono`), so that a reading
without a count either `Ends` or does not.

**What a reading needs.**  `Needs` says that the reading of a text comes to another text.  A reading
ends if and only if all readings that it needs do (`ends_iff_forall_needs`), and it goes on
forever if and only if there is an endless chain of them (`not_ends_iff_exists_chain`).
-/

namespace QueryTerms.Term

/-- The levels that are allowed have not been enough. -/
def RunsOut {α : Type} (outcome : Except ParseError α) : Prop :=
  ∃ shown, outcome = .error (.endlessAliases shown)

abbrev Reader := List Char → Except ParseError Term

/-! ## Steps that may run out -/

section Steps

variable {α β : Type}

lemma not_runsOut_ok (value : α) : ¬ RunsOut (.ok value : Except ParseError α) :=
  fun ⟨_, h⟩ => nomatch h

lemma not_runsOut_error {cause : ParseError} (h : ∀ shown, cause ≠ .endlessAliases shown) :
    ¬ RunsOut (.error cause : Except ParseError α) := by
  rintro ⟨shown, hcause⟩
  exact h shown (Except.error.inj hcause)

lemma runsOut_map_iff {step : Except ParseError α} {f : α → β} :
    RunsOut (f <$> step) ↔ RunsOut step := by
  cases step with
  | error cause => simp [RunsOut, Functor.map, Except.map]
  | ok value => simp [RunsOut, Functor.map, Except.map]

lemma runsOut_bind_iff {step : Except ParseError α} {next : α → Except ParseError β} :
    RunsOut (step >>= next) ↔ RunsOut step ∨ ∃ value, step = .ok value ∧ RunsOut (next value) := by
  cases step with
  | error cause => simp [RunsOut, bind, Except.bind]
  | ok value => simp [RunsOut, bind, Except.bind]

variable {step other : α → Except ParseError β} {items : List α}

/-- What is found out of all items stays, if what is found out of each of them does. -/
lemma mapM_settled (h : ∀ item ∈ items, ¬ RunsOut (step item) → other item = step item)
    (hends : ¬ RunsOut (items.mapM step)) : items.mapM other = items.mapM step := by
  induction items with
  | nil => rfl
  | cons first rest ih =>
    obtain ⟨hfirst, hrest⟩ := List.forall_mem_cons.mp h
    rw [List.mapM_cons, runsOut_bind_iff, not_or] at hends
    rw [List.mapM_cons, List.mapM_cons, hfirst hends.1]
    refine bind_congr_ok fun value hvalue => ?_
    have hothers : ¬ RunsOut (rest.mapM step) := fun hout =>
      hends.2 ⟨value, hvalue, runsOut_bind_iff.mpr (.inl hout)⟩
    rw [ih hrest hothers]

/-- Where nothing is found out of all items, there is a first one to blame. -/
lemma mapM_blames (h : RunsOut (items.mapM step)) :
    ∃ item ∈ items, RunsOut (step item) ∧ ∀ other : α → Except ParseError β,
      (∀ item ∈ items, ¬ RunsOut (step item) → ¬ RunsOut (other item) → other item = step item) →
      RunsOut (other item) → RunsOut (items.mapM other) := by
  induction items with
  | nil => exact absurd h (not_runsOut_ok [])
  | cons first rest ih =>
    rw [List.mapM_cons, runsOut_bind_iff] at h
    rcases h with hout | ⟨value, hvalue, h⟩
    · refine ⟨first, List.mem_cons_self, hout, fun other _ hother => ?_⟩
      rw [List.mapM_cons, runsOut_bind_iff]
      exact .inl hother
    · have hrest : RunsOut (rest.mapM step) := by
        rcases runsOut_bind_iff.mp h with hout | ⟨_, -, hout⟩
        · exact hout
        · exact absurd hout (not_runsOut_ok _)
      obtain ⟨item, hmem, hout, hblame⟩ := ih hrest
      refine ⟨item, List.mem_cons_of_mem _ hmem, hout, fun other hagree hother => ?_⟩
      obtain ⟨hfirst, hothers⟩ := List.forall_mem_cons.mp hagree
      rw [List.mapM_cons, runsOut_bind_iff]
      by_cases hleft : RunsOut (other first)
      · exact .inl hleft
      · refine .inr ⟨value, ?_, runsOut_bind_iff.mpr (.inl (hblame other hothers hother))⟩
        rw [hfirst (hvalue ▸ not_runsOut_ok value) hleft, hvalue]

end Steps

/-! ## One level -/

/-- What `less` finds out of the given texts, `more` finds out too. -/
def Reader.LeOn (texts : List (List Char)) (less more : Reader) : Prop :=
  ∀ text ∈ texts, ¬ RunsOut (less text) → more text = less text

/-- What both find out of the given texts is the same. -/
def Reader.AgreeOn (texts : List (List Char)) (one other : Reader) : Prop :=
  ∀ text ∈ texts, ¬ RunsOut (one text) → ¬ RunsOut (other text) → other text = one text

/-- A reader made of another one, which it applies to some of the `parts` of a text, one after
another as long as they are terms. -/
structure IsLayer (layer : Reader → Reader) (parts : List Char → List (List Char)) : Prop where
  settled : ∀ {less more : Reader} {text : List Char}, less.LeOn (parts text) more →
    ¬ RunsOut (layer less text) → layer more text = layer less text
  blames : ∀ {reader : Reader} {text : List Char}, RunsOut (layer reader text) →
    ∃ part ∈ parts text, RunsOut (reader part) ∧ ∀ other : Reader,
      reader.AgreeOn (parts text) other → RunsOut (other part) → RunsOut (layer other text)

namespace IsLayer

variable {layer below : Reader → Reader} {parts partsBelow : List Char → List (List Char)}

open Classical in
/-- Two readers that agree make readers that agree: together they know what each of them knows. -/
lemma agree (h : IsLayer layer parts) {one other : Reader} {text : List Char}
    (hagree : one.AgreeOn (parts text) other) (hone : ¬ RunsOut (layer one text))
    (hother : ¬ RunsOut (layer other text)) : layer other text = layer one text := by
  let both : Reader := fun part => if RunsOut (one part) then other part else one part
  have hleft : one.LeOn (parts text) both := fun part _ hends => if_neg hends
  have hright : other.LeOn (parts text) both := by
    intro part hpart hends
    by_cases hout : RunsOut (one part)
    · exact if_pos hout
    · exact (if_neg hout).trans (hagree part hpart hout hends).symm
  rw [← h.settled hright hother, ← h.settled hleft hone]

/-- Layers on layers. -/
lemma comp (h : IsLayer layer parts) (hbelow : IsLayer below partsBelow) :
    IsLayer (fun reader => layer (below reader)) fun text => (parts text).flatMap partsBelow where
  settled {less more text} hle hends := by
    refine h.settled (fun part hpart hout => hbelow.settled (fun inner hinner => ?_) hout) hends
    exact hle inner (List.mem_flatMap.mpr ⟨part, hpart, hinner⟩)
  blames {reader text} hout := by
    obtain ⟨part, hpart, hpartOut, hblame⟩ := h.blames hout
    obtain ⟨inner, hinner, hinnerOut, hblameBelow⟩ := hbelow.blames hpartOut
    refine ⟨inner, List.mem_flatMap.mpr ⟨part, hpart, hinner⟩, hinnerOut,
      fun other hagree hother => ?_⟩
    have hagrees : ∀ part ∈ parts text, reader.AgreeOn (partsBelow part) other :=
      fun part hpart inner hinner => hagree inner (List.mem_flatMap.mpr ⟨part, hpart, hinner⟩)
    exact hblame (below other) (fun part hpart => hbelow.agree (hagrees part hpart))
      (hblameBelow other (hagrees part hpart) hother)

end IsLayer

lemma not_runsOut_checkOperands (whole : List Char) (parts : List (List Char)) :
    ¬ RunsOut (checkOperands whole parts) := by
  rintro ⟨shown, h⟩
  rw [checkOperands] at h
  split at h <;> cases h

lemma not_runsOut_readId (id : List Char) : ¬ RunsOut (readId id) := by
  rintro ⟨shown, h⟩
  rw [readId] at h
  split at h <;> cases h

lemma eq_of_splitTop_eq_singleton {sep : Char} {text part : List Char}
    (h : splitTop sep text = [part]) : part = text := by
  have hjoin := joinWith_splitTop sep text
  rwa [h] at hjoin

/-- Operands are read one after another. -/
theorem isLayer_readOperands (sep : Char) (compose : List Term → Term) :
    IsLayer (readOperands sep compose) (splitTop sep) where
  settled {less more text} hle hends := by
    rw [readOperands] at hends ⊢
    rw [readOperands]
    split at hends
    · next part hparts =>
      refine hle text ?_ hends
      rw [hparts, eq_of_splitTop_eq_singleton hparts]
      exact List.mem_cons_self
    · rw [runsOut_bind_iff, not_or] at hends
      refine bind_congr_ok fun _ hchecked => ?_
      have hread : ¬ RunsOut ((splitTop sep text).mapM less) := fun hout =>
        hends.2 ⟨_, hchecked, runsOut_map_iff.mpr hout⟩
      rw [mapM_settled hle hread]
  blames {reader text} hout := by
    rw [readOperands] at hout
    split at hout
    · next part hparts =>
      refine ⟨text, ?_, hout, fun other _ hother => ?_⟩
      · rw [hparts, eq_of_splitTop_eq_singleton hparts]
        exact List.mem_cons_self
      · rwa [readOperands, hparts]
    · next hseveral =>
      rcases runsOut_bind_iff.mp hout with hout | ⟨_, hchecked, hout⟩
      · exact absurd hout (not_runsOut_checkOperands _ _)
      · obtain ⟨part, hpart, hpartOut, hblame⟩ := mapM_blames (runsOut_map_iff.mp hout)
        refine ⟨part, hpart, hpartOut, fun other hagree hother => ?_⟩
        rw [readOperands]
        split
        · next single hsingle => exact absurd hsingle (hseveral single)
        · rw [runsOut_bind_iff]
          exact .inr ⟨_, hchecked, runsOut_map_iff.mpr (hblame other hagree hother)⟩

/-- The id before the parentheses of an atom, trimmed, and what stands in them. -/
def groupOf? (atom : List Char) : Option (List Char × List Char) :=
  let text := Text.trim atom
  match closeGroup 0 ((text.dropWhile (· != '(')).drop 1) with
  | some (inner, []) => some (Text.trim (text.takeWhile (· != '(')), inner)
  | _ => none

/-- The text that is read for a part of what stands in parentheses behind `id`. -/
def partText (aliases : Aliases) (id part : List Char) : List Char :=
  if id.isEmpty then part else substituteAlias aliases id part

/-- The texts that are read for what stands in the parentheses of an atom. -/
def nestedTexts (aliases : Aliases) (atom : List Char) : List (List Char) :=
  match groupOf? atom with
  | none => []
  | some (id, inner) => (splitTop ',' inner).map (partText aliases id)

section Groups

variable {aliases : Aliases} {nested : Reader} {text id inner : List Char}

lemma readGroup_of_blank (h : Text.isBlankText inner = true) :
    readGroup aliases nested text id inner = .error (.emptyOperand (String.ofList text)) :=
  if_pos h

/-- Parentheses without an id hold one part. -/
lemma readGroup_of_unnamed (h : ¬ Text.isBlankText inner = true) (hid : id.isEmpty = true) :
    readGroup aliases nested text id inner =
      checkOperands inner (splitTop ',' inner) >>= fun _ =>
        match splitTop ',' inner with
        | [single] => nested (partText aliases id single)
        | _ => .error (.malformed (String.ofList text)) := by
  obtain rfl := List.isEmpty_iff.mp hid
  rw [readGroup, if_neg h]
  exact bind_congr_ok fun _ _ => rfl

lemma readGroup_of_named (h : ¬ Text.isBlankText inner = true) (hid : ¬ id.isEmpty = true) :
    readGroup aliases nested text id inner =
      checkOperands inner (splitTop ',' inner) >>= fun _ => readId id >>= fun name =>
        .tree name <$> (splitTop ',' inner).mapM fun part => nested (partText aliases id part) := by
  rw [readGroup, if_neg h]
  refine bind_congr_ok fun _ _ => ?_
  rw [if_neg hid]
  simp only [partText, if_neg hid]

end Groups

/-- The parts in parentheses are read one after another. -/
lemma isLayer_readGroup (aliases : Aliases) (text id : List Char) :
    IsLayer (fun nested inner => readGroup aliases nested text id inner)
      fun inner => (splitTop ',' inner).map (partText aliases id) where
  settled {less more inner} hle hends := by
    rw [Reader.LeOn, List.forall_mem_map] at hle
    by_cases hblank : Text.isBlankText inner = true
    · rw [readGroup_of_blank hblank, readGroup_of_blank hblank]
    by_cases hid : id.isEmpty = true
    · rw [readGroup_of_unnamed hblank hid, runsOut_bind_iff, not_or] at hends
      rw [readGroup_of_unnamed hblank hid, readGroup_of_unnamed hblank hid]
      refine bind_congr_ok fun _ hchecked => ?_
      have hpart := fun hout => hends.2 ⟨_, hchecked, hout⟩
      split at hpart
      · next single hsingle => exact hle single (by rw [hsingle]; exact List.mem_cons_self) hpart
      · rfl
    · rw [readGroup_of_named hblank hid, runsOut_bind_iff, not_or] at hends
      rw [readGroup_of_named hblank hid, readGroup_of_named hblank hid]
      refine bind_congr_ok fun _ hchecked => bind_congr_ok fun name hname => ?_
      have hparts := fun hout => hends.2
        ⟨_, hchecked, runsOut_bind_iff.mpr (.inr ⟨name, hname, runsOut_map_iff.mpr hout⟩)⟩
      rw [mapM_settled hle hparts]
  blames {reader inner} hout := by
    by_cases hblank : Text.isBlankText inner = true
    · rw [readGroup_of_blank hblank] at hout
      exact absurd hout (not_runsOut_error fun _ => by simp)
    by_cases hid : id.isEmpty = true
    · rw [readGroup_of_unnamed hblank hid, runsOut_bind_iff] at hout
      obtain ⟨_, hchecked, hout⟩ := hout.resolve_left (not_runsOut_checkOperands _ _)
      split at hout
      · next single hsingle =>
        refine ⟨_, by rw [hsingle]; exact List.mem_cons_self, hout, fun other _ hother => ?_⟩
        rw [readGroup_of_unnamed hblank hid, runsOut_bind_iff, hsingle]
        exact .inr ⟨_, hsingle ▸ hchecked, hother⟩
      · exact absurd hout (not_runsOut_error fun _ => by simp)
    · rw [readGroup_of_named hblank hid, runsOut_bind_iff] at hout
      obtain ⟨_, hchecked, hout⟩ := hout.resolve_left (not_runsOut_checkOperands _ _)
      obtain ⟨name, hname, hout⟩ :=
        (runsOut_bind_iff.mp hout).resolve_left (not_runsOut_readId _)
      obtain ⟨part, hpart, hpartOut, hblame⟩ := mapM_blames (runsOut_map_iff.mp hout)
      refine ⟨_, List.mem_map_of_mem hpart, hpartOut, fun other hagree hother => ?_⟩
      rw [Reader.AgreeOn, List.forall_mem_map] at hagree
      rw [readGroup_of_named hblank hid, runsOut_bind_iff]
      refine .inr ⟨_, hchecked, runsOut_bind_iff.mpr (.inr ⟨name, hname, ?_⟩)⟩
      exact runsOut_map_iff.mpr (hblame _ hagree hother)

/-- An atom without a group tells what it is on its own. -/
lemma readAtom_cases (aliases : Aliases) (atom : List Char) :
    (∃ outcome, ¬ RunsOut outcome ∧ ∀ nested, readAtom aliases nested atom = outcome) ∨
      ∃ text id inner, groupOf? atom = some (id, inner) ∧
        ∀ nested, readAtom aliases nested atom = readGroup aliases nested text id inner := by
  by_cases hempty : (Text.trim atom).isEmpty = true
  · refine .inl ⟨.error (.emptyOperand (String.ofList atom)), ?_, fun _ => if_pos hempty⟩
    exact not_runsOut_error fun _ => by simp
  by_cases hlast : ((Text.trim atom).getLast? != some ')') = true
  · refine .inl ⟨_, ?_, fun nested => by rw [readAtom, if_neg hempty, if_pos hlast]⟩
    split
    · exact not_runsOut_error fun _ => by simp
    · rw [runsOut_map_iff]
      exact not_runsOut_readId _
  have hread : ∀ nested, readAtom aliases nested atom = _ := fun nested => by
    rw [readAtom, if_neg hempty, if_neg hlast]
  rw [groupOf?]
  split
  · next inner hclose =>
    exact .inr ⟨_, _, inner, rfl, fun nested => by rw [hread, hclose]⟩
  · next hopen =>
    refine .inl ⟨.error (.malformed (String.ofList (Text.trim atom))), ?_, fun nested => ?_⟩
    · exact not_runsOut_error fun _ => by simp
    rw [hread]
    split
    · next inner hclose => exact absurd hclose (hopen inner)
    · rfl

/-- What stands in the parentheses of an atom is read part by part. -/
theorem isLayer_readAtom (aliases : Aliases) :
    IsLayer (readAtom aliases) (nestedTexts aliases) where
  settled {less more atom} hle hends := by
    obtain ⟨outcome, -, hread⟩ | ⟨text, id, inner, hgroup, hread⟩ := readAtom_cases aliases atom
    · rw [hread, hread]
    · rw [hread] at hends
      rw [nestedTexts, hgroup] at hle
      rw [hread, hread]
      exact (isLayer_readGroup aliases text id).settled hle hends
  blames {reader atom} hout := by
    obtain ⟨outcome, hends, hread⟩ | ⟨text, id, inner, hgroup, hread⟩ :=
      readAtom_cases aliases atom
    · rw [hread] at hout
      exact absurd hout hends
    · simp only [hread] at hout ⊢
      rw [nestedTexts, hgroup]
      exact (isLayer_readGroup aliases text id).blames hout

/-- What is left of a text when it is cut at all operators. -/
def atomTexts (text : List Char) : List (List Char) :=
  (splitTop '|' text).flatMap fun part => (splitTop '+' part).flatMap (splitTop ':')

/-- The texts in all parentheses of a text, one level down. -/
def textsBelow (aliases : Aliases) (text : List Char) : List (List Char) :=
  (atomTexts text).flatMap (nestedTexts aliases)

/-- The part of a level above its atoms. -/
def readAtoms (next : Reader) : Reader :=
  readOperands '|' .merge <| readOperands '+' .attach <| readOperands ':' .filter next

lemma isLayer_readAtoms : IsLayer readAtoms atomTexts :=
  (isLayer_readOperands '|' .merge).comp <|
    (isLayer_readOperands '+' .attach).comp <| isLayer_readOperands ':' .filter

/-- One level applies the reader of the next one to the texts below it only. -/
theorem isLayer_readLevel (aliases : Aliases) : IsLayer (readLevel aliases) (textsBelow aliases) :=
  isLayer_readAtoms.comp (isLayer_readAtom aliases)

/-! ## More levels -/

section Levels

variable {aliases : Aliases} {text inner : List Char} {levels more : Nat}

/-- **More levels never change what is found out.** -/
theorem readNested_mono (hle : levels ≤ more) (h : ¬ RunsOut (readNested aliases levels text)) :
    readNested aliases more text = readNested aliases levels text := by
  induction levels generalizing more text with
  | zero => exact absurd ⟨_, rfl⟩ h
  | succ levels ih =>
    cases more with
    | zero => exact absurd hle (Nat.not_succ_le_zero levels)
    | succ more =>
      exact (isLayer_readLevel aliases).settled
        (fun part _ => ih (Nat.le_of_succ_le_succ hle)) h

lemma not_runsOut_mono (hle : levels ≤ more) (h : ¬ RunsOut (readNested aliases levels text)) :
    ¬ RunsOut (readNested aliases more text) := by
  rwa [readNested_mono hle h]

/-- The text is read within some number of levels, be it as a term or as none. -/
def Ends (aliases : Aliases) (text : List Char) : Prop :=
  ∃ levels, ¬ RunsOut (readNested aliases levels text)

/-- What is read at all of finitely many texts is read within one number of levels. -/
lemma exists_levels (aliases : Aliases) (texts : List (List Char)) :
    ∃ levels, ∀ text ∈ texts, Ends aliases text → ¬ RunsOut (readNested aliases levels text) := by
  induction texts with
  | nil => exact ⟨0, nofun⟩
  | cons first rest ih =>
    obtain ⟨levels, hrest⟩ := ih
    by_cases hfirst : Ends aliases first
    · obtain ⟨own, hown⟩ := hfirst
      refine ⟨max own levels, List.forall_mem_cons.mpr ⟨fun _ => ?_, fun text hmem hends => ?_⟩⟩
      · exact not_runsOut_mono (le_max_left own levels) hown
      · exact not_runsOut_mono (le_max_right own levels) (hrest text hmem hends)
    · exact ⟨levels, List.forall_mem_cons.mpr ⟨fun hends => absurd hends hfirst, hrest⟩⟩

end Levels

/-! ## What a reading needs -/

/-- What the reader finds out of any text is what there is to find out. -/
def Reader.IsTrue (aliases : Aliases) (reader : Reader) : Prop :=
  ∀ levels texts, Reader.AgreeOn texts (readNested aliases levels) reader

/-- The reading of `text` comes to that of `inner`, which is one level down: whatever is known of
other texts, as long as it is true, it does not settle `text`. -/
structure Needs (aliases : Aliases) (text inner : List Char) : Prop where
  below : inner ∈ textsBelow aliases text
  unsettled : ∀ known : Reader, known.IsTrue aliases → RunsOut (known inner) →
    RunsOut (readLevel aliases known text)

section Needs

variable {aliases : Aliases} {text inner : List Char} {levels : Nat}

lemma isTrue_readNested (aliases : Aliases) (levels : Nat) :
    Reader.IsTrue aliases (readNested aliases levels) := by
  intro others texts text _ hothers hlevels
  rcases Nat.le_total levels others with hle | hle
  · exact (readNested_mono hle hlevels).symm
  · exact readNested_mono hle hothers

/-- What a reading needs takes one level less. -/
lemma Needs.not_runsOut (h : Needs aliases text inner)
    (hends : ¬ RunsOut (readNested aliases (levels + 1) text)) :
    ¬ RunsOut (readNested aliases levels inner) :=
  fun hout => hends (h.unsettled _ (isTrue_readNested aliases levels) hout)

/-- A reading without end needs another one. -/
lemma exists_needs_of_not_ends (h : ¬ Ends aliases text) :
    ∃ inner, Needs aliases text inner ∧ ¬ Ends aliases inner := by
  -- so many levels that whatever one level down runs out of them does not end at all
  obtain ⟨levels, hlevels⟩ := exists_levels aliases (textsBelow aliases text)
  have hout : RunsOut (readNested aliases (levels + 1) text) := by
    by_contra hends
    exact h ⟨levels + 1, hends⟩
  obtain ⟨inner, hmem, hinner, hblame⟩ := (isLayer_readLevel aliases).blames hout
  refine ⟨inner, ⟨hmem, fun known htrue hknown => ?_⟩, fun hends => hlevels inner hmem hends hinner⟩
  exact hblame known (htrue levels _) hknown

/-- **A reading ends if and only if all that it needs does.** -/
theorem ends_iff_forall_needs :
    Ends aliases text ↔ ∀ inner, Needs aliases text inner → Ends aliases inner := by
  constructor
  · rintro ⟨levels, hends⟩ inner hneeds
    cases levels with
    | zero => exact absurd ⟨_, rfl⟩ hends
    | succ levels => exact ⟨levels, hneeds.not_runsOut hends⟩
  · intro hall
    by_contra hends
    obtain ⟨inner, hneeds, hinner⟩ := exists_needs_of_not_ends hends
    exact hinner (hall inner hneeds)

/-- **A reading goes on forever if and only if there is an endless chain of readings, each of which
needs the next one.** -/
theorem not_ends_iff_exists_chain :
    ¬ Ends aliases text ↔
      ∃ chain : Nat → List Char, chain 0 = text ∧ ∀ n, Needs aliases (chain n) (chain (n + 1)) := by
  constructor
  · intro h
    choose next hneeds hnext using
      fun here : { here // ¬ Ends aliases here } => exists_needs_of_not_ends here.2
    let step (here : { here // ¬ Ends aliases here }) : { here // ¬ Ends aliases here } :=
      ⟨next here, hnext here⟩
    refine ⟨fun n => (step^[n] ⟨text, h⟩).1, rfl, fun n => ?_⟩
    simp only [Function.iterate_succ_apply']
    exact hneeds _
  · rintro ⟨chain, rfl, hchain⟩ ⟨levels, hends⟩
    -- every link of the chain takes a level, of which there are finitely many
    have hnone : ∀ levels n, RunsOut (readNested aliases levels (chain n)) := by
      intro levels
      induction levels with
      | zero => exact fun n => ⟨_, rfl⟩
      | succ levels ih =>
        intro n
        by_contra hout
        exact (hchain n).not_runsOut hout (ih (n + 1))
    exact hends (hnone levels 0)

/-- What a reading needs, however far down, takes fewer levels. -/
lemma exists_fewer_levels (h : Relation.TransGen (Needs aliases) text inner)
    (hends : ¬ RunsOut (readNested aliases levels text)) :
    ∃ fewer < levels, ¬ RunsOut (readNested aliases fewer inner) := by
  have hstep : ∀ {levels : Nat} {here below : List Char}, Needs aliases here below →
      ¬ RunsOut (readNested aliases levels here) →
      ∃ fewer < levels, ¬ RunsOut (readNested aliases fewer below) := by
    intro levels here below hneeds hends
    cases levels with
    | zero => exact absurd ⟨_, rfl⟩ hends
    | succ fewer => exact ⟨fewer, Nat.lt_succ_self fewer, hneeds.not_runsOut hends⟩
  induction h with
  | single hneeds => exact hstep hneeds hends
  | tail _ hneeds ih =>
    obtain ⟨fewer, hlt, hbetween⟩ := ih
    obtain ⟨fewest, hltBelow, hbelow⟩ := hstep hneeds hbetween
    exact ⟨fewest, hltBelow.trans hlt, hbelow⟩

/-- A text that is read again inside its own reading is read forever. -/
lemma not_ends_of_needs_itself (h : Relation.TransGen (Needs aliases) text text) :
    ¬ Ends aliases text := by
  rintro ⟨levels, hends⟩
  induction levels using Nat.strong_induction_on with
  | _ levels ih =>
    obtain ⟨fewer, hlt, hfewer⟩ := exists_fewer_levels h hends
    exact ih fewer hlt hfewer

lemma Ends.of_needs (hends : Ends aliases text)
    (h : Relation.ReflTransGen (Needs aliases) text inner) : Ends aliases inner := by
  induction h with
  | refl => exact hends
  | tail _ hneeds ih => exact ends_iff_forall_needs.mp ih _ hneeds

end Needs

end QueryTerms.Term
