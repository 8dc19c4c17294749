import QueryTerms.Proofs.Term.Unbalanced

/-!
# Cutting at the top level

What is read of a term rests on where its text is cut: at the separators outside all parentheses.
This file says which places these are, by their bytes.

**Slices.**  A part is taken out of a text by the bytes where it begins and where it ends, which
must not be inside a character (`slice?`).

**Scanning.**  One scan through the text keeps a counter of open parentheses and the byte where the
unfinished part begins.  What one character does to it is what it does to the parts
(`Scan.step_cases`).  So, whatever the text, the slices of the scan exist and are the parts
(`mapM_slice?_spans`).

**Parts.**  A part hides the separator (`hides_of_mem_splitTop`): it does not stand outside all
parentheses there (`Hides.not_standsOutsideAt`).

**Cuts.**  The separators outside all parentheses of a balanced text are therefore those between its
parts (`mem_stops_layout_iff`), which is `splitTop_cuts_separators`.
-/

namespace QueryTerms.Term

/-- The separator stands outside all parentheses of a balanced text, at a byte: as many of them have
been closed before it as opened. -/
inductive StandsOutsideAt (sep : Char) (text : List Char) : Nat → Prop where
  | intro {front back : List Char} (htext : text = front ++ sep :: back)
      (hfront : front.count ')' = front.count '(') :
      StandsOutsideAt sep text (String.ofList front).utf8ByteSize

/-! ## Slices -/

/-- The text before and after its first bytes, unless these end inside a character or the text is
too short. -/
def cutAt? : Nat → List Char → Option (List Char × List Char)
  | 0, text => some ([], text)
  | _ + 1, [] => none
  | bytes + 1, c :: cs =>
    if c.utf8Size ≤ bytes + 1 then
      (cutAt? (bytes + 1 - c.utf8Size) cs).map fun (front, back) => (c :: front, back)
    else none

/-- Where a part begins and where it ends, in bytes. -/
structure Span where
  start : Nat
  stop : Nat

/-- The part of a text between two bytes, unless one of them is inside a character or beyond the
text, or they are in the wrong order. -/
def slice? (text : List Char) (span : Span) : Option (List Char) :=
  if span.start ≤ span.stop then do
    let (_, back) ← cutAt? span.start text
    let (part, _) ← cutAt? (span.stop - span.start) back
    return part
  else none

lemma cutAt?_append (front back : List Char) :
    cutAt? (byteSize front) (front ++ back) = some (front, back) := by
  induction front with
  | nil => rw [byteSize, cutAt?, List.nil_append]
  | cons c cs ih =>
    obtain ⟨bytes, hbytes⟩ : ∃ bytes, byteSize (c :: cs) = bytes + 1 :=
      Nat.exists_eq_add_one.mpr (Nat.add_pos_left c.utf8Size_pos _)
    have hsize : bytes + 1 = c.utf8Size + byteSize cs := hbytes.symm
    rw [hbytes, List.cons_append, cutAt?, if_pos (by omega), hsize, Nat.add_sub_cancel_left, ih]
    rfl

lemma slice?_append (front part back : List Char) :
    slice? (front ++ (part ++ back)) ⟨byteSize front, byteSize front + byteSize part⟩ =
      some part := by
  rw [slice?, if_pos (Nat.le_add_right _ _), cutAt?_append, Nat.add_sub_cancel_left]
  simp [cutAt?_append]

/-- Where parts lie that have the separator between them, the first of them from `start` on. -/
def layout (sep : Char) (start : Nat) : List (List Char) → List Span
  | [] => []
  | part :: rest =>
    ⟨start, start + byteSize part⟩ :: layout sep (start + byteSize part + sep.utf8Size) rest

lemma start_le_stop_of_mem_layout {sep : Char} {start : Nat} {parts : List (List Char)}
    {span : Span} (h : span ∈ layout sep start parts) : start ≤ span.stop := by
  induction parts generalizing start with
  | nil => cases h
  | cons part rest ih =>
    rcases List.mem_cons.mp h with rfl | h
    · exact Nat.le_add_right _ _
    · have hle := ih h
      omega

/-- Every part ends before the next one does. -/
lemma pairwise_layout (sep : Char) (start : Nat) (parts : List (List Char)) :
    (layout sep start parts).Pairwise fun span other => span.stop < other.stop := by
  induction parts generalizing start with
  | nil => exact .nil
  | cons part rest ih =>
    refine List.pairwise_cons.mpr ⟨fun other hother => ?_, ih _⟩
    have hle := start_le_stop_of_mem_layout hother
    have hpos := sep.utf8Size_pos
    exact Nat.lt_of_lt_of_le (Nat.lt_add_of_pos_right hpos) hle

/-- What lies there is what was joined. -/
lemma mapM_slice?_layout (sep : Char) (front : List Char) (parts : List (List Char)) :
    (layout sep (byteSize front) parts).mapM (slice? (front ++ joinWith sep parts)) =
      some parts := by
  induction parts generalizing front with
  | nil => rfl
  | cons part rest ih =>
    cases rest with
    | nil =>
      have hslice := slice?_append front part []
      rw [List.append_nil] at hslice
      simp [layout, joinWith, hslice]
    | cons second others =>
      have hrest := ih (front ++ (part ++ [sep]))
      have hstart : byteSize (front ++ (part ++ [sep])) =
          byteSize front + byteSize part + sep.utf8Size := by
        rw [byteSize_append, byteSize_append, ← Nat.add_assoc]
        rfl
      rw [hstart, List.append_assoc, List.append_assoc, List.singleton_append] at hrest
      rw [joinWith_cons_cons, layout, List.mapM_cons, slice?_append, hrest]
      rfl

/-! ## Scanning -/

/-- What the scan has come to between two characters. -/
structure Scan where
  /-- The number of parentheses that are open. -/
  depth : Nat
  /-- The byte where the unfinished part begins. -/
  start : Nat
  /-- The byte where the next character begins. -/
  offset : Nat
  /-- The parts that have been cut off. -/
  finished : List Span

namespace Scan

/-- The scan goes over a character. -/
def step (sep : Char) (scan : Scan) (c : Char) : Scan :=
  let next := scan.offset + c.utf8Size
  if c = '(' then { scan with depth := scan.depth + 1, offset := next }
  else if c = ')' then { scan with depth := scan.depth - 1, offset := next }
  else if c = sep ∧ scan.depth = 0 then
    { scan with
      start := next
      offset := next
      finished := scan.finished ++ [⟨scan.start, scan.offset⟩] }
  else { scan with offset := next }

/-- The parts, if the text ends here. -/
def spans (scan : Scan) : List Span := scan.finished ++ [⟨scan.start, scan.offset⟩]

/-- A character either cuts the unfinished part off and is lost, or it goes to that part. -/
lemma step_cases (sep : Char) (scan : Scan) (c : Char) :
    (c = sep ∧
      scan.step sep c =
        ⟨scan.depth, scan.offset + c.utf8Size, scan.offset + c.utf8Size, scan.spans⟩ ∧
      ∀ text, splitFrom sep scan.depth (c :: text) =
        ([], (splitFrom sep scan.depth text).1 :: (splitFrom sep scan.depth text).2)) ∨
    ∃ depth,
      scan.step sep c = ⟨depth, scan.start, scan.offset + c.utf8Size, scan.finished⟩ ∧
      ∀ text, splitFrom sep scan.depth (c :: text) =
        (c :: (splitFrom sep depth text).1, (splitFrom sep depth text).2) := by
  by_cases ho : c = '('
  · subst ho
    exact .inr ⟨scan.depth + 1, rfl, fun text => splitFrom_open text⟩
  by_cases hc : c = ')'
  · subst hc
    exact .inr ⟨scan.depth - 1, rfl, fun text => splitFrom_close text⟩
  by_cases hs : c = sep ∧ scan.depth = 0
  · refine .inl ⟨hs.1, ?_, fun text => ?_⟩
    · rw [step, if_neg ho, if_neg hc, if_pos hs]
      rfl
    · rw [splitFrom, if_neg ho, if_neg hc, if_pos hs]
  · refine .inr ⟨scan.depth, ?_, fun text => splitFrom_other ho hc hs text⟩
    rw [step, if_neg ho, if_neg hc, if_neg hs]

/-- The scan goes on as the text is cut, with what is read of the unfinished part in front. -/
lemma spans_foldl {sep : Char} {scan : Scan} (part text : List Char)
    (hpart : scan.start + byteSize part = scan.offset) :
    (text.foldl (step sep) scan).spans =
      scan.finished ++ layout sep scan.start
        ((part ++ (splitFrom sep scan.depth text).1) :: (splitFrom sep scan.depth text).2) := by
  induction text generalizing scan part with
  | nil => rw [List.foldl_nil, spans, ← hpart, splitFrom, List.append_nil, layout, layout]
  | cons c cs ih =>
    rw [List.foldl_cons]
    -- the next part begins empty, or the unfinished one has a character more
    rcases step_cases sep scan c with ⟨rfl, hstep, hsplit⟩ | ⟨depth, hstep, hsplit⟩
    · rw [hstep, hsplit, ih [] rfl]
      simp [layout, spans, hpart]
    · have hlonger : scan.start + byteSize (part ++ [c]) = scan.offset + c.utf8Size := by
        rw [byteSize_append, ← Nat.add_assoc, hpart]
        rfl
      rw [hstep, hsplit, ih (part ++ [c]) hlonger, List.append_assoc]
      rfl

end Scan

/-- What the scan has come to at the end of a text. -/
def scan (sep : Char) (text : List Char) : Scan := text.foldl (Scan.step sep) ⟨0, 0, 0, []⟩

/-- The bytes at which the scan cuts a part off. -/
def cuts (sep : Char) (text : List Char) : List Nat := (scan sep text).finished.map Span.stop

lemma spans_scan (sep : Char) (text : List Char) :
    (scan sep text).spans = layout sep 0 (splitTop sep text) :=
  Scan.spans_foldl [] text rfl

lemma cuts_eq (sep : Char) (text : List Char) :
    cuts sep text = (layout sep 0 (splitTop sep text)).dropLast.map Span.stop := by
  rw [cuts, ← spans_scan, Scan.spans, List.dropLast_concat]

/-- **The scan takes the parts out of the text**, and none of its slices begins or ends inside a
character. -/
theorem mapM_slice?_spans (sep : Char) (text : List Char) :
    (scan sep text).spans.mapM (slice? text) = some (splitTop sep text) := by
  have hslices := mapM_slice?_layout sep [] (splitTop sep text)
  rwa [joinWith_splitTop, List.nil_append, byteSize, ← spans_scan] at hslices

/-! ## Parts -/

section Parts

variable {sep : Char} {text part : List Char}

/-- Cutting the first part again, from the same depth on, and the others, does nothing. -/
lemma hides_splitFrom (sep : Char) (depth : Nat) (text : List Char) :
    splitFrom sep depth (splitFrom sep depth text).1 = ((splitFrom sep depth text).1, []) ∧
      ∀ part ∈ (splitFrom sep depth text).2, Hides sep part := by
  induction text generalizing depth with
  | nil => exact ⟨rfl, nofun⟩
  | cons c cs ih =>
    by_cases ho : c = '('
    · subst ho
      rw [splitFrom_open, splitFrom_open, (ih _).1]
      exact ⟨rfl, (ih _).2⟩
    by_cases hc : c = ')'
    · subst hc
      rw [splitFrom_close, splitFrom_close, (ih _).1]
      exact ⟨rfl, (ih _).2⟩
    by_cases hs : c = sep ∧ depth = 0
    · obtain ⟨rfl, rfl⟩ := hs
      rw [splitFrom_sep ho hc]
      exact ⟨rfl, List.forall_mem_cons.mpr (ih 0)⟩
    · rw [splitFrom_other ho hc hs, splitFrom_other ho hc hs, (ih _).1]
      exact ⟨rfl, (ih _).2⟩

lemma hides_of_mem_splitTop (h : part ∈ splitTop sep text) : Hides sep part :=
  List.forall_mem_cons.mpr (hides_splitFrom sep 0 text) part h

/-- A text that goes on to be balanced is balanced where it has closed what it opened. -/
lemma IsBalanced.of_append {front back : List Char} (h : IsBalanced (front ++ back))
    (hcount : front.count ')' = front.count '(') : IsBalanced front := by
  refine isBalanced_iff.mpr ⟨fun beginning hbeginning => ?_, hcount⟩
  exact (isBalanced_iff.mp h).1 beginning (hbeginning.trans (List.prefix_append front back))

variable (ho : sep ≠ '(') (hc : sep ≠ ')')
include ho hc

/-- A separator behind text that closes all parentheses cuts it off, if not before. -/
lemma snd_splitFrom_ne_nil {depth : Nat} {front : List Char} (h : depthAfter depth front = some 0)
    (back : List Char) : (splitFrom sep depth (front ++ sep :: back)).2 ≠ [] := by
  induction front generalizing depth with
  | nil =>
    rw [depthAfter_nil, Option.some.injEq] at h
    rw [h, List.nil_append, splitFrom_sep ho hc]
    exact List.cons_ne_nil _ _
  | cons c cs ih =>
    rw [List.cons_append]
    by_cases hopen : c = '('
    · subst hopen
      rw [depthAfter_open] at h
      rw [splitFrom_open]
      exact ih h
    by_cases hclose : c = ')'
    · subst hclose
      cases depth with
      | zero => rw [depthAfter_close_zero] at h; cases h
      | succ outer =>
        rw [depthAfter_close] at h
        rw [splitFrom_close, Nat.add_sub_cancel]
        exact ih h
    rw [depthAfter_other hopen hclose] at h
    by_cases hs : c = sep ∧ depth = 0
    · rw [splitFrom, if_neg hopen, if_neg hclose, if_pos hs]
      exact List.cons_ne_nil _ _
    · rw [splitFrom_other hopen hclose hs]
      exact ih h

/-- Where a separator is hidden, it does not stand outside all parentheses. -/
lemma Hides.not_standsOutsideAt (h : Hides sep part) (hb : IsBalanced part) (offset : Nat) :
    ¬ StandsOutsideAt sep part offset := by
  rintro @⟨front, back, htext, hcount⟩
  refine snd_splitFrom_ne_nil ho hc ((htext ▸ hb).of_append hcount) back ?_
  rw [← htext, show splitFrom sep 0 part = (part, []) from h]

/-! ## Cuts -/

/-- Behind a balanced part that hides it, a separator stands outside all parentheses first where the
part ends. -/
lemma standsOutsideAt_append_iff (hb : IsBalanced part) (h : Hides sep part) (rest : List Char)
    (offset : Nat) :
    StandsOutsideAt sep (part ++ sep :: rest) offset ↔
      offset = byteSize part ∨ ∃ later, StandsOutsideAt sep rest later ∧
        offset = byteSize part + sep.utf8Size + later := by
  have hcount := (isBalanced_iff.mp hb).2
  constructor
  · rintro @⟨front, back, htext, hfront⟩
    rw [← byteSize_eq]
    obtain ⟨middle, rfl, hmiddle⟩ | ⟨middle, hpart, hmiddle⟩ := List.append_eq_append_iff.mp htext
    · -- behind the part, which has closed what it opened
      cases middle with
      | nil => exact .inl (by rw [List.append_nil])
      | cons d ds =>
        obtain ⟨rfl, rfl⟩ := List.cons.inj hmiddle
        refine .inr ⟨_, .intro rfl ?_, ?_⟩
        · rw [List.count_append, List.count_append, List.count_cons_of_ne hc,
            List.count_cons_of_ne ho] at hfront
          omega
        · rw [← byteSize_eq, byteSize_append, byteSize, Nat.add_assoc]
    · -- inside the part, where it does not stand outside
      cases middle with
      | nil =>
        rw [List.append_nil] at hpart
        exact .inl (by rw [hpart])
      | cons d ds =>
        obtain ⟨rfl, -⟩ := List.cons.inj hmiddle
        exact absurd (.intro hpart hfront) (h.not_standsOutsideAt ho hc hb _)
  · rintro (rfl | ⟨_, @⟨front, back, htext, hfront⟩, rfl⟩)
    · rw [byteSize_eq]
      exact .intro rfl hcount
    · have hoffset : byteSize part + sep.utf8Size + (String.ofList front).utf8ByteSize =
          (String.ofList (part ++ sep :: front)).utf8ByteSize := by
        rw [← byteSize_eq, ← byteSize_eq, byteSize_append, byteSize, Nat.add_assoc]
      have hwhole : part ++ sep :: rest = (part ++ sep :: front) ++ sep :: back := by simp [htext]
      rw [hoffset, hwhole]
      refine .intro rfl ?_
      rw [List.count_append, List.count_append, List.count_cons_of_ne hc,
        List.count_cons_of_ne ho, hcount, hfront]

/-- The parts of a layout end, but for the last one, where a separator stands outside all
parentheses. -/
lemma mem_stops_layout_iff {parts : List (List Char)} (hb : ∀ part ∈ parts, IsBalanced part)
    (h : ∀ part ∈ parts, Hides sep part) (start offset : Nat) :
    offset ∈ (layout sep start parts).dropLast.map Span.stop ↔
      ∃ later, StandsOutsideAt sep (joinWith sep parts) later ∧ offset = start + later := by
  induction parts generalizing start with
  | nil =>
    refine iff_of_false List.not_mem_nil ?_
    rintro ⟨-, ⟨htext, -⟩, -⟩
    exact absurd htext (by simp [joinWith])
  | cons part rest ih =>
    obtain ⟨hpart, hrest⟩ := List.forall_mem_cons.mp hb
    obtain ⟨hhides, hhidden⟩ := List.forall_mem_cons.mp h
    cases rest with
    | nil =>
      refine iff_of_false List.not_mem_nil ?_
      rintro ⟨later, hlater, -⟩
      exact hhides.not_standsOutsideAt ho hc hpart later hlater
    | cons second others =>
      have hstops : (layout sep start (part :: second :: others)).dropLast.map Span.stop =
          (start + byteSize part) ::
            (layout sep (start + byteSize part + sep.utf8Size) (second :: others)).dropLast.map
              Span.stop := rfl
      rw [hstops, List.mem_cons, ih hrest hhidden, joinWith_cons_cons]
      simp only [standsOutsideAt_append_iff ho hc hpart hhides, or_and_right, exists_or,
        exists_eq_left]
      refine or_congr Iff.rfl ⟨?_, ?_⟩
      · rintro ⟨later, hlater, rfl⟩
        exact ⟨_, ⟨later, hlater, rfl⟩, by omega⟩
      · rintro ⟨-, ⟨later, hlater, rfl⟩, rfl⟩
        exact ⟨later, hlater, by omega⟩

end Parts

/-- **Cutting at the top level.**  The parts of a balanced text give it back with the separator
between them.  Each of them is balanced, and the separator does not stand outside all parentheses
there.  The text is cut, from its beginning to its end, at every separator that does and nowhere
else.  The parts are what the bytes of the scan say, none of which is inside a character. -/
theorem splitTop_cuts_separators {sep : Char} (ho : sep ≠ '(') (hc : sep ≠ ')') {text : List Char}
    (h : unbalancedAt? 0 0 text = none) :
    joinWith sep (splitTop sep text) = text ∧
    (∀ part ∈ splitTop sep text,
      unbalancedAt? 0 0 part = none ∧ ∀ offset, ¬ StandsOutsideAt sep part offset) ∧
    (cuts sep text).Pairwise (· < ·) ∧
    (∀ offset, offset ∈ cuts sep text ↔ StandsOutsideAt sep text offset) ∧
    (scan sep text).spans.mapM (slice? text) = some (splitTop sep text) := by
  have hbalanced : IsBalanced text := (unbalancedAt?_eq_none_iff 0 0 text).mp h
  have hparts : ∀ part ∈ splitTop sep text, IsBalanced part :=
    fun part hpart => hbalanced.of_mem_splitTop ho hc hpart
  have hhides : ∀ part ∈ splitTop sep text, Hides sep part :=
    fun part hpart => hides_of_mem_splitTop hpart
  refine ⟨joinWith_splitTop sep text, fun part hpart => ⟨?_, ?_⟩, ?_, fun offset => ?_,
    mapM_slice?_spans sep text⟩
  · exact (unbalancedAt?_eq_none_iff 0 0 part).mpr (hparts part hpart)
  · exact (hhides part hpart).not_standsOutsideAt ho hc (hparts part hpart)
  · rw [cuts_eq, List.pairwise_map]
    exact (pairwise_layout sep 0 _).sublist (List.dropLast_sublist _)
  · rw [cuts_eq, mem_stops_layout_iff ho hc hparts hhides, joinWith_splitTop]
    simp only [Nat.zero_add, exists_eq_right']

/-- A separator of two bytes: it stands in a group, which hides it, and at both ends of a part
without characters. -/
theorem splitTop_cuts_separators_dots :
    let text := "é·a(b·c)··(d)".toList
    '·' ≠ '(' ∧ '·' ≠ ')' ∧ unbalancedAt? 0 0 text = none ∧
      splitTop '·' text = ["é", "a(b·c)", "", "(d)"].map String.toList ∧
      cuts '·' text = [2, 11, 13] ∧
      joinWith '·' (splitTop '·' text) = text ∧
      (∀ part ∈ splitTop '·' text,
        unbalancedAt? 0 0 part = none ∧ ∀ offset, ¬ StandsOutsideAt '·' part offset) ∧
      (cuts '·' text).Pairwise (· < ·) ∧
      (∀ offset, offset ∈ cuts '·' text ↔ StandsOutsideAt '·' text offset) ∧
      (scan '·' text).spans.mapM (slice? text) = some (splitTop '·' text) := by
  intro text
  have hbalanced : unbalancedAt? 0 0 text = none := by decide
  have hparts : splitTop '·' text = ["é", "a(b·c)", "", "(d)"].map String.toList := by decide
  have hcuts : cuts '·' text = [2, 11, 13] := by decide
  have ho : '·' ≠ '(' := by decide
  have hc : '·' ≠ ')' := by decide
  exact ⟨ho, hc, hbalanced, hparts, hcuts, splitTop_cuts_separators ho hc hbalanced⟩

end QueryTerms.Term
