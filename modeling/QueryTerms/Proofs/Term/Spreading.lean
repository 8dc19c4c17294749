import QueryTerms.Proofs.Term.Reading
import QueryTerms.Proofs.Term.Shorthand

/-!
# Spreading names is pushing them in

Names are spread over groups in the text: the leftmost `.(` of what is left, then again in the
result, since an alternative may begin with a group of its own.  All the same the term that is read
in the end is told by structural recursion, `Shorthand.expand`.

**What is settled.**  The loop never comes back to the text to the left of where it is.  A piece of
text moves over to what is settled (`distributeFrom_append`), unless a name runs across its end.

**Pieces.**  `Spreads text result` says what becomes of a piece of text, whatever stands before and
behind it.  It goes piece by piece through ids, operands, children and groups; a name before a group
becomes a group of alternatives (`Spreads.name`).

**Alternatives.**  With the name before each of them, the alternatives of shorthand are shorthand
again, with the name pushed in and one group less to spread over: `exists_alternatives`.

**Reading.**  `parse_shorthand`.
-/

namespace QueryTerms.Term

/-! ## What is settled -/

section Loop

variable {input : String} {settled front rest : List Char}

lemma distributeFrom_of_none (h : Text.cutFirst? ['.', '('] rest = none) :
    distributeFrom input settled rest = .ok (settled ++ rest) := by
  rw [distributeFrom]
  split
  · rfl
  · next hcut =>
    rw [h] at hcut
    cases hcut

lemma distributeFrom_of_some {back : List Char}
    (h : Text.cutFirst? ['.', '('] rest = some (front, back)) :
    distributeFrom input settled rest =
      if endsWide (beforeName front) then .error (.cutInsideCharacter input)
      else if (nameAtEnd front).isEmpty then .error (.malformed input)
      else
        match closeGroup 0 back with
        | none => .error (.unbalanced input (byteSize settled + byteSize front + 1))
        | some (inner, after) =>
          match checkOperands inner (splitTop '|' inner) with
          | .error cause => .error cause
          | .ok () =>
            distributeFrom input (settled ++ beforeName front ++ ['('])
              (alternatives (nameAtEnd front) (splitTop '|' inner) ++ ')' :: after) := by
  rw [distributeFrom]
  split
  · next hcut =>
    rw [h] at hcut
    cases hcut
  · next hcut =>
    rw [h] at hcut
    cases hcut
    split
    · rfl
    · split
      · rfl
      · split
        · next hclose => rw [hclose]
        · next hclose => exact hclose ▸ rfl

lemma byteSize_append (first second : List Char) :
    byteSize (first ++ second) = byteSize first + byteSize second := by
  induction first with
  | nil => rw [List.nil_append, byteSize, Nat.zero_add]
  | cons c cs ih => rw [List.cons_append, byteSize, byteSize, ih, Nat.add_assoc]

/-- No id goes on at the beginning of the text. -/
def IsDelimited (text : List Char) : Prop := ∀ c ∈ text.head?, isIdChar c = false

/-- No name runs across from one text into the other: the first one ends with a delimiter of one
byte, or the second one begins with a delimiter. -/
def IsEdge (front rest : List Char) : Prop :=
  (∀ c ∈ front.getLast?, isIdChar c = false ∧ c.utf8Size = 1) ∨ IsDelimited rest

/-- A delimiter ends the name that is read backwards towards it. -/
lemma takeWhile_append_delimiter {c : Char} (hc : isIdChar c = false) (text more : List Char) :
    (text ++ c :: more).takeWhile isIdChar = text.takeWhile isIdChar := by
  rw [List.takeWhile_append, List.takeWhile_cons_of_neg (by simp [hc]), List.append_nil]
  split
  · next hlength =>
    exact ((List.takeWhile_prefix isIdChar).eq_of_length hlength).symm
  · rfl

lemma dropWhile_append_delimiter {c : Char} (hc : isIdChar c = false) (text more : List Char) :
    (text ++ c :: more).dropWhile isIdChar = text.dropWhile isIdChar ++ c :: more := by
  rw [List.dropWhile_append, List.dropWhile_cons_of_neg (by simp [hc])]
  split
  · next hnil => rw [List.isEmpty_iff.mp hnil, List.nil_append]
  · rfl

lemma endsWide_append {text : List Char} (h : text ≠ []) (front : List Char) :
    endsWide (front ++ text) = endsWide text := by
  rw [endsWide, endsWide, List.getLast?_append_of_ne_nil _ h]

/-- A name that ends behind an edge begins behind it. -/
lemma IsEdge.name_eq {part back : List Char} (h : IsEdge front (part ++ '.' :: back)) :
    nameAtEnd (front ++ part) = nameAtEnd part ∧
      beforeName (front ++ part) = front ++ beforeName part ∧
      endsWide (front ++ beforeName part) = endsWide (beforeName part) := by
  rw [nameAtEnd, nameAtEnd, beforeName, beforeName, List.reverse_append]
  rcases h with hfront | hpart
  · obtain rfl | ⟨cs, c, rfl⟩ := List.eq_nil_or_concat' front
    · simp
    · obtain ⟨hc, hsize⟩ := hfront c (by simp)
      rw [List.reverse_append, List.reverse_singleton, List.singleton_append,
        takeWhile_append_delimiter hc, dropWhile_append_delimiter hc]
      refine ⟨rfl, by simp, ?_⟩
      obtain hnil | hne := eq_or_ne (part.reverse.dropWhile isIdChar).reverse []
      · simp [hnil, endsWide, hsize]
      · exact endsWide_append hne _
  · cases part with
    | nil => exact absurd (hpart '.' rfl) (by decide)
    | cons c cs =>
      have hc := hpart c rfl
      rw [List.reverse_cons, List.append_assoc, List.singleton_append,
        takeWhile_append_delimiter hc, dropWhile_append_delimiter hc,
        takeWhile_append_delimiter hc, dropWhile_append_delimiter hc]
      exact ⟨rfl, by simp, endsWide_append (by simp) _⟩

/-- Cutting goes on behind a piece in which nothing is cut. -/
lemma cutFirst?_append (hchain : front.IsChain fun a b => a = '.' → b ≠ '(')
    (hlast : front.getLast? ≠ some '.') (rest : List Char) :
    Text.cutFirst? ['.', '('] (front ++ rest) =
      (Text.cutFirst? ['.', '('] rest).map fun (before, after) => (front ++ before, after) := by
  induction front with
  | nil => simp
  | cons c cs ih =>
    have hcut : ¬ ['.', '('].isPrefixOf (c :: (cs ++ rest)) = true := by
      rw [List.isPrefixOf_iff_prefix, List.cons_prefix_cons]
      rintro ⟨rfl, hopen⟩
      cases cs with
      | nil => exact hlast rfl
      | cons d ds =>
        rw [List.cons_append, List.cons_prefix_cons] at hopen
        exact (List.isChain_cons_cons.mp hchain).1 rfl hopen.1.symm
    have hlast' : cs.getLast? ≠ some '.' := by
      cases cs with
      | nil => exact nofun
      | cons d ds => rwa [List.getLast?_cons_cons] at hlast
    rw [List.cons_append, Text.cutFirst?, if_neg hcut, ih hchain.tail hlast', Option.map_map]
    rfl

/-- **A piece without a name to spread moves over to what is settled**, if it ends at an edge. -/
theorem distributeFrom_append (hchain : front.IsChain fun a b => a = '.' → b ≠ '(')
    (hlast : front.getLast? ≠ some '.') (hedge : IsEdge front rest) :
    distributeFrom input settled (front ++ rest) =
      distributeFrom input (settled ++ front) rest := by
  have hcut := cutFirst?_append hchain hlast rest
  cases hrest : Text.cutFirst? ['.', '('] rest with
  | none =>
    rw [hrest, Option.map_none] at hcut
    rw [distributeFrom_of_none hcut, distributeFrom_of_none hrest, List.append_assoc]
  | some cut =>
    obtain ⟨part, back⟩ := cut
    rw [hrest, Option.map_some] at hcut
    have htext : rest = part ++ '.' :: ('(' :: back) := by
      rw [Text.cutFirst?_eq hrest, List.append_assoc]
      rfl
    rw [htext] at hedge
    obtain ⟨hname, hbefore, hwide⟩ := hedge.name_eq
    rw [distributeFrom_of_some hcut, distributeFrom_of_some hrest, hname, hbefore, hwide,
      byteSize_append, byteSize_append, ← Nat.add_assoc, ← List.append_assoc settled]

end Loop

/-! ## Pieces -/

/-- A character between pieces: no character of an id, and of one byte. -/
structure IsDelimiter (c : Char) : Prop where
  isIdChar_eq : isIdChar c = false
  utf8Size_eq : c.utf8Size = 1

lemma IsDelimiter.isDelimited {c : Char} (h : IsDelimiter c) (text : List Char) :
    IsDelimited (c :: text) := by
  rintro _ ⟨⟩
  exact h.isIdChar_eq

lemma Operator.isDelimiter (op : Operator) : IsDelimiter op.sign := by
  cases op <;> exact ⟨by decide, by decide⟩

/-- Whatever is settled before it, and before anything that begins with a delimiter, the piece of
text becomes the other one. -/
def Spreads (text result : List Char) : Prop :=
  ∀ input settled rest, IsDelimited rest →
    distributeFrom input settled (text ++ rest) = distributeFrom input (settled ++ result) rest

namespace Spreads

variable {text result : List Char}

lemma nil : Spreads [] [] := fun _ _ _ _ => by rw [List.nil_append, List.append_nil]

lemma id {id : List Char} (hid : isValidId id = true) : Spreads id id := by
  intro input settled rest hrest
  have htidy := IsTidy.of_isValidId hid
  exact distributeFrom_append htidy.noSpread htidy.noDotLast (.inr hrest)

lemma cons {c : Char} (hc : IsDelimiter c) (h : Spreads text result) :
    Spreads (c :: text) (c :: result) := by
  intro input settled rest hrest
  have hdot : [c].getLast? ≠ some '.' := by
    rw [List.getLast?_singleton, Ne, Option.some.injEq]
    rintro rfl
    exact absurd hc.isIdChar_eq (by decide)
  have hedge : IsEdge [c] (text ++ rest) := by
    refine .inl ?_
    rintro _ ⟨⟩
    exact ⟨hc.isIdChar_eq, hc.utf8Size_eq⟩
  have hstep : distributeFrom input settled ([c] ++ (text ++ rest)) =
      distributeFrom input (settled ++ [c]) (text ++ rest) :=
    distributeFrom_append (.singleton c) hdot hedge
  rw [List.cons_append, ← List.singleton_append, hstep, h _ _ _ hrest, List.append_assoc,
    List.singleton_append]

/-- A piece ends where a delimiter stands. -/
lemma append_cons {c : Char} (hc : IsDelimiter c) {first first' : List Char}
    (hf : Spreads first first') (hs : Spreads text result) :
    Spreads (first ++ c :: text) (first' ++ c :: result) := by
  intro input settled rest hrest
  rw [List.append_assoc, List.cons_append, hf _ _ _ (hc.isDelimited _), ← List.cons_append,
    cons hc hs _ _ _ hrest, List.append_assoc]

lemma group (h : Spreads text result) :
    Spreads ('(' :: text ++ [')']) ('(' :: result ++ [')']) := by
  have hopen : IsDelimiter '(' := ⟨by decide, by decide⟩
  have hclose : IsDelimiter ')' := ⟨by decide, by decide⟩
  exact cons hopen (append_cons hclose h nil)

lemma tree {id : List Char} (hid : isValidId id = true) (h : Spreads text result) :
    Spreads (id ++ ('(' :: text ++ [')'])) (id ++ ('(' :: result ++ [')'])) := by
  have hopen : IsDelimiter '(' := ⟨by decide, by decide⟩
  have hclose : IsDelimiter ')' := ⟨by decide, by decide⟩
  exact append_cons hopen (Spreads.id hid) (append_cons hclose h nil)

lemma joinWith {sep : Char} (hsep : IsDelimiter sep) {parts results : List (List Char)}
    (h : List.Forall₂ Spreads parts results) :
    Spreads (joinWith sep parts) (joinWith sep results) := by
  induction h with
  | nil => exact nil
  | cons hfirst hrest ih =>
    cases hrest with
    | nil => exact hfirst
    | cons =>
      rw [joinWith_cons_cons, joinWith_cons_cons]
      exact append_cons hsep hfirst ih

/-- **A name before a group is spread over the alternatives in it**, in a group. -/
theorem name {name inner : List Char} (hname : isValidId name = true) (hinner : IsBalanced inner)
    (hparts : ∀ part ∈ splitTop '|' inner, Text.isBlankText part = false)
    (h : Spreads (alternatives name (splitTop '|' inner)) result) :
    Spreads (name ++ '.' :: ('(' :: inner ++ [')'])) ('(' :: result ++ [')']) := by
  intro input settled rest hrest
  have htidy := IsTidy.of_isValidId hname
  have hchars : ∀ c ∈ name.reverse, isIdChar c = true := fun c hc =>
    isIdChar_of_isValidId hname c (List.mem_reverse.mp hc)
  have hend : nameAtEnd name = name := by
    rw [nameAtEnd, List.takeWhile_eq_self_iff.mpr hchars, List.reverse_reverse]
  have hbefore : beforeName name = [] := by
    rw [beforeName, List.dropWhile_eq_nil_iff.mpr hchars, List.reverse_nil]
  have hcut : Text.cutFirst? ['.', '('] (name ++ '.' :: ('(' :: inner ++ [')']) ++ rest) =
      some (name, inner ++ ')' :: rest) := by
    rw [List.append_assoc, cutFirst?_append htidy.noSpread htidy.noDotLast]
    simp [Text.cutFirst?]
  have hclose : IsDelimiter ')' := ⟨by decide, by decide⟩
  rw [distributeFrom_of_some hcut, hend, hbefore, if_neg (by decide),
    if_neg (by simpa using htidy.ne_nil), closeGroup_balanced hinner]
  simp only [checkOperands_eq_ok hparts]
  have hlast := cons hclose nil input (settled ++ [] ++ ['('] ++ result) rest hrest
  rw [List.singleton_append] at hlast
  rw [h _ _ _ (hclose.isDelimited rest), hlast]
  simp

end Spreads

/-! ## Alternatives -/

/-- Shorthand with a name before its text, and the name pushed in. -/
structure IsQualified (name : String) (text : List Char) (short qualified : Shorthand) : Prop where
  wellFormed : qualified.IsWellFormed
  text_eq : qualified.text = name.toList ++ '.' :: text
  expand_eq : qualified.expand = short.expand.push name

section Qualified

variable {name : String} (hname : isValidId name.toList = true)
include hname

/-- In front of an operand in parentheses, the name stands before a group. -/
lemma exists_qualified_operand {bound : Nat} {short : Shorthand} (hbound : bound ≤ 3)
    (h : short.IsWellFormed)
    (hshort : bound ≤ short.strength → ∃ qualified, IsQualified name short.text short qualified ∧
      qualified.strength = short.strength) :
    ∃ qualified, IsQualified name (Shorthand.operandText bound short) short qualified ∧
      bound ≤ qualified.strength := by
  rcases Nat.lt_or_ge short.strength bound with hlt | hle
  · rw [Shorthand.operandText_of_lt hlt]
    exact ⟨.spread name short, ⟨(Shorthand.isWellFormed_spread_iff name short).mpr ⟨hname, h⟩,
      by rw [Shorthand.text], by rw [Shorthand.expand]⟩, hbound⟩
  · rw [Shorthand.operandText_of_le hle]
    obtain ⟨qualified, hqualified, hstrength⟩ := hshort hle
    exact ⟨qualified, hqualified, hstrength ▸ hle⟩

/-- In front of all else but a union, the name goes to the first id. -/
lemma exists_qualified {short : Shorthand} (h : short.IsWellFormed)
    (hstrength : 1 ≤ short.strength) :
    ∃ qualified, IsQualified name short.text short qualified ∧
      qualified.strength = short.strength := by
  induction short using Shorthand.induction_on_parts with
  | leaf id =>
    have hid := (Shorthand.isWellFormed_leaf_iff id).mp h
    refine ⟨.leaf (qualify name id), ⟨?_, toList_qualify name id, rfl⟩, rfl⟩
    exact (Shorthand.isWellFormed_leaf_iff _).mpr (isValidId_qualify hname hid)
  | operation op operands ih =>
    obtain ⟨hlength, hmembers⟩ := (Shorthand.isWellFormed_operation_iff op operands).mp h
    match operands with
    | first :: second :: others =>
      have hfirst := hmembers first List.mem_cons_self
      obtain ⟨qualified, hqualified, hle⟩ := exists_qualified_operand hname op.level_lt hfirst
        fun hle => ih first List.mem_cons_self hfirst (hle.trans' (Nat.le_add_left 1 _))
      refine ⟨.operation op (qualified :: second :: others), ⟨?_, ?_, ?_⟩, rfl⟩
      · refine (Shorthand.isWellFormed_operation_iff op _).mpr ⟨hlength, ?_⟩
        exact List.forall_mem_cons.mpr ⟨hqualified.wellFormed, (List.forall_mem_cons.mp hmembers).2⟩
      · simp only [Shorthand.text, Shorthand.operandTexts_eq_map, List.map_cons,
          joinWith_cons_cons, Shorthand.operandText_of_le hle, hqualified.text_eq]
        rw [List.append_assoc, List.cons_append]
      · simp only [Shorthand.expand, Shorthand.expandAll, hqualified.expand_eq]
        cases op with
        | merge => exact absurd hstrength (Nat.not_succ_le_zero 0)
        | attach => rfl
        | filter => rfl
  | tree id children =>
    obtain ⟨hid, hchildren⟩ := (Shorthand.isWellFormed_tree_iff id children).mp h
    refine ⟨.tree (qualify name id) children, ⟨?_, ?_, rfl⟩, rfl⟩
    · exact (Shorthand.isWellFormed_tree_iff _ children).mpr
        ⟨isValidId_qualify hname hid, hchildren⟩
    · rw [Shorthand.text, Shorthand.text, toList_qualify, List.append_assoc, List.cons_append]
  | spread inner short =>
    obtain ⟨hinner, hshort⟩ := (Shorthand.isWellFormed_spread_iff inner short).mp h
    refine ⟨.spread (qualify name inner) short, ⟨?_, ?_, ?_⟩, rfl⟩
    · exact (Shorthand.isWellFormed_spread_iff _ short).mpr
        ⟨isValidId_qualify hname hinner, hshort⟩
    · rw [Shorthand.text, Shorthand.text, toList_qualify, List.append_assoc, List.cons_append]
    · rw [Shorthand.expand, Shorthand.expand, push_push]

end Qualified

namespace Shorthand

/-- The alternatives: the operands of a union, or the whole. -/
def alternatives : Shorthand → List Shorthand
  | .operation .merge operands => operands
  | short => [short]

lemma union_or_single (short : Shorthand) :
    (∃ operands, short = .operation .merge operands) ∨
      short.alternatives = [short] ∧ 1 ≤ short.strength := by
  cases short with
  | operation op operands =>
    cases op with
    | merge => exact .inl ⟨operands, rfl⟩
    | attach => exact .inr ⟨rfl, Nat.le_refl 1⟩
    | filter => exact .inr ⟨rfl, Nat.le_succ 1⟩
  | _ => exact .inr ⟨rfl, Nat.le_add_left 1 2⟩

lemma text_union (operands : List Shorthand) :
    (operation .merge operands).text = joinWith '|' (operands.map (operandText 1)) := by
  rw [text, operandTexts_eq_map]
  rfl

variable {short : Shorthand} (h : short.IsWellFormed)
include h

lemma IsWellFormed.alternatives : ∀ part ∈ short.alternatives, part.IsWellFormed := by
  obtain ⟨operands, rfl⟩ | ⟨hsingle, -⟩ := short.union_or_single
  · exact ((isWellFormed_operation_iff _ operands).mp h).2
  · rw [hsingle]
    exact List.forall_mem_singleton.mpr h

lemma IsWellFormed.isCompact_operandText (bound : Nat) : IsCompact (operandText bound short) :=
  IsCompact.operandText h.isCompact_text bound

lemma hides_bar_operandText : Hides '|' (operandText 1 short) := by
  rcases Nat.lt_or_ge short.strength 1 with hlt | hle
  · rw [operandText_of_lt hlt]
    exact .group '|' h.isCompact_text.balanced
  · rw [operandText_of_le hle]
    exact hides_bar h hle

/-- Alternatives stand between the bars that are outside all parentheses. -/
lemma splitTop_text : splitTop '|' short.text = short.alternatives.map (operandText 1) := by
  obtain ⟨operands, rfl⟩ | ⟨hsingle, hstrength⟩ := short.union_or_single
  · obtain ⟨hlength, hmembers⟩ := (isWellFormed_operation_iff _ operands).mp h
    rw [text_union]
    refine splitTop_joinWith (by decide) (by decide) ?_ ?_ ?_
    · refine List.ne_nil_of_length_pos ?_
      rw [List.length_map]
      omega
    · exact List.forall_mem_map.mpr fun member hmem =>
        ((hmembers member hmem).isCompact_operandText 1).balanced
    · exact List.forall_mem_map.mpr fun member hmem => hides_bar_operandText (hmembers member hmem)
  · rw [hsingle, (hides_bar h hstrength).splitTop_eq, List.map_singleton,
      operandText_of_le hstrength]

lemma alternatives_eq (name : List Char) :
    Term.alternatives name (splitTop '|' short.text) =
      joinWith '|' (short.alternatives.map fun part => name ++ '.' :: operandText 1 part) := by
  rw [Term.alternatives, splitTop_text h, List.map_map]
  refine congrArg _ (List.map_congr_left fun part hmem => ?_)
  rw [Function.comp_apply, ((h.alternatives part hmem).isCompact_operandText 1).trim_eq]

end Shorthand

/-- **What is spread is shorthand again**, with the name pushed in. -/
theorem exists_alternatives {name : String} (hname : isValidId name.toList = true)
    {short : Shorthand} (h : short.IsWellFormed) :
    ∃ qualified : Shorthand, qualified.IsWellFormed ∧
      qualified.text = alternatives name.toList (splitTop '|' short.text) ∧
      qualified.expand = short.expand.push name := by
  have hoperand : ∀ part ∈ short.alternatives, ∃ qualified,
      IsQualified name (Shorthand.operandText 1 part) part qualified ∧
        1 ≤ qualified.strength := fun part hmem =>
    exists_qualified_operand hname (Nat.le_add_left 1 2) (h.alternatives part hmem)
      (exists_qualified hname (h.alternatives part hmem))
  rw [Shorthand.alternatives_eq h]
  obtain ⟨operands, rfl⟩ | ⟨hsingle, -⟩ := short.union_or_single
  · obtain ⟨hlength, -⟩ := (Shorthand.isWellFormed_operation_iff _ operands).mp h
    choose! qualified hqualified using hoperand
    refine ⟨.operation .merge (operands.map qualified), ?_, ?_, ?_⟩
    · refine (Shorthand.isWellFormed_operation_iff _ _).mpr ⟨by rwa [List.length_map], ?_⟩
      exact List.forall_mem_map.mpr fun part hmem => (hqualified part hmem).1.wellFormed
    · rw [Shorthand.text_union, List.map_map]
      refine congrArg (joinWith '|') (List.map_congr_left fun part hmem => ?_)
      rw [Function.comp_apply, ← (hqualified part hmem).1.text_eq]
      exact Shorthand.operandText_of_le (hqualified part hmem).2
    · rw [Shorthand.expand, Shorthand.expand, Shorthand.expandAll_eq_map,
        Shorthand.expandAll_eq_map, List.map_map]
      refine Eq.trans ?_ (congrArg merge (pushAll_eq_map name _).symm)
      rw [List.map_map]
      exact congrArg merge
        (List.map_congr_left fun part hmem => (hqualified part hmem).1.expand_eq)
  · rw [hsingle] at hoperand ⊢
    obtain ⟨qualified, hqualified, -⟩ := hoperand short (List.mem_singleton_self short)
    exact ⟨qualified, hqualified.wellFormed, hqualified.text_eq, hqualified.expand_eq⟩

/-! ## Reading -/

/-- Parts of shorthand have no more parentheses than the whole. -/
lemma Shorthand.count_operand_le {op : Operator} {operands : List Shorthand} {member : Shorthand}
    (hmem : member ∈ operands) :
    member.text.count '(' ≤ (operation op operands).text.count '(' := by
  have hoperand : operandText (op.level + 1) member <:+: (operation op operands).text := by
    rw [text, operandTexts_eq_map]
    exact infix_joinWith (List.mem_map_of_mem hmem)
  refine List.IsInfix.count_le '(' (List.IsInfix.trans ?_ hoperand)
  rcases Nat.lt_or_ge member.strength (op.level + 1) with hlt | hle
  · rw [operandText_of_lt hlt]
    exact ⟨['('], [')'], by simp⟩
  · rw [operandText_of_le hle]

lemma Shorthand.count_child_le {id : String} {children : List Shorthand} {member : Shorthand}
    (hmem : member ∈ children) :
    member.text.count '(' ≤ (tree id children).text.count '(' := by
  have hchild : member.text <:+: joinWith ',' (texts children) := by
    rw [texts_eq_map]
    exact infix_joinWith (List.mem_map_of_mem hmem)
  refine List.IsInfix.count_le '(' (hchild.trans ⟨id.toList ++ ['('], [')'], ?_⟩)
  simp [text]

/-- What a name is spread to has fewer parentheses. -/
lemma count_alternatives_lt {name : List Char} (hname : isValidId name = true)
    (inner : List Char) :
    (alternatives name (splitTop '|' inner)).count '(' <
      (name ++ '.' :: ('(' :: inner ++ [')'])).count '(' := by
  have hle := count_alternatives_le name (List.count_eq_zero.mpr (open_notMem_id hname))
    (splitTop '|' inner)
  rw [splitTop_count '|' '(' (by decide)] at hle
  have hgroup : inner.count '(' < ('(' :: inner ++ [')']).count '(' := by simp
  refine (hle.trans_lt hgroup).trans_le (List.Sublist.count_le '(' ?_)
  exact (List.sublist_cons_self _ _).trans (List.sublist_append_right _ _)

/-- An operand in parentheses stands in a group of what its text becomes. -/
lemma exists_derives_operand {bound : Nat} (hbound : bound ≤ 3) {short : Shorthand}
    (h : ∃ result, Spreads short.text result ∧ Derives short.strength result short.expand) :
    ∃ result, Spreads (Shorthand.operandText bound short) result ∧
      Derives bound result short.expand := by
  obtain ⟨result, hspreads, hderives⟩ := h
  rcases Nat.lt_or_ge short.strength bound with hlt | hle
  · rw [Shorthand.operandText_of_lt hlt]
    exact ⟨_, hspreads.group,
      (Derives.group Text.isBlankText_nil (hderives.mono (Nat.zero_le _))).mono hbound⟩
  · rw [Shorthand.operandText_of_le hle]
    exact ⟨result, hspreads, hderives.mono hle⟩

/-- Several pieces become several texts. -/
lemma exists_derives_all {level : Nat} {shorts : List Shorthand} {piece : Shorthand → List Char}
    (h : ∀ short ∈ shorts, ∃ result, Spreads (piece short) result ∧
      Derives level result short.expand) :
    ∃ results, List.Forall₂ Spreads (shorts.map piece) results ∧
      List.Forall₂ (Derives level) results (Shorthand.expandAll shorts) := by
  rw [← forall₂_exists_iff, Shorthand.expandAll_eq_map, List.forall₂_map_left_iff,
    List.forall₂_map_right_iff, List.forall₂_same]
  exact h

/-- **Spreading shorthand leaves a text of the term that it stands for.**  Parts of shorthand have
no more parentheses than the whole, and what becomes of a group has fewer. -/
theorem exists_derives {short : Shorthand} (h : short.IsWellFormed) :
    ∃ result, Spreads short.text result ∧ Derives short.strength result short.expand := by
  obtain ⟨bound, hbound⟩ : ∃ bound, short.text.count '(' < bound := ⟨_, Nat.lt_succ_self _⟩
  induction bound generalizing short with
  | zero => exact absurd hbound (Nat.not_lt_zero _)
  | succ bound ihbound =>
    induction short using Shorthand.induction_on_parts with
    | leaf id =>
      have hid := (Shorthand.isWellFormed_leaf_iff id).mp h
      have hleaf := Derives.leaf hid
      rw [String.ofList_toList] at hleaf
      exact ⟨id.toList, .id hid, hleaf⟩
    | operation op operands ih =>
      obtain ⟨hlength, hmembers⟩ := (Shorthand.isWellFormed_operation_iff op operands).mp h
      rw [Shorthand.text, Shorthand.operandTexts_eq_map]
      have hoperands : ∀ member ∈ operands, ∃ result,
          Spreads (Shorthand.operandText (op.level + 1) member) result ∧
            Derives (op.level + 1) result member.expand := by
        intro member hmem
        have hmember := (Shorthand.count_operand_le hmem).trans_lt hbound
        exact exists_derives_operand op.level_lt (ih member hmem (hmembers member hmem) hmember)
      obtain ⟨results, hspreads, hderives⟩ := exists_derives_all hoperands
      refine ⟨joinWith op.sign results, .joinWith op.isDelimiter hspreads, .operation ?_ hderives⟩
      rwa [← hspreads.length_eq, List.length_map]
    | tree id children ih =>
      obtain ⟨hid, hne, hmembers⟩ := (Shorthand.isWellFormed_tree_iff id children).mp h
      rw [Shorthand.text, Shorthand.texts_eq_map]
      have hchildren : ∀ member ∈ children, ∃ result, Spreads member.text result ∧
          Derives 0 result member.expand := by
        intro member hmem
        have hmember := (Shorthand.count_child_le hmem).trans_lt hbound
        obtain ⟨result, hspreads, hderives⟩ := ih member hmem (hmembers member hmem) hmember
        exact ⟨result, hspreads, hderives.mono (Nat.zero_le _)⟩
      obtain ⟨results, hspreads, hderives⟩ := exists_derives_all hchildren
      have hresults : results ≠ [] := by
        rintro rfl
        rw [List.forall₂_nil_right_iff, List.map_eq_nil_iff] at hspreads
        exact hne hspreads
      have hcomma : IsDelimiter ',' := ⟨by decide, by decide⟩
      have htree := Derives.tree Text.isBlankText_nil hid Text.isBlankText_nil hresults hderives
      rw [List.nil_append, List.append_nil, String.ofList_toList] at htree
      exact ⟨_, .tree hid (.joinWith hcomma hspreads), htree⟩
    | spread name inner =>
      obtain ⟨hname, hinner⟩ := (Shorthand.isWellFormed_spread_iff name inner).mp h
      obtain ⟨qualified, hqualified, htext, hexpand⟩ := exists_alternatives hname hinner
      have hcount : qualified.text.count '(' < bound := by
        rw [htext]
        rw [Shorthand.text] at hbound
        exact (count_alternatives_lt hname inner.text).trans_le (Nat.le_of_lt_succ hbound)
      obtain ⟨result, hspreads, hderives⟩ := ihbound hqualified hcount
      rw [htext] at hspreads
      have hparts : ∀ part ∈ splitTop '|' inner.text, Text.isBlankText part = false := by
        rw [Shorthand.splitTop_text hinner]
        exact List.forall_mem_map.mpr fun part hmem =>
          ((hinner.alternatives part hmem).isCompact_operandText 1).isBlankText_eq
      refine ⟨'(' :: result ++ [')'], ?_, ?_⟩
      · rw [Shorthand.text]
        exact hspreads.name hname hinner.isCompact_text.balanced hparts
      · rw [Shorthand.expand, ← hexpand]
        exact .group Text.isBlankText_nil (hderives.mono (Nat.zero_le _))

/-- **Names before groups are pushed in.**  Shorthand is read as the term that it stands for, at any
depth and in any place; a name before a group stands for the same as the group with the name pushed
into it, where it comes before the names that stand there. -/
theorem parse_shorthand :
    (∀ short : Shorthand, short.IsWellFormed → parse short.canonical = .ok short.expand) ∧
      ∀ (name : String) (inner : Shorthand),
        (Shorthand.spread name inner).expand = (inner.push name).expand := by
  refine ⟨fun short h => ?_, fun name inner => (inner.expand_push name).symm⟩
  obtain ⟨result, hspreads, hderives⟩ := exists_derives h
  have hbalance : unbalancedAt? 0 0 short.text = none :=
    (unbalancedAt?_eq_none_iff 0 0 short.text).mpr h.isCompact_text.balanced
  have hdistribute : distribute short.text = .ok result := by
    have hall := hspreads (String.ofList short.text) [] [] nofun
    have hend : distributeFrom (String.ofList short.text) result [] = .ok (result ++ []) :=
      distributeFrom_of_none rfl
    rwa [List.append_nil, List.nil_append, hend, List.append_nil] at hall
  rw [parse, parseWith, Shorthand.canonical, String.toList_ofList, hbalance, hdistribute]
  exact reads_readNested _ _ _ (hderives.mono (Nat.zero_le _)) (Nat.le_add_right _ _)

/-- A group in a group in a child: both names go to ids in the inner group, but of the operands of
an intersection or a join only to the first one. -/
theorem parse_shorthand_nested :
    let inner := Shorthand.operation .merge [.leaf "b", .spread "c" (.operation .filter
      [.operation .attach [.leaf "d", .leaf "e"], .leaf "x"])]
    let short := Shorthand.tree "t" [.operation .attach [.spread "a" inner, .leaf "y"]]
    short.IsWellFormed ∧ short.canonical = "t(a.(b|c.((d+e):x))+y)" ∧
      parse "t(a.(b|c.((d+e):x))+y)" = .ok (.tree "t" [.attach
        [.merge [.leaf "a.b", .filter [.attach [.leaf "a.c.d", .leaf "e"], .leaf "x"]],
          .leaf "y"]]) := by
  intro inner short
  have htext : short.canonical = "t(a.(b|c.((d+e):x))+y)" := by cbv
  have hwf : short.IsWellFormed := by decide
  refine ⟨hwf, htext, ?_⟩
  rw [← htext]
  exact parse_shorthand.1 short hwf

end QueryTerms.Term
