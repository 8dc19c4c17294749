/-!
# Cutting text at a separator

Compound names (`user.name`), positional parameters (`ids__0`) and aliased select entries
(`expr AS name`) are read by cutting text at a separator, from the left, from the right, or at
every place where it stands.

**From one side.** `cutFirst?` and `cutLast?` give what stands before and after the first and the
last occurrence; the last one is the first one of the reversed text.

**Everywhere.** `pieces` cuts at every occurrence, found from the left and not overlapping; the
empty separator stands before, between and after all characters.
-/

namespace QueryTerms.Text

/-- The text before and after the first occurrence of `sep`. -/
def cutFirst? (sep : List Char) : List Char → Option (List Char × List Char)
  | [] => if sep.isEmpty then some ([], []) else none
  | c :: cs =>
    if sep.isPrefixOf (c :: cs) then some ([], (c :: cs).drop sep.length)
    else (cutFirst? sep cs).map fun (before, after) => (c :: before, after)

/-- What is cut apart makes up the text. -/
theorem cutFirst?_eq {sep text before after : List Char}
    (h : cutFirst? sep text = some (before, after)) : text = before ++ sep ++ after := by
  induction text generalizing before with
  | nil =>
    unfold cutFirst? at h
    cases sep with
    | nil => simp at h; obtain ⟨rfl, rfl⟩ := h; rfl
    | cons _ _ => simp at h
  | cons c cs ih =>
    unfold cutFirst? at h
    by_cases hs : sep.isPrefixOf (c :: cs) = true
    · simp only [hs, if_true, Option.some.injEq, Prod.mk.injEq] at h
      obtain ⟨rfl, rfl⟩ := h
      obtain ⟨t, ht⟩ := List.isPrefixOf_iff_prefix.1 hs
      simp [← ht]
    · simp only [hs, Bool.false_eq_true, if_false, Option.map_eq_some_iff] at h
      obtain ⟨⟨a, b⟩, hab, he⟩ := h
      simp only [Prod.mk.injEq] at he
      obtain ⟨rfl, rfl⟩ := he
      simp [ih hab]

/-- The text before and after the last occurrence of `sep`. -/
def cutLast? (sep text : List Char) : Option (List Char × List Char) :=
  (cutFirst? sep.reverse text.reverse).map fun (after, before) => (before.reverse, after.reverse)

/-- Whether `sep` occurs in the text. -/
def occurs (sep text : List Char) : Bool := (cutFirst? sep text).isSome

/-- The first piece and the ones after it, where `skip` characters of a separator are still to be
passed over. -/
def piecesFrom (sep : List Char) : Nat → List Char → List Char × List (List Char)
  | _, [] => ([], [])
  | skip + 1, _ :: cs => piecesFrom sep skip cs
  | 0, c :: cs =>
    if sep.isPrefixOf (c :: cs) then
      let (first, rest) := piecesFrom sep (sep.length - 1) cs
      ([], first :: rest)
    else
      let (first, rest) := piecesFrom sep 0 cs
      (c :: first, rest)

/-- The text cut at every occurrence of `sep`. -/
def pieces (sep text : List Char) : List (List Char) :=
  if sep.isEmpty then [] :: (text.map fun c => [c]) ++ [[]]
  else
    let (first, rest) := piecesFrom sep 0 text
    first :: rest

/-- There is at least one piece. -/
theorem pieces_ne_nil (sep text : List Char) : pieces sep text ≠ [] := by
  unfold pieces; split <;> simp

/-- The part of a name before the first separator and the part after it. -/
def splitOnce? (name sep : String) : Option (String × String) :=
  (cutFirst? sep.toList name.toList).map fun (before, after) =>
    (String.ofList before, String.ofList after)

/-- The components of a compound name. -/
def path (name sep : String) : List String :=
  (pieces sep.toList name.toList).map String.ofList

end QueryTerms.Text
