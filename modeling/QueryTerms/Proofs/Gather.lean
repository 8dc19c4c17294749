import QueryTerms.Proofs.Table

/-!
# Gathering entries in a table

Rows take in fields, and tables of rows take in rows, in the same manner: an entry whose name is
there already is combined with the value under that name, any other one is added at the end.

**What is gathered.**  Under each name stand the values of that name, combined from the left
(`get?_gather`), and the names stand in the order of their first appearance (`keys_gather`).  A
table with distinct names is known by these two (`ext_get?`).

**In parts.**  Entries may be gathered in a table of their own beforehand, if combining values is
associative: `gather_gather_nil`.
-/

namespace QueryTerms.Table

variable {κ α : Type} [DecidableEq κ]

/-- The table with one entry more, combined with the value under its name if there is one. -/
def gatherEntry (combine : α → α → α) (table : Table κ α) (entry : κ × α) : Table κ α :=
  table.set entry.1 (((table.get? entry.1).map (combine · entry.2)).getD entry.2)

/-- The table with entries taken in one after another. -/
def gather (combine : α → α → α) (table entries : Table κ α) : Table κ α :=
  entries.foldl (gatherEntry combine) table

/-- The values under a name, in order. -/
def valuesAt (key : κ) (entries : Table κ α) : List α :=
  (entries.filter fun entry => entry.1 = key).map Prod.snd

/-- Values combined from the left, unless there are none. -/
def combined (combine : α → α → α) : List α → Option α
  | [] => none
  | first :: rest => some (rest.foldl combine first)

variable {combine : α → α → α} {table entries : Table κ α}

/-! ## Each name once -/

lemma eraseDups_of_nodup {names : List κ} (h : names.Nodup) : names.eraseDups = names := by
  induction names with
  | nil => rfl
  | cons name rest ih =>
    obtain ⟨hname, hrest⟩ := List.nodup_cons.mp h
    have hfilter : (rest.filter fun other => !other == name) = rest := by
      refine List.filter_eq_self.mpr fun other hother => ?_
      have hne : other ≠ name := fun heq => hname (heq ▸ hother)
      simpa using hne
    rw [List.eraseDups_cons, hfilter, ih hrest]

lemma nodup_eraseDups (names : List κ) : names.eraseDups.Nodup := by
  match names with
  | [] => exact List.nodup_nil
  | name :: rest =>
    rw [List.eraseDups_cons, List.nodup_cons, List.mem_eraseDups]
    exact ⟨by simp, nodup_eraseDups (rest.filter fun other => !other == name)⟩
termination_by names.length
decreasing_by
  rw [List.length_cons]
  exact Nat.lt_succ_of_le (List.length_filter_le _ rest)

lemma eraseDups_filter (p : κ → Bool) (names : List κ) :
    (names.filter p).eraseDups = names.eraseDups.filter p := by
  match names with
  | [] => rfl
  | name :: rest =>
    have ih := eraseDups_filter p (rest.filter fun other => !other == name)
    rw [List.eraseDups_cons, List.filter_cons, List.filter_cons, ← ih, List.filter_filter]
    split
    · rw [List.eraseDups_cons, List.filter_filter]
      simp only [Bool.and_comm]
    · next hname =>
      refine congrArg _ (List.filter_congr fun other _ => ?_)
      have hne : p other = true → other ≠ name := fun hother heq => hname (heq ▸ hother)
      cases hother : p other with
      | false => rfl
      | true => simpa using hne hother
termination_by names.length
decreasing_by
  rw [List.length_cons]
  exact Nat.lt_succ_of_le (List.length_filter_le _ rest)

lemma eraseDups_eraseDups (names : List κ) : names.eraseDups.eraseDups = names.eraseDups := by
  match names with
  | [] => rfl
  | name :: rest =>
    have ih := eraseDups_eraseDups (rest.filter fun other => !other == name)
    rw [List.eraseDups_cons, List.eraseDups_cons, ← eraseDups_filter, List.filter_filter]
    simp only [Bool.and_self]
    rw [ih]
termination_by names.length
decreasing_by
  rw [List.length_cons]
  exact Nat.lt_succ_of_le (List.length_filter_le _ rest)

lemma eraseDups_append_eraseDups (before names : List κ) :
    (before ++ names.eraseDups).eraseDups = (before ++ names).eraseDups := by
  rw [List.eraseDups_append, List.eraseDups_append, List.removeAll, List.removeAll,
    eraseDups_filter, eraseDups_filter, eraseDups_eraseDups]

/-- It makes no difference whether a name is set or only named. -/
lemma eraseDups_keys_set_append (key : κ) (value : α) (table : Table κ α) (names : List κ) :
    (keys (set key value table) ++ names).eraseDups = (keys table ++ key :: names).eraseDups := by
  rw [keys_set]
  split
  · next hhas =>
    have hmem : key ∈ keys table := (has_iff_mem_keys key table).mp hhas
    rw [List.eraseDups_append, List.eraseDups_append, List.cons_removeAll, if_neg (by simpa)]
  · rw [List.append_assoc, List.singleton_append]

/-! ## What is gathered -/

lemma gather_append (more : Table κ α) :
    gather combine table (entries ++ more) = gather combine (gather combine table entries) more :=
  List.foldl_append

lemma valuesAt_cons (key name : κ) (value : α) (rest : Table κ α) :
    valuesAt key ((name, value) :: rest) =
      if name = key then value :: valuesAt key rest else valuesAt key rest := by
  rw [valuesAt, List.filter_cons]
  by_cases heq : name = key <;> simp [heq, valuesAt]

lemma valuesAt_eq_nil_iff {key : κ} : valuesAt key entries = [] ↔ key ∉ keys entries := by
  induction entries with
  | nil => simp [valuesAt, keys]
  | cons entry rest ih =>
    obtain ⟨name, value⟩ := entry
    rw [valuesAt_cons, keys, List.map_cons, List.mem_cons, not_or, ← keys, ← ih]
    by_cases heq : name = key
    · simp [heq]
    · simp [heq, Ne.symm heq]

lemma mem_values_of_mem_valuesAt {key : κ} {value : α} (h : value ∈ valuesAt key entries) :
    value ∈ values entries := by
  obtain ⟨entry, hentry, rfl⟩ := List.mem_map.mp h
  exact List.mem_map_of_mem (List.mem_filter.mp hentry).1

/-- Where names are distinct, there is no more than one value under a name. -/
lemma valuesAt_of_nodup (h : (keys entries).Nodup) (key : κ) :
    valuesAt key entries = (get? key entries).toList := by
  induction entries with
  | nil => rfl
  | cons entry rest ih =>
    obtain ⟨name, value⟩ := entry
    obtain ⟨hname, hrest⟩ := List.nodup_cons.mp h
    rw [valuesAt_cons, get?_cons]
    split
    · next heq =>
      subst heq
      rw [valuesAt_eq_nil_iff.mpr hname, Option.toList_some]
    · exact ih hrest

/-- **The value under a name**: what the table has under it, and the values of the entries. -/
theorem get?_gather (key : κ) :
    (gather combine table entries).get? key =
      combined combine ((table.get? key).toList ++ valuesAt key entries) := by
  induction entries generalizing table with
  | nil =>
    rw [gather, List.foldl_nil]
    cases table.get? key <;> rfl
  | cons entry rest ih =>
    obtain ⟨name, value⟩ := entry
    rw [gather, List.foldl_cons, ← gather, ih, gatherEntry, get?_set, valuesAt_cons]
    by_cases heq : name = key
    · subst heq
      rw [if_pos rfl, if_pos rfl]
      cases table.get? name <;> rfl
    · rw [if_neg heq, if_neg heq]

lemma nodup_keys_gather (h : (keys table).Nodup) (entries : Table κ α) :
    (keys (gather combine table entries)).Nodup := by
  induction entries generalizing table with
  | nil => exact h
  | cons entry rest ih => exact ih (nodup_keys_set _ _ table h)

/-- **The names**: each once, in the order of their first appearance. -/
theorem keys_gather (h : (keys table).Nodup) :
    keys (gather combine table entries) = (keys table ++ keys entries).eraseDups := by
  induction entries generalizing table with
  | nil =>
    change keys table = (keys table ++ []).eraseDups
    rw [List.append_nil, eraseDups_of_nodup h]
  | cons entry rest ih =>
    have hnodup : (keys (gatherEntry combine table entry)).Nodup := nodup_keys_set _ _ table h
    rw [gather, List.foldl_cons, ← gather, ih hnodup, gatherEntry, eraseDups_keys_set_append]
    rfl

/-- Tables with distinct names are equal if their names and the values under these are. -/
lemma ext_get? {first second : Table κ α} (hnodup : (keys first).Nodup)
    (hkeys : keys first = keys second) (hget : ∀ key, first.get? key = second.get? key) :
    first = second := by
  induction first generalizing second with
  | nil =>
    cases second with
    | nil => rfl
    | cons entry rest => cases hkeys
  | cons entry rest ih =>
    obtain ⟨name, value⟩ := entry
    cases second with
    | nil => cases hkeys
    | cons other others =>
      obtain ⟨otherName, otherValue⟩ := other
      obtain ⟨hname, hrest⟩ := List.nodup_cons.mp hnodup
      obtain ⟨rfl, hothers⟩ := List.cons.inj hkeys
      have hhead := hget name
      rw [get?_cons, get?_cons, if_pos rfl, if_pos rfl, Option.some.injEq] at hhead
      have htail : ∀ key, get? key rest = get? key others := by
        intro key
        by_cases heq : name = key
        · subst heq
          have hother : name ∉ keys others := by
            rwa [keys, ← hothers]
          rw [get?_eq_none_iff.mpr hname, get?_eq_none_iff.mpr hother]
        · have hkey := hget key
          rwa [get?_cons, get?_cons, if_neg heq, if_neg heq] at hkey
      rw [hhead, ih hrest hothers htail]

/-- What combining with each of the entries keeps holds of all values that are gathered. -/
lemma gather_forall {P : α → Prop} (htable : ∀ value ∈ values table, P value)
    (hentries : ∀ value ∈ values entries, P value)
    (hkeep : ∀ value ∈ values entries, ∀ old, P old → P (combine old value)) :
    ∀ value ∈ values (gather combine table entries), P value := by
  induction entries generalizing table with
  | nil => exact htable
  | cons entry rest ih =>
    obtain ⟨name, value⟩ := entry
    obtain ⟨hvalue, hrest⟩ := List.forall_mem_cons.mp hentries
    obtain ⟨hcombine, hkeep⟩ := List.forall_mem_cons.mp hkeep
    refine ih (fun other hother => ?_) hrest hkeep
    rcases mem_values_set hother with rfl | hother
    · cases hold : table.get? name with
      | none => exact hvalue
      | some old => exact hcombine old (htable old (mem_values_of_get?_eq_some hold))
    · exact htable other hother

/-! ## In parts -/

section Parts

variable {P : α → Prop} (hkeep : ∀ old new, P old → P new → P (combine old new))
include hkeep

lemma foldl_forall {values : List α} (h : ∀ value ∈ values, P value) {first : α}
    (hfirst : P first) : P (values.foldl combine first) := by
  induction values generalizing first with
  | nil => exact hfirst
  | cons second rest ih =>
    obtain ⟨hsecond, hrest⟩ := List.forall_mem_cons.mp h
    exact ih hrest (hkeep _ _ hfirst hsecond)

variable
  (hassoc : ∀ first second third, P first → P second → P third →
    combine (combine first second) third = combine first (combine second third))
include hassoc

lemma foldl_combine {values : List α} (h : ∀ value ∈ values, P value) {first second : α}
    (hfirst : P first) (hsecond : P second) :
    values.foldl combine (combine first second) = combine first (values.foldl combine second) := by
  induction values generalizing second with
  | nil => rfl
  | cons third rest ih =>
    obtain ⟨hthird, hrest⟩ := List.forall_mem_cons.mp h
    rw [List.foldl_cons, List.foldl_cons, hassoc _ _ _ hfirst hsecond hthird,
      ih hrest (hkeep _ _ hsecond hthird)]

/-- Values may be combined before they are combined with others. -/
lemma combined_append {before values : List α} (hbefore : ∀ value ∈ before, P value)
    (h : ∀ value ∈ values, P value) :
    combined combine (before ++ (combined combine values).toList) =
      combined combine (before ++ values) := by
  cases values with
  | nil => rfl
  | cons value rest =>
    obtain ⟨hvalue, hrest⟩ := List.forall_mem_cons.mp h
    cases before with
    | nil => rfl
    | cons first others =>
      obtain ⟨hfirst, hothers⟩ := List.forall_mem_cons.mp hbefore
      have hfold : P (others.foldl combine first) := foldl_forall hkeep hothers hfirst
      simp only [combined, Option.toList_some, List.cons_append, List.foldl_append, List.foldl_cons,
        List.foldl_nil]
      rw [foldl_combine hkeep hassoc hrest hfold hvalue]

/-- **Entries may be gathered in a table of their own first.** -/
theorem gather_gather_nil (hnodup : (keys table).Nodup) (htable : ∀ value ∈ values table, P value)
    (hentries : ∀ value ∈ values entries, P value) :
    gather combine table (gather combine [] entries) = gather combine table entries := by
  have hnil : (keys ([] : Table κ α)).Nodup := List.nodup_nil
  have hown : (keys (gather combine [] entries)).Nodup := nodup_keys_gather hnil entries
  refine ext_get? (nodup_keys_gather hnodup _) ?_ fun key => ?_
  · rw [keys_gather hnodup, keys_gather hnodup, keys_gather hnil]
    exact eraseDups_append_eraseDups _ _
  · rw [get?_gather, get?_gather, valuesAt_of_nodup hown, get?_gather, get?_nil,
      Option.toList_none, List.nil_append]
    refine combined_append hkeep hassoc ?_ ?_
    · intro value hvalue
      exact htable value (mem_values_of_get?_eq_some (Option.mem_toList.mp hvalue))
    · exact fun value hvalue => hentries value (mem_values_of_mem_valuesAt hvalue)

end Parts

end QueryTerms.Table
