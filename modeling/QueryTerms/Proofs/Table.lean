import Mathlib.Tactic.Lemma
import QueryTerms.Table

/-!
# Look-ups in changed tables

What erasing and adding entries does to look-ups and names; overwriting is beside the definitions.

**Looking up.**  A look-up fails exactly on names that do not occur (`get?_eq_none_iff`), and what
it finds is in the table, behind entries of other names (`get?_eq_some_iff`).

**Erasing.**  Where names are distinct, erasing is filtering (`erase_eq_filter`), and they stay
distinct.

**Overwriting again.**  Of two values given to one name the later one counts (`set_set`), and pairs
with distinct names are their own table (`ofPairs_eq_self`).

**Adding where there is none.**  `get?_setNew`, `get?_extendNew`, `get?_foldl_extendNew`,
`extendNew_eq_self`.
-/

namespace QueryTerms.Table

variable {κ α : Type} [DecidableEq κ]

lemma get?_cons (key name : κ) (value : α) (rest : Table κ α) :
    get? key ((name, value) :: rest) = if name = key then some value else get? key rest := rfl

lemma get?_eq_none_iff {key : κ} {table : Table κ α} :
    get? key table = none ↔ key ∉ keys table := by
  rw [← has_iff_mem_keys, has, Bool.not_eq_true, Option.isSome_eq_false_iff,
    Option.isNone_iff_eq_none]

lemma exists_get?_eq_some_iff {key : κ} {table : Table κ α} :
    (∃ value, get? key table = some value) ↔ key ∈ keys table := by
  rw [← has_iff_mem_keys, has, Option.isSome_iff_exists]

lemma get?_append (key : κ) (table more : Table κ α) :
    get? key (table ++ more) = (get? key table).or (get? key more) := by
  induction table with
  | nil => rfl
  | cons entry rest ih =>
    obtain ⟨name, value⟩ := entry
    rw [List.cons_append, get?_cons, get?_cons]
    split
    · rfl
    · exact ih

lemma mem_of_get?_eq_some {key : κ} {value : α} {table : Table κ α}
    (h : get? key table = some value) : (key, value) ∈ table := by
  induction table with
  | nil => cases h
  | cons entry rest ih =>
    obtain ⟨name, old⟩ := entry
    rw [get?_cons] at h
    split at h
    · next heq =>
      cases h
      rw [heq]
      exact List.mem_cons_self
    · exact List.mem_cons_of_mem _ (ih h)

lemma mem_values_of_get?_eq_some {key : κ} {value : α} {table : Table κ α}
    (h : get? key table = some value) : value ∈ values table :=
  List.mem_map_of_mem (mem_of_get?_eq_some h)

lemma get?_eq_some_iff {key : κ} {value : α} {table : Table κ α} :
    get? key table = some value ↔
      ∃ front back, table = front ++ (key, value) :: back ∧ key ∉ keys front := by
  constructor
  · intro h
    induction table with
    | nil => cases h
    | cons entry rest ih =>
      obtain ⟨name, old⟩ := entry
      rw [get?_cons] at h
      by_cases heq : name = key
      · rw [if_pos heq, Option.some.injEq] at h
        exact ⟨[], rest, by rw [heq, h, List.nil_append], List.not_mem_nil⟩
      · rw [if_neg heq] at h
        obtain ⟨front, back, rfl, hfront⟩ := ih h
        refine ⟨(name, old) :: front, back, rfl, fun hmem => ?_⟩
        rcases List.mem_cons.mp hmem with hname | hmem
        · exact heq hname.symm
        · exact hfront hmem
  · rintro ⟨front, back, rfl, hfront⟩
    rw [get?_append, get?_eq_none_iff.mpr hfront, Option.none_or, get?_cons, if_pos rfl]

/-- Where names are distinct, every entry is found. -/
lemma get?_eq_some_iff_mem {key : κ} {value : α} {table : Table κ α} (h : (keys table).Nodup) :
    get? key table = some value ↔ (key, value) ∈ table := by
  refine ⟨mem_of_get?_eq_some, fun hmem => get?_eq_some_iff.mpr ?_⟩
  obtain ⟨front, back, rfl⟩ := List.append_of_mem hmem
  refine ⟨front, back, rfl, fun hkey => ?_⟩
  rw [keys, List.map_append] at h
  exact (List.nodup_append.mp h).2.2 key hkey key List.mem_cons_self rfl

/-- Overwriting changes the first entry of the name and no other one. -/
lemma set_append_cons {key : κ} {front : Table κ α} (h : key ∉ keys front) (old value : α)
    (back : Table κ α) :
    set key value (front ++ (key, old) :: back) = front ++ (key, value) :: back := by
  induction front with
  | nil => rw [List.nil_append, set, if_pos rfl, List.nil_append]
  | cons entry rest ih =>
    obtain ⟨name, other⟩ := entry
    have hkeys : key ∉ name :: keys rest := h
    rw [List.mem_cons, not_or] at hkeys
    rw [List.cons_append, set, if_neg (Ne.symm hkeys.1), ih hkeys.2, List.cons_append]

/-- Giving a name the value that it has changes nothing. -/
lemma set_eq_self {key : κ} {value : α} {table : Table κ α} (h : get? key table = some value) :
    set key value table = table := by
  obtain ⟨front, back, rfl, hfront⟩ := get?_eq_some_iff.mp h
  exact set_append_cons hfront value value back

/-- A name that is not there comes last. -/
lemma set_of_notMem {key : κ} {table : Table κ α} (h : key ∉ keys table) (value : α) :
    set key value table = table ++ [(key, value)] := by
  induction table with
  | nil => rfl
  | cons entry rest ih =>
    obtain ⟨name, old⟩ := entry
    have hkeys : key ∉ name :: keys rest := h
    rw [List.mem_cons, not_or] at hkeys
    rw [set, if_neg (Ne.symm hkeys.1), ih hkeys.2, List.cons_append]

lemma mem_keys_set {key other : κ} {value : α} {table : Table κ α} :
    other ∈ keys (set key value table) ↔ other = key ∨ other ∈ keys table := by
  rw [← has_iff_mem_keys, ← has_iff_mem_keys, has, has, get?_set]
  by_cases heq : key = other
  · simp [heq]
  · rw [if_neg heq, or_iff_right (Ne.symm heq)]

lemma mem_set {key : κ} {value : α} {entry : κ × α} {table : Table κ α}
    (h : entry ∈ set key value table) : entry = (key, value) ∨ entry ∈ table := by
  induction table with
  | nil => exact .inl (List.mem_singleton.mp h)
  | cons first rest ih =>
    obtain ⟨name, old⟩ := first
    rw [set] at h
    split at h
    · next heq =>
      rcases List.mem_cons.mp h with rfl | h
      · exact .inl (by rw [heq])
      · exact .inr (List.mem_cons_of_mem _ h)
    · rcases List.mem_cons.mp h with rfl | h
      · exact .inr List.mem_cons_self
      · exact (ih h).imp_right (List.mem_cons_of_mem _)

lemma mem_values_set {key : κ} {value other : α} {table : Table κ α}
    (h : other ∈ values (set key value table)) : other = value ∨ other ∈ values table := by
  obtain ⟨entry, hentry, rfl⟩ := List.mem_map.mp h
  rcases mem_set hentry with rfl | hentry
  · exact .inl rfl
  · exact .inr (List.mem_map_of_mem hentry)

/-! ## Overwriting again -/

lemma set_set (key : κ) (first second : α) (table : Table κ α) :
    set key second (set key first table) = set key second table := by
  induction table with
  | nil => simp only [set, if_pos]
  | cons entry rest ih =>
    obtain ⟨name, old⟩ := entry
    rw [set, set]
    split
    · next heq => rw [set, if_pos heq]
    · next hne => rw [set, if_neg hne, ih]

lemma extend_of_nodup (table : Table κ α) {more : Table κ α}
    (h : (keys (table ++ more)).Nodup) : extend table more = table ++ more := by
  induction more generalizing table with
  | nil => exact (List.append_nil table).symm
  | cons entry rest ih =>
    have hentry : entry.1 ∉ keys table := by
      rw [keys, List.map_append, List.nodup_append] at h
      exact fun hmem => h.2.2 entry.1 hmem entry.1 List.mem_cons_self rfl
    rw [← List.singleton_append, ← List.append_assoc] at h ⊢
    rw [List.singleton_append, extend, List.foldl_cons, set_of_notMem hentry, ← extend, ih _ h]

/-- Pairs with distinct names are their own table. -/
lemma ofPairs_eq_self {pairs : Table κ α} (h : (keys pairs).Nodup) : ofPairs pairs = pairs := by
  exact extend_of_nodup [] h

/-! ## Erasing -/

lemma get?_filter_keys (names : List κ) (key : κ) (table : Table κ α) :
    get? key (table.filter fun entry => entry.1 ∉ names) =
      if key ∈ names then none else get? key table := by
  induction table with
  | nil => simp
  | cons entry rest ih =>
    obtain ⟨name, value⟩ := entry
    rw [List.filter_cons, get?_cons]
    by_cases hname : name ∈ names
    · rw [if_neg (by simpa using hname), ih]
      split
      · rfl
      · next hkey =>
        have hne : name ≠ key := fun heq => hkey (heq ▸ hname)
        rw [if_neg hne]
    · rw [if_pos (by simpa using hname), get?_cons, ih]
      by_cases heq : name = key
      · rw [if_pos heq, if_pos heq, if_neg (heq ▸ hname)]
      · rw [if_neg heq, if_neg heq]

lemma erase_eq_filter {table : Table κ α} (h : (keys table).Nodup) (key : κ) :
    erase key table = table.filter fun entry => entry.1 ≠ key := by
  induction table with
  | nil => rfl
  | cons entry rest ih =>
    obtain ⟨name, value⟩ := entry
    obtain ⟨hname, hrest⟩ := List.nodup_cons.mp h
    rw [erase, List.filter_cons]
    split
    · next heq =>
      subst heq
      rw [if_neg (by simp), List.filter_eq_self.mpr]
      intro entry hentry
      rw [decide_eq_true_eq]
      exact fun heq => hname (List.mem_map.mpr ⟨entry, hentry, heq⟩)
    · next hne => rw [if_pos (by simpa using hne), ih hrest]

lemma get?_erase_of_ne {key other : κ} (h : key ≠ other) (table : Table κ α) :
    get? other (erase key table) = get? other table := by
  induction table with
  | nil => rfl
  | cons entry rest ih =>
    obtain ⟨name, value⟩ := entry
    rw [erase]
    split
    · next heq => rw [get?_cons, if_neg (heq ▸ h)]
    · rw [get?_cons, get?_cons, ih]

lemma keys_erase (key : κ) (table : Table κ α) :
    keys (erase key table) = (keys table).erase key := by
  induction table with
  | nil => rfl
  | cons entry rest ih =>
    obtain ⟨name, value⟩ := entry
    change keys (erase key ((name, value) :: rest)) = (name :: keys rest).erase key
    by_cases hk : name = key
    · subst hk
      rw [erase, if_pos rfl, List.erase_cons_head]
    · rw [erase, if_neg hk, List.erase_cons_tail (by simpa using hk), ← ih]
      rfl

lemma nodup_keys_erase (key : κ) {table : Table κ α} (h : (keys table).Nodup) :
    (keys (erase key table)).Nodup := by
  rw [keys_erase]
  exact h.erase key

/-! ## Adding where there is none -/

lemma get?_setNew (key other : κ) (value : α) (table : Table κ α) :
    get? other (setNew key value table) =
      if key = other then some ((get? key table).getD value) else get? other table := by
  rw [setNew]
  split
  · next hhas =>
    obtain ⟨old, hold⟩ := Option.isSome_iff_exists.mp hhas
    split
    · next heq => rw [← heq, hold]; rfl
    · rfl
  · next hhas =>
    have hnone : get? key table = none := by
      rwa [has, Bool.not_eq_true, Option.isSome_eq_false_iff, Option.isNone_iff_eq_none] at hhas
    rw [get?_append, get?_cons, get?_nil]
    split
    · next heq => rw [← heq, hnone]; rfl
    · rw [Option.or_none]

lemma mem_keys_setNew {key other : κ} {value : α} {table : Table κ α} :
    other ∈ keys (setNew key value table) ↔ other ∈ keys table ∨ other = key := by
  rw [setNew]
  split
  · next hhas =>
    have hmem : key ∈ keys table := (has_iff_mem_keys key table).mp hhas
    exact ⟨.inl, fun hother => hother.elim id fun heq => heq ▸ hmem⟩
  · rw [keys, List.map_append, List.mem_append]
    exact or_congr_right List.mem_singleton

lemma nodup_keys_setNew (key : κ) (value : α) {table : Table κ α} (h : (keys table).Nodup) :
    (keys (setNew key value table)).Nodup := by
  rw [setNew]
  split
  · exact h
  · next hhas =>
    have hmem : key ∉ keys table := fun hmem => hhas ((has_iff_mem_keys key table).mpr hmem)
    rw [keys, List.map_append, List.nodup_append]
    refine ⟨h, by simp, fun a ha b hb hab => ?_⟩
    have hkey : b = key := by simpa using hb
    exact hmem (hkey ▸ hab ▸ ha)

/-- What is there already is found first. -/
lemma get?_extendNew (key : κ) (table more : Table κ α) :
    get? key (extendNew table more) = (get? key table).or (get? key more) := by
  induction more generalizing table with
  | nil => rw [get?_nil, Option.or_none]; rfl
  | cons entry rest ih =>
    obtain ⟨name, value⟩ := entry
    rw [extendNew, List.foldl_cons, ← extendNew, ih, get?_setNew, get?_cons]
    by_cases heq : name = key
    · subst heq
      rw [if_pos rfl, if_pos rfl]
      cases get? name table <;> rfl
    · rw [if_neg heq, if_neg heq]

/-- Of several tables, the first one that has the name counts. -/
lemma get?_foldl_extendNew (key : κ) (tables : List (Table κ α)) (start : Table κ α) :
    get? key (tables.foldl extendNew start) =
      (get? key start).or (tables.findSome? (get? key)) := by
  induction tables generalizing start with
  | nil => rw [List.foldl_nil, List.findSome?_nil, Option.or_none]
  | cons table rest ih =>
    rw [List.foldl_cons, ih, get?_extendNew, Option.or_assoc, List.findSome?_cons]
    cases get? key table <;> rfl

/-- Nothing is added under names that are there. -/
lemma extendNew_eq_self {table more : Table κ α}
    (h : ∀ entry ∈ more, has entry.1 table) : extendNew table more = table := by
  induction more with
  | nil => rfl
  | cons entry rest ih =>
    obtain ⟨hentry, hrest⟩ := List.forall_mem_cons.mp h
    rw [extendNew, List.foldl_cons, setNew, if_pos hentry]
    exact ih hrest

end QueryTerms.Table
