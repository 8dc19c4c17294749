/-!
# Ordered tables

A row, a parameter set, a key map: each is a list of named entries whose order is part of the
value.  A table is that list.

**Looking up.** `get?`, `has`, `keys`, `values`.

**Changing.** `set` overwrites in place or appends, `setNew` only appends, `erase` closes the gap.
`ofPairs` builds a table from pairs, where a later pair of one name replaces the value of the
earlier one; its names are pairwise distinct (`nodup_keys_ofPairs`).
-/

namespace QueryTerms

/-- Named entries in order. -/
abbrev Table (κ α : Type) := List (κ × α)

namespace Table

variable {κ α β : Type} [DecidableEq κ]

/-- The value of the first entry named `key`. -/
def get? (key : κ) : Table κ α → Option α
  | [] => none
  | (name, value) :: rest => if name = key then some value else get? key rest

/-- Whether an entry is named `key`. -/
def has (key : κ) (table : Table κ α) : Bool := (get? key table).isSome

/-- The names, in order. -/
def keys (table : Table κ α) : List κ := table.map Prod.fst

/-- The values, in order. -/
def values (table : Table κ α) : List α := table.map Prod.snd

/-- Gives `key` a value: in the place of the entry of that name, else at the end. -/
def set (key : κ) (value : α) : Table κ α → Table κ α
  | [] => [(key, value)]
  | (name, old) :: rest =>
    if name = key then (name, value) :: rest else (name, old) :: set key value rest

/-- Gives `key` a value only where it has none. -/
def setNew (key : κ) (value : α) (table : Table κ α) : Table κ α :=
  if has key table then table else table ++ [(key, value)]

/-- Removes the first entry named `key`. -/
def erase (key : κ) : Table κ α → Table κ α
  | [] => []
  | (name, value) :: rest => if name = key then rest else (name, value) :: erase key rest

/-- Adds the entries of `more` one after another, overwriting. -/
def extend (table more : Table κ α) : Table κ α :=
  more.foldl (fun table entry => set entry.1 entry.2 table) table

/-- Adds those entries of `more` whose names are new. -/
def extendNew (table more : Table κ α) : Table κ α :=
  more.foldl (fun table entry => setNew entry.1 entry.2 table) table

/-- The table of a list of pairs. -/
def ofPairs (pairs : List (κ × α)) : Table κ α := extend [] pairs

/-- Puts an entry before the one at `index`. -/
def insertAt (index : Nat) (key : κ) (value : α) (table : Table κ α) : Table κ α :=
  table.take index ++ (key, value) :: table.drop index

/-! ## What the operations do to look-ups and names -/

/-- An empty table has no entries. -/
@[simp] theorem get?_nil (key : κ) : get? key ([] : Table κ α) = none := rfl

/-- An entry that is set is found; every other one is found as before. -/
theorem get?_set (key other : κ) (value : α) (table : Table κ α) :
    get? other (set key value table) = if key = other then some value else get? other table := by
  induction table with
  | nil => simp [set, get?]
  | cons entry rest ih =>
    obtain ⟨name, old⟩ := entry
    by_cases hk : name = key
    · subst hk
      by_cases ho : name = other <;> simp [set, get?, ho]
    · by_cases ho : name = other
      · subst ho
        simp [set, get?, hk, Ne.symm hk]
      · simp [set, get?, hk, ho, ih]

/-- A table has the entries that its names say. -/
theorem has_iff_mem_keys (key : κ) (table : Table κ α) :
    has key table = true ↔ key ∈ keys table := by
  induction table with
  | nil => simp [has, keys, get?]
  | cons entry rest ih =>
    obtain ⟨name, value⟩ := entry
    by_cases h : name = key
    · simp [has, keys, get?, h]
    · have hne : ¬ key = name := fun e => h e.symm
      simp only [has, get?, h, if_false, keys, List.map_cons, List.mem_cons, hne, false_or]
      exact ih

/-- Setting keeps the names and their order; a new name comes last. -/
theorem keys_set (key : κ) (value : α) (table : Table κ α) :
    keys (set key value table) =
      if has key table then keys table else keys table ++ [key] := by
  induction table with
  | nil => simp [set, keys, has, get?]
  | cons entry rest ih =>
    obtain ⟨name, old⟩ := entry
    by_cases h : name = key
    · simp [set, keys, has, get?, h]
    · have hb : has key ((name, old) :: rest) = has key rest := by simp [has, get?, h]
      rw [hb]
      simp only [set, h, if_false]
      cases hr : has key rest <;> simp_all [keys]

/-- Setting an entry keeps the names distinct. -/
theorem nodup_keys_set (key : κ) (value : α) (table : Table κ α) (h : (keys table).Nodup) :
    (keys (set key value table)).Nodup := by
  rw [keys_set]
  cases hk : has key table with
  | true => simpa using h
  | false =>
    have hmem : key ∉ keys table := fun m => by
      rw [(has_iff_mem_keys key table).2 m] at hk; cases hk
    simp only [Bool.false_eq_true, if_false]
    rw [List.nodup_append]
    refine ⟨h, by simp, ?_⟩
    intro a ha b hb e
    simp only [List.mem_singleton] at hb
    exact hmem (hb ▸ e ▸ ha)

/-- Setting several entries keeps them distinct. -/
theorem nodup_keys_extend (table more : Table κ α) (h : (keys table).Nodup) :
    (keys (extend table more)).Nodup := by
  induction more generalizing table with
  | nil => exact h
  | cons entry rest ih => exact ih _ (nodup_keys_set entry.1 entry.2 table h)

/-- A table built from pairs has pairwise distinct names. -/
theorem nodup_keys_ofPairs (pairs : List (κ × α)) : (keys (ofPairs pairs)).Nodup :=
  nodup_keys_extend [] pairs (by simp [keys])

end Table

end QueryTerms
