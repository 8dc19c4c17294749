import Mathlib
import QueryTerms.Proofs.Artifact.Paths
import QueryTerms.Proofs.Artifact.Writing

/-!
# Artifacts in a directory and in memory

The same leaves can be kept as files below a root and as entries of a catalog.  A catalog looks an
id up; a directory puts a suffix behind it and looks for a file.

**Texts.**  `LeafTexts` are leaves as they are written down; `files` are the files they make, and
`catalog?` is what their texts mean.

**Paths.**  Ids that terms can hold and suffixes make up paths that are never spelled twice
(`names_injective`).  Two artifacts of different kinds have one path only where the definition's id
is the compiled leaf's one and `.interface`.

**Agreement.**  Apart from that case both stores give the same artifact, and where there is none
both say so (`stores_agree`).  How a directory fails at a path that is blocked is left open.
-/

namespace QueryTerms

/-! ## Texts -/

/-- Compiled leaves, with the texts of interface and statement, and leaves in fragments. -/
structure LeafTexts where
  compiled : Table String (String × String)
  definitions : Table String String
  nodup_compiled : compiled.keys.Nodup
  nodup_definitions : definitions.keys.Nodup
  valid_compiled : ∀ leaf ∈ compiled.keys, isValidId leaf.toList = true
  valid_definitions : ∀ leaf ∈ definitions.keys, isValidId leaf.toList = true

namespace LeafTexts

/-- The files of the leaves, by their layout below a root. -/
def files (texts : LeafTexts) : List TextFile :=
  texts.compiled.flatMap (fun entry =>
      [⟨entry.1 ++ ".interface.json", entry.2.1⟩, ⟨entry.1 ++ ".sql", entry.2.2⟩]) ++
    texts.definitions.map fun entry => ⟨entry.1 ++ ".json", entry.2⟩

/-- The texts decoded and added under their names, one after another. -/
def addAll? {α β γ : Type} (decode : α → Option β) (add : γ → String → β → γ) (start : γ)
    (entries : Table String α) : Option γ :=
  entries.foldlM (fun out entry => (decode entry.2).map (add out entry.1)) start

/-- The interface of a compiled leaf, with the statement as it is. -/
def decodeCompiled? (text : String × String) : Option (Interface × String) :=
  (Interface.ofJson? text.1).map (·, text.2)

/-- The leaves added to a catalog, if all texts decode. -/
def catalog? (texts : LeafTexts) : Option Catalog := do
  let catalog ← addAll? decodeCompiled?
    (fun catalog leaf decoded => Catalog.addCompiled catalog leaf decoded.1 decoded.2) {}
    texts.compiled
  addAll? Definition.ofJson? Catalog.addDefinition catalog texts.definitions

end LeafTexts

/-! ## Paths -/

lemma intercalate_segments (text : List Char) : ['/'].intercalate (segments text) = text := by
  induction text with
  | nil => rfl
  | cons c cs ih =>
    obtain ⟨first, rest, hsegments⟩ := List.exists_cons_of_ne_nil (Term.segments_ne_nil cs)
    rw [hsegments] at ih
    rw [segments, hsegments]
    by_cases hslash : c = '/'
    · rw [if_pos hslash, List.intercalate_cons_cons, ih, hslash]
      rfl
    · rw [if_neg hslash]
      cases rest with
      | nil => simpa using ih
      | cons second rest =>
        rw [List.intercalate_cons_cons] at ih ⊢
        rw [List.cons_append, List.cons_append, ih]

/-- No component of the path of an artifact is left out. -/
lemma pathComponents_artifact {leaf suffix : String} (hleaf : isValidId leaf.toList = true)
    (hsuffix : suffix ∈ artifactSuffixes) :
    pathComponents (leaf ++ suffix) = (segments (leaf ++ suffix).toList).map String.ofList := by
  rw [pathComponents, path_slash_eq, List.filter_eq_self]
  intro name hname
  obtain ⟨segment, hsegment, rfl⟩ := List.mem_map.mp hname
  obtain ⟨hne, hhead⟩ := Entry.segments_of_isValidId hleaf hsuffix segment hsegment
  rw [Bool.and_eq_true, bne_iff_ne, bne_iff_ne]
  constructor
  · intro heq
    exact hne (by simpa using congrArg String.toList heq)
  · intro heq
    have hdot : segment = ['.'] := by simpa using congrArg String.toList heq
    exact hhead (by rw [hdot]; rfl)

/-- The paths of artifacts are spelled in one way only. -/
lemma names_injective {leaf other suffix ending : String} (hleaf : isValidId leaf.toList = true)
    (hother : isValidId other.toList = true) (hsuffix : suffix ∈ artifactSuffixes)
    (hending : ending ∈ artifactSuffixes)
    (h : pathComponents (leaf ++ suffix) = pathComponents (other ++ ending)) :
    leaf ++ suffix = other ++ ending := by
  rw [pathComponents_artifact hleaf hsuffix, pathComponents_artifact hother hending] at h
  have hsegments : segments (leaf ++ suffix).toList = segments (other ++ ending).toList :=
    List.map_injective_iff.mpr (fun _ _ heq => by simpa using congrArg String.toList heq) h
  rw [← String.toList_inj, ← intercalate_segments (leaf ++ suffix).toList, hsegments,
    intercalate_segments]

lemma append_sql_ne_json (leaf other : String) : leaf ++ ".sql" ≠ other ++ ".json" := by
  intro h
  have hlast := congrArg (fun text : String => text.toList.getLast?) h
  simp at hlast

lemma append_sql_ne_interface (leaf other : String) :
    leaf ++ ".sql" ≠ other ++ ".interface.json" := by
  intro h
  have hlast := congrArg (fun text : String => text.toList.getLast?) h
  simp at hlast

/-- The one way in which two kinds of artifacts have the same path. -/
lemma append_interface_eq_json_iff (leaf other : String) :
    leaf ++ ".interface.json" = other ++ ".json" ↔ leaf ++ ".interface" = other := by
  rw [show ".interface.json" = ".interface" ++ ".json" from rfl, ← String.append_assoc,
    String.append_left_inj]

/-- No id that a term can hold has a character that paths cannot have. -/
lemma nul_notMem_artifact {leaf suffix : String} (hleaf : isValidId leaf.toList = true)
    (hsuffix : suffix ∈ artifactSuffixes) : '\x00' ∉ (leaf ++ suffix).toList := by
  rw [isValidId, Bool.and_eq_true, Bool.and_eq_true] at hleaf
  rw [String.toList_append, List.mem_append, not_or]
  constructor
  · intro hmem
    have hchar := List.all_eq_true.mp hleaf.1.2 _ hmem
    exact absurd hchar (by decide)
  · simp only [artifactSuffixes, List.mem_cons, List.not_mem_nil, or_false] at hsuffix
    rcases hsuffix with rfl | rfl | rfl <;> decide

/-! ## What the texts make -/

namespace LeafTexts

variable {texts : LeafTexts} {file : TextFile} {leaf text : String}

lemma mem_files_iff : file ∈ texts.files ↔
    (∃ leaf interface sql, (leaf, interface, sql) ∈ texts.compiled ∧
      (file = ⟨leaf ++ ".interface.json", interface⟩ ∨ file = ⟨leaf ++ ".sql", sql⟩)) ∨
    ∃ leaf text, (leaf, text) ∈ texts.definitions ∧ file = ⟨leaf ++ ".json", text⟩ := by
  rw [files, List.mem_append, List.mem_flatMap, List.mem_map]
  refine or_congr ⟨?_, ?_⟩ ⟨?_, ?_⟩
  · rintro ⟨⟨leaf, interface, sql⟩, hmem, hfile⟩
    exact ⟨leaf, interface, sql, hmem, by simpa using hfile⟩
  · rintro ⟨leaf, interface, sql, hmem, hfile⟩
    exact ⟨(leaf, interface, sql), hmem, by simpa using hfile⟩
  · rintro ⟨⟨leaf, text⟩, hmem, rfl⟩
    exact ⟨leaf, text, hmem, rfl⟩
  · rintro ⟨leaf, text, hmem, rfl⟩
    exact ⟨(leaf, text), hmem, rfl⟩

/-- Every file is an artifact of an id that terms can hold. -/
lemma exists_artifact (h : file ∈ texts.files) :
    ∃ leaf, ∃ suffix ∈ artifactSuffixes, isValidId leaf.toList = true ∧
      file.path = leaf ++ suffix := by
  rcases mem_files_iff.mp h with ⟨leaf, interface, sql, hmem, rfl | rfl⟩ | ⟨leaf, text, hmem, rfl⟩
  · exact ⟨leaf, ".interface.json", by simp [artifactSuffixes],
      texts.valid_compiled leaf (List.mem_map_of_mem hmem), rfl⟩
  · exact ⟨leaf, ".sql", by simp [artifactSuffixes],
      texts.valid_compiled leaf (List.mem_map_of_mem hmem), rfl⟩
  · exact ⟨leaf, ".json", by simp [artifactSuffixes],
      texts.valid_definitions leaf (List.mem_map_of_mem hmem), rfl⟩

/-- The interface files; a definition of this id and `.interface` would lie at the same path. -/
lemma interface_mem_files_iff (hapart : leaf ++ ".interface" ∉ texts.definitions.keys) :
    ⟨leaf ++ ".interface.json", text⟩ ∈ texts.files ↔
      (texts.compiled.get? leaf).map Prod.fst = some text := by
  rw [mem_files_iff, Option.map_eq_some_iff]
  constructor
  · rintro (⟨other, interface, sql, hmem, hfile | hfile⟩ | ⟨other, definition, hmem, hfile⟩)
    · simp only [TextFile.mk.injEq, String.append_left_inj] at hfile
      obtain ⟨rfl, rfl⟩ := hfile
      exact ⟨(text, sql), (Table.get?_eq_some_iff_mem texts.nodup_compiled).mpr hmem, rfl⟩
    · exact absurd (TextFile.mk.inj hfile).1.symm (append_sql_ne_interface other leaf)
    · have hother := (append_interface_eq_json_iff leaf other).mp (TextFile.mk.inj hfile).1
      exact absurd (hother ▸ List.mem_map_of_mem hmem) hapart
  · rintro ⟨⟨interface, sql⟩, hfound, rfl⟩
    exact .inl ⟨leaf, interface, sql, Table.mem_of_get?_eq_some hfound, .inl rfl⟩

lemma statement_mem_files_iff :
    ⟨leaf ++ ".sql", text⟩ ∈ texts.files ↔
      (texts.compiled.get? leaf).map Prod.snd = some text := by
  rw [mem_files_iff, Option.map_eq_some_iff]
  constructor
  · rintro (⟨other, interface, sql, hmem, hfile | hfile⟩ | ⟨other, definition, hmem, hfile⟩)
    · exact absurd (TextFile.mk.inj hfile).1 (append_sql_ne_interface leaf other)
    · simp only [TextFile.mk.injEq, String.append_left_inj] at hfile
      obtain ⟨rfl, rfl⟩ := hfile
      exact ⟨(interface, text), (Table.get?_eq_some_iff_mem texts.nodup_compiled).mpr hmem, rfl⟩
    · exact absurd (TextFile.mk.inj hfile).1 (append_sql_ne_json leaf other)
  · rintro ⟨⟨interface, sql⟩, hfound, rfl⟩
    exact .inl ⟨leaf, interface, sql, Table.mem_of_get?_eq_some hfound, .inr rfl⟩

/-- The definition files; the interface of a compiled leaf may lie at the same path. -/
lemma definition_mem_files_iff
    (hapart : ∀ other ∈ texts.compiled.keys, other ++ ".interface" ≠ leaf) :
    ⟨leaf ++ ".json", text⟩ ∈ texts.files ↔ texts.definitions.get? leaf = some text := by
  rw [mem_files_iff, Table.get?_eq_some_iff_mem texts.nodup_definitions]
  constructor
  · rintro (⟨other, interface, sql, hmem, hfile | hfile⟩ | ⟨other, definition, hmem, hfile⟩)
    · have hother := (append_interface_eq_json_iff other leaf).mp (TextFile.mk.inj hfile).1.symm
      exact absurd hother (hapart other (List.mem_map_of_mem hmem))
    · exact absurd (TextFile.mk.inj hfile).1.symm (append_sql_ne_json other leaf)
    · simp only [TextFile.mk.injEq, String.append_left_inj] at hfile
      obtain ⟨rfl, rfl⟩ := hfile
      exact hmem
  · exact fun hmem => .inr ⟨leaf, text, hmem, rfl⟩

end LeafTexts

/-! ### In memory -/

namespace LeafTexts

section Adding

variable {α β γ : Type} {decode : α → Option β} {add : γ → String → β → γ}
  {entries : Table String α} {start out : γ}

lemma addAll?_cons {leaf : String} {text : α} {rest : Table String α} :
    addAll? decode add start ((leaf, text) :: rest) = some out ↔
      ∃ value, decode text = some value ∧
        addAll? decode add (add start leaf value) rest = some out := by
  rw [addAll?, List.foldlM_cons, Option.bind_eq_bind, Option.bind_eq_some_iff]
  simp only [Option.map_eq_some_iff]
  constructor
  · rintro ⟨_, ⟨value, hvalue, rfl⟩, hrest⟩
    exact ⟨value, hvalue, hrest⟩
  · rintro ⟨value, hvalue, hrest⟩
    exact ⟨_, ⟨value, hvalue, rfl⟩, hrest⟩

/-- The entries decoded and added one after another are found under their names. -/
lemma get?_of_addAll? (table : γ → Table String β)
    (h : addAll? decode add start entries = some out)
    (hadd : ∀ out leaf value, table (add out leaf value) = (table out).set leaf value)
    (hnodup : entries.keys.Nodup) (leaf : String) :
    (∀ text, entries.get? leaf = some text →
      ∃ value, decode text = some value ∧ (table out).get? leaf = some value) ∧
    (entries.get? leaf = none → (table out).get? leaf = (table start).get? leaf) := by
  induction entries generalizing start with
  | nil =>
    cases h
    exact ⟨nofun, fun _ => rfl⟩
  | cons entry rest ih =>
    obtain ⟨name, text⟩ := entry
    obtain ⟨hname, hrest⟩ := List.nodup_cons.mp hnodup
    obtain ⟨value, hvalue, hout⟩ := addAll?_cons.mp h
    obtain ⟨hfound, hmissing⟩ := ih hout hrest
    rw [hadd, Table.get?_set] at hmissing
    rw [Table.get?_cons]
    by_cases heq : name = leaf
    · subst heq
      rw [if_pos rfl] at hmissing ⊢
      refine ⟨fun other hother => ?_, nofun⟩
      cases hother
      exact ⟨value, hvalue, hmissing (Table.get?_eq_none_iff.mpr hname)⟩
    · rw [if_neg heq] at hmissing ⊢
      exact ⟨hfound, hmissing⟩

/-- What adding an entry keeps, adding all entries keeps. -/
lemma view_of_addAll? {δ : Type} (view : γ → δ) (h : addAll? decode add start entries = some out)
    (hadd : ∀ out leaf value, view (add out leaf value) = view out) : view out = view start := by
  induction entries generalizing start with
  | nil =>
    cases h
    rfl
  | cons entry rest ih =>
    obtain ⟨value, -, hout⟩ := addAll?_cons.mp h
    rw [ih hout, hadd]

end Adding

variable {texts : LeafTexts} {catalog : Catalog}

/-- A catalog of the texts holds what they mean, and nothing else. -/
structure Means (texts : LeafTexts) (catalog : Catalog) : Prop where
  compiled : ∀ leaf,
    (∀ interface sql, texts.compiled.get? leaf = some (interface, sql) →
      ∃ decoded, Interface.ofJson? interface = some decoded ∧
        catalog.compiled.get? leaf = some (decoded, sql)) ∧
    (texts.compiled.get? leaf = none → catalog.compiled.get? leaf = none)
  definitions : ∀ leaf,
    (∀ text, texts.definitions.get? leaf = some text →
      ∃ decoded, Definition.ofJson? text = some decoded ∧
        catalog.definitions.get? leaf = some decoded) ∧
    (texts.definitions.get? leaf = none → catalog.definitions.get? leaf = none)

lemma means_of_catalog? (h : texts.catalog? = some catalog) : texts.Means catalog := by
  obtain ⟨middle, hcompiled, hdefinitions⟩ := Option.bind_eq_some_iff.mp h
  have hkept : catalog.compiled = middle.compiled :=
    view_of_addAll? Catalog.compiled hdefinitions fun _ _ _ => rfl
  have hempty : middle.definitions = (Catalog.mk [] []).definitions :=
    view_of_addAll? Catalog.definitions hcompiled fun _ _ _ => rfl
  constructor
  · intro leaf
    obtain ⟨hfound, hmissing⟩ :=
      get?_of_addAll? Catalog.compiled hcompiled (fun _ _ _ => rfl) texts.nodup_compiled leaf
    rw [hkept]
    refine ⟨fun interface sql htext => ?_, hmissing⟩
    obtain ⟨value, hvalue, hget⟩ := hfound _ htext
    obtain ⟨decoded, hdecoded, rfl⟩ := Option.map_eq_some_iff.mp hvalue
    exact ⟨decoded, hdecoded, hget⟩
  · intro leaf
    obtain ⟨hfound, hmissing⟩ :=
      get?_of_addAll? Catalog.definitions hdefinitions (fun _ _ _ => rfl)
        texts.nodup_definitions leaf
    rw [hempty] at hmissing
    exact ⟨hfound, hmissing⟩

end LeafTexts

/-! ## Agreement -/

/-- What a directory at `place` answers for an artifact, and what a catalog does: both give the
same, or both say that there is none.  Where the path is blocked there is none either, and it is
left open with which error the directory fails. -/
inductive SameAnswer {α : Type} (place : String) (files : List TextFile) (leaf suffix : String) :
    Except StoreError α → Except StoreError α → Prop where
  | artifact (value : α) : SameAnswer place files leaf suffix (.ok value) (.ok value)
  | none : SameAnswer place files leaf suffix (.error (.notFound leaf)) (.error (.notFound leaf))
  | blocked (h : Entry.IsBlocked place files (leaf ++ suffix)) (cause : StoreError) :
      SameAnswer place files leaf suffix (.error cause) (.error (.notFound leaf))

/-- The answers about one id; where two kinds of artifacts have one path, nothing is said. -/
structure StoresAgree (place : String) (texts : LeafTexts) (directory memory : Store)
    (leaf : String) : Prop where
  interface : leaf ++ ".interface" ∉ texts.definitions.keys →
    SameAnswer place texts.files leaf ".interface.json" (directory.interface leaf)
      (memory.interface leaf)
  statement :
    SameAnswer place texts.files leaf ".sql" (directory.statement leaf) (memory.statement leaf)
  definition : (∀ other ∈ texts.compiled.keys, other ++ ".interface" ≠ leaf) →
    SameAnswer place texts.files leaf ".json" (directory.definition leaf) (memory.definition leaf)

section Agreement

open Catalog Entry

variable {texts : LeafTexts} {catalog : Catalog} {place leaf suffix : String}
  {text? : Option String}

lemma found_eq_map {α β : Type} (entry : Option α) (part : α → β) :
    found leaf entry part = found leaf (entry.map part) fun value => value := by
  cases entry <;> rfl

/-- The text of an artifact is that of the file with its path. -/
lemma readArtifact_sameAnswer (hcoexist : CanCoexist place texts.files)
    (hleaf : isValidId leaf.toList = true) (hsuffix : suffix ∈ artifactSuffixes)
    (htext : ∀ text, ⟨leaf ++ suffix, text⟩ ∈ texts.files ↔ text? = some text) :
    SameAnswer place texts.files leaf suffix
      ((writtenFiles texts.files).readArtifact place leaf suffix)
      (found leaf text? fun text => text) := by
  have hholds := holds_writtenFiles hcoexist
  have hplain := nul_notMem_artifact hleaf hsuffix
  simp only [readArtifact, relativePath?_of_isValidId hleaf hsuffix]
  cases htext? : text? with
  | some text =>
    have hmem := (htext text).mpr htext?
    rw [hholds.readText_of_mem hmem rfl (hcoexist.opened _ hmem)]
    exact .artifact text
  | none =>
    by_cases hblocked : IsBlocked place texts.files (leaf ++ suffix)
    · rw [hholds.readText_eq_unreadable hblocked]
      exact .blocked hblocked _
    · have hnone : ∀ file ∈ texts.files, file.names ≠ pathComponents (leaf ++ suffix) := by
        intro file hmem hnames
        obtain ⟨other, ending, hending, hother, hpath⟩ := LeafTexts.exists_artifact hmem
        rw [TextFile.names, hpath] at hnames
        have hsame := names_injective hother hleaf hending hsuffix hnames
        have hfound := (htext file.text).mp (hsame ▸ hpath ▸ hmem)
        rw [htext?] at hfound
        cases hfound
      rw [hholds.readText_eq_missing hblocked hnone hcoexist.plainPlace hplain]
      exact .none

lemma decodeArtifact_sameAnswer {α : Type} {files : List TextFile} {root : Entry}
    {decode : String → Option α} {value? : Option α}
    (hread : SameAnswer place files leaf suffix (root.readArtifact place leaf suffix)
      (found leaf text? fun text => text))
    (hsome : ∀ text, text? = some text → ∃ value, decode text = some value ∧ value? = some value)
    (hnone : text? = none → value? = none) :
    SameAnswer place files leaf suffix (root.decodeArtifact place leaf suffix decode)
      (found leaf value? fun value => value) := by
  rw [decodeArtifact]
  cases htext? : text? with
  | some text =>
    obtain ⟨value, hvalue, rfl⟩ := hsome text htext?
    rw [htext?] at hread
    generalize root.readArtifact place leaf suffix = answer at hread ⊢
    cases hread
    simp only [bind, Except.bind, hvalue]
    exact .artifact value
  | none =>
    rw [hnone htext?]
    rw [htext?] at hread
    generalize root.readArtifact place leaf suffix = answer at hread ⊢
    cases hread with
    | none => exact .none
    | blocked hblocked cause => exact .blocked hblocked cause

/-- **A directory and a catalog of the same leaves agree**, wherever the directory lies.  For every
id that a term can hold they give the same artifacts; what is in neither of them both call missing,
unless its path is blocked. -/
theorem stores_agree (hcatalog : texts.catalog? = some catalog)
    (hcoexist : CanCoexist place texts.files) (hleaf : isValidId leaf.toList = true) :
    StoresAgree place texts ((writtenFiles texts.files).toStore place) catalog.toStore leaf := by
  obtain ⟨hcompiled, hdefinitions⟩ := LeafTexts.means_of_catalog? hcatalog
  obtain ⟨hfound, hmissing⟩ := hcompiled leaf
  constructor
  · intro hapart
    have hread := readArtifact_sameAnswer hcoexist hleaf (by simp [artifactSuffixes])
      fun text => LeafTexts.interface_mem_files_iff hapart
    rw [show catalog.toStore.interface leaf = _ from found_eq_map _ _]
    refine decodeArtifact_sameAnswer hread (fun text htext => ?_) fun htext => ?_
    · obtain ⟨⟨interface, sql⟩, hget, rfl⟩ := Option.map_eq_some_iff.mp htext
      obtain ⟨decoded, hdecoded, hvalue⟩ := hfound interface sql hget
      exact ⟨decoded, hdecoded, by rw [hvalue, Option.map_some]⟩
    · rw [hmissing (Option.map_eq_none_iff.mp htext), Option.map_none]
  · have hsame : (texts.compiled.get? leaf).map Prod.snd =
        (catalog.compiled.get? leaf).map Prod.snd := by
      cases hget : texts.compiled.get? leaf with
      | none => rw [hmissing hget, Option.map_none, Option.map_none]
      | some entry =>
        obtain ⟨decoded, -, hvalue⟩ := hfound entry.1 entry.2 hget
        rw [hvalue, Option.map_some, Option.map_some]
    rw [show catalog.toStore.statement leaf = _ from found_eq_map _ _, ← hsame]
    exact readArtifact_sameAnswer hcoexist hleaf (by simp [artifactSuffixes])
      fun text => LeafTexts.statement_mem_files_iff
  · intro hapart
    have hread := readArtifact_sameAnswer hcoexist hleaf (by simp [artifactSuffixes])
      fun text => LeafTexts.definition_mem_files_iff hapart
    exact decodeArtifact_sameAnswer hread (hdefinitions leaf).1 (hdefinitions leaf).2

/-- A compiled leaf, and a leaf in fragments in a sub-directory of the same name. -/
theorem stores_agree_users :
    let texts : LeafTexts :=
      { compiled := [("users", "\x7b\x7d", "SELECT 1")]
        definitions := [("users/orders", "\x7b\"from\":\"orders\"\x7d")]
        nodup_compiled := by decide
        nodup_definitions := by decide
        valid_compiled := by decide
        valid_definitions := by decide }
    ∃ catalog, texts.catalog? = some catalog ∧ CanCoexist "store" texts.files ∧
      StoresAgree "store" texts ((writtenFiles texts.files).toStore "store") catalog.toStore
        "users/orders" := by
  intro texts
  have hcatalog : ∃ catalog, texts.catalog? = some catalog := by
    refine Option.isSome_iff_exists.mp ?_
    cbv
  have hcoexist : CanCoexist "store" texts.files :=
    { apart := by decide
      below := by decide
      shortNames := by decide
      opened := by decide
      plainPlace := by decide }
  obtain ⟨catalog, hcatalog⟩ := hcatalog
  exact ⟨catalog, hcatalog, hcoexist, stores_agree hcatalog hcoexist (by decide)⟩

/-- **The stores can differ.**  Below the statement of `users` no file can lie, which the directory
does not call missing; and its interface lies where a definition of `users.interface` would. -/
theorem stores_differ_users :
    let texts : LeafTexts :=
      { compiled := [("users", "\x7b\x7d", "SELECT 1")]
        definitions := []
        nodup_compiled := by decide
        nodup_definitions := by decide
        valid_compiled := by decide
        valid_definitions := by decide }
    let directory := (writtenFiles texts.files).toStore "store"
    ∃ catalog, texts.catalog? = some catalog ∧ CanCoexist "store" texts.files ∧
      (isValidId "users.sql/notes".toList = true ∧
        directory.statement "users.sql/notes" = .error (.unreadable "store/users.sql/notes.sql") ∧
        catalog.toStore.statement "users.sql/notes" = .error (.notFound "users.sql/notes")) ∧
      isValidId "users.interface".toList = true ∧
        (∃ definition, directory.definition "users.interface" = .ok definition) ∧
        catalog.toStore.definition "users.interface" = .error (.notFound "users.interface") := by
  intro texts directory
  have hcoexist : CanCoexist "store" texts.files :=
    { apart := by decide
      below := by decide
      shortNames := by decide
      opened := by decide
      plainPlace := by decide }
  have hdefinition : ∃ definition, Definition.ofJson? "\x7b\x7d" = some definition := by
    refine Option.isSome_iff_exists.mp ?_
    cbv
  obtain ⟨definition, hdefinition⟩ := hdefinition
  have hread :
      (writtenFiles texts.files).readArtifact "store" "users.interface" ".json" =
        .ok "\x7b\x7d" := rfl
  refine ⟨⟨[("users", ({}, "SELECT 1"))], []⟩, by cbv, hcoexist, ⟨by decide, rfl, rfl⟩, by decide,
    ⟨definition, ?_⟩, rfl⟩
  change (writtenFiles texts.files).decodeArtifact "store" "users.interface" ".json" _ = _
  simp only [decodeArtifact, hread, bind, Except.bind, hdefinition]

end Agreement

end QueryTerms
