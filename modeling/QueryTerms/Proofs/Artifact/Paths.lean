import Mathlib
import QueryTerms.Artifact.Directory
import QueryTerms.Proofs.Term.Shorthand

/-!
# Where artifacts lie

A directory reads an artifact from the path that consists of a leaf's id and a suffix.  The id may
be any text, so the path may be one that leads out of the directory.

**Paths.**  `resolvePath` follows a path by its text alone: names lead down, two dots lead up, a
slash at the front leads to the root of everything.  Behind the path of a directory, a relative
path leads on from there (`resolvePath_joinPath`).  A path lies below a place if it leads there
through plain names only (`LiesBelow`).

**Ids.**  Whatever the id, a directory refuses it or reads the file at one place below itself:
`Entry.refused_or_readsAt`.  Ids that terms can hold are not refused: `Entry.accepts_of_isValidId`.
-/

namespace QueryTerms

/-! ## Paths -/

/-- A name that leads one step down. -/
structure IsPlainName (name : String) : Prop where
  ne_empty : name ≠ ""
  ne_here : name ≠ "."
  ne_up : name ≠ ".."
  noSlash : '/' ∉ name.toList

/-- One step on a path from a place below the root of everything. -/
def stepTo (place : List String) (name : String) : List String :=
  if name = "" ∨ name = "." then place
  else if name = ".." then place.dropLast
  else place ++ [name]

/-- Where a path leads from a place, by its text alone. -/
def resolvePath (place : List String) (path : String) : List String :=
  (Text.path path "/").foldl stepTo (if path.toList.head? = some '/' then [] else place)

/-- From every place, the path leads further down, by plain names only. -/
structure LiesBelow (path : String) (names : List String) : Prop where
  strictly : names ≠ []
  plain : ∀ name ∈ names, IsPlainName name
  resolves : ∀ place, resolvePath place path = place ++ names
  /-- Behind the path of a directory, it leads below that directory. -/
  joined : ∀ start place,
    resolvePath start (joinPath place path) = resolvePath start place ++ names

/-- How the paths of artifacts end. -/
def artifactSuffixes : List String := [".interface.json", ".sql", ".json"]

/-! ### Components and segments -/

lemma piecesFrom_slash (text : List Char) :
    (Text.piecesFrom ['/'] 0 text).1 :: (Text.piecesFrom ['/'] 0 text).2 = segments text := by
  induction text with
  | nil => rfl
  | cons c cs ih =>
    rw [Text.piecesFrom, segments, ← ih]
    by_cases hslash : c = '/'
    · subst hslash
      rfl
    · have hstart : ['/'].isPrefixOf (c :: cs) = false := by
        simp [List.isPrefixOf, Ne.symm hslash]
      rw [hstart, if_neg Bool.false_ne_true, if_neg hslash]

/-- The components of a path are the segments of its text. -/
lemma path_slash_eq (text : String) :
    Text.path text "/" = (segments text.toList).map String.ofList := by
  rw [Text.path, ← piecesFrom_slash]
  rfl

lemma slash_notMem_segment (text : List Char) : ∀ segment ∈ segments text, '/' ∉ segment := by
  induction text with
  | nil => simp [segments]
  | cons c cs ih =>
    obtain ⟨first, rest, hsegments⟩ := List.exists_cons_of_ne_nil (Term.segments_ne_nil cs)
    rw [hsegments, List.forall_mem_cons] at ih
    rw [segments, hsegments]
    by_cases hslash : c = '/'
    · rw [if_pos hslash]
      simp [ih.1]
      exact ih.2
    · rw [if_neg hslash, List.forall_mem_cons, List.mem_cons, not_or]
      exact ⟨⟨Ne.symm hslash, ih.1⟩, ih.2⟩

/-- A path that is not refused does not begin at the root of everything and never leads up. -/
lemma relativePath?_eq_some_iff {path : String} {names : List String} :
    relativePath? path = some names ↔
      (path.toList.head? ≠ some '/' ∧ (Text.path path "/").head? ≠ some "." ∧
        ".." ∉ Text.path path "/") ∧ pathComponents path = names := by
  have habsolute : (1 < (Text.path path "/").length ∧ (Text.path path "/").head? = some "") ↔
      path.toList.head? = some '/' := by
    rw [path_slash_eq]
    cases path.toList with
    | nil => simp [segments]
    | cons c cs =>
      obtain ⟨first, rest, hsegments⟩ := List.exists_cons_of_ne_nil (Term.segments_ne_nil cs)
      rw [segments, hsegments]
      by_cases hslash : c = '/' <;> simp [hslash]
  rw [ne_eq, ← habsolute, relativePath?]
  by_cases habove : 1 < (Text.path path "/").length ∧ (Text.path path "/").head? = some ""
  · simp [habove]
  · by_cases hhere : (Text.path path "/").head? = some "."
    · simp [hhere]
    · by_cases hup : ".." ∈ Text.path path "/" <;> simp [habove, hhere, hup]

/-- Components that do not lead up lead down, or nowhere. -/
lemma foldl_stepTo {parts : List String} (h : ".." ∉ parts) (place : List String) :
    parts.foldl stepTo place = place ++ parts.filter fun name => name != "" && name != "." := by
  induction parts generalizing place with
  | nil => simp
  | cons name rest ih =>
    rw [List.mem_cons, not_or] at h
    rw [List.foldl_cons, ih h.2]
    by_cases hstay : name = "" ∨ name = "."
    · have hdropped : (name != "" && name != ".") = false := by
        rcases hstay with rfl | rfl <;> rfl
      rw [stepTo, if_pos hstay, List.filter_cons, hdropped, if_neg Bool.false_ne_true]
    · have hkept : (name != "" && name != ".") = true := by
        simpa [not_or] using hstay
      rw [stepTo, if_neg hstay, if_neg (Ne.symm h.1), List.filter_cons, hkept, if_pos rfl,
        List.append_assoc, List.singleton_append]

/-! ### A path behind another one -/

lemma segments_append_slash (front back : List Char) :
    segments (front ++ '/' :: back) = segments front ++ segments back := by
  have htail : segments ('/' :: back) = [] :: segments back := if_pos rfl
  obtain ⟨init, last, hfront, hwhole⟩ := Term.segments_append htail front
  rw [hwhole, hfront, List.append_nil, List.append_assoc, List.singleton_append]

/-- Where the steps lead that a text consists of. -/
def walk (start : List String) (text : List Char) : List String :=
  ((segments text).map String.ofList).foldl stepTo start

lemma walk_nil (start : List String) : walk start [] = start := by
  rw [walk, segments, List.map_singleton, List.foldl_cons, List.foldl_nil, String.ofList_nil,
    stepTo, if_pos (.inl rfl)]

/-- What stands before a slash comes first. -/
lemma walk_append_slash (start : List String) (front back : List Char) :
    walk start (front ++ '/' :: back) = walk (walk start front) back := by
  rw [walk, walk, walk, segments_append_slash, List.map_append, List.foldl_append]

/-- Whether a slash is put between them or not, the steps of the first path come first. -/
lemma walk_joinPath (start : List String) (place path : String) :
    walk start (joinPath place path).toList = walk (walk start place.toList) path.toList := by
  rw [joinPath]
  split
  · next hlast =>
    have hempty : place.toList = [] := List.getLast?_eq_none_iff.mp hlast
    rw [String.toList_append, hempty, List.nil_append, walk_nil]
  · next hlast =>
    obtain ⟨front, hfront⟩ := List.getLast?_eq_some_iff.mp hlast
    rw [String.toList_append, hfront, List.append_assoc, List.singleton_append, walk_append_slash,
      walk_append_slash, walk_nil]
  · rw [String.toList_append, String.toList_append, List.append_assoc,
      show "/".toList = ['/'] from rfl, List.singleton_append, walk_append_slash]

lemma resolvePath_eq_walk (place : List String) (path : String) :
    resolvePath place path =
      walk (if path.toList.head? = some '/' then [] else place) path.toList := by
  rw [resolvePath, path_slash_eq, walk]

/-- Behind another one, a relative path leads on from where that one ends. -/
lemma resolvePath_joinPath {path : String} (hrelative : path.toList.head? ≠ some '/')
    (start : List String) (place : String) :
    resolvePath start (joinPath place path) = resolvePath (resolvePath start place) path := by
  have hhead : (joinPath place path).toList.head? = some '/' ↔ place.toList.head? = some '/' := by
    rw [joinPath]
    cases hplace : place.toList with
    | nil => simpa [hplace] using hrelative
    | cons c cs => split <;> simp [hplace]
  rw [resolvePath_eq_walk, resolvePath_eq_walk, resolvePath_eq_walk, if_neg hrelative,
    walk_joinPath]
  simp only [hhead]

/-! ## Artifacts -/

/-- The suffix goes on the last segment of the id. -/
lemma exists_segments_artifact (leaf : String) {suffix : String} (h : suffix ∈ artifactSuffixes) :
    ∃ front last, segments leaf.toList = front ++ [last] ∧
      segments (leaf ++ suffix).toList = front ++ [last ++ suffix.toList] := by
  have hsegments : segments suffix.toList = suffix.toList :: [] := by
    simp only [artifactSuffixes, List.mem_cons, List.not_mem_nil, or_false] at h
    rcases h with rfl | rfl | rfl <;> rfl
  rw [String.toList_append]
  exact Term.segments_append hsegments leaf.toList

/-- **The path of an artifact is refused or lies below.** -/
theorem liesBelow_of_relativePath? {leaf suffix : String} {names : List String}
    (hsuffix : suffix ∈ artifactSuffixes) (h : relativePath? (leaf ++ suffix) = some names) :
    LiesBelow (leaf ++ suffix) names := by
  obtain ⟨⟨hrelative, -, hup⟩, rfl⟩ := relativePath?_eq_some_iff.mp h
  have hresolves : ∀ place, resolvePath place (leaf ++ suffix) =
      place ++ pathComponents (leaf ++ suffix) := by
    intro place
    rw [resolvePath, if_neg hrelative, foldl_stepTo hup, pathComponents]
  refine ⟨?_, fun name hname => ?_, hresolves, fun start place => ?_⟩
  · obtain ⟨front, last, -, hsegments⟩ := exists_segments_artifact leaf hsuffix
    have hlast : String.ofList (last ++ suffix.toList) ∈ Text.path (leaf ++ suffix) "/" := by
      rw [path_slash_eq, hsegments]
      exact List.mem_map_of_mem (List.mem_append_right front List.mem_cons_self)
    have hlong : 2 ≤ suffix.toList.length := by
      simp only [artifactSuffixes, List.mem_cons, List.not_mem_nil, or_false] at hsuffix
      rcases hsuffix with rfl | rfl | rfl <;> decide
    have hlength : 2 ≤ (String.ofList (last ++ suffix.toList)).toList.length := by
      rw [String.toList_ofList, List.length_append]
      exact hlong.trans (Nat.le_add_left _ _)
    refine List.ne_nil_of_mem (List.mem_filter.mpr ⟨hlast, ?_⟩)
    rw [Bool.and_eq_true, bne_iff_ne, bne_iff_ne]
    constructor <;>
      · intro heq
        rw [heq] at hlength
        exact absurd hlength (by decide)
  · obtain ⟨hmem, hkept⟩ := List.mem_filter.mp hname
    obtain ⟨hempty, hhere⟩ : name ≠ "" ∧ name ≠ "." := by simpa using hkept
    refine ⟨hempty, hhere, fun heq => hup (heq ▸ hmem), ?_⟩
    rw [path_slash_eq] at hmem
    obtain ⟨segment, hsegment, rfl⟩ := List.mem_map.mp hmem
    rw [String.toList_ofList]
    exact slash_notMem_segment _ segment hsegment
  · rw [resolvePath_joinPath hrelative, hresolves]

namespace Entry

/-- What every directory answers for an artifact comes from the place that the names lead to. -/
structure ReadsAt (leaf suffix : String) (names : List String) : Prop where
  below : LiesBelow (leaf ++ suffix) names
  /-- What is answered depends on what lies at that place. -/
  only : ∀ place (root other : Entry), root.lookup names = other.lookup names →
    root.readArtifact place leaf suffix = other.readArtifact place leaf suffix
  /-- A text is answered exactly if it is that of the file there, on a path that can be opened. -/
  text : ∀ place (root : Entry) (text : String),
    root.readArtifact place leaf suffix = .ok text ↔
      CanOpen (joinPath place (leaf ++ suffix)) ∧ root.lookup names = .ok (.file (.text text))
  /-- The id is not refused. -/
  accepted : ∀ place (root : Entry),
    root.readArtifact place leaf suffix ≠ .error (.invalidLeaf leaf)

lemma readText_eq_ok_iff {root : Entry} {place path text : String} :
    root.readText place path = .ok text ↔
      CanOpen (joinPath place path) ∧
        root.lookup (pathComponents path) = .ok (.file (.text text)) := by
  rw [readText]
  by_cases hopen : CanOpen (joinPath place path)
  · rw [if_pos hopen, and_iff_right hopen]
    split <;> simp_all
  · simp [hopen]

/-- The path of an artifact is read unless it is refused. -/
lemma readArtifact_eq_ok_iff {root : Entry} {place leaf suffix text : String} {names : List String}
    (h : relativePath? (leaf ++ suffix) = some names) :
    root.readArtifact place leaf suffix = .ok text ↔
      root.readText place (leaf ++ suffix) = .ok text := by
  simp only [readArtifact, h]
  split <;> simp_all

/-- **Artifacts never come from outside.**  A directory refuses an id, or it reads from below
itself. -/
theorem refused_or_readsAt (leaf : String) {suffix : String} (h : suffix ∈ artifactSuffixes) :
    (∀ place (root : Entry),
        root.readArtifact place leaf suffix = .error (.invalidLeaf leaf)) ∨
      ∃ names, ReadsAt leaf suffix names := by
  cases hpath : relativePath? (leaf ++ suffix) with
  | none => exact .inl fun place root => by rw [readArtifact, hpath]
  | some names =>
    obtain ⟨-, hnames⟩ := relativePath?_eq_some_iff.mp hpath
    refine .inr ⟨names, liesBelow_of_relativePath? h hpath, fun place root other hsame => ?_,
      fun place root text => ?_, fun place root hread => ?_⟩
    · rw [readArtifact, readArtifact, hpath, readText, readText, hnames, hsame]
    · rw [readArtifact_eq_ok_iff hpath, readText_eq_ok_iff, hnames]
    · simp only [readArtifact, hpath] at hread
      split at hread <;> cases hread

/-! ## Ids -/

/-- The directory answers every question about the id, be it that there is no such file. -/
structure Accepts (root : Entry) (place id : String) : Prop where
  interface : ∀ leaf, (root.toStore place).interface id ≠ .error (.invalidLeaf leaf)
  statement : ∀ leaf, (root.toStore place).statement id ≠ .error (.invalidLeaf leaf)
  definition : ∀ leaf, (root.toStore place).definition id ≠ .error (.invalidLeaf leaf)

lemma segments_of_isValidId {id suffix : String} (hid : isValidId id.toList = true)
    (hsuffix : suffix ∈ artifactSuffixes) :
    ∀ segment ∈ segments (id ++ suffix).toList, segment ≠ [] ∧ segment.head? ≠ some '.' := by
  obtain ⟨front, last, hsegments, hwhole⟩ := exists_segments_artifact id hsuffix
  simp only [isValidId, hsegments, Bool.and_eq_true, List.all_eq_true] at hid
  have hplain : ∀ segment ∈ front ++ [last], segment ≠ [] ∧ segment.head? ≠ some '.' := by
    intro segment hsegment
    have h := hid.2 segment hsegment
    simp only [isPlainSegment, Bool.and_eq_true, Bool.not_eq_true', List.isEmpty_eq_false_iff,
      bne_iff_ne] at h
    exact h.1
  rw [hwhole]
  intro segment hsegment
  rcases List.mem_append.mp hsegment with hfront | hlast
  · exact hplain segment (List.mem_append_left _ hfront)
  · obtain ⟨hne, hhead⟩ := hplain last (List.mem_append_right _ List.mem_cons_self)
    rw [List.mem_singleton.mp hlast, List.head?_append_of_ne_nil _ hne]
    exact ⟨List.append_ne_nil_of_left_ne_nil hne _, hhead⟩

/-- No path of an artifact of an id is refused. -/
lemma relativePath?_of_isValidId {id suffix : String} (hid : isValidId id.toList = true)
    (hsuffix : suffix ∈ artifactSuffixes) :
    relativePath? (id ++ suffix) = some (pathComponents (id ++ suffix)) := by
  have hsegments := segments_of_isValidId hid hsuffix
  have hparts : ∀ name ∈ Text.path (id ++ suffix) "/", name.toList.head? ≠ some '.' := by
    intro name hname
    rw [path_slash_eq] at hname
    obtain ⟨segment, hsegment, rfl⟩ := List.mem_map.mp hname
    rw [String.toList_ofList]
    exact (hsegments segment hsegment).2
  refine relativePath?_eq_some_iff.mpr ⟨⟨fun habsolute => ?_, fun hhere => ?_, fun hup => ?_⟩, rfl⟩
  · obtain ⟨cs, hcs⟩ := List.head?_eq_some_iff.mp habsolute
    rw [hcs, segments, if_pos rfl] at hsegments
    exact (hsegments [] List.mem_cons_self).1 rfl
  · exact hparts "." (List.mem_of_head? hhere) rfl
  · exact hparts ".." hup rfl

lemma readArtifact_ne_invalidLeaf {id suffix : String} (hid : isValidId id.toList = true)
    (hsuffix : suffix ∈ artifactSuffixes) (root : Entry) (place leaf : String) :
    root.readArtifact place id suffix ≠ .error (.invalidLeaf leaf) := by
  intro hread
  simp only [readArtifact, relativePath?_of_isValidId hid hsuffix] at hread
  split at hread <;> cases hread

lemma decodeArtifact_ne_invalidLeaf {α : Type} {id suffix : String}
    (hid : isValidId id.toList = true) (hsuffix : suffix ∈ artifactSuffixes) (root : Entry)
    (place : String) (decode : String → Option α) (leaf : String) :
    root.decodeArtifact place id suffix decode ≠ .error (.invalidLeaf leaf) := by
  intro hdecode
  rw [decodeArtifact] at hdecode
  cases hread : root.readArtifact place id suffix with
  | error cause =>
    rw [hread] at hdecode
    cases hdecode
    exact readArtifact_ne_invalidLeaf hid hsuffix root place leaf hread
  | ok text =>
    simp only [hread, bind, Except.bind] at hdecode
    split at hdecode <;> cases hdecode

/-- **What the reader of terms lets pass as an id, every directory accepts.** -/
theorem accepts_of_isValidId {id : String} (h : isValidId id.toList = true) (root : Entry)
    (place : String) : root.Accepts place id where
  interface := decodeArtifact_ne_invalidLeaf h List.mem_cons_self root place _
  statement := readArtifact_ne_invalidLeaf h (List.mem_cons_of_mem _ List.mem_cons_self) root place
  definition := decodeArtifact_ne_invalidLeaf h
    (List.mem_cons_of_mem _ (List.mem_cons_of_mem _ List.mem_cons_self)) root place _

end Entry

end QueryTerms
