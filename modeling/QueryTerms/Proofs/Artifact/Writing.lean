import Mathlib
import QueryTerms.Artifact.Directory
import QueryTerms.Proofs.Table

/-!
# What lies in a directory after writing

Files are written one after another, and directories are made on the way.  Writing never fails, but
a file that goes where another one's directory is, or below another file, takes its place.

**One file.**  `lookup_write_file_iff` and `lookup_write_directory_iff` say where files and
directories lie after a file has been written, in terms of where they lay before.

**All files.**  Files can coexist if none lies at another one's path or below it, and all names are
short enough (`CanCoexist`).  Then they are all there, at their paths, and nothing else is, except
for the directories on the way (`holds_writtenFiles`).

**Reading.**  A path at which no file lies is missing or, for four reasons, unreadable
(`IsBlocked`): `Holds.readText_eq_unreadable`, `Holds.readText_eq_missing`.  One of the reasons
depends on where the root lies: behind its path, the path may be too long.
-/

namespace QueryTerms

/-- A file with its path. -/
structure TextFile where
  path : String
  text : String

/-- The names on the path of a file, its own last. -/
def TextFile.names (file : TextFile) : List String := pathComponents file.path

namespace Entry

/-- A directory lies at the end of the names. -/
def IsDirectoryAt (root : Entry) (names : List String) : Prop :=
  ∃ list, root.lookup names = .ok (.directory list)

/-- The files, written one after another. -/
def writtenFiles (files : List TextFile) : Entry :=
  files.foldl (fun root file => root.write file.names (.file (.text file.text))) empty

/-! ## One file -/

section Lookup

variable {root place entry : Entry} {name : String} {names query : List String}
  {list : List (String × Entry)}

lemma lookup_of_some (hshort : name.utf8ByteSize ≤ maxNameBytes)
    (h : Table.get? name list = some place) :
    (directory list).lookup (name :: names) = place.lookup names := by
  rw [lookup, if_neg (Nat.not_lt_of_le hshort), h]

lemma lookup_of_none (hshort : name.utf8ByteSize ≤ maxNameBytes)
    (h : Table.get? name list = none) :
    (directory list).lookup (name :: names) = .error .missing := by
  rw [lookup, if_neg (Nat.not_lt_of_le hshort), h]

/-- A look-up that succeeds has found its first name in a directory. -/
lemma exists_of_lookup (h : root.lookup (name :: names) = .ok entry) :
    ∃ list place, root = .directory list ∧ name.utf8ByteSize ≤ maxNameBytes ∧
      Table.get? name list = some place ∧ place.lookup names = .ok entry := by
  cases root with
  | file content => cases h
  | directory list =>
    rw [lookup] at h
    split at h
    · cases h
    · next hshort =>
      split at h
      · cases h
      · next place hplace => exact ⟨list, place, rfl, Nat.le_of_not_lt hshort, hplace, h⟩

lemma lookup_empty_eq_ok (h : empty.lookup query = .ok entry) : query = [] ∧ entry = empty := by
  cases query with
  | nil => exact ⟨rfl, (Except.ok.inj h).symm⟩
  | cons name rest =>
    obtain ⟨list, place, hlist, -, hplace, -⟩ := exists_of_lookup h
    cases hlist
    cases hplace

/-- Below an entry that is there, the look-up goes on there. -/
lemma lookup_append (h : root.lookup names = .ok entry) (more : List String) :
    root.lookup (names ++ more) = entry.lookup more := by
  induction names generalizing root with
  | nil =>
    cases h
    rfl
  | cons name rest ih =>
    obtain ⟨list, place, rfl, hshort, hplace, hrest⟩ := exists_of_lookup h
    rw [List.cons_append, lookup_of_some hshort hplace, ih hrest]

end Lookup

/-- No file is in the way of the names: none of the places on the way to their end is a file. -/
def IsClear (root : Entry) (names : List String) : Prop :=
  ∀ front, front <+: names → front ≠ names → ∀ content, root.lookup front ≠ .ok (.file content)

section Write

variable {root : Entry} {name : String} {names query : List String} {content : Content}

/-- What a name leads to in a place that is about to be changed below this name. -/
def inside (root : Entry) (name : String) : Entry := (root.entries.get? name).getD empty

lemma write_cons (new : Entry) :
    root.write (name :: names) new =
      .directory (root.entries.set name ((root.inside name).write names new)) := by
  rw [write, inside]

lemma IsClear.exists_directory (h : root.IsClear (name :: names)) :
    ∃ list, root = .directory list := by
  cases root with
  | file content => exact absurd rfl (h [] List.nil_prefix (List.cons_ne_nil _ _).symm content)
  | directory list => exact ⟨list, rfl⟩

/-- What is inside a directory is what lies there, or nothing does and it is empty. -/
lemma lookup_inside (list : List (String × Entry)) (query : List String)
    (hshort : name.utf8ByteSize ≤ maxNameBytes) :
    ((directory list).inside name).lookup query = (directory list).lookup (name :: query) ∨
      ((directory list).lookup (name :: query) = .error .missing ∧
        (directory list).inside name = empty) := by
  rw [inside, entries]
  cases hplace : Table.get? name list with
  | none => exact .inr ⟨lookup_of_none hshort hplace, rfl⟩
  | some place => exact .inl (lookup_of_some hshort hplace).symm

lemma IsClear.inside (h : root.IsClear (name :: names))
    (hshort : name.utf8ByteSize ≤ maxNameBytes) : (root.inside name).IsClear names := by
  obtain ⟨list, rfl⟩ := h.exists_directory
  intro front hfront hne content hlookup
  rcases lookup_inside list front hshort with heq | ⟨-, hempty⟩
  · exact h (name :: front) (List.cons_prefix_cons.mpr ⟨rfl, hfront⟩)
      (fun heq => hne (List.cons.inj heq).2) content (heq ▸ hlookup)
  · rw [hempty] at hlookup
    cases (lookup_empty_eq_ok hlookup).2

/-- Below another name, everything is as it was. -/
lemma lookup_write_of_ne {other : String} (hne : name ≠ other) (new : Entry)
    {list : List (String × Entry)} :
    ((directory list).write (name :: names) new).lookup (other :: query) =
      (directory list).lookup (other :: query) := by
  rw [write_cons, lookup, lookup, entries, Table.get?_set, if_neg hne]

lemma lookup_write_cons (hshort : name.utf8ByteSize ≤ maxNameBytes) (new : Entry) :
    (root.write (name :: names) new).lookup (name :: query) =
      ((root.inside name).write names new).lookup query := by
  rw [write_cons]
  exact lookup_of_some hshort (by rw [Table.get?_set, if_pos rfl])

/-- **Where files lie after writing one**: at the end of its names, and wherever they lay before,
except on the way to it and below it. -/
theorem lookup_write_file_iff (hclear : root.IsClear names)
    (hshort : ∀ name ∈ names, name.utf8ByteSize ≤ maxNameBytes) {found : Content} :
    (root.write names (.file content)).lookup query = .ok (.file found) ↔
      (query = names ∧ found = content) ∨
        (¬ query <+: names ∧ ¬ names <+: query ∧ root.lookup query = .ok (.file found)) := by
  induction names generalizing root query with
  | nil =>
    cases query with
    | nil => simp [write, lookup, eq_comm]
    | cons other rest => simp [write, lookup]
  | cons name names ih =>
    obtain ⟨hname, hnames⟩ := List.forall_mem_cons.mp hshort
    obtain ⟨list, rfl⟩ := hclear.exists_directory
    cases query with
    | nil => simp [write_cons, lookup]
    | cons other rest =>
      by_cases heq : name = other
      · subst heq
        rw [lookup_write_cons hname, ih (hclear.inside hname) hnames]
        simp only [List.cons.injEq, true_and, List.cons_prefix_cons]
        refine or_congr_right (and_congr_right fun hquery => and_congr_right fun _ => ?_)
        rcases lookup_inside list rest hname with hsame | ⟨hmissing, hempty⟩
        · rw [hsame]
        · rw [hempty, hmissing]
          constructor
          · intro hlookup
            obtain ⟨rfl, -⟩ := lookup_empty_eq_ok hlookup
            exact absurd List.nil_prefix hquery
          · exact nofun
      · rw [lookup_write_of_ne heq]
        simp [heq, Ne.symm heq]

/-- **Where directories lie after writing a file**: on the way to it, and wherever they lay before,
except at the end of its names and below. -/
theorem lookup_write_directory_iff (hclear : root.IsClear names)
    (hshort : ∀ name ∈ names, name.utf8ByteSize ≤ maxNameBytes) :
    (root.write names (.file content)).IsDirectoryAt query ↔
      (query <+: names ∧ query ≠ names) ∨ (¬ names <+: query ∧ root.IsDirectoryAt query) := by
  induction names generalizing root query with
  | nil =>
    cases query with
    | nil => simp [write, lookup, IsDirectoryAt]
    | cons other rest => simp [write, lookup, IsDirectoryAt]
  | cons name names ih =>
    obtain ⟨hname, hnames⟩ := List.forall_mem_cons.mp hshort
    obtain ⟨list, rfl⟩ := hclear.exists_directory
    cases query with
    | nil => simp [write_cons, lookup, IsDirectoryAt]
    | cons other rest =>
      by_cases heq : name = other
      · subst heq
        have hwritten : ((directory list).write (name :: names) (.file content)).IsDirectoryAt
              (name :: rest) ↔
            (((directory list).inside name).write names (.file content)).IsDirectoryAt rest := by
          rw [IsDirectoryAt, IsDirectoryAt, lookup_write_cons hname]
        rw [hwritten, ih (hclear.inside hname) hnames]
        simp only [ne_eq, List.cons.injEq, true_and, List.cons_prefix_cons]
        rcases lookup_inside list rest hname with hsame | ⟨hmissing, hempty⟩
        · rw [IsDirectoryAt, IsDirectoryAt, hsame]
        · -- An empty place inside is on the way to the file.
          have hnone : ¬ (directory list).IsDirectoryAt (name :: rest) := by
            rintro ⟨found, hfound⟩
            rw [hmissing] at hfound
            cases hfound
          rw [hempty, iff_false_intro hnone, and_false, or_false, or_iff_left_iff_imp]
          rintro ⟨hapart, found, hfound⟩
          obtain ⟨rfl, -⟩ := lookup_empty_eq_ok hfound
          exact ⟨List.nil_prefix, fun hnil => hapart (hnil ▸ List.prefix_refl _)⟩
      · rw [IsDirectoryAt, IsDirectoryAt, lookup_write_of_ne heq]
        simp [heq, Ne.symm heq]

end Write

/-! ## All files -/

/-- Files that can lie together below a root at `place`, none of them in the way of another one. -/
structure CanCoexist (place : String) (files : List TextFile) : Prop where
  apart : files.Pairwise fun file other =>
    ¬ file.names <+: other.names ∧ ¬ other.names <+: file.names
  below : ∀ file ∈ files, file.names ≠ []
  shortNames : ∀ file ∈ files, ∀ name ∈ file.names, name.utf8ByteSize ≤ maxNameBytes
  opened : ∀ file ∈ files, CanOpen (joinPath place file.path)
  /-- Not even the path of a root can have this character. -/
  plainPlace : '\x00' ∉ place.toList

/-- The names lead to the root, or to a directory on the way to one of the files. -/
def IsOnTheWay (files : List TextFile) (names : List String) : Prop :=
  names = [] ∨ ∃ file ∈ files, names <+: file.names ∧ names ≠ file.names

/-- The files are below the root, and nothing else is but the directories on the way to them. -/
structure Holds (root : Entry) (files : List TextFile) : Prop where
  file_iff : ∀ names content, root.lookup names = .ok (.file content) ↔
    ∃ file ∈ files, file.names = names ∧ content = .text file.text
  directory_iff : ∀ names, root.IsDirectoryAt names ↔ IsOnTheWay files names

section Holds

variable {root : Entry} {place : String} {files : List TextFile} {file : TextFile}
  {names : List String}

lemma holds_empty : empty.Holds [] where
  file_iff names content := by
    refine ⟨fun h => ?_, fun ⟨_, hmem, _⟩ => absurd hmem List.not_mem_nil⟩
    cases (lookup_empty_eq_ok h).2
  directory_iff names := by
    constructor
    · rintro ⟨list, h⟩
      exact .inl (lookup_empty_eq_ok h).1
    · rintro (rfl | ⟨file, hmem, -⟩)
      · exact ⟨[], rfl⟩
      · exact absurd hmem List.not_mem_nil

/-- One more file that is in nobody's way. -/
lemma Holds.write (h : root.Holds files) (hbelow : file.names ≠ [])
    (hshort : ∀ name ∈ file.names, name.utf8ByteSize ≤ maxNameBytes)
    (hapart : ∀ other ∈ files, ¬ other.names <+: file.names ∧ ¬ file.names <+: other.names) :
    (root.write file.names (.file (.text file.text))).Holds (files ++ [file]) := by
  have hclear : root.IsClear file.names := by
    intro front hfront _ content hlookup
    obtain ⟨other, hmem, rfl, -⟩ := (h.file_iff _ _).mp hlookup
    exact (hapart other hmem).1 hfront
  constructor
  · intro names content
    rw [lookup_write_file_iff hclear hshort, h.file_iff]
    simp only [List.mem_append, List.mem_singleton, or_and_right, exists_or, exists_eq_left]
    rw [or_comm, eq_comm]
    refine or_congr_left ⟨fun ⟨_, _, hfound⟩ => hfound, fun hfound => ?_⟩
    obtain ⟨other, hmem, rfl, -⟩ := id hfound
    exact ⟨(hapart other hmem).1, (hapart other hmem).2, hfound⟩
  · intro names
    rw [lookup_write_directory_iff hclear hshort, h.directory_iff]
    constructor
    · rintro (⟨hstart, hne⟩ | ⟨-, rfl | ⟨other, hmem, hother⟩⟩)
      · exact .inr ⟨file, List.mem_append_right _ (List.mem_singleton_self file), hstart, hne⟩
      · exact .inl rfl
      · exact .inr ⟨other, List.mem_append_left _ hmem, hother⟩
    · rintro (rfl | ⟨other, hmem, hother⟩)
      · exact .inl ⟨List.nil_prefix, hbelow.symm⟩
      · rcases List.mem_append.mp hmem with hold | hnew
        · refine .inr ⟨fun hstart => ?_, .inr ⟨other, hold, hother⟩⟩
          exact (hapart other hold).2 (hstart.trans hother.1)
        · cases List.mem_singleton.mp hnew
          exact .inl hother

lemma CanCoexist.front {front : List TextFile} (h : CanCoexist place (front ++ [file])) :
    CanCoexist place front := by
  have hmem : ∀ other ∈ front, other ∈ front ++ [file] :=
    fun other hother => List.mem_append_left _ hother
  exact
    { apart := (List.pairwise_append.mp h.apart).1
      below := fun other hother => h.below other (hmem other hother)
      shortNames := fun other hother => h.shortNames other (hmem other hother)
      opened := fun other hother => h.opened other (hmem other hother)
      plainPlace := h.plainPlace }

/-- **What lies below the root when all files are written** are these files, if they can coexist. -/
theorem holds_writtenFiles (h : CanCoexist place files) : (writtenFiles files).Holds files := by
  -- The last file is written into a tree that holds the ones before it.
  induction files using List.reverseRecOn with
  | nil => exact holds_empty
  | append_singleton front file ih =>
    have hself : file ∈ front ++ [file] := List.mem_append_right _ (List.mem_singleton_self file)
    have hlast := (List.pairwise_append.mp h.apart).2.2
    rw [writtenFiles, List.foldl_append]
    exact (ih h.front).write (h.below file hself) (h.shortNames file hself)
      fun other hother => hlast other hother file (List.mem_singleton_self file)

end Holds

/-! ## Reading -/

section Reading

variable {root : Entry} {files : List TextFile} {file : TextFile} {names : List String}
  {place path : String}

/-- A look-up fails for another reason than a missing name where the names lead through a file, or
where one of them is too long for the directory it is looked up in. -/
lemma lookup_eq_unreadable_iff :
    root.lookup names = .error .unreadable ↔
      ∃ front name back, names = front ++ name :: back ∧
        ((∃ content, root.lookup front = .ok (.file content)) ∨
          (root.IsDirectoryAt front ∧ maxNameBytes < name.utf8ByteSize)) := by
  constructor
  · intro h
    induction names generalizing root with
    | nil => cases h
    | cons name rest ih =>
      cases root with
      | file content => exact ⟨[], name, rest, rfl, .inl ⟨content, rfl⟩⟩
      | directory list =>
        by_cases hshort : name.utf8ByteSize ≤ maxNameBytes
        · cases hplace : Table.get? name list with
          | none =>
            rw [lookup_of_none hshort hplace] at h
            cases h
          | some place =>
            rw [lookup_of_some hshort hplace] at h
            obtain ⟨front, other, back, rfl, hreason⟩ := ih h
            refine ⟨name :: front, other, back, rfl, ?_⟩
            rw [IsDirectoryAt, lookup_of_some hshort hplace]
            exact hreason
        · exact ⟨[], name, rest, rfl, .inr ⟨⟨list, rfl⟩, Nat.lt_of_not_le hshort⟩⟩
  · rintro ⟨front, name, back, rfl, ⟨content, hfile⟩ | ⟨⟨list, hlist⟩, hlong⟩⟩
    · rw [lookup_append hfile, lookup]
    · rw [lookup_append hlist, lookup, if_pos hlong]

/-- Why a path is unreadable though it stays below the root: behind the path of the root it is too
long, it ends at a directory, it leads through a file, or a name is too long for the directory it
is looked up in. -/
inductive IsBlocked (place : String) (files : List TextFile) (path : String) : Prop where
  | tooLong (h : maxPathBytes < (joinPath place path).utf8ByteSize)
  | directory (h : IsOnTheWay files (pathComponents path))
  | throughFile (file : TextFile) (hmem : file ∈ files)
      (hstart : file.names <+: pathComponents path) (hne : file.names ≠ pathComponents path)
  | longName (front back : List String) (name : String)
      (hpath : pathComponents path = front ++ name :: back) (hfront : IsOnTheWay files front)
      (hlong : maxNameBytes < name.utf8ByteSize)

lemma Holds.lookup_eq_unreadable_iff (h : root.Holds files) :
    root.lookup names = .error .unreadable ↔
      (∃ file ∈ files, file.names <+: names ∧ file.names ≠ names) ∨
        ∃ front name back, names = front ++ name :: back ∧ IsOnTheWay files front ∧
          maxNameBytes < name.utf8ByteSize := by
  rw [Entry.lookup_eq_unreadable_iff]
  simp only [h.file_iff, h.directory_iff]
  constructor
  · rintro ⟨front, name, back, rfl, ⟨content, file, hmem, rfl, -⟩ | hlong⟩
    · exact .inl ⟨file, hmem, List.prefix_append _ _, by simp⟩
    · exact .inr ⟨front, name, back, rfl, hlong⟩
  · rintro (⟨file, hmem, ⟨back, rfl⟩, hne⟩ | ⟨front, name, back, rfl, hlong⟩)
    · cases back with
      | nil => exact absurd (List.append_nil _).symm hne
      | cons name back => exact ⟨_, name, back, rfl, .inl ⟨_, file, hmem, rfl, rfl⟩⟩
    · exact ⟨front, name, back, rfl, .inr hlong⟩

/-- Where a file lies, its text is read. -/
lemma Holds.readText_of_mem (h : root.Holds files) (hmem : file ∈ files)
    (hnames : file.names = pathComponents path) (hopen : CanOpen (joinPath place path)) :
    root.readText place path = .ok file.text := by
  have hlookup : root.lookup (pathComponents path) = .ok (.file (.text file.text)) :=
    (h.file_iff _ _).mpr ⟨file, hmem, hnames, rfl⟩
  rw [readText, if_pos hopen, hlookup]

/-- What blocks a path keeps it from being read, though not as missing. -/
lemma Holds.readText_eq_unreadable (h : root.Holds files) (hblocked : IsBlocked place files path) :
    root.readText place path = .error .unreadable := by
  rw [readText]
  split
  · next hopen =>
    cases hblocked with
    | tooLong hlong => exact absurd hopen.1 (Nat.not_le_of_lt hlong)
    | directory hway =>
      obtain ⟨list, hlist⟩ := (h.directory_iff _).mpr hway
      rw [hlist]
    | throughFile file hmem hstart hne =>
      rw [h.lookup_eq_unreadable_iff.mpr (.inl ⟨file, hmem, hstart, hne⟩)]
    | longName front back name hpath hfront hlong =>
      rw [h.lookup_eq_unreadable_iff.mpr (.inr ⟨front, name, back, hpath, hfront, hlong⟩)]
  · rfl

lemma nul_notMem_joinPath (hplace : '\x00' ∉ place.toList) (hpath : '\x00' ∉ path.toList) :
    '\x00' ∉ (joinPath place path).toList := by
  rw [joinPath]
  split <;> simp [hplace, hpath]

/-- A path that nothing blocks is missing where no file lies. -/
lemma Holds.readText_eq_missing (h : root.Holds files) (hblocked : ¬ IsBlocked place files path)
    (hnone : ∀ file ∈ files, file.names ≠ pathComponents path) (hplace : '\x00' ∉ place.toList)
    (hpath : '\x00' ∉ path.toList) : root.readText place path = .error .missing := by
  have hopen : CanOpen (joinPath place path) :=
    ⟨Nat.le_of_not_lt fun hlong => hblocked (.tooLong hlong), nul_notMem_joinPath hplace hpath⟩
  rw [readText, if_pos hopen]
  cases hlookup : root.lookup (pathComponents path) with
  | ok place =>
    cases place with
    | file content =>
      obtain ⟨file, hmem, hnames, -⟩ := (h.file_iff _ _).mp hlookup
      exact absurd hnames (hnone file hmem)
    | directory list => exact absurd (.directory ((h.directory_iff _).mp ⟨list, hlookup⟩)) hblocked
  | error failure =>
    cases failure with
    | missing => rfl
    | unreadable =>
      rcases h.lookup_eq_unreadable_iff.mp hlookup with
        ⟨file, hmem, hstart, hne⟩ | ⟨front, name, back, hpath, hfront, hlong⟩
      · exact absurd (.throughFile file hmem hstart hne) hblocked
      · exact absurd (.longName front back name hpath hfront hlong) hblocked

end Reading

end Entry

end QueryTerms
