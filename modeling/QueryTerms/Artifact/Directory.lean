import QueryTerms.Artifact.Store
import QueryTerms.Interface.Decode
import QueryTerms.Text.Separator

/-!
# Artifacts in a directory

Artifacts are laid out as files below a root:

```text
<leaf>.interface.json     interface of a compiled leaf
<leaf>.sql                its statement
<leaf>.json               definition in fragments
```

A leaf id with slashes names a file in a sub-directory.

**The tree.** `Entry` is a file or a directory; `Entry.write` puts a file at a path,
`Entry.makeDirectory` a directory.

**Looking up.** `Entry.lookup` walks the components of a path.  A name that is missing is told
apart from everything else that keeps a file from being read.

**Paths.** `relativePath?` refuses ids whose path would leave the root: absolute ones, and those
with a component `..` or a leading `.`.  What is opened is `joinPath`, the path of the root with the
relative one behind it; it is this whole path that can be too long.

**The store.** `Entry.toStore`, for a root and the path that leads to it.
-/

namespace QueryTerms

/-- What a file holds: text, or bytes that are no UTF-8. -/
inductive Content where
  | text (text : String)
  | binary

/-- The content that consists of the given bytes. -/
def Content.ofBytes (bytes : ByteArray) : Content :=
  match String.fromUTF8? bytes with
  | some decoded => .text decoded
  | none => .binary

/-- A file, or a directory with its entries by name. -/
inductive Entry where
  | file (content : Content)
  | directory (entries : List (String × Entry))

/-- Why a file is not read: its name is missing, or anything else. -/
inductive ReadFailure where
  | missing
  | unreadable

namespace Entry

/-- An empty directory. -/
def empty : Entry := .directory []

/-- The entries of a directory; a file has none. -/
def entries : Entry → Table String Entry
  | .directory list => list
  | .file _ => []

/-- Puts an entry at a path; directories on the way are made. -/
def write : Entry → List String → Entry → Entry
  | _, [], content => content
  | place, name :: rest, content =>
    .directory (place.entries.set name (write ((place.entries.get? name).getD empty) rest content))

/-- Makes a directory at a path; one that is there keeps its entries. -/
def makeDirectory : Entry → List String → Entry
  | place, [] => .directory place.entries
  | place, name :: rest =>
    .directory
      (place.entries.set name (makeDirectory ((place.entries.get? name).getD empty) rest))

/-- The longest name of an entry, in bytes. -/
def maxNameBytes : Nat := 255

/-- The entry at a path. -/
def lookup : List String → Entry → Except ReadFailure Entry
  | [], place => .ok place
  | _ :: _, .file _ => .error .unreadable
  | name :: rest, .directory list =>
    if maxNameBytes < name.utf8ByteSize then .error .unreadable
    else match Table.get? name list with
      | none => .error .missing
      | some place => lookup rest place

end Entry

/-! ## Paths -/

/-- The longest path that can be opened, in bytes. -/
def maxPathBytes : Nat := 4095

/-- A path can be opened if it is not too long and has no character that ends it. -/
def CanOpen (path : String) : Prop :=
  path.utf8ByteSize ≤ maxPathBytes ∧ '\x00' ∉ path.toList

instance (path : String) : Decidable (CanOpen path) := inferInstanceAs (Decidable (_ ∧ _))

/-- A relative path behind the path of a directory; an empty one is the place where a program
stands. -/
def joinPath (place path : String) : String :=
  match place.toList.getLast? with
  | none | some '/' => place ++ path
  | some _ => place ++ "/" ++ path

/-- The components of a path; empty ones and single dots mean nothing. -/
def pathComponents (path : String) : List String :=
  (Text.path path "/").filter fun name => name != "" && name != "."

/-- The components of a relative path that stays below its root: it does not begin with a slash or
with a component `.`, and no component is `..`. -/
def relativePath? (path : String) : Option (List String) :=
  let parts := Text.path path "/"
  if (1 < parts.length && parts.head? = some "") || parts.head? = some "." || parts.contains ".."
  then none
  else some (pathComponents path)

/-- The text of the file at a path below `root`, which lies at `place`. -/
def Entry.readText (root : Entry) (place path : String) : Except ReadFailure String :=
  if CanOpen (joinPath place path) then
    match root.lookup (pathComponents path) with
    | .ok (.file (.text text)) => .ok text
    | .ok _ => .error .unreadable
    | .error failure => .error failure
  else .error .unreadable

/-! ## The store -/

namespace Entry

/-- The text of the artifact of `leaf` that has the given suffix. -/
def readArtifact (root : Entry) (place leaf suffix : String) : Except StoreError String :=
  let path := leaf ++ suffix
  match relativePath? path with
  | none => .error (.invalidLeaf leaf)
  | some _ =>
    match root.readText place path with
    | .ok text => .ok text
    | .error .missing => .error (.notFound leaf)
    | .error .unreadable => .error (.unreadable (joinPath place path))

/-- An artifact whose text is decoded. -/
def decodeArtifact {α : Type} (root : Entry) (place leaf suffix : String)
    (decode : String → Option α) : Except StoreError α := do
  match decode (← root.readArtifact place leaf suffix) with
  | some artifact => .ok artifact
  | none => .error (.undecodable (joinPath place (leaf ++ suffix)))

mutual

/-- How many characters all texts in files have together. -/
def textLength : Entry → Nat
  | .file (.text text) => text.length
  | .file .binary => 0
  | .directory list => textLengths list

/-- How many characters all texts below the given entries have together. -/
def textLengths : List (String × Entry) → Nat
  | [] => 0
  | (_, place) :: rest => textLength place + textLengths rest

end

/-- The directory at `place` as a store.  Its aliases are written in its files, so they have no more
characters than these. -/
def toStore (root : Entry) (place : String := "") : Store where
  interface leaf := root.decodeArtifact place leaf ".interface.json" Interface.ofJson?
  statement leaf := root.readArtifact place leaf ".sql"
  definition leaf := root.decodeArtifact place leaf ".json" Definition.ofJson?
  aliasExtent := root.textLength

end Entry

end QueryTerms
