import QueryTerms.Json.Amount
import QueryTerms.Value.Basic

/-!
# Decoding documents

From the tree of a JSON text to values and to declared types.  A text that does not decode is
refused as a whole, and nothing tells why; so a decoder is a partial function.

**Values.** `Document.toValue?` admits a bounded nesting, numbers in range and whole strings.

**Parts of declared types.** Text, flags, counts, optional parts, lists, maps and choices.  A map
keeps the place of the first member of a name and the value of the last one.

**Records.** `Document.fields?` finds the declared fields of a record, written as an object or as
the list of its fields in the order of their declaration.  An object may hold members that are not
declared, but no declared one twice.
-/

namespace QueryTerms.Json

/-- The deepest nesting of arrays and objects that decodes. -/
def maxDepth : Nat := 127

namespace Document

/-! ## Values -/

mutual

/-- The value of a document in which no more than `room` arrays and objects are nested. -/
def toValue? (room : Nat) : Document → Option Value
  | .null => some .null
  | .boolean b => some (.boolean b)
  | .number numeral =>
    match numeral.read? with
    | some (.integer n) => some (.integer n)
    | some (.double x) => some (.float x)
    | none => none
  | .string text => text.map Value.string
  | .array items =>
    if room = 0 then none else (itemsToValues? (room - 1) items).map Value.array
  | .object members =>
    if room = 0 then none
    else (membersToFields? (room - 1) members).map fun pairs => .object (Table.ofPairs pairs)

def itemsToValues? (room : Nat) : List Document → Option (List Value)
  | [] => some []
  | item :: rest =>
    match item.toValue? room, itemsToValues? room rest with
    | some value, some values => some (value :: values)
    | _, _ => none

def membersToFields? (room : Nat) : List (Option String × Document) →
    Option (List (String × Value))
  | [] => some []
  | (name, member) :: rest =>
    match name, member.toValue? room, membersToFields? room rest with
    | some name, some value, some fields => some ((name, value) :: fields)
    | _, _, _ => none

end

/-- Whether every part of the document has a value. -/
def isSound (room : Nat) (document : Document) : Bool := (document.toValue? room).isSome

/-! ## Parts of declared types -/

def toText? : Document → Option String
  | .string text => text
  | _ => none

def toFlag? : Document → Option Bool
  | .boolean b => some b
  | _ => none

def toCount? : Document → Option Nat
  | .number numeral => numeral.toNat?
  | _ => none

/-- An optional part: null stands for its absence. -/
def toOption? {α : Type} (decode : Document → Option α) : Document → Option (Option α)
  | .null => some none
  | document => (decode document).map some

def toList? {α : Type} (decode : Document → Option α) : Document → Option (List α)
  | .array items => items.mapM decode
  | _ => none

/-- A map from names; every member has to decode, also one that a later one replaces. -/
def toTable? {α : Type} (decode : Document → Option α) : Document → Option (Table String α)
  | .object members =>
    let entry? (member : Option String × Document) : Option (String × α) := do
      some (← member.1, ← decode member.2)
    (members.mapM entry?).map Table.ofPairs
  | _ => none

/-- A choice among names: the name alone, or as the only member of an object, with null behind it.
Where `lax`, an empty object does as well as null. -/
def toChoice? {α : Type} (lax : Bool) (choices : Table String α) : Document → Option α
  | .string (some name) => choices.get? name
  | .object [(some name, .null)] => choices.get? name
  | .object [(some name, .object [])] => if lax then choices.get? name else none
  | _ => none

/-! ## Records -/

/-- The declared members of an object, each at most once; members of other names are dropped. -/
def declaredMembers? (names : List String) (found : Table String Document) :
    List (Option String × Document) → Option (Table String Document)
  | [] => some found
  | (none, _) :: _ => none
  | (some name, document) :: rest =>
    if names.contains name then
      if found.has name then none else declaredMembers? names (found.set name document) rest
    else declaredMembers? names found rest

/-- The declared fields that a document of a record holds. -/
def fields? (names : List String) : Document → Option (Table String Document)
  | .object members => declaredMembers? names [] members
  | .array items => if names.length < items.length then none else some (names.zip items)
  | _ => none

end Document

/-- A field that takes `default` where it is absent. -/
def fieldOr {α : Type} (fields : Table String Document) (name : String) (default : α)
    (decode : Document → Option α) : Option α :=
  match fields.get? name with
  | some document => decode document
  | none => some default

/-- A field that has to be there. -/
def field? {α : Type} (fields : Table String Document) (name : String)
    (decode : Document → Option α) : Option α :=
  (fields.get? name).bind decode

end QueryTerms.Json
