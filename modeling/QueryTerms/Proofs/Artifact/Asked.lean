import Mathlib
import QueryTerms.Proofs.Artifact.Paths
import QueryTerms.Proofs.Query.Nodes
import QueryTerms.Proofs.Term.Levels
import QueryTerms.Proofs.Term.RoundTrip
import QueryTerms.Resolver

/-!
# Which artifacts a term asks for

While a text is read, the store is asked for the aliases of every tree's id; while the term is
built, it is asked for the leaves.  Ids come from the text, from the targets of aliases, and from
the ids of trees that are put before the ids of their children, at every depth.

**Reading.**  `askedNested` lists the ids whose aliases may be asked for, along the reader's own
recursion; targets of other ids make no difference (`readNested_congr`).

**Building.**  `askedIn` lists the ids that a term's leaves may be looked up under; the answers to
other questions make no difference (`buildIn_congr`).

**All together.**  `Resolver.Asks` is what either of the two asks for.  All of it is ids, so no
directory refuses any of it: `artifacts_stay_below`.
-/

namespace QueryTerms

/-! ## Reading -/

/-- Two sources of aliases answer alike for the given parents. -/
def Aliases.AgreeOn (ids : List String) (aliases other : Aliases) : Prop :=
  ∀ id ∈ ids, ∀ child, other.target? id child = aliases.target? id child

/-- Answers for the ids in all parts of a text are answers for those in each. -/
lemma Aliases.AgreeOn.of_mem {aliases other : Aliases} {parts : List (List Char)}
    {asked : List Char → List String} (h : AgreeOn (parts.flatMap asked) aliases other)
    {part : List Char} (hpart : part ∈ parts) : AgreeOn (asked part) aliases other :=
  fun id hid => h id (List.mem_flatMap.mpr ⟨part, hpart, hid⟩)

namespace Term

/-- The ids whose aliases may be asked for by what stands in parentheses behind `id`. -/
def askedGroup (aliases : Aliases) (nested : List Char → List String) (id inner : List Char) :
    List String :=
  if id.isEmpty then (splitTop ',' inner).flatMap nested
  else if isValidId id then
    String.ofList id ::
      (splitTop ',' inner).flatMap fun child => nested (substituteAlias aliases id child)
  else []

/-- The ids whose aliases an atom may ask for; `nested` tells those of what is in parentheses. -/
def askedAtom (aliases : Aliases) (nested : List Char → List String) (input : List Char) :
    List String :=
  let text := Text.trim input
  match closeGroup 0 ((text.dropWhile (· != '(')).drop 1) with
  | some (inner, []) => askedGroup aliases nested (Text.trim (text.takeWhile (· != '('))) inner
  | _ => []

/-- The ids whose aliases may be asked for while a text is read. -/
def askedNested (aliases : Aliases) : Nat → List Char → List String
  | 0, _ => []
  | levels + 1, text => (atomTexts text).flatMap (askedAtom aliases (askedNested aliases levels))

section Congruence

variable {aliases other : Aliases}

lemma readOperands_congr {op : Char} {compose : List Term → Term}
    {next next' : List Char → Except ParseError Term} {text : List Char}
    (h : ∀ part ∈ splitTop op text, next' part = next part) :
    readOperands op compose next' text = readOperands op compose next text := by
  rw [readOperands, readOperands]
  split
  · next part hparts =>
    have hwhole : part = text := by
      have hjoin := joinWith_splitTop op text
      rwa [hparts] at hjoin
    exact h text (by rw [hparts, hwhole]; exact List.mem_cons_self)
  · rw [mapM_congr_mem h]

section Nested

variable {nested nested' : List Char → Except ParseError Term} {asked : List Char → List String}
  (hnested : ∀ text, Aliases.AgreeOn (asked text) aliases other → nested' text = nested text)

include hnested

lemma readGroup_congr {text id inner : List Char}
    (h : Aliases.AgreeOn (askedGroup aliases asked id inner) aliases other) :
    readGroup other nested' text id inner = readGroup aliases nested text id inner := by
  rw [readGroup, readGroup]
  by_cases hblank : Text.isBlankText inner = true
  · rw [if_pos hblank, if_pos hblank]
  rw [if_neg hblank, if_neg hblank]
  refine congrArg _ (funext fun _ => ?_)
  rw [askedGroup] at h
  by_cases hempty : id.isEmpty = true
  · rw [if_pos hempty] at h
    rw [if_pos hempty, if_pos hempty]
    split
    · next single hparts =>
      rw [hparts] at h
      exact hnested single (Aliases.AgreeOn.of_mem h List.mem_cons_self)
    · rfl
  rw [if_neg hempty] at h
  rw [if_neg hempty, if_neg hempty]
  by_cases hid : isValidId id = true
  · rw [if_pos hid] at h
    obtain ⟨hhere, hchildren⟩ := List.forall_mem_cons.mp h
    have hsubstitute : ∀ child, substituteAlias other id child = substituteAlias aliases id child :=
      fun child => by rw [substituteAlias, substituteAlias, hhere]
    refine congrArg _ (funext fun name => congrArg _ (mapM_congr_mem fun child hchild => ?_))
    rw [hsubstitute]
    exact hnested _ fun id hid => hchildren id (List.mem_flatMap.mpr ⟨child, hchild, hid⟩)
  · rw [readId, if_neg hid]
    rfl

lemma readAtom_congr {text : List Char}
    (h : Aliases.AgreeOn (askedAtom aliases asked text) aliases other) :
    readAtom other nested' text = readAtom aliases nested text := by
  rw [readAtom, readAtom]
  by_cases hempty : (Text.trim text).isEmpty = true
  · rw [if_pos hempty, if_pos hempty]
  rw [if_neg hempty, if_neg hempty]
  by_cases hlast : ((Text.trim text).getLast? != some ')') = true
  · rw [if_pos hlast, if_pos hlast]
  rw [if_neg hlast, if_neg hlast]
  rw [askedAtom] at h
  split
  · next inner hclose =>
    rw [hclose] at h
    exact readGroup_congr hnested h
  · rfl

end Nested

/-- **The aliases of other ids make no difference.** -/
theorem readNested_congr {levels : Nat} {text : List Char}
    (h : Aliases.AgreeOn (askedNested aliases levels text) aliases other) :
    readNested other levels text = readNested aliases levels text := by
  induction levels generalizing text with
  | zero => rfl
  | succ levels ih =>
    refine readOperands_congr fun union hunion => readOperands_congr fun part hpart =>
      readOperands_congr fun atom hatom => readAtom_congr (fun _ => ih) ?_
    refine Aliases.AgreeOn.of_mem h ?_
    exact List.mem_flatMap.mpr ⟨union, hunion, List.mem_flatMap.mpr ⟨part, hpart, hatom⟩⟩

lemma parseWith_congr {text : String} (hextent : other.extent = aliases.extent)
    (h : ∀ distributed, distribute text.toList = .ok distributed →
      Aliases.AgreeOn (askedNested aliases (sufficientLevels aliases distributed) distributed)
        aliases other) :
    parseWith other text = parseWith aliases text := by
  have hread : ∀ distributed, distribute text.toList = .ok distributed →
      readNested other (sufficientLevels other distributed) distributed =
        readNested aliases (sufficientLevels aliases distributed) distributed := by
    intro distributed hspread
    rw [sufficientLevels, hextent, ← sufficientLevels]
    exact readNested_congr (h distributed hspread)
  rw [parseWith, parseWith]
  split
  · rfl
  · exact bind_congr_ok hread

end Congruence

lemma isValidId_of_mem_askedAtom {aliases : Aliases} {asked : List Char → List String}
    (hasked : ∀ text, ∀ id ∈ asked text, isValidId id.toList = true) (text : List Char) :
    ∀ id ∈ askedAtom aliases asked text, isValidId id.toList = true := by
  have hall : ∀ texts : List (List Char), ∀ id ∈ texts.flatMap asked,
      isValidId id.toList = true := by
    intro texts id hid
    obtain ⟨part, -, hpart⟩ := List.mem_flatMap.mp hid
    exact hasked part id hpart
  intro id hid
  rw [askedAtom] at hid
  split at hid
  · rw [askedGroup] at hid
    split at hid
    · exact hall _ id hid
    · split at hid
      · next hvalid =>
        rcases List.mem_cons.mp hid with rfl | hid
        · rwa [String.toList_ofList]
        · rw [← List.flatMap_map] at hid
          exact hall _ id hid
      · cases hid
  · cases hid

/-- Aliases are asked for under ids only, however deep the text and wherever it comes from. -/
lemma isValidId_of_mem_askedNested {aliases : Aliases} (levels : Nat) (text : List Char) :
    ∀ id ∈ askedNested aliases levels text, isValidId id.toList = true := by
  induction levels generalizing text with
  | zero => exact fun id hid => nomatch hid
  | succ levels ih =>
    intro id hid
    obtain ⟨atom, -, hatom⟩ := List.mem_flatMap.mp hid
    exact isValidId_of_mem_askedAtom ih atom id hatom

/-! ## Building -/

mutual

/-- The ids that the leaves of a term may be looked up under; those below a tree come under every
id that the tree's own leaf may have. -/
def askedIn (scope : Option String) : Term → List String
  | .leaf id => leafCandidates scope id
  | .merge terms => askedAll scope terms
  | .attach terms => askedAll scope terms
  | .filter terms => askedAll scope terms
  | .tree id children =>
    leafCandidates scope id ++
      (leafCandidates scope id).flatMap fun candidate => askedAll (some candidate) children

def askedAll (scope : Option String) : List Term → List String
  | [] => []
  | term :: rest => term.askedIn scope ++ askedAll scope rest

end

lemma askedAll_eq_flatMap (scope : Option String) (terms : List Term) :
    askedAll scope terms = terms.flatMap (askedIn scope) := by
  induction terms with
  | nil => rw [askedAll, List.flatMap_nil]
  | cons term rest ih => rw [askedAll, ih, List.flatMap_cons]

end Term

/-- Two stores answer alike for the given ids. -/
def Store.AgreeOn (ids : List String) (store other : Store) : Prop :=
  ∀ id ∈ ids, other.interface id = store.interface id ∧ other.definition id = store.definition id

namespace Store.AgreeOn

variable {store other : Store} {ids others : List String}

lemma append_iff :
    AgreeOn (ids ++ others) store other ↔ AgreeOn ids store other ∧ AgreeOn others store other :=
  List.forall_mem_append

lemma of_mem {α : Type} {parts : List α} {asked : α → List String}
    (h : AgreeOn (parts.flatMap asked) store other) {part : α} (hpart : part ∈ parts) :
    AgreeOn (asked part) store other :=
  fun id hid => h id (List.mem_flatMap.mpr ⟨part, hpart, hid⟩)

end Store.AgreeOn

section Congruence

variable {store other : Store}

lemma firstLeaf_congr {id : String} {candidates : List String}
    (h : Store.AgreeOn candidates store other) :
    firstLeaf other id candidates = firstLeaf store id candidates := by
  induction candidates with
  | nil => rfl
  | cons candidate rest ih =>
    obtain ⟨hhere, hrest⟩ := List.forall_mem_cons.mp h
    have hresolve : resolveLeaf other candidate = resolveLeaf store candidate := by
      rw [resolveLeaf, resolveLeaf, hhere.1, hhere.2]
    rw [firstLeaf, firstLeaf, hresolve, ih hrest]

/-- A leaf has the name of a candidate. -/
lemma name_mem_of_firstLeaf {id : String} {candidates : List String} {node : Node}
    (h : firstLeaf store id candidates = .ok node) : node.info.name ∈ candidates := by
  induction candidates with
  | nil => cases h
  | cons candidate rest ih =>
    obtain ⟨found, -, h⟩ := bind_eq_ok_iff.mp h
    cases found with
    | none => exact List.mem_cons_of_mem _ (ih h)
    | some entry =>
      cases h
      exact List.mem_cons_self

lemma buildAll_congr {scope : Option String} {terms : List Term}
    (h : ∀ term ∈ terms, buildIn other scope term = buildIn store scope term) :
    buildAll other scope terms = buildAll store scope terms := by
  induction terms with
  | nil => rw [buildAll, buildAll]
  | cons term rest ih =>
    rw [List.forall_mem_cons] at h
    rw [buildAll, buildAll, h.1, ih h.2]

lemma buildChildren_congr {parent : Node} {terms : List Term}
    (h : ∀ term ∈ terms, buildIn other (some parent.info.name) term =
      buildIn store (some parent.info.name) term) :
    buildChildren other parent terms = buildChildren store parent terms := by
  induction terms generalizing parent with
  | nil => rw [buildChildren, buildChildren]
  | cons term rest ih =>
    obtain ⟨hterm, hrest⟩ := List.forall_mem_cons.mp h
    rw [buildChildren, buildChildren, hterm]
    refine bind_congr_ok fun child _ => bind_congr_ok fun linked hlink => ?_
    obtain ⟨node, join⟩ := linked
    rw [← link_info hlink] at hrest
    simp only [ih hrest]

/-- **Other artifacts make no difference to what is built.** -/
theorem buildIn_congr {scope : Option String} {term : Term}
    (h : Store.AgreeOn (term.askedIn scope) store other) :
    buildIn other scope term = buildIn store scope term := by
  have hall : ∀ (scope : Option String) (terms : List Term),
      (∀ term ∈ terms, ∀ scope, Store.AgreeOn (term.askedIn scope) store other →
        buildIn other scope term = buildIn store scope term) →
      Store.AgreeOn (Term.askedAll scope terms) store other →
      ∀ term ∈ terms, buildIn other scope term = buildIn store scope term := by
    intro scope terms ih h term hterm
    rw [Term.askedAll_eq_flatMap] at h
    exact ih term hterm scope (h.of_mem hterm)
  induction term using Term.induction_on_members generalizing scope with
  | leaf id =>
    rw [Term.askedIn] at h
    rw [buildIn, buildIn, buildLeaf, buildLeaf, firstLeaf_congr h]
  | merge terms ih =>
    rw [Term.askedIn] at h
    rw [buildIn, buildIn, buildAll_congr (hall scope terms (fun term hterm _ => ih term hterm) h)]
  | attach terms ih =>
    rw [Term.askedIn] at h
    rw [buildIn, buildIn, buildAll_congr (hall scope terms (fun term hterm _ => ih term hterm) h)]
  | filter terms ih =>
    rw [Term.askedIn] at h
    rw [buildIn, buildIn, buildAll_congr (hall scope terms (fun term hterm _ => ih term hterm) h)]
  | tree id terms ih =>
    rw [Term.askedIn] at h
    obtain ⟨hleaf, hbelow⟩ := Store.AgreeOn.append_iff.mp h
    rw [buildIn, buildIn, buildLeaf, buildLeaf, firstLeaf_congr hleaf]
    refine bind_congr_ok fun leaf hbuilt => ?_
    have hchildren := hall _ terms (fun term hterm _ => ih term hterm)
      (hbelow.of_mem (name_mem_of_firstLeaf hbuilt))
    rw [buildChildren_congr hchildren]

end Congruence

lemma isValidId_of_mem_leafCandidates {scope : Option String} {id : String}
    (hscope : ∀ name, scope = some name → isValidId name.toList = true)
    (hid : isValidId id.toList = true) :
    ∀ candidate ∈ leafCandidates scope id, isValidId candidate.toList = true := by
  intro candidate hcandidate
  cases scope with
  | none => rwa [List.mem_singleton.mp hcandidate]
  | some name =>
    simp only [leafCandidates, List.mem_cons, List.not_mem_nil, or_false] at hcandidate
    rcases hcandidate with rfl | rfl
    · exact Term.isValidId_qualify (hscope name rfl) hid
    · exact hid

/-- Leaves are looked up under ids only, however many ids are put before theirs. -/
lemma isValidId_of_mem_askedIn {scope : Option String} {term : Term} (hterm : term.IsWellFormed)
    (hscope : ∀ name, scope = some name → isValidId name.toList = true) :
    ∀ id ∈ term.askedIn scope, isValidId id.toList = true := by
  have hall : ∀ (scope : Option String) (terms : List Term),
      (∀ term ∈ terms, ∀ id ∈ term.askedIn scope, isValidId id.toList = true) →
      ∀ id ∈ Term.askedAll scope terms, isValidId id.toList = true := by
    intro scope terms hterms id hid
    rw [Term.askedAll_eq_flatMap] at hid
    obtain ⟨term, hterm, hid⟩ := List.mem_flatMap.mp hid
    exact hterms term hterm id hid
  induction term using Term.induction_on_members generalizing scope with
  | leaf id =>
    rw [Term.askedIn]
    exact isValidId_of_mem_leafCandidates hscope ((Term.isWellFormed_leaf_iff id).mp hterm)
  | merge terms ih =>
    rw [Term.askedIn]
    have hterms := ((Term.isOperator_merge.isWellFormed_iff terms).mp hterm).2
    exact hall scope terms fun term hmem => ih term hmem (hterms term hmem) hscope
  | attach terms ih =>
    rw [Term.askedIn]
    have hterms := ((Term.isOperator_attach.isWellFormed_iff terms).mp hterm).2
    exact hall scope terms fun term hmem => ih term hmem (hterms term hmem) hscope
  | filter terms ih =>
    rw [Term.askedIn]
    have hterms := ((Term.isOperator_filter.isWellFormed_iff terms).mp hterm).2
    exact hall scope terms fun term hmem => ih term hmem (hterms term hmem) hscope
  | tree id terms ih =>
    obtain ⟨hid, -, hterms⟩ := (Term.isWellFormed_tree_iff id terms).mp hterm
    have hcandidates := isValidId_of_mem_leafCandidates hscope hid
    rw [Term.askedIn, List.forall_mem_append]
    refine ⟨hcandidates, fun asked hasked => ?_⟩
    obtain ⟨candidate, hcandidate, hasked⟩ := List.mem_flatMap.mp hasked
    refine hall (some candidate) terms (fun term hmem => ?_) asked hasked
    refine ih term hmem (hterms term hmem) fun name hname => ?_
    exact Option.some.inj hname ▸ hcandidates candidate hcandidate

/-! ## All together -/

namespace Resolver

variable {resolver other : Resolver} {text id : String}

/-- The store may be asked about the id while the text is read, or while what is read is built. -/
inductive Asks (resolver : Resolver) (text id : String) : Prop
  /-- Aliases are asked for, within any number of levels. -/
  | aliases {distributed : List Char} {levels : Nat}
      (hspread : Term.distribute text.toList = .ok distributed)
      (hid : id ∈ Term.askedNested resolver.aliases levels distributed)
  /-- A leaf is looked up. -/
  | leaf {term : Term} (hread : resolver.parse text = .ok term) (hid : id ∈ term.askedIn none)

lemma Asks.isValidId (h : resolver.Asks text id) : isValidId id.toList = true := by
  cases h with
  | aliases hspread hid => exact Term.isValidId_of_mem_askedNested _ _ id hid
  | leaf hread hid =>
    exact isValidId_of_mem_askedIn (Term.isWellFormed_of_parseWith hread) (by simp) id hid

/-- Two resolvers find the same under every id that the text asks for. -/
structure AgreeFor (text : String) (resolver other : Resolver) : Prop where
  interface : ∀ id, resolver.Asks text id →
    other.store.interface id = resolver.store.interface id
  definition : ∀ id, resolver.Asks text id →
    other.store.definition id = resolver.store.definition id
  extent : other.store.aliasExtent = resolver.store.aliasExtent

lemma AgreeFor.parse_eq (h : AgreeFor text resolver other) :
    other.parse text = resolver.parse text := by
  refine Term.parseWith_congr h.extent fun distributed hspread id hid child => ?_
  have hasks : resolver.Asks text id := .aliases hspread hid
  have haliases : other.store.aliasesOf id = resolver.store.aliasesOf id := by
    rw [Store.aliasesOf, Store.aliasesOf, h.interface id hasks, h.definition id hasks]
  exact congrArg (Table.get? child) haliases

lemma AgreeFor.build_eq (h : AgreeFor text resolver other) {term : Term}
    (hread : resolver.parse text = .ok term) :
    build other.store term = build resolver.store term :=
  buildIn_congr fun id hid => ⟨h.interface id (.leaf hread hid), h.definition id (.leaf hread hid)⟩

end Resolver

/-- **No term leaves the store.**  Whatever is asked for under an id, a directory refuses it or
reads the file at one place below itself.  What a text asks for, while it is read and while it is
built, is refused by no directory; and nothing but the answers to that makes a difference. -/
theorem artifacts_stay_below :
    (∀ leaf suffix, suffix ∈ artifactSuffixes →
      (∀ place (root : Entry), root.readArtifact place leaf suffix = .error (.invalidLeaf leaf)) ∨
        ∃ names, Entry.ReadsAt leaf suffix names) ∧
    (∀ (resolver : Resolver) (text id : String), resolver.Asks text id →
      ∀ place (root : Entry), root.Accepts place id) ∧
    ∀ (resolver other : Resolver) (text : String), Resolver.AgreeFor text resolver other →
      other.parse text = resolver.parse text ∧
        ∀ term, resolver.parse text = .ok term →
          build other.store term = build resolver.store term :=
  ⟨fun leaf _ hsuffix => Entry.refused_or_readsAt leaf hsuffix,
    fun _ _ _ hasks place root => Entry.accepts_of_isValidId hasks.isValidId root place,
    fun _ _ _ hagree => ⟨hagree.parse_eq, fun _ hread => hagree.build_eq hread⟩⟩

/-- An alias leads to a tree in a tree, and its child is looked up under both ids; all of this is
found in a store that refuses everything but ids. -/
theorem artifacts_stay_below_nested :
    let shop : Definition :=
      { fragments := {}, interface := { aliases := [("sold", "orders(lines)")] } }
    let store := ((Catalog.mk [] []).addDefinition "shop" shop).toStore
    let strict : Store := { store with
      interface := fun id =>
        if isValidId id.toList then store.interface id else .error (.invalidLeaf id)
      definition := fun id =>
        if isValidId id.toList then store.definition id else .error (.invalidLeaf id) }
    let resolver : Resolver := { store, database := { execute := fun _ _ => .ok {} } }
    let term := Term.tree "shop" [.tree "orders" [.leaf "lines"]]
    resolver.parse "shop(sold)" = .ok term ∧ Entry.empty.Accepts "store" "shop.orders.lines" ∧
      Resolver.parse { resolver with store := strict } "shop(sold)" = .ok term ∧
      (∃ names, Entry.ReadsAt "shop.orders.lines" ".sql" names) ∧
      ∀ place (root : Entry),
        root.readArtifact place "a/../../b" ".sql" = .error (.invalidLeaf "a/../../b") := by
  intro shop store strict resolver term
  have hread : resolver.parse "shop(sold)" = .ok term := by cbv
  have hasks : resolver.Asks "shop(sold)" "shop.orders.lines" := .leaf hread (by decide)
  have hagree : Resolver.AgreeFor "shop(sold)" resolver { resolver with store := strict } :=
    ⟨fun id h => if_pos h.isValidId, fun id h => if_pos h.isValidId, rfl⟩
  have haccepts := artifacts_stay_below.2.1 resolver "shop(sold)" _ hasks "store" Entry.empty
  refine ⟨hread, haccepts, (artifacts_stay_below.2.2 _ _ _ hagree).1.trans hread, ?_, ?_⟩
  · refine (artifacts_stay_below.1 "shop.orders.lines" ".sql" (by decide)).resolve_left fun h => ?_
    exact haccepts.statement _ (h "store" Entry.empty)
  · refine (artifacts_stay_below.1 "a/../../b" ".sql" (by decide)).resolve_right ?_
    rintro ⟨names, hnames⟩
    exact hnames.accepted "store" Entry.empty rfl

end QueryTerms
