import Mathlib.Data.List.Chain
import QueryTerms.Sql.Render
import QueryTerms.Proofs.Outcome
import QueryTerms.Proofs.Table
import QueryTerms.Proofs.Sql.Literal

/-!
# What a statement is after its parameters are filled in

Filling in parameters changes the text of a statement, and the database reads the new text.  The
tokens that it reads are those of the statement as it was written, with every placeholder replaced
by what its value stands for, and nothing a value holds can change that.

**Templates.**  The statement has to keep quotes and placeholders apart (`IsTemplate`).  Then no
token next to a placeholder depends on it (`Apart`, `exists_groups`).

**Binding.**  `keys_foldlM_bindPlaceholder` tells which names are bound, and
`get?_foldlM_bindPlaceholder` what to.

**Rendering.**  `tokens_render` puts both together.
-/

namespace QueryTerms.Sql

/-! ## Templates -/

/-- The tokens of a statement in which every quote belongs to quoted text, and in which a plain
character, or nothing, stands on either side of a placeholder. -/
structure IsTemplate (ts : List Token) : Prop where
  quotes : ∀ c, Token.char c ∈ ts → ¬ IsQuote c
  borders : ∀ before name after, ts = before ++ .placeholder name :: after →
    (∀ c ∈ (before.flatMap Token.text).getLast?, IsPlain c) ∧
      ∀ c ∈ (after.flatMap Token.text).head?, IsPlain c

/-- The tokens are those of a list of literals, in which the textual values of the list are spelled
one after another, each by a quoted token of its own. -/
def IsLiteralList (items : List Value) (group : List Token) : Prop :=
  group = tokens (literalList literal items).toList ∧
    List.Forall₂ Spells ((listed items).filter Value.isTextual) (group.filter Token.isMark)

/-- The tokens that stand for a token of a template.  Of a placeholder these are the placeholder
itself if it has a scalar value, a list of literals if it has a sequence or is the position of a
tuple, and otherwise the characters of `NULL`. -/
def Replaces (values : Params) : Token → List Token → Prop
  | .placeholder name, group =>
    match values.get? (String.ofList name), tuplePosition (String.ofList name) values with
    | some (.array items), _ => IsLiteralList items group
    | some _, _ => group = [.placeholder name]
    | none, some items => IsLiteralList items group
    | none, none => group = "NULL".toList.map Token.char
  | token, group => group = [token]

def Token.isPlaceholder : Token → Bool
  | .placeholder _ => true
  | _ => false

def Token.isPlainChar : Token → Bool
  | .char c => decide (IsPlain c)
  | _ => false

/-- Two tokens, one of which is a placeholder only if the other one is a plain character. -/
def Apart (token next : Token) : Prop :=
  (token.isPlaceholder = true → next.isPlainChar = true) ∧
    (next.isPlaceholder = true → token.isPlainChar = true)

instance : DecidableRel Apart := fun _ _ => inferInstanceAs (Decidable (_ ∧ _))

lemma Token.isPlaceholder_iff {token : Token} :
    token.isPlaceholder = true ↔ ∃ name, token = .placeholder name := by
  cases token <;> simp [Token.isPlaceholder]

lemma Token.isPlainChar_iff {token : Token} :
    token.isPlainChar = true ↔ ∃ c, token = .char c ∧ IsPlain c := by
  cases token <;> simp [Token.isPlainChar]

lemma Token.IsWhole.isPlainChar_of_head? {token : Token} (hwhole : token.IsWhole)
    (h : ∀ c ∈ token.text.head?, IsPlain c) : token.isPlainChar = true := by
  cases token with
  | char c => exact decide_eq_true (h c rfl)
  | quoted text =>
    obtain ⟨quote, inner, hquote, rfl⟩ := hwhole
    exact absurd hquote (h quote rfl).1
  | cast => exact absurd rfl (h ':' rfl).2
  | placeholder name => exact absurd rfl (h ':' rfl).2

lemma Token.IsWhole.isPlainChar_of_getLast? {token : Token} (hwhole : token.IsWhole)
    (hname : token.isPlaceholder = false) (h : ∀ c ∈ token.text.getLast?, IsPlain c) :
    token.isPlainChar = true := by
  cases token with
  | char c => exact decide_eq_true (h c rfl)
  | quoted text =>
    obtain ⟨quote, inner, hquote, rfl⟩ := hwhole
    have hlast : (quote :: (doubled quote inner ++ [quote])).getLast? = some quote := by
      rw [← List.cons_append, List.getLast?_concat]
    exact absurd hquote (h quote hlast).1
  | cast => exact absurd rfl (h ':' rfl).2
  | placeholder name => cases hname

/-- The tokens of a template are apart. -/
lemma IsTemplate.isChain {ts : List Token} (h : IsTemplate ts)
    (hwholes : ∀ token ∈ ts, token.IsWhole) : ts.IsChain Apart := by
  rw [List.isChain_iff_forall_rel_of_append_cons_cons]
  intro token next before after hts
  have hwhole : token.IsWhole := hwholes token (by simp [hts])
  have hnext : next.IsWhole := hwholes next (by simp [hts])
  have hright : token.isPlaceholder = true → next.isPlainChar = true := by
    intro hname
    obtain ⟨name, rfl⟩ := Token.isPlaceholder_iff.mp hname
    have hborder := (h.borders before name (next :: after) hts).2
    rw [List.flatMap_cons, List.head?_append_of_ne_nil _ hnext.text_ne_nil] at hborder
    exact hnext.isPlainChar_of_head? hborder
  refine ⟨hright, fun hname => ?_⟩
  obtain ⟨name, rfl⟩ := Token.isPlaceholder_iff.mp hname
  -- a placeholder in front of this one would be followed by a colon
  have hfirst : token.isPlaceholder = false := by
    rw [← Bool.not_eq_true]
    exact fun htoken => absurd (hright htoken) (by simp [Token.isPlainChar])
  have hborder := (h.borders (before ++ [token]) name after (by simp [hts])).1
  rw [List.flatMap_append, List.flatMap_singleton,
    List.getLast?_append_of_ne_nil _ hwhole.text_ne_nil] at hborder
  exact hwhole.isPlainChar_of_getLast? hfirst hborder

/-- Tokens that are apart, with no quote left alone, are those of a template. -/
lemma IsTemplate.of_isChain {ts : List Token} (hsingle : Token.char '\'' ∉ ts)
    (hdouble : Token.char '"' ∉ ts) (h : ts.IsChain Apart) : IsTemplate ts where
  quotes := by
    rintro c hc (rfl | rfl)
    · exact hsingle hc
    · exact hdouble hc
  borders := by
    rintro before name after rfl
    rw [List.isChain_append, List.isChain_cons] at h
    obtain ⟨-, ⟨hafter, -⟩, hbefore⟩ := h
    constructor
    · intro c hc
      rcases List.eq_nil_or_concat' before with rfl | ⟨front, token, rfl⟩
      · cases hc
      · obtain ⟨d, rfl, hd⟩ :=
          Token.isPlainChar_iff.mp ((hbefore token (by simp) _ rfl).2 rfl)
        have hlast : d = c := by simpa [Token.text] using hc
        exact hlast ▸ hd
    · intro c hc
      cases after with
      | nil => cases hc
      | cons token rest =>
        obtain ⟨d, rfl, hd⟩ := Token.isPlainChar_iff.mp ((hafter token rfl).1 rfl)
        have hhead : d = c := by simpa [Token.text] using hc
        exact hhead ▸ hd

section Groups

variable {values : Params} {token : Token} {ts : List Token} {text : List Char}
  {next : Option Char}

/-- What is rendered behind a token keeps it from reaching further, and no quote stands behind a
placeholder. -/
lemma stops_rendered (values : Params) (hstops : token.Stops (text.head?.or none))
    (hrest : ReadsAs none text ts) (happart : (token :: ts).IsChain Apart) :
    token.Stops (ts.flatMap (renderToken literal values)).head? ∧
      (token.isPlaceholder = true →
        (ts.flatMap (renderToken literal values)).head? ≠ some '\'') := by
  cases hrest with
  | nil => exact ⟨hstops, nofun⟩
  | cons follower hwhole _ _ =>
    obtain ⟨⟨hright, hleft⟩, -⟩ := List.isChain_cons_cons.mp happart
    rw [List.flatMap_cons]
    cases hname : follower.isPlaceholder with
    | true =>
      obtain ⟨c, rfl, hc⟩ := Token.isPlainChar_iff.mp (hleft hname)
      exact ⟨Token.stops_char hc _, nofun⟩
    | false =>
      have htext : renderToken literal values follower = follower.text := by
        cases follower with
        | placeholder name => cases hname
        | _ => rfl
      rw [Option.or_none, List.head?_append_of_ne_nil _ hwhole.text_ne_nil] at hstops
      rw [htext, List.head?_append_of_ne_nil _ hwhole.text_ne_nil]
      refine ⟨hstops, fun htoken => ?_⟩
      obtain ⟨c, rfl, hc⟩ := Token.isPlainChar_iff.mp (hright htoken)
      rintro ⟨⟩
      exact hc.1 (.inl rfl)

/-- A list of literals can stand where a placeholder stood. -/
lemma exists_isLiteralList (items : List Value) (hnext : next ≠ some '\'') :
    ∃ group, IsLiteralList items group ∧
      ReadsAs next (literalList literal items).toList group := by
  obtain ⟨group, h⟩ := exists_inlines_literalList items
  have hgroup : group = tokens (literalList literal items).toList :=
    (h.reads none nofun).tokens_eq.symm
  exact ⟨group, ⟨hgroup, h.spells⟩, h.reads next hnext⟩

/-- **One token.**  What a token of a template is rendered to reads as tokens that may stand for
it. -/
lemma exists_replaces (values : Params) (hwhole : token.IsWhole) (hstops : token.Stops next)
    (hnext : token.isPlaceholder = true → next ≠ some '\'') :
    ∃ group, Replaces values token group ∧
      ReadsAs next (renderToken literal values token) group := by
  have hself : ReadsAs next token.text [token] := readsAs_singleton token hwhole hstops
  have hnull : ReadsAs next "NULL".toList ("NULL".toList.map Token.char) :=
    readsAs_map_char (isPlain_of_all rfl)
  cases token with
  | placeholder name =>
    simp only [Replaces, renderToken, replacement]
    cases hvalue : values.get? (String.ofList name) with
    | some value =>
      cases value with
      | array items => exact exists_isLiteralList items (hnext rfl)
      | _ => exact ⟨[.placeholder name], rfl, by simpa [Token.text] using hself⟩
    | none =>
      cases hposition : tuplePosition (String.ofList name) values with
      | some items => exact exists_isLiteralList items (hnext rfl)
      | none => exact ⟨_, rfl, hnull⟩
  | _ => exact ⟨_, rfl, hself⟩

/-- **All tokens.**  What a template is rendered to reads as the tokens that may stand for its own,
one after the other. -/
theorem exists_groups (values : Params) (h : ReadsAs none text ts) (happart : ts.IsChain Apart) :
    ∃ groups, List.Forall₂ (Replaces values) ts groups ∧
      ReadsAs none (ts.flatMap (renderToken literal values)) groups.flatten := by
  induction h with
  | nil => exact ⟨[], .nil, .nil⟩
  | cons token hwhole hstops hrest ih =>
    obtain ⟨groups, hgroups, hreads⟩ := ih happart.tail
    obtain ⟨hrendered, hnext⟩ := stops_rendered values hstops hrest happart
    obtain ⟨group, hgroup, hread⟩ := exists_replaces values hwhole hrendered hnext
    refine ⟨group :: groups, .cons hgroup hgroups, .append ?_ hreads⟩
    rwa [Option.or_none]

end Groups

/-! ## Binding -/

section Binding

variable {values : Params} {specs : ParamSpecs} {bound next result : Table String Bound}
  {name : String}

/-- The parameter has a value that is no sequence. -/
def HoldsScalar (values : Params) (name : String) : Prop :=
  ∃ value, values.get? name = some value ∧ value.isArray = false

lemma HoldsScalar.of_get? {value : Value} (hvalue : values.get? name = some value)
    (hnot : ∀ items, value ≠ .array items) : HoldsScalar values name := by
  refine ⟨value, hvalue, ?_⟩
  cases value with
  | array items => exact absurd rfl (hnot items)
  | _ => rfl

/-- A placeholder is bound if it has a scalar value, unless it is bound already. -/
lemma bindPlaceholder_eq_ok (h : bindPlaceholder values specs bound name = .ok next) :
    (next = bound ∧ ¬ HoldsScalar values name) ∨
      HoldsScalar values name ∧ ∃ scalar, next = bound.setNew name scalar := by
  rw [bindPlaceholder] at h
  split at h
  · next hvalue =>
    cases h
    refine .inl ⟨rfl, fun ⟨value, hsome, _⟩ => ?_⟩
    rw [hvalue] at hsome
    cases hsome
  · next items hvalue =>
    cases h
    refine .inl ⟨rfl, fun ⟨value, hsome, harray⟩ => ?_⟩
    rw [hvalue] at hsome
    cases hsome
    cases harray
  · next value hnot hvalue =>
    refine .inr ⟨.of_get? hvalue hnot, ?_⟩
    split at h
    · next hhas =>
      cases h
      exact ⟨.null, by rw [Table.setNew, if_pos hhas]⟩
    · next hhas =>
      dsimp only at h
      split at h
      · next scalar _ =>
        cases h
        exact ⟨scalar, by rw [Table.setNew, if_neg hhas]⟩
      · cases h

/-- **One placeholder.**  It adds its own name, or none. -/
lemma keys_bindPlaceholder (h : bindPlaceholder values specs bound name = .ok next)
    (hbound : bound.keys.Nodup) :
    next.keys.Nodup ∧ ∀ other, other ∈ next.keys ↔
      other ∈ bound.keys ∨ other = name ∧ HoldsScalar values other := by
  rcases bindPlaceholder_eq_ok h with ⟨rfl, hnone⟩ | ⟨hscalar, scalar, rfl⟩
  · refine ⟨hbound, fun other => ⟨.inl, ?_⟩⟩
    rintro (hmem | ⟨rfl, hother⟩)
    · exact hmem
    · exact absurd hother hnone
  · refine ⟨Table.nodup_keys_setNew name scalar hbound, fun other => ?_⟩
    rw [Table.mem_keys_setNew]
    exact or_congr_right ⟨fun heq => ⟨heq, heq ▸ hscalar⟩, And.left⟩

/-- **All placeholders.**  What is bound are those with scalar values, each of them once. -/
theorem keys_foldlM_bindPlaceholder {names : List String}
    (h : names.foldlM (bindPlaceholder values specs) bound = .ok result)
    (hbound : bound.keys.Nodup) :
    result.keys.Nodup ∧ ∀ other, other ∈ result.keys ↔
      other ∈ bound.keys ∨ other ∈ names ∧ HoldsScalar values other := by
  induction names generalizing bound with
  | nil =>
    cases h
    exact ⟨hbound, fun other => by simp⟩
  | cons name rest ih =>
    rw [List.foldlM_cons] at h
    obtain ⟨next, hnext, hrest⟩ := bind_eq_ok_iff.mp h
    obtain ⟨hnodup, hkeys⟩ := keys_bindPlaceholder hnext hbound
    obtain ⟨hresult, hmem⟩ := ih hrest hnodup
    refine ⟨hresult, fun other => ?_⟩
    rw [hmem, hkeys, List.mem_cons, or_and_right, or_assoc]

/-- The type that the value of a placeholder is bound as. -/
def boundType (specs : ParamSpecs) (name : String) : ParamType :=
  ((specs.get? name).map ParamSpec.type).getD .any

lemma get?_bindPlaceholder {other : String} {scalar : Bound}
    (h : bindPlaceholder values specs bound name = .ok next)
    (hscalar : next.get? other = some scalar) :
    bound.get? other = some scalar ∨ other = name ∧
      ∃ value, values.get? name = some value ∧
        bindValue (boundType specs name) value = some scalar := by
  rw [bindPlaceholder] at h
  split at h
  · cases h
    exact .inl hscalar
  · cases h
    exact .inl hscalar
  · next value _ hvalue =>
    split at h
    · cases h
      exact .inl hscalar
    · dsimp only at h
      split at h
      · next new hnew =>
        cases h
        rw [Table.get?_append, Option.or_eq_some_iff, Table.get?_cons] at hscalar
        rcases hscalar with hscalar | ⟨-, hscalar⟩
        · exact .inl hscalar
        · split at hscalar
          · next heq =>
            cases hscalar
            exact .inr ⟨heq.symm, value, hvalue, hnew⟩
          · cases hscalar
      · cases h

/-- **What is bound.**  It is the value of the placeholder, as its declared type. -/
theorem get?_foldlM_bindPlaceholder {names : List String} {scalar : Bound}
    (h : names.foldlM (bindPlaceholder values specs) [] = .ok result)
    (hscalar : result.get? name = some scalar) :
    ∃ value, values.get? name = some value ∧
      bindValue (boundType specs name) value = some scalar := by
  refine foldlM_induction (P := fun bound : Table String Bound => ∀ name scalar,
    bound.get? name = some scalar → ∃ value, values.get? name = some value ∧
      bindValue (boundType specs name) value = some scalar) ?_ ?_ h name scalar hscalar
  · intro bound name next _ hbound hnext other scalar hscalar
    rcases get?_bindPlaceholder hnext hscalar with hscalar | ⟨rfl, hvalue⟩
    · exact hbound other scalar hscalar
    · exact hvalue
  · exact fun _ _ hnil => nomatch hnil

end Binding

/-! ## Rendering -/

section Rendering

variable {values : Params} {specs : ParamSpecs} {sql : String} {rendered : Rendered}

lemma mem_placeholders {text name : String} :
    name ∈ placeholders text.toList ↔ Token.placeholder name.toList ∈ tokens text.toList := by
  rw [placeholders, List.mem_filterMap]
  constructor
  · rintro ⟨token, htoken, hname⟩
    cases token with
    | placeholder letters =>
      cases hname
      rwa [String.toList_ofList]
    | _ => cases hname
  · intro hname
    exact ⟨_, hname, congrArg some String.ofList_toList⟩

/-- In a list of literals there is no placeholder. -/
lemma IsLiteralList.placeholder_notMem {items : List Value} {group : List Token}
    (h : IsLiteralList items group) (name : List Char) : Token.placeholder name ∉ group := by
  intro hmem
  obtain ⟨value, -, body, heq, -⟩ := exists_of_forall₂_right h.2 (List.mem_filter.mpr ⟨hmem, rfl⟩)
  cases heq

lemma Replaces.eq_of_holdsScalar {letters : List Char} {group : List Token}
    (h : Replaces values (.placeholder letters) group)
    (hscalar : HoldsScalar values (String.ofList letters)) : group = [.placeholder letters] := by
  obtain ⟨value, hvalue, harray⟩ := hscalar
  rw [Replaces, hvalue] at h
  cases value with
  | array items => cases harray
  | _ => exact h

lemma Replaces.placeholder_notMem {letters : List Char} {group : List Token}
    (h : Replaces values (.placeholder letters) group)
    (hscalar : ¬ HoldsScalar values (String.ofList letters)) (name : List Char) :
    Token.placeholder name ∉ group := by
  rw [Replaces] at h
  split at h
  · exact h.placeholder_notMem name
  · next value hnot hvalue => exact absurd (.of_get? hvalue hnot) hscalar
  · exact h.placeholder_notMem name
  · simp [h]

/-- A placeholder stands only for itself, and only if it has a scalar value. -/
lemma Replaces.placeholder_mem_iff {token : Token} {group : List Token}
    (h : Replaces values token group) {name : String} :
    Token.placeholder name.toList ∈ group ↔
      token = .placeholder name.toList ∧ HoldsScalar values name := by
  cases token with
  | placeholder letters =>
    by_cases hscalar : HoldsScalar values (String.ofList letters)
    · rw [h.eq_of_holdsScalar hscalar, List.mem_singleton, eq_comm]
      refine ⟨fun heq => ⟨heq, ?_⟩, And.left⟩
      cases heq
      rwa [String.ofList_toList] at hscalar
    · refine ⟨fun hmem => absurd hmem (h.placeholder_notMem hscalar _), ?_⟩
      rintro ⟨⟨⟩, hholds⟩
      rw [String.ofList_toList] at hscalar
      exact absurd hholds hscalar
  | _ =>
    cases h
    simp

/-- The placeholders of the tokens that stand for a template. -/
lemma placeholder_mem_flatten_iff {ts : List Token} {groups : List (List Token)}
    (h : List.Forall₂ (Replaces values) ts groups) {name : String} :
    Token.placeholder name.toList ∈ groups.flatten ↔
      Token.placeholder name.toList ∈ ts ∧ HoldsScalar values name := by
  induction h with
  | nil => simp
  | cons hfirst _ ih =>
    rw [List.flatten_cons, List.mem_append, hfirst.placeholder_mem_iff, ih, List.mem_cons,
      or_and_right, eq_comm]

/-- **Values cannot change a statement's structure.**  The statement that a template is rendered to
is read as the tokens of the template, each placeholder replaced by what its value stands for.  The
placeholders left in it are those that are bound, each of them once. -/
theorem tokens_render (hsql : IsTemplate (tokens sql.toList))
    (h : render literal sql values specs = .ok rendered) :
    (∃ groups, List.Forall₂ (Replaces values) (tokens sql.toList) groups ∧
        tokens rendered.sql.toList = groups.flatten) ∧
      (∀ name, mentions rendered.sql name = true ↔ name ∈ rendered.bound.keys) ∧
        rendered.bound.keys.Nodup := by
  have hreads : ReadsAs none sql.toList (tokens sql.toList) := readsAs_tokens hsql.quotes
  obtain ⟨groups, hgroups, hrendered⟩ := exists_groups values hreads (hsql.isChain hreads.isWhole)
  obtain ⟨bound, hbound, hresult⟩ := bind_eq_ok_iff.mp h
  cases hresult
  have htokens : tokens (String.ofList ((tokens sql.toList).flatMap
      (renderToken literal values))).toList = groups.flatten := by
    rw [String.toList_ofList, hrendered.tokens_eq]
  obtain ⟨hnodup, hkeys⟩ := keys_foldlM_bindPlaceholder hbound .nil
  refine ⟨⟨groups, hgroups, htokens⟩, fun name => ?_, hnodup⟩
  rw [mentions, List.contains_iff_mem, mem_placeholders, htokens,
    placeholder_mem_flatten_iff hgroups, hkeys, mem_placeholders]
  simp [Table.keys]

end Rendering

/-- Text that looks like the end of the list, and like a parameter, stays in its quotes. -/
theorem tokens_render_names :
    let sql := "':a' = :a OR a::int IN (:b, :p__1, :z)"
    let values : Params := [("a", .integer 1), ("b", .array [.string "') OR :a = ('", .integer 2]),
      ("p", .array [.array [.null, .string "''"]])]
    let rendered : Rendered :=
      ⟨"':a' = :a OR a::int IN (''') OR :a = (''',2, '''''', NULL)", [("a", .int 1)]⟩
    IsTemplate (tokens sql.toList) ∧ render literal sql values [] = .ok rendered ∧
      ∃ groups, List.Forall₂ (Replaces values) (tokens sql.toList) groups ∧
        tokens rendered.sql.toList = groups.flatten := by
  intro sql values rendered
  have htokens : IsTemplate (tokens sql.toList) :=
    .of_isChain (by decide +kernel) (by decide +kernel) (by decide +kernel)
  have hnames : placeholders sql.toList = ["a", "b", "p__1", "z"] := by decide +kernel
  have htext : String.ofList ((tokens sql.toList).flatMap (renderToken literal values)) =
      rendered.sql := by decide +kernel
  have hrender : render literal sql values [] = .ok rendered := by
    rw [render, hnames, htext]
    rfl
  exact ⟨htokens, hrender, (tokens_render htokens hrender).1⟩

end QueryTerms.Sql
