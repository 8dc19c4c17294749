import Mathlib.Data.List.Forall2
import QueryTerms.Sql.Literal
import QueryTerms.Proofs.Sql.Tokens

/-!
# What a literal is read as

Sequences are written into the text of a statement, and the text is read again.  This file tells
that nothing in a value gets out of the quotes that were put around it.

**Quoted values.**  `Spells` says that a token is the text of a value in single quotes.  What is no
text is written with plain characters only (`isPlain_literal`).

**Lists.**  A text `Inlines` values if it is read as quoted tokens that spell them, between plain
characters, and could be followed by anything but another quote.  This carries from single literals
over separated ones to `exists_inlines_literalList`.
-/

namespace QueryTerms

/-- A value whose literal is quoted text. -/
def Value.isTextual : Value → Bool
  | .string _ | .array _ | .object _ => true
  | _ => false

namespace Sql

/-! ## Quoted values -/

/-- A token that is more than one character of the statement. -/
def Token.isMark : Token → Bool
  | .char _ => false
  | _ => true

/-- The text with every two quotes in a row written as one. -/
def undoubled (quote : Char) : List Char → List Char
  | c :: d :: cs =>
    if c = quote ∧ d = quote then quote :: undoubled quote cs else c :: undoubled quote (d :: cs)
  | cs => cs

/-- The token is the text of the value in single quotes, with every quote in it doubled. -/
def Spells (value : Value) (token : Token) : Prop :=
  ∃ body, token = .quoted ('\'' :: (body ++ ['\''])) ∧ undoubled '\'' body = value.text.toList

/-- The components of a tuple; a value that is none stands for itself. -/
def components : Value → List Value
  | .array parts => parts
  | value => [value]

/-- What a list of literals consists of: its items, or the components of its tuples. -/
def listed (items : List Value) : List Value :=
  if isTupleList items then items.flatMap components else items

/-- Undoubling reads a doubled text. -/
lemma undoubled_doubled (quote : Char) (text : List Char) :
    undoubled quote (doubled quote text) = text := by
  induction text with
  | nil => rfl
  | cons c cs ih =>
    by_cases hc : c = quote
    · subst hc
      rw [doubled_cons_self, undoubled, if_pos ⟨rfl, rfl⟩, ih]
    · rw [doubled_cons_of_ne hc]
      cases hcs : doubled quote cs with
      | nil => rw [← ih, hcs]; rfl
      | cons d ds => rw [undoubled, if_neg fun h => hc h.1, ← hcs, ih]

lemma literal_of_isTextual {value : Value} (h : value.isTextual = true) :
    (literal value).toList = '\'' :: (doubled '\'' value.text.toList ++ ['\'']) := by
  cases value with
  | string s => simp [literal, quoted, doubled, Value.text]
  | array items => simp [literal, quoted, doubled, Value.text]
  | object fields => simp [literal, quoted, doubled, Value.text]
  | _ => cases h

/-! ## Numbers -/

lemma isPlain_of_isDigit {c : Char} (h : c.isDigit = true) : IsPlain c := by
  refine ⟨?_, ?_⟩
  · rintro (rfl | rfl) <;> exact absurd h (by decide)
  · rintro rfl
    exact absurd h (by decide)

lemma isPlain_of_mem_toDigits {n : Nat} {c : Char} (h : c ∈ Nat.toDigits 10 n) : IsPlain c :=
  isPlain_of_isDigit (Nat.isDigit_of_mem_toDigits (by decide) (by decide) h)

lemma isPlain_of_mem_toString {n : Int} {c : Char} (h : c ∈ (toString n).toList) : IsPlain c := by
  rw [Int.toString_eq_repr, Int.repr_eq_if] at h
  split at h
  · rw [Nat.toList_repr] at h
    exact isPlain_of_mem_toDigits h
  · rw [String.toList_append, Nat.toList_repr] at h
    rcases List.mem_append.mp h with hsign | hdigit
    · have hc : c = '-' := List.mem_singleton.mp hsign
      exact hc ▸ by decide
    · exact isPlain_of_mem_toDigits hdigit

lemma isPlain_of_mem_positionalText {layout : FloatLayout} {digits : List Char}
    (hdigits : ∀ c ∈ digits, IsPlain c) (point : Int) :
    ∀ c ∈ layout.positionalText digits point, IsPlain c := by
  have hzero : IsPlain '0' := by decide
  have hpoint : IsPlain '.' := by decide
  have hzeros : ∀ n, ∀ c ∈ List.replicate n '0', IsPlain c := fun n c hc =>
    List.eq_of_mem_replicate hc ▸ hzero
  intro c hc
  rw [FloatLayout.positionalText] at hc
  split at hc
  · simp only [List.cons_append, List.mem_cons, List.mem_append] at hc
    rcases hc with rfl | rfl | hc | hc
    · exact hzero
    · exact hpoint
    · exact hzeros _ c hc
    · exact hdigits c hc
  · split at hc
    · simp only [List.mem_cons, List.mem_append] at hc
      rcases hc with hc | rfl | hc
      · exact hdigits c (List.mem_of_mem_take hc)
      · exact hpoint
      · exact hdigits c (List.mem_of_mem_drop hc)
    · rcases List.mem_append.mp hc with hc | hc
      · rcases List.mem_append.mp hc with hc | hc
        · exact hdigits c hc
        · exact hzeros _ c hc
      · split at hc
        · simp only [List.mem_cons, List.not_mem_nil, or_false] at hc
          rcases hc with rfl | rfl
          · exact hpoint
          · exact hzero
        · cases hc

/-- A number is written with digits, a sign and a point. -/
lemma isPlain_of_mem_write {x : Float} (hx : isFinite x = true) :
    ∀ c ∈ (FloatLayout.plain.write x).toList, IsPlain c := by
  intro c hc
  rw [FloatLayout.write] at hc
  rw [isFinite] at hx
  cases hview : FloatView.ofFloat x with
  | nan => rw [hview] at hx; cases hx
  | infinite negative => rw [hview] at hx; cases hx
  | finite negative significand exponent =>
    rw [hview] at hc
    have hdecimal : ∀ decimal, ∀ d ∈ FloatLayout.plain.decimalText decimal, IsPlain d :=
      fun decimal => isPlain_of_mem_positionalText (fun _ => isPlain_of_mem_toDigits) _
    cases negative with
    | false =>
      rw [String.toList_ofList] at hc
      exact hdecimal _ c hc
    | true =>
      rw [String.toList_ofList] at hc
      rcases List.mem_cons.mp hc with rfl | hc
      · decide
      · exact hdecimal _ c hc

/-- **What is no text is written with plain characters.** -/
theorem isPlain_literal {value : Value} (h : value.isTextual = false) :
    ∀ c ∈ (literal value).toList, IsPlain c := by
  cases value with
  | null => exact isPlain_of_all rfl
  | boolean b => cases b <;> exact isPlain_of_all rfl
  | integer n => exact fun c => isPlain_of_mem_toString
  | float x =>
    rw [literal]
    split
    · next hx => exact isPlain_of_mem_write hx
    · exact isPlain_of_all rfl
  | _ => cases h

/-! ## Lists -/

/-- A text that is read as the tokens if anything but a quote comes next, where the tokens spell the
textual ones of the values. -/
structure Inlines (text : List Char) (values : List Value) (ts : List Token) : Prop where
  reads : ∀ next ≠ some '\'', ReadsAs next text ts
  spells : List.Forall₂ Spells (values.filter Value.isTextual) (ts.filter Token.isMark)

lemma Inlines.nil : Inlines [] [] [] := ⟨fun _ _ => .nil, .nil⟩

lemma inlines_map_char {text : List Char} (h : ∀ c ∈ text, IsPlain c) {values : List Value}
    (hvalues : values.filter Value.isTextual = []) :
    Inlines text values (text.map Token.char) := by
  refine ⟨fun _ _ => readsAs_map_char h, ?_⟩
  have hmarks : (text.map Token.char).filter Token.isMark = [] := by
    simp [List.filter_map, Function.comp_def, Token.isMark]
  rw [hvalues, hmarks]
  exact .nil

/-- A plain character keeps inlined texts apart. -/
lemma Inlines.separated {front back : List Char} {values others : List Value}
    {ts us : List Token} (hfront : Inlines front values ts) {c : Char} (hc : IsPlain c)
    (hback : Inlines back others us) :
    Inlines (front ++ c :: back) (values ++ others) (ts ++ .char c :: us) := by
  refine ⟨fun next hnext => ?_, ?_⟩
  · refine .append (hfront.reads (some c) ?_)
      (.cons (.char c) hc.1 (Token.stops_char hc _) (hback.reads next hnext))
    rintro ⟨⟩
    exact hc.1 (.inl rfl)
  · rw [List.filter_append, List.filter_append]
    exact List.rel_append hfront.spells hback.spells

/-- A literal is read as one quoted token, or as none. -/
lemma exists_inlines_literal (value : Value) : ∃ ts, Inlines (literal value).toList [value] ts := by
  cases h : value.isTextual with
  | false => exact ⟨_, inlines_map_char (isPlain_literal h) (by simp [h])⟩
  | true =>
    rw [literal_of_isTextual h]
    refine ⟨_, fun next hnext => readsAs_singleton (.quoted _) ⟨'\'', _, .inl rfl, rfl⟩ ?_, ?_⟩
    · rintro d rfl hquote
      exact hnext hquote.symm
    · rw [List.filter_cons_of_pos h, List.filter_cons_of_pos rfl]
      exact .cons ⟨_, rfl, undoubled_doubled _ _⟩ .nil

/-- Texts between commas are read one after another. -/
lemma exists_inlines_intercalate (write : Value → String) (parts : Value → List Value)
    (items : List Value)
    (h : ∀ item ∈ items, ∃ ts, Inlines (write item).toList (parts item) ts) :
    ∃ ts, Inlines (String.intercalate "," (items.map write)).toList (items.flatMap parts) ts := by
  induction items with
  | nil => exact ⟨[], Inlines.nil⟩
  | cons item rest ih =>
    obtain ⟨⟨ts, hitem⟩, hrest⟩ := List.forall_mem_cons.mp h
    cases rest with
    | nil => exact ⟨ts, by simpa using hitem⟩
    | cons next others =>
      obtain ⟨us, hothers⟩ := ih hrest
      have hcomma : IsPlain ',' := by decide
      exact ⟨_, by simpa using hitem.separated hcomma hothers⟩

lemma exists_inlines_literals (items : List Value) :
    ∃ ts, Inlines (String.intercalate "," (items.map literal)).toList items ts := by
  have h := exists_inlines_intercalate literal (fun value => [value]) items
    fun item _ => exists_inlines_literal item
  rwa [List.flatMap_singleton'] at h

lemma exists_inlines_tupleLiteral (value : Value) :
    ∃ ts, Inlines (tupleLiteral literal value).toList (components value) ts := by
  cases value with
  | array parts =>
    obtain ⟨ts, hparts⟩ := exists_inlines_literals parts
    have hopen : IsPlain '(' := by decide
    have hclose : IsPlain ')' := by decide
    have h := Inlines.nil.separated hopen (hparts.separated hclose Inlines.nil)
    exact ⟨_, by simpa [tupleLiteral, components] using h⟩
  | _ =>
    simp only [tupleLiteral, components]
    exact exists_inlines_literal _

/-- **A list of literals** is read as one quoted token for every textual value in it. -/
theorem exists_inlines_literalList (items : List Value) :
    ∃ ts, Inlines (literalList literal items).toList (listed items) ts := by
  rw [literalList, listed]
  by_cases hempty : items.isEmpty = true
  · obtain rfl := List.isEmpty_iff.mp hempty
    exact ⟨_, inlines_map_char (isPlain_of_all rfl) rfl⟩
  · rw [if_neg hempty]
    split
    · exact exists_inlines_intercalate _ _ _ fun item _ => exists_inlines_tupleLiteral item
    · exact exists_inlines_literals items

end Sql

end QueryTerms
