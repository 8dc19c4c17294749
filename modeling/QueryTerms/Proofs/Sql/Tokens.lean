import Mathlib.Data.List.Basic
import QueryTerms.Sql.Token

/-!
# Which tokens make a statement

A statement is taken apart from the left, and how far a token reaches depends on what follows it.
This file tells when tokens that stand side by side are found again in their text.

**Quoted text.**  Between its quotes stands a text in which every quote is doubled (`doubled`).
Closing finds the end unless yet another quote follows (`closeQuote_doubled`), and whatever it finds
has this form (`doubled_of_closeQuote`).

**Tokens side by side.**  A token `IsWhole` if it can be read at all, and it `Stops` before a
character if it would not reach further.  A text `ReadsAs` tokens of which every one does both, and
what stands side by side is read so (`ReadsAs.append`).

**There and back.**  The tokens that a text reads as are found in it (`ReadsAs.tokens_eq`), and a
statement reads as its tokens if no quote in it is left alone (`readsAs_tokens`).
-/

namespace QueryTerms.Sql

/-! ## Quoted text -/

/-- The text with every quote written twice. -/
def doubled (quote : Char) (text : List Char) : List Char :=
  text.flatMap fun c => if c = quote then [c, c] else [c]

lemma doubled_cons_self (quote : Char) (text : List Char) :
    doubled quote (quote :: text) = quote :: quote :: doubled quote text := by
  rw [doubled, List.flatMap_cons, if_pos rfl]
  rfl

lemma doubled_cons_of_ne {quote c : Char} (h : c ≠ quote) (text : List Char) :
    doubled quote (c :: text) = c :: doubled quote text := by
  rw [doubled, List.flatMap_cons, if_neg h]
  rfl

/-- Nothing is closed where there is no quote. -/
lemma closeQuote_eq_none_iff {quote : Char} {text : List Char} :
    closeQuote quote text = none ↔ quote ∉ text := by
  fun_induction closeQuote quote text with
  | case1 => simp
  | case2 => simp
  | case3 => simp
  | case4 => simp
  | case5 => simp
  | case6 c cs hc ih => simp [ih, Ne.symm hc]

/-- **Closing finds the end of quoted text**, unless another quote follows. -/
theorem closeQuote_doubled {quote : Char} {rest : List Char} (h : rest.head? ≠ some quote)
    (text : List Char) :
    closeQuote quote (doubled quote text ++ quote :: rest) =
      some (doubled quote text ++ [quote], rest) := by
  induction text with
  | nil =>
    rw [doubled, List.flatMap_nil, List.nil_append, List.nil_append]
    cases rest with
    | nil => simp [closeQuote]
    | cons d ds =>
      have hd : d ≠ quote := fun hd => h (congrArg some hd)
      simp [closeQuote, hd]
  | cons c cs ih =>
    by_cases hc : c = quote
    · subst hc
      simp [doubled_cons_self, closeQuote, ih]
    · rw [doubled_cons_of_ne hc, List.cons_append, closeQuote.eq_def]
      simp only [if_neg hc, ih, Option.map_some, List.cons_append]

/-- **Closing finds nothing but quoted text.**  If yet another quote follows, it is the last one. -/
theorem doubled_of_closeQuote {quote : Char} {text body rest : List Char}
    (h : closeQuote quote text = some (body, rest)) :
    (∃ inner, body = doubled quote inner ++ [quote]) ∧
      (rest.head? = some quote → quote ∉ rest.tail) := by
  fun_induction closeQuote quote text generalizing body rest with
  | case1 => cases h
  | case2 =>
    cases h
    exact ⟨⟨[], rfl⟩, fun hhead => by cases hhead⟩
  | case3 ds body' rest' hclose ih =>
    cases h
    obtain ⟨⟨inner, rfl⟩, hlast⟩ := ih hclose
    exact ⟨⟨quote :: inner, by rw [doubled_cons_self]; rfl⟩, hlast⟩
  | case4 ds hclose _ =>
    cases h
    exact ⟨⟨[], rfl⟩, fun _ => closeQuote_eq_none_iff.mp hclose⟩
  | case5 d ds hd =>
    cases h
    exact ⟨⟨[], rfl⟩, fun hhead => absurd (Option.some.inj hhead) hd⟩
  | case6 c cs hc ih =>
    obtain ⟨⟨body', rest'⟩, hclose, hpair⟩ := Option.map_eq_some_iff.mp h
    cases hpair
    obtain ⟨⟨inner, rfl⟩, hlast⟩ := ih hclose
    exact ⟨⟨c :: inner, by rw [doubled_cons_of_ne hc]; rfl⟩, hlast⟩

/-! ## Tokens side by side -/

/-- A character that opens quoted text. -/
def IsQuote (c : Char) : Prop := c = '\'' ∨ c = '"'

instance (c : Char) : Decidable (IsQuote c) := inferInstanceAs (Decidable (_ ∨ _))

/-- A character that is neither a quote nor a colon.  Wherever it stands outside of quotes and
names, it is a token of its own. -/
def IsPlain (c : Char) : Prop := ¬ IsQuote c ∧ c ≠ ':'

instance (c : Char) : Decidable (IsPlain c) := inferInstanceAs (Decidable (_ ∧ _))

lemma isPlain_of_all {text : List Char} (h : text.all (fun c => decide (IsPlain c)) = true) :
    ∀ c ∈ text, IsPlain c := by
  simpa using h

/-- A letter or an underscore, with which the name of a parameter begins. -/
def isNameStart (c : Char) : Bool := isNameChar c && !c.isDigit

/-- The token can be read where it stands alone; no quote is left alone. -/
def Token.IsWhole : Token → Prop
  | .char c => ¬ IsQuote c
  | .quoted text => ∃ quote inner, IsQuote quote ∧ text = quote :: (doubled quote inner ++ [quote])
  | .cast => True
  | .placeholder name => ∃ c cs, name = c :: cs ∧ isNameStart c = true ∧ cs.all isNameChar = true

/-- The token reaches no further, whatever is behind the given character. -/
def Token.Stops (next : Option Char) : Token → Prop
  | .char c => c = ':' → ∀ d ∈ next, d ≠ ':' ∧ isNameStart d = false
  | .quoted text => ∀ d ∈ next, text.head? ≠ some d
  | .cast => True
  | .placeholder _ => ∀ d ∈ next, isNameChar d = false

/-- The text is read as the tokens if the given character, or nothing, comes next: every token is
whole and stops where the text behind it begins. -/
inductive ReadsAs (next : Option Char) : List Char → List Token → Prop
  | nil : ReadsAs next [] []
  | cons (token : Token) {text : List Char} {ts : List Token} (hwhole : token.IsWhole)
      (hstops : token.Stops (text.head?.or next)) (hrest : ReadsAs next text ts) :
      ReadsAs next (token.text ++ text) (token :: ts)

lemma Token.IsWhole.text_ne_nil {token : Token} (h : token.IsWhole) : token.text ≠ [] := by
  cases token with
  | quoted text =>
    obtain ⟨quote, inner, -, rfl⟩ := h
    exact List.cons_ne_nil _ _
  | _ => exact List.cons_ne_nil _ _

lemma Token.stops_char {c : Char} (h : IsPlain c) (next : Option Char) :
    (Token.char c).Stops next := fun hc => absurd hc h.2

section ReadsAs

variable {next : Option Char} {text front back : List Char} {ts us : List Token}

lemma ReadsAs.isWhole (h : ReadsAs next text ts) : ∀ token ∈ ts, token.IsWhole := by
  induction h with
  | nil => nofun
  | cons _ hwhole _ _ ih => exact List.forall_mem_cons.mpr ⟨hwhole, ih⟩

lemma readsAs_singleton (token : Token) (hwhole : token.IsWhole) (hstops : token.Stops next) :
    ReadsAs next token.text [token] := by
  have h : ReadsAs next (token.text ++ []) [token] := .cons token hwhole hstops .nil
  rwa [List.append_nil] at h

lemma readsAs_map_char (h : ∀ c ∈ text, IsPlain c) : ReadsAs next text (text.map Token.char) := by
  induction text with
  | nil => exact .nil
  | cons c cs ih =>
    obtain ⟨hc, hcs⟩ := List.forall_mem_cons.mp h
    exact .cons (.char c) hc.1 (Token.stops_char hc _) (ih hcs)

/-- **Texts side by side** are read one after the other. -/
theorem ReadsAs.append (hfront : ReadsAs (back.head?.or next) front ts)
    (hback : ReadsAs next back us) : ReadsAs next (front ++ back) (ts ++ us) := by
  induction hfront with
  | nil => exact hback
  | cons token hwhole hstops _ ih =>
    rw [List.append_assoc]
    refine .cons token hwhole ?_ ih
    rwa [List.head?_append, Option.or_assoc]

end ReadsAs

/-! ## There and back -/

lemma nameAtFront_eq_nil_iff {text : List Char} :
    nameAtFront text = [] ↔ ∀ c ∈ text.head?, isNameStart c = false := by
  cases text with
  | nil => simp [nameAtFront]
  | cons c cs =>
    rw [nameAtFront]
    by_cases hd : c.isDigit = true <;> by_cases hn : isNameChar c = true <;>
      simp [isNameStart, hd, hn]

lemma exists_cons_of_nameAtFront_ne_nil {text : List Char} (h : nameAtFront text ≠ []) :
    ∃ c cs, text = c :: cs ∧ isNameStart c = true := by
  rw [Ne, nameAtFront_eq_nil_iff] at h
  push Not at h
  obtain ⟨c, hhead, hc⟩ := h
  obtain ⟨cs, rfl⟩ := List.head?_eq_some_iff.mp hhead
  exact ⟨c, cs, rfl, Bool.not_eq_false _ ▸ hc⟩

lemma nameAtFront_cons {c : Char} (hc : isNameStart c = true) (cs : List Char) :
    nameAtFront (c :: cs) = c :: cs.takeWhile isNameChar := by
  obtain ⟨hname, hdigit⟩ : isNameChar c = true ∧ c.isDigit = false := by
    simpa [isNameStart] using hc
  rw [nameAtFront, if_neg (by rw [hdigit]; decide), List.takeWhile_cons_of_pos hname]

/-- Behind a name is the first character that belongs to none. -/
lemma drop_nameAtFront {c : Char} (hc : isNameStart c = true) (cs : List Char) :
    (c :: cs).drop (nameAtFront (c :: cs)).length = cs.dropWhile isNameChar := by
  have hcut : nameAtFront (c :: cs) ++ cs.dropWhile isNameChar = c :: cs := by
    rw [nameAtFront_cons hc, List.cons_append, List.takeWhile_append_dropWhile]
  exact List.append_cancel_left ((nameAtFront_append_drop (c :: cs)).trans hcut.symm)

lemma nameAtFront_append {c : Char} {cs rest : List Char} (hc : isNameStart c = true)
    (hcs : cs.all isNameChar = true) (hrest : ∀ d ∈ rest.head?, isNameChar d = false) :
    nameAtFront (c :: cs ++ rest) = c :: cs := by
  have hstop : rest.takeWhile isNameChar = [] := by
    cases rest with
    | nil => rfl
    | cons d ds => exact List.takeWhile_cons_of_neg (by rw [hrest d rfl]; decide)
  rw [List.cons_append, nameAtFront_cons hc, List.takeWhile_append_of_pos (List.all_eq_true.mp hcs),
    hstop, List.append_nil]

lemma tokens_of_close {quote : Char} {text body rest : List Char} (hquote : IsQuote quote)
    (h : closeQuote quote text = some (body, rest)) :
    tokens (quote :: text) = .quoted (quote :: body) :: tokens rest := by
  have hopens : quote = '\'' ∨ quote = '"' := hquote
  rw [tokens, if_pos hopens]
  split
  · next heq =>
    rw [h] at heq
    cases heq
    rfl
  · next heq =>
    rw [h] at heq
    cases heq

lemma tokens_of_open {quote : Char} {text : List Char} (hquote : IsQuote quote)
    (h : closeQuote quote text = none) : tokens (quote :: text) = .char quote :: tokens text := by
  have hopens : quote = '\'' ∨ quote = '"' := hquote
  rw [tokens, if_pos hopens]
  split
  · next heq =>
    rw [h] at heq
    cases heq
  · rfl

/-- A whole token that stops is found first. -/
lemma tokens_text_append {token : Token} {rest : List Char} (hwhole : token.IsWhole)
    (hstops : token.Stops rest.head?) : tokens (token.text ++ rest) = token :: tokens rest := by
  cases token with
  | char c =>
    have hquote : ¬ (c = '\'' ∨ c = '"') := hwhole
    rw [Token.text, List.singleton_append, tokens, if_neg hquote]
    by_cases hc : c = ':'
    · have hnext := hstops hc
      have hhead : rest.head? ≠ some ':' := fun hhead => (hnext ':' hhead).1 rfl
      have hname : nameAtFront rest = [] :=
        nameAtFront_eq_nil_iff.mpr fun d hd => (hnext d hd).2
      rw [if_pos hc, if_neg hhead, if_pos hname]
    · rw [if_neg hc]
  | quoted text =>
    obtain ⟨quote, inner, hquote, rfl⟩ := hwhole
    have hrest : rest.head? ≠ some quote := fun hhead => hstops quote hhead rfl
    rw [Token.text, List.cons_append, List.append_assoc, List.singleton_append,
      tokens_of_close hquote (closeQuote_doubled hrest inner)]
  | cast =>
    simp [Token.text, tokens]
  | placeholder name =>
    obtain ⟨c, cs, rfl, hc, hcs⟩ := hwhole
    have hname := nameAtFront_append hc hcs hstops
    have hcolon : (c :: cs ++ rest).head? ≠ some ':' := by
      rintro hhead
      cases hhead
      exact absurd hc (by decide)
    rw [Token.text, List.cons_append, tokens, if_neg (by decide), if_pos rfl, if_neg hcolon, hname,
      if_neg (List.cons_ne_nil c cs), List.drop_left]

/-- **What a text reads as** is found in it. -/
theorem ReadsAs.tokens_eq {text : List Char} {ts : List Token} (h : ReadsAs none text ts) :
    tokens text = ts := by
  induction h with
  | nil => rw [tokens]
  | cons _ hwhole hstops _ ih =>
    rw [Option.or_none] at hstops
    rw [tokens_text_append hwhole hstops, ih]

/-- Quoted text stops, because a quote behind it would be the last one, and left alone. -/
lemma stops_quoted {quote : Char} {text body rest : List Char} (hquote : IsQuote quote)
    (hclose : closeQuote quote text = some (body, rest)) (h : Token.char quote ∉ tokens rest) :
    (Token.quoted (quote :: body)).Stops rest.head? := by
  rintro d hd ⟨⟩
  obtain ⟨ds, rfl⟩ := List.head?_eq_some_iff.mp hd
  have hopen : closeQuote quote ds = none :=
    closeQuote_eq_none_iff.mpr ((doubled_of_closeQuote hclose).2 rfl)
  rw [tokens_of_open hquote hopen] at h
  exact h List.mem_cons_self

lemma stops_placeholder (name cs : List Char) :
    (Token.placeholder name).Stops (cs.dropWhile isNameChar).head? := by
  intro d hd
  have hstop := List.head?_dropWhile_not isNameChar cs
  rw [hd] at hstop
  exact hstop

/-- **A statement reads as its tokens**, if no quote in it is left alone. -/
theorem readsAs_tokens {text : List Char} (h : ∀ c, Token.char c ∈ tokens text → ¬ IsQuote c) :
    ReadsAs none text (tokens text) := by
  fun_induction tokens text with
  | case1 => exact .nil
  | case2 c cs hc body rest hclose ih =>
    have hrest : ∀ d, Token.char d ∈ tokens rest → ¬ IsQuote d :=
      fun d hd => h d (List.mem_cons_of_mem _ hd)
    have hstops := stops_quoted hc hclose fun hmem => hrest c hmem hc
    obtain ⟨⟨inner, rfl⟩, -⟩ := doubled_of_closeQuote hclose
    rw [closeQuote_eq hclose]
    refine .cons (.quoted _) ⟨c, inner, hc, rfl⟩ ?_ (ih hrest)
    rwa [Option.or_none]
  | case3 c cs hc hclose ih => exact absurd hc (h c List.mem_cons_self)
  | case4 cs hhead hc ih =>
    obtain ⟨ds, rfl⟩ := List.head?_eq_some_iff.mp hhead
    exact .cons .cast trivial trivial (ih fun d hd => h d (List.mem_cons_of_mem _ hd))
  | case5 cs hhead hname hc ih =>
    refine .cons (.char ':') hc ?_ (ih fun d hd => h d (List.mem_cons_of_mem _ hd))
    rw [Option.or_none]
    exact fun _ d hd => ⟨fun hd' => hhead (hd' ▸ hd), nameAtFront_eq_nil_iff.mp hname d hd⟩
  | case6 cs hhead hname hc ih =>
    obtain ⟨c, ds, rfl, hc⟩ := exists_cons_of_nameAtFront_ne_nil hname
    have hrest := ih fun d hd => h d (List.mem_cons_of_mem _ hd)
    have htext : ':' :: c :: ds =
        (Token.placeholder (c :: ds.takeWhile isNameChar)).text ++ ds.dropWhile isNameChar := by
      simp [Token.text]
    rw [drop_nameAtFront hc] at hrest ⊢
    rw [nameAtFront_cons hc, htext]
    refine .cons _ ⟨c, _, rfl, hc, List.all_takeWhile⟩ ?_ hrest
    rw [Option.or_none]
    exact stops_placeholder _ ds
  | case7 c cs hc hcolon ih =>
    refine .cons (.char c) hc ?_ (ih fun d hd => h d (List.mem_cons_of_mem _ hd))
    exact fun heq => absurd heq hcolon

end QueryTerms.Sql
