import QueryTerms.Proofs.Table
import QueryTerms.Proofs.Term.Depth
import QueryTerms.Proofs.Term.Spreading
import QueryTerms.Resolver

/-!
# Aliases that lead on and on

The target of an alias is read in place of the id of a child, and it may be any text.  So a reading
may come to the same alias again and again.

**Leading back.**  A reading only ever comes to parts of its text and of the targets, and to
targets with such parts behind them.  With finitely many targets these are finitely many
(`finite_readable`), so that an endless reading comes to some text twice: `LeadsBack`.

**Finishing.**  A text `Finishes` if some number of levels is enough for it.  That is so exactly
when no endless chain of readings begins with it, and for finitely many targets exactly when it
does not lead back, and when the reader does not report endless aliases: `finishes_iff`.  Targets
without parentheses never make a text endless (`finishes_of_plain_targets`).
-/

namespace QueryTerms.Term

/-! ## Leading back -/

/-- The text is read again inside its own reading, or it needs one that is. -/
def LeadsBack (aliases : Aliases) (text : List Char) : Prop :=
  ∃ again, Relation.ReflTransGen (Needs aliases) text again ∧
    Relation.TransGen (Needs aliases) again again

/-- What is read for a balanced part of one of the texts, wherever it stands. -/
def Readable (aliases : Aliases) (sources : List (List Char)) (text : List Char) : Prop :=
  ∃ source ∈ sources, ∃ part, part <:+: source ∧ IsBalanced part ∧
    ∃ id, text = partText aliases id part

section Readable

variable {aliases : Aliases} {targets : List String} {sources : List (List Char)}
  {text inner : List Char}

/-- What is read for a part is a part of it, perhaps behind a target. -/
lemma exists_of_partText (h : DrawsFrom aliases targets) (id part : List Char) :
    ∃ front ∈ [] :: targets.map String.toList, ∃ rest, rest <:+: part ∧
      partText aliases id part = front ++ rest := by
  rw [partText]
  split
  · exact ⟨[], List.mem_cons_self, part, List.infix_refl part, rfl⟩
  obtain heq | ⟨name, rest, target, htrim, -, -, htarget, heq⟩ :=
    substituteAlias_cases aliases id part
  · exact ⟨[], List.mem_cons_self, _, infix_trim part, heq⟩
  · refine ⟨target.toList, List.mem_cons_of_mem _ (List.mem_map_of_mem (h.mem htarget)), rest, ?_,
      heq⟩
    exact (List.suffix_append name rest).isInfix.trans (htrim ▸ infix_trim part)

/-- There are finitely many texts to read. -/
lemma finite_readable (h : DrawsFrom aliases targets) (sources : List (List Char)) :
    {text | Readable aliases sources text}.Finite := by
  refine ((List.finite_toSet ([] :: targets.map String.toList)).image2 (· ++ ·)
    (List.finite_toSet (sources.flatMap List.sublists))).subset ?_
  rintro text ⟨source, hsource, part, hpart, -, id, rfl⟩
  obtain ⟨front, hfront, rest, hrest, heq⟩ := exists_of_partText h id part
  have hmem : rest ∈ sources.flatMap List.sublists :=
    List.mem_flatMap.mpr ⟨source, hsource, List.mem_sublists.mpr (hrest.trans hpart).sublist⟩
  exact ⟨front, hfront, rest, hmem, heq.symm⟩

/-- A text one level down is read for a part of a group. -/
lemma exists_group_of_mem_textsBelow (h : inner ∈ textsBelow aliases text) :
    ∃ atom ∈ atomTexts text, ∃ id group, groupOf? atom = some (id, group) ∧
      ∃ part, part <:+: group ∧ IsBalanced part ∧ inner = partText aliases id part := by
  obtain ⟨atom, hatom, hinner⟩ := List.mem_flatMap.mp h
  rw [nestedTexts] at hinner
  split at hinner
  · cases hinner
  next id group hgroup =>
  obtain ⟨part, hpart, rfl⟩ := List.mem_map.mp hinner
  refine ⟨atom, hatom, id, group, hgroup, part, infix_of_mem_splitTop hpart, ?_, rfl⟩
  exact (exists_of_groupOf? hgroup).1.of_mem_splitTop (by decide) (by decide) hpart

lemma infix_group (group : List Char) : group <:+: '(' :: group ++ [')'] :=
  ⟨['('], [')'], rfl⟩

/-- One level below a source is something to read. -/
lemma readable_of_source (hsource : text ∈ sources) (h : inner ∈ textsBelow aliases text) :
    Readable aliases sources inner := by
  obtain ⟨atom, hatom, id, group, hgroup, part, hpart, hbalanced, rfl⟩ :=
    exists_group_of_mem_textsBelow h
  refine ⟨text, hsource, part, ?_, hbalanced, id, rfl⟩
  exact ((hpart.trans (infix_group group)).trans (infix_of_groupOf? hgroup)).trans
    (infix_of_mem_atomTexts hatom)

/-- One level below something to read is something to read, if the targets are sources. -/
lemma Readable.below (h : DrawsFrom aliases targets)
    (hsources : ∀ target ∈ targets, target.toList ∈ sources) (htext : Readable aliases sources text)
    (hinner : inner ∈ textsBelow aliases text) : Readable aliases sources inner := by
  obtain ⟨source, hsource, outer, houter, hbalanced, name, rfl⟩ := htext
  obtain ⟨atom, hatom, id, group, hgroup, part, hpart, hpartBalanced, rfl⟩ :=
    exists_group_of_mem_textsBelow hinner
  rcases group_of_mem_atomTexts hbalanced hatom hgroup with hwithin | ⟨_, _, target, htarget, hmem⟩
  · refine ⟨source, hsource, part, ?_, hpartBalanced, id, rfl⟩
    exact ((hpart.trans (infix_group group)).trans hwithin).trans houter
  · refine ⟨target.toList, hsources target (h.mem htarget), part, ?_, hpartBalanced, id, rfl⟩
    exact ((hpart.trans (infix_group group)).trans (infix_of_groupOf? hgroup)).trans
      (infix_of_mem_atomTexts hmem)

/-- **With finitely many targets, a reading without end comes to some text twice.** -/
theorem leadsBack_of_not_ends (h : DrawsFrom aliases targets) (hends : ¬ Ends aliases text) :
    LeadsBack aliases text := by
  obtain ⟨chain, rfl, hchain⟩ := not_ends_iff_exists_chain.mp hends
  have hreadable : ∀ n, Readable aliases (chain 0 :: targets.map String.toList) (chain (n + 1)) := by
    intro n
    induction n with
    | zero => exact readable_of_source List.mem_cons_self (hchain 0).below
    | succ n ih =>
      refine ih.below h (fun target htarget => ?_) (hchain (n + 1)).below
      exact List.mem_cons_of_mem _ (List.mem_map_of_mem htarget)
  -- infinitely many links, and finitely many texts for them
  obtain ⟨one, -, other, -, hne, heq⟩ := Set.infinite_univ.exists_ne_map_eq_of_mapsTo
    (f := fun n => chain (n + 1)) (fun n _ => hreadable n) (finite_readable h _)
  have hbetween := Nat.rel_of_forall_rel_succ_of_lt (Relation.TransGen (Needs aliases))
    fun n => .single (hchain n)
  have hstart : ∀ n, Relation.ReflTransGen (Needs aliases) (chain 0) (chain (n + 1)) :=
    fun n => (hbetween (Nat.succ_pos n)).to_reflTransGen
  rcases Nat.lt_or_gt_of_ne hne with hlt | hlt
  · refine ⟨_, hstart one, ?_⟩
    nth_rewrite 2 [show chain (one + 1) = chain (other + 1) from heq]
    exact hbetween (Nat.add_lt_add_right hlt 1)
  · refine ⟨_, hstart other, ?_⟩
    nth_rewrite 2 [← show chain (one + 1) = chain (other + 1) from heq]
    exact hbetween (Nat.add_lt_add_right hlt 1)

lemma ends_iff_not_leadsBack (h : DrawsFrom aliases targets) :
    Ends aliases text ↔ ¬ LeadsBack aliases text := by
  constructor
  · rintro hends ⟨again, hreach, hloop⟩
    exact not_ends_of_needs_itself hloop (hends.of_needs hreach)
  · exact fun hback => by_contra fun hends => hback (leadsBack_of_not_ends h hends)

end Readable

/-! ## Finishing -/

/-- What is read for a text, once its names are spread. -/
structure IsReadAs (text : String) (spread : List Char) : Prop where
  balanced : unbalancedAt? 0 0 text.toList = none
  distributes : distribute text.toList = .ok spread

/-- The text is read within some number of levels; one that cannot be spread is not read at all. -/
def Finishes (aliases : Aliases) (text : String) : Prop :=
  ∀ spread, IsReadAs text spread → Ends aliases spread

section Finishes

variable {aliases : Aliases} {targets : List String} {text : String} {spread : List Char}

lemma IsReadAs.parseWith_eq (h : IsReadAs text spread) (aliases : Aliases) :
    parseWith aliases text = readNested aliases (sufficientLevels aliases spread) spread := by
  rw [parseWith, h.balanced, h.distributes]
  rfl

/-- Spreading names has nothing to do with aliases. -/
lemma not_runsOut_distributeFrom (input : String) (settled rest : List Char) :
    ¬ RunsOut (distributeFrom input settled rest) := by
  induction settled, rest using distributeFrom.induct with
  | case1 settled rest hcut =>
    rw [distributeFrom_of_none hcut]
    exact not_runsOut_ok _
  | case2 settled rest front back hcut hwide =>
    rw [distributeFrom_of_some hcut, if_pos hwide]
    exact not_runsOut_error fun _ => by simp
  | case3 settled rest front back hcut hwide hname =>
    rw [distributeFrom_of_some hcut, if_neg hwide, if_pos hname]
    exact not_runsOut_error fun _ => by simp
  | case4 settled rest front back hcut hwide hname hclose =>
    rw [distributeFrom_of_some hcut, if_neg hwide, if_neg hname, hclose]
    exact not_runsOut_error fun _ => by simp
  | case5 settled rest front back hcut hwide hname inner after hclose cause hchecked =>
    have hends := not_runsOut_checkOperands inner (splitTop '|' inner)
    rw [distributeFrom_of_some hcut, if_neg hwide, if_neg hname, hclose]
    simp only [hchecked] at hends ⊢
    exact fun ⟨shown, h⟩ => hends ⟨shown, congrArg _ (Except.error.inj h)⟩
  | case6 settled rest front back hcut hwide hname inner after hclose hchecked ih =>
    rw [distributeFrom_of_some hcut, if_neg hwide, if_neg hname, hclose]
    simp only [hchecked]
    exact ih

lemma exists_spreads_of_runsOut (h : RunsOut (parseWith aliases text)) :
    ∃ spread, IsReadAs text spread := by
  rw [parseWith] at h
  split at h
  · exact absurd h (not_runsOut_error fun _ => by simp)
  · next hbalanced =>
    rcases runsOut_bind_iff.mp h with hout | ⟨spread, hspread, -⟩
    · exact absurd hout (not_runsOut_distributeFrom _ _ _)
    · exact ⟨spread, hbalanced, hspread⟩

/-- The reader reports endless aliases where no number of levels is enough. -/
lemma finishes_iff_not_runsOut (h : DrawsFrom aliases targets) :
    Finishes aliases text ↔ ¬ RunsOut (parseWith aliases text) := by
  constructor
  · intro hfinishes hout
    obtain ⟨spread, hspread⟩ := exists_spreads_of_runsOut hout
    rw [hspread.parseWith_eq] at hout
    exact not_runsOut_of_ends h (hfinishes spread hspread) hout
  · intro hout spread hspread
    rw [hspread.parseWith_eq] at hout
    exact ⟨_, hout⟩

/-- **Exactly which texts are read to an end.**  Some number of levels is enough for a text if and
only if no endless chain of readings begins with it.  With finitely many targets that is so if and
only if the text does not lead back, and just then the reader gives a term or the fault. -/
theorem finishes_iff (aliases : Aliases) (text : String) :
    (Finishes aliases text ↔ ∀ spread, IsReadAs text spread →
      ¬ ∃ chain : Nat → List Char,
        chain 0 = spread ∧ ∀ n, Needs aliases (chain n) (chain (n + 1))) ∧
    ∀ targets, DrawsFrom aliases targets →
      (Finishes aliases text ↔ ∀ spread, IsReadAs text spread → ¬ LeadsBack aliases spread) ∧
      (Finishes aliases text ↔ ¬ RunsOut (parseWith aliases text)) := by
  refine ⟨?_, fun targets hdraws => ⟨?_, finishes_iff_not_runsOut hdraws⟩⟩
  · exact forall₂_congr fun spread _ => not_iff_comm.mp not_ends_iff_exists_chain |>.symm
  · exact forall₂_congr fun spread _ => ends_iff_not_leadsBack hdraws

/-- What the leaves of a catalog declare is finite. -/
lemma drawsFrom_aliases {resolver : Resolver} {catalog : Catalog}
    (h : resolver.store = catalog.toStore) : DrawsFrom resolver.aliases catalog.aliasTargets where
  mem {parent child target} htarget := by
    have hget : (catalog.toStore.aliasesOf parent).get? child = some target := h ▸ htarget
    simp only [Store.aliasesOf, Catalog.toStore, Catalog.found] at hget
    rw [Catalog.aliasTargets, List.mem_append]
    cases hcompiled : catalog.compiled.get? parent with
    | some entry =>
      rw [hcompiled] at hget
      refine .inl (List.mem_flatMap.mpr ⟨entry, Table.mem_values_of_get?_eq_some hcompiled, ?_⟩)
      exact Table.mem_values_of_get?_eq_some hget
    | none =>
      rw [hcompiled] at hget
      cases hdefinition : catalog.definitions.get? parent with
      | some definition =>
        rw [hdefinition] at hget
        refine .inr (List.mem_flatMap.mpr
          ⟨definition, Table.mem_values_of_get?_eq_some hdefinition, ?_⟩)
        exact Table.mem_values_of_get?_eq_some hget
      | none =>
        rw [hdefinition] at hget
        cases hget
  extent := by
    rw [Resolver.aliases, h]
    exact le_rfl

/-- A leaf declares an alias that leads to a tree, and the child has children of its own. -/
theorem finishes_nested :
    let catalog : Catalog :=
      { compiled := [("user", { aliases := [("orders", "shop(lines)")] }, "SELECT users")] }
    let resolver : Resolver :=
      { store := catalog.toStore, database := { execute := fun _ _ => .ok {} } }
    resolver.parse "user(orders,notes)" =
        .ok (.tree "user" [.tree "shop" [.leaf "lines"], .leaf "notes"]) ∧
      Finishes resolver.aliases "user(orders,notes)" := by
  intro catalog resolver
  have hread : parseWith resolver.aliases "user(orders,notes)" =
      .ok (.tree "user" [.tree "shop" [.leaf "lines"], .leaf "notes"]) := by cbv
  have hdraws : DrawsFrom resolver.aliases catalog.aliasTargets := drawsFrom_aliases rfl
  refine ⟨hread, (((finishes_iff resolver.aliases _).2 _ hdraws).2).mpr ?_⟩
  rw [hread]
  exact not_runsOut_ok _

/-- An alias that leads to the tree that it is declared for: no number of levels is enough. -/
theorem not_finishes_itself : ¬ Finishes (.ofList [("a", "b", "a(b)")]) "a(b)" := by
  have hout : RunsOut (parseWith (.ofList [("a", "b", "a(b)")]) "a(b)") := ⟨"a(b)", by cbv⟩
  exact fun hfinishes => (finishes_iff_not_runsOut (drawsFrom_ofList _)).mp hfinishes hout

/-- Parentheses get fewer on the way down, if the targets bring in none. -/
lemma count_lt_of_mem_textsBelow {text inner : List Char}
    (hplain : ∀ {parent child target : String}, aliases.target? parent child = some target →
      '(' ∉ target.toList) (h : inner ∈ textsBelow aliases text) :
    inner.count '(' < text.count '(' := by
  obtain ⟨atom, hatom, id, group, hgroup, part, hpart, -, rfl⟩ := exists_group_of_mem_textsBelow h
  have hpartCount : (partText aliases id part).count '(' ≤ part.count '(' := by
    rw [partText]
    split
    · exact le_rfl
    obtain heq | ⟨name, rest, target, htrim, -, -, htarget, heq⟩ :=
      substituteAlias_cases aliases id part
    · exact heq ▸ (infix_trim part).sublist.count_le '('
    · rw [heq, List.count_append, List.count_eq_zero_of_not_mem (hplain htarget), Nat.zero_add]
      have hrest := (List.suffix_append name rest).isInfix.trans (htrim ▸ infix_trim part)
      exact hrest.sublist.count_le '('
  have hgroupCount := ((infix_of_groupOf? hgroup).trans
    (infix_of_mem_atomTexts hatom)).sublist.count_le '('
  rw [List.cons_append, List.count_cons_self, List.count_append] at hgroupCount
  have := hpart.sublist.count_le '('
  omega

/-- **Targets without parentheses never make a text endless.** -/
theorem finishes_of_plain_targets (hplain : ∀ {parent child target : String},
    aliases.target? parent child = some target → '(' ∉ target.toList) (text : String) :
    Finishes aliases text := by
  have hends : ∀ n text, text.count '(' = n → Ends aliases text := by
    intro n
    induction n using Nat.strong_induction_on with
    | _ n ih =>
      rintro text rfl
      refine ends_iff_forall_needs.mpr fun inner hneeds => ?_
      exact ih _ (count_lt_of_mem_textsBelow hplain hneeds.below) inner rfl
  exact fun spread _ => hends _ spread rfl

end Finishes

end QueryTerms.Term
