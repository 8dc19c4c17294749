import Mathlib.Data.List.Forall2
import QueryTerms.Query.Execution

/-!
# What a success says about its steps

Readers, row operations and whole executions are chains of steps each of which can fail.  A chain
that succeeds has succeeded at every step, and this file takes it apart there.

**Steps.**  `bind_eq_ok_iff` for two steps, `mapM_eq_ok_iff` for one step on every item of a list.

**Executions.**  `Execution.bind_eq_ok_iff` does the same with the statements that were sent: those
of the first step, then those of the second.  Where only the result matters, `Execution.Gives`
carries a property through a chain.
-/

namespace QueryTerms

variable {ε α β : Type}

/-! ## Steps -/

lemma ok_bind_eq (value : α) (next : α → Except ε β) : .ok value >>= next = next value := rfl

/-- Two steps succeed together if the second one does on what the first one gives. -/
lemma bind_eq_ok_iff {step : Except ε α} {next : α → Except ε β} {result : β} :
    step >>= next = .ok result ↔ ∃ value, step = .ok value ∧ next value = .ok result := by
  cases step with
  | error cause => simp [bind, Except.bind]
  | ok value => simp [bind, Except.bind]

lemma bind_eq_error_iff {step : Except ε α} {next : α → Except ε β} {cause : ε} :
    step >>= next = .error cause ↔
      step = .error cause ∨ ∃ value, step = .ok value ∧ next value = .error cause := by
  cases step with
  | error other => simp [bind, Except.bind]
  | ok value => simp [bind, Except.bind]

/-- What comes after a step matters for what the step gives. -/
lemma bind_congr_ok {step : Except ε α} {next other : α → Except ε β}
    (h : ∀ value, step = .ok value → next value = other value) :
    step >>= next = step >>= other := by
  cases step with
  | error cause => simp only [bind, Except.bind]
  | ok value => simp only [bind, Except.bind, h value rfl]

lemma map_eq_ok_iff {step : Except ε α} {f : α → β} {result : β} :
    f <$> step = .ok result ↔ ∃ value, step = .ok value ∧ f value = result := by
  cases step with
  | error cause => simp [Functor.map, Except.map]
  | ok value => simp [Functor.map, Except.map]

/-- A step on every item succeeds if it does on each of them. -/
theorem mapM_eq_ok_iff {step : α → Except ε β} {items : List α} {results : List β} :
    items.mapM step = .ok results ↔
      List.Forall₂ (fun item result => step item = .ok result) items results := by
  induction items generalizing results with
  | nil =>
    rw [List.mapM_nil, List.forall₂_nil_left_iff]
    simp [pure, Except.pure, eq_comm]
  | cons item rest ih =>
    rw [List.mapM_cons, bind_eq_ok_iff]
    constructor
    · rintro ⟨first, hfirst, h⟩
      obtain ⟨others, hothers, h⟩ := bind_eq_ok_iff.mp h
      cases h
      exact .cons hfirst (ih.mp hothers)
    · rintro (_ | ⟨hfirst, hothers⟩)
      exact ⟨_, hfirst, bind_eq_ok_iff.mpr ⟨_, ih.mpr hothers, rfl⟩⟩

lemma mapM_congr_mem {step other : α → Except ε β} {items : List α}
    (h : ∀ item ∈ items, step item = other item) : items.mapM step = items.mapM other := by
  induction items with
  | nil => rfl
  | cons first rest ih =>
    rw [List.forall_mem_cons] at h
    rw [List.mapM_cons, List.mapM_cons, h.1, ih h.2]

/-- What every step keeps holds in the end. -/
theorem foldlM_induction {P : β → Prop} {step : β → α → Except ε β} {items : List α}
    (hstep : ∀ state item next, item ∈ items → P state → step state item = .ok next → P next)
    {start : β} (hstart : P start) {result : β} (h : items.foldlM step start = .ok result) :
    P result := by
  induction items generalizing start with
  | nil =>
    cases h
    exact hstart
  | cons item rest ih =>
    rw [List.foldlM_cons] at h
    obtain ⟨next, hnext, h⟩ := bind_eq_ok_iff.mp h
    exact ih (fun state item next hmem => hstep state item next (List.mem_cons_of_mem _ hmem))
      (hstep start item next List.mem_cons_self hstart hnext) h

lemma forall₂_exists_iff {γ : Type} {R : α → β → Prop} {S : β → γ → Prop} {items : List α}
    {results : List γ} :
    List.Forall₂ (fun item result => ∃ mid, R item mid ∧ S mid result) items results ↔
      ∃ mids, List.Forall₂ R items mids ∧ List.Forall₂ S mids results := by
  constructor
  · intro h
    induction h with
    | nil => exact ⟨[], .nil, .nil⟩
    | cons hfirst _ ih =>
      obtain ⟨mid, hR, hS⟩ := hfirst
      obtain ⟨mids, hRs, hSs⟩ := ih
      exact ⟨mid :: mids, .cons hR hRs, .cons hS hSs⟩
  · rintro ⟨mids, hRs, hSs⟩
    induction hRs generalizing results with
    | nil =>
      cases hSs
      exact .nil
    | cons hR _ ih =>
      obtain _ | ⟨hS, hSs⟩ := hSs
      exact .cons ⟨_, hR, hS⟩ (ih hSs)

lemma forall₂_iff_forall_mem {R S : α → β → Prop} {P : α → Prop} {items : List α}
    {results : List β} (h : List.Forall₂ R items results)
    (hiff : ∀ item result, R item result → (S item result ↔ P item)) :
    List.Forall₂ S items results ↔ ∀ item ∈ items, P item := by
  induction h with
  | nil => simp
  | cons hfirst _ ih => rw [List.forall₂_cons, List.forall_mem_cons, hiff _ _ hfirst, ih]

/-- **Stage by stage or item by item.**  Taking all items through one stage after another is taking
each item through all stages. -/
theorem foldlM_mapM_eq_ok_iff {step : β → α → Except ε α} {stages : List β}
    {items results : List α} :
    stages.foldlM (fun items stage => items.mapM (step stage)) items = .ok results ↔
      List.Forall₂ (fun item result =>
        stages.foldlM (fun item stage => step stage item) item = .ok result) items results := by
  induction stages generalizing items with
  | nil =>
    simp only [List.foldlM_nil, pure, Except.pure, Except.ok.injEq]
    rw [List.forall₂_eq_eq_eq]
  | cons stage rest ih =>
    simp only [List.foldlM_cons, bind_eq_ok_iff, mapM_eq_ok_iff, ih, forall₂_exists_iff]

/-- Whatever stands on the right of a relation between lists has a partner on the left. -/
lemma exists_of_forall₂_right {R : α → β → Prop} {items : List α} {results : List β}
    (h : List.Forall₂ R items results) {result : β} (hmem : result ∈ results) :
    ∃ item ∈ items, R item result := by
  induction h with
  | nil => cases hmem
  | cons hfirst _ ih =>
    rcases List.mem_cons.mp hmem with rfl | hmem
    · exact ⟨_, List.mem_cons_self, hfirst⟩
    · obtain ⟨item, hitem, hR⟩ := ih hmem
      exact ⟨item, List.mem_cons_of_mem _ hitem, hR⟩

lemma forall_mem_iff_of_forall₂ {R : α → β → Prop} {P : α → Prop} {Q : β → Prop} {items : List α}
    {results : List β} (h : List.Forall₂ R items results)
    (hiff : ∀ item ∈ items, ∀ result, R item result → (Q result ↔ P item)) :
    (∀ result ∈ results, Q result) ↔ ∀ item ∈ items, P item := by
  induction h with
  | nil => exact ⟨nofun, nofun⟩
  | cons hfirst _ ih =>
    obtain ⟨hhere, hrest⟩ := List.forall_mem_cons.mp hiff
    rw [List.forall_mem_cons, List.forall_mem_cons, hhere _ hfirst, ih hrest]

lemma exists_of_filterMapM {step : α → Except ε (Option β)} {items : List α} {results : List β}
    (h : items.filterMapM step = .ok results) {result : β} (hmem : result ∈ results) :
    ∃ item ∈ items, step item = .ok (some result) := by
  induction items generalizing results with
  | nil =>
    rw [List.filterMapM_nil] at h
    cases h
    cases hmem
  | cons item rest ih =>
    rw [List.filterMapM_cons] at h
    obtain ⟨first, hfirst, h⟩ := bind_eq_ok_iff.mp h
    cases first with
    | none =>
      obtain ⟨found, hfound, hstep⟩ := ih h hmem
      exact ⟨found, List.mem_cons_of_mem _ hfound, hstep⟩
    | some first =>
      obtain ⟨others, hothers, h⟩ := bind_eq_ok_iff.mp h
      cases h
      rcases List.mem_cons.mp hmem with rfl | hmem
      · exact ⟨item, List.mem_cons_self, hfirst⟩
      · obtain ⟨found, hfound, hstep⟩ := ih hothers hmem
        exact ⟨found, List.mem_cons_of_mem _ hfound, hstep⟩

/-! ## Executions -/

namespace Execution

lemma ok_inj {value other : α} {sent asked : List Statement}
    (h : (⟨.ok value, sent⟩ : Execution α) = ⟨.ok other, asked⟩) :
    value = other ∧ sent = asked := by
  obtain ⟨houtcome, hsent⟩ := mk.inj h
  exact ⟨Except.ok.inj houtcome, hsent⟩

lemma pure_eq_ok_iff {value result : α} {sent : List Statement} :
    (pure value : Execution α) = ⟨.ok result, sent⟩ ↔ value = result ∧ sent = [] := by
  rw [pure_eq, Execution.mk.injEq, Except.ok.injEq]
  exact and_congr_right fun _ => eq_comm

lemma ofExcept_eq_ok_iff {outcome : Except QueryError α} {result : α} {sent : List Statement} :
    ofExcept outcome = ⟨.ok result, sent⟩ ↔ outcome = .ok result ∧ sent = [] := by
  rw [ofExcept, Execution.mk.injEq]
  exact and_congr_right fun _ => eq_comm

lemma ok_bind (value : α) (sent : List Statement) (next : α → Execution β) :
    (⟨.ok value, sent⟩ : Execution α) >>= next =
      ⟨(next value).outcome, sent ++ (next value).statements⟩ := rfl

lemma error_bind (cause : QueryError) (sent : List Statement) (next : α → Execution β) :
    (⟨.error cause, sent⟩ : Execution α) >>= next = ⟨.error cause, sent⟩ := rfl

lemma liftM_bind_of_ok {outcome : Except QueryError α} {value : α} (h : outcome = .ok value)
    (next : α → Execution β) : (liftM outcome : Execution α) >>= next = next value := by
  rw [h]
  rfl

/-- Nothing is sent after a step that fails. -/
lemma liftM_bind_of_error {outcome : Except QueryError α} {cause : QueryError}
    (h : outcome = .error cause) (next : α → Execution β) :
    (liftM outcome : Execution α) >>= next = fail cause := by
  rw [h]
  rfl

/-- Two executions succeed together if the second one does on what the first one gives; the
statements of the first one come first. -/
theorem bind_eq_ok_iff {run : Execution α} {next : α → Execution β} {result : β}
    {sent : List Statement} :
    run >>= next = ⟨.ok result, sent⟩ ↔
      ∃ value before after, run = ⟨.ok value, before⟩ ∧ next value = ⟨.ok result, after⟩ ∧
        sent = before ++ after := by
  obtain ⟨outcome, before⟩ := run
  rw [bind_eq, andThen]
  cases outcome with
  | error cause => simp
  | ok value =>
    simp only [mk.injEq, Except.ok.injEq]
    constructor
    · rintro ⟨hresult, rfl⟩
      refine ⟨value, before, (next value).statements, ⟨rfl, rfl⟩, ?_, rfl⟩
      rw [← hresult]
    · rintro ⟨_, _, after, ⟨rfl, rfl⟩, hnext, rfl⟩
      rw [hnext]
      exact ⟨rfl, rfl⟩

lemma liftM_bind_eq_ok_iff {outcome : Except QueryError α} {next : α → Execution β} {result : β}
    {sent : List Statement} :
    (liftM outcome : Execution α) >>= next = ⟨.ok result, sent⟩ ↔
      ∃ value, outcome = .ok value ∧ next value = ⟨.ok result, sent⟩ := by
  rw [bind_eq_ok_iff]
  constructor
  · rintro ⟨value, before, after, hvalue, hnext, hsent⟩
    obtain ⟨houtcome, hbefore⟩ := ofExcept_eq_ok_iff.mp hvalue
    rw [hbefore, List.nil_append] at hsent
    exact ⟨value, houtcome, hsent ▸ hnext⟩
  · rintro ⟨value, houtcome, hnext⟩
    exact ⟨value, [], sent, ofExcept_eq_ok_iff.mpr ⟨houtcome, rfl⟩, hnext, rfl⟩

lemma bind_pure_eq_ok_iff {run : Execution α} {f : α → β} {result : β} {sent : List Statement} :
    (run >>= fun value => pure (f value)) = ⟨.ok result, sent⟩ ↔
      ∃ value, run = ⟨.ok value, sent⟩ ∧ f value = result := by
  rw [bind_eq_ok_iff]
  constructor
  · rintro ⟨value, before, after, hrun, hnext, hsent⟩
    obtain ⟨hresult, hafter⟩ := pure_eq_ok_iff.mp hnext
    rw [hafter, List.append_nil] at hsent
    exact ⟨value, hsent ▸ hrun, hresult⟩
  · rintro ⟨value, hrun, hresult⟩
    exact ⟨value, sent, [], hrun, pure_eq_ok_iff.mpr ⟨hresult, rfl⟩, (List.append_nil sent).symm⟩

/-- Whatever the execution gives satisfies `P`. -/
def Gives (run : Execution α) (P : α → Prop) : Prop := ∀ value, run.outcome = .ok value → P value

variable {P : α → Prop} {Q : β → Prop}

lemma gives_true (run : Execution α) : run.Gives fun _ => True := fun _ _ => trivial

lemma gives_pure {value : α} (h : P value) : (pure value : Execution α).Gives P := by
  rintro _ ⟨⟩
  exact h

lemma gives_bind {run : Execution α} {next : α → Execution β} (hrun : run.Gives P)
    (hnext : ∀ value, P value → (next value).Gives Q) : (run >>= next).Gives Q := by
  obtain ⟨outcome, sent⟩ := run
  intro result h
  cases outcome with
  | error cause => cases h
  | ok value => exact hnext value (hrun value rfl) result h

/-- What every step keeps holds in the end. -/
lemma gives_foldlM {step : β → α → Execution β} {items : List α} {start : β} (hstart : Q start)
    (hstep : ∀ state item, item ∈ items → Q state → (step state item).Gives Q) :
    (items.foldlM step start).Gives Q := by
  induction items generalizing start with
  | nil => exact gives_pure hstart
  | cons item rest ih =>
    rw [List.foldlM_cons]
    refine gives_bind (hstep start item List.mem_cons_self hstart) fun next hnext => ?_
    exact ih hnext fun state other hmem => hstep state other (List.mem_cons_of_mem _ hmem)

end Execution

end QueryTerms
