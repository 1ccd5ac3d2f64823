import RuleDiagram.Proofs.Analysis.Outcomes

/-!
# The budget for escape grafts

The failing examples are tried one after another, in random order, until the budget for grafts is
used up. An attempt without a graft uses up nothing. So the order decides which of the grafts are
found, and not how many: a graft is missing only where the budget is used up by others. Attempts
that are due before that have to come to an end, and they do if the facts that they put in order
have a written form.

## Main definitions

* `brought`: the graft that an attempt brings
* `Due`: the attempt at a place is made before the budget is used up
* `Analyzer.attempt`: the attempts at the examples of an analysis

## Main results

* `graftsFor_eq_ok_iff`: attempts in turn give the first grafts that are brought
* `Analyzer.escapeCandidates_exact`: how many grafts are found, which ones, and when
-/

namespace RuleDiagram

/-! ## Attempts in turn -/

section Attempts

variable {ε : Type} {attempt : ℕ → Except ε (Option Mutation)} {budget place first : ℕ}
  {places rest order : List ℕ} {graft : Mutation} {grafts : List Mutation} {f : ε}

/-- The graft that the attempt at a place brings, if it comes to an end with one. -/
def brought (attempt : ℕ → Except ε (Option Mutation)) (place : ℕ) : Option Mutation :=
  (attempt place).toOption.join

theorem brought_of_eq_ok {result : Option Mutation} (h : attempt place = .ok result) :
    brought attempt place = result := by
  rw [brought, h]
  rfl

theorem brought_eq_some_iff : brought attempt place = some graft ↔
    attempt place = .ok (some graft) := by
  rw [brought, Option.join_eq_some_iff, Except.toOption_eq_some_iff]

/-- **The attempt at a place is due**: those at the places before it bring fewer grafts than the
budget allows. -/
def Due (attempt : ℕ → Except ε (Option Mutation)) (budget : ℕ) (places : List ℕ) (place : ℕ) :
    Prop :=
  ∃ before after, places = before ++ place :: after ∧
    (before.filterMap (brought attempt)).length < budget

theorem Due.mem (h : Due attempt budget places place) : place ∈ places := by
  obtain ⟨before, after, rfl, -⟩ := h
  exact List.mem_append_right before List.mem_cons_self

theorem Due.pos (h : Due attempt budget places place) : 0 < budget := by
  obtain ⟨before, after, -, hlt⟩ := h
  exact Nat.zero_lt_of_lt hlt

theorem due_first (hbudget : 0 < budget) : Due attempt budget (first :: rest) first :=
  ⟨[], rest, rfl, hbudget⟩

/-- After the first attempt those are due that its graft, if there is one, leaves a budget for. -/
theorem due_cons (budget spent : ℕ) (hspent : (brought attempt first).toList.length = spent)
    (hpos : 0 < budget + spent) : Due attempt (budget + spent) (first :: rest) place ↔
      place = first ∨ Due attempt budget rest place := by
  have hsplit (before : List ℕ) : ((first :: before).filterMap (brought attempt)).length =
      (before.filterMap (brought attempt)).length + spent := by
    rw [List.filterMap_cons, ← hspent]
    cases brought attempt first <;> rfl
  constructor
  · rintro ⟨before, after, heq, hlt⟩
    cases before with
    | nil => exact .inl (List.head_eq_of_cons_eq heq).symm
    | cons _ before =>
      obtain ⟨rfl, rfl⟩ := List.cons.inj heq
      rw [hsplit] at hlt
      exact .inr ⟨before, after, rfl, Nat.lt_of_add_lt_add_right hlt⟩
  · rintro (rfl | ⟨before, after, rfl, hlt⟩)
    · exact due_first hpos
    · refine ⟨first :: before, after, rfl, ?_⟩
      rw [hsplit]
      exact Nat.add_lt_add_right hlt spent

theorem due_cons_of_none (h : attempt first = .ok none) :
    Due attempt (budget + 1) (first :: rest) place ↔
      place = first ∨ Due attempt (budget + 1) rest place :=
  due_cons (budget + 1) 0 (by rw [brought_of_eq_ok h]; rfl) (Nat.succ_pos budget)

theorem due_cons_of_some (h : attempt first = .ok (some graft)) :
    Due attempt (budget + 1) (first :: rest) place ↔
      place = first ∨ Due attempt budget rest place :=
  due_cons budget 1 (by rw [brought_of_eq_ok h]; rfl) (Nat.succ_pos budget)

theorem graftsFor_cons : graftsFor attempt (budget + 1) (first :: rest) =
    (attempt first >>= fun
      | some graft => graftsFor attempt budget rest >>= fun others => pure (graft :: others)
      | none => graftsFor attempt (budget + 1) rest) := rfl

/-- **Attempts in turn** give the first grafts that are brought, as many as the budget allows, if
all attempts that are due come to an end. -/
theorem graftsFor_eq_ok_iff : graftsFor attempt budget places = .ok grafts ↔
    (∀ place, Due attempt budget places place → ∃ result, attempt place = .ok result) ∧
      (places.filterMap (brought attempt)).take budget = grafts := by
  induction places generalizing budget grafts with
  | nil =>
    have hnone : ∀ place, Due attempt budget [] place → ∃ result, attempt place = .ok result :=
      fun place h => nomatch h.mem
    have hnil : graftsFor attempt budget [] = .ok [] := by cases budget <;> rfl
    rw [hnil, Except.ok.injEq, List.filterMap_nil, List.take_nil]
    exact (and_iff_right hnone).symm
  | cons first rest ih =>
    cases budget with
    | zero =>
      have hnone : ∀ place, Due attempt 0 (first :: rest) place →
          ∃ result, attempt place = .ok result := fun place h => absurd h.pos (lt_irrefl 0)
      have hnil : graftsFor attempt 0 (first :: rest) = .ok [] := rfl
      rw [hnil, Except.ok.injEq, List.take_zero]
      exact (and_iff_right hnone).symm
    | succ budget =>
      cases hfirst : attempt first with
      | error f =>
        -- The first attempt is due and comes to no end.
        rw [graftsFor_cons, hfirst]
        refine iff_of_false (fun h => nomatch h) fun ⟨hdue, _⟩ => ?_
        obtain ⟨result, hresult⟩ := hdue first (due_first (Nat.succ_pos budget))
        cases hfirst.symm.trans hresult
      | ok result =>
        have hends : ∃ result, attempt first = .ok result := ⟨result, hfirst⟩
        rw [graftsFor_cons, hfirst, List.filterMap_cons, brought_of_eq_ok hfirst]
        -- Without a graft the whole budget is left for the rest, with one a graft less.
        cases result with
        | none =>
          simp only [due_cons_of_none hfirst, forall_eq_or_imp, hends, true_and]
          exact ih
        | some graft =>
          simp only [due_cons_of_some hfirst, forall_eq_or_imp, hends, true_and]
          rw [List.take_succ_cons]
          refine (Except.bind_eq_ok_iff (x := graftsFor attempt budget rest)).trans ?_
          simp only [ih, Except.pure_eq_ok_iff]
          constructor
          · rintro ⟨others, ⟨hdue, rfl⟩, rfl⟩
            exact ⟨hdue, rfl⟩
          · rintro ⟨hdue, rfl⟩
            exact ⟨_, ⟨hdue, rfl⟩, rfl⟩

/-- Attempts in turn fail as an attempt does that is due. -/
theorem exists_of_graftsFor_eq_error (h : graftsFor attempt budget places = .error f) :
    ∃ place, Due attempt budget places place ∧ attempt place = .error f := by
  induction places generalizing budget with
  | nil => cases budget <;> cases h
  | cons first rest ih =>
    cases budget with
    | zero => cases h
    | succ budget =>
      rw [graftsFor_cons] at h
      obtain h | ⟨result, hfirst, h⟩ := Except.bind_eq_error_iff.1 h
      · exact ⟨first, due_first (Nat.succ_pos budget), h⟩
      · cases result with
        | none =>
          obtain ⟨place, hdue, hplace⟩ := ih h
          exact ⟨place, (due_cons_of_none hfirst).2 (.inr hdue), hplace⟩
        | some graft =>
          obtain h | ⟨_, -, h⟩ := Except.bind_eq_error_iff.1 h
          · obtain ⟨place, hdue, hplace⟩ := ih h
            exact ⟨place, (due_cons_of_some hfirst).2 (.inr hdue), hplace⟩
          · cases h

/-! ## Where the grafts come from -/

/-- Grafts that are brought in turn come from places of their own. -/
theorem exists_places_of_sublist (h : grafts.Sublist (places.filterMap (brought attempt))) :
    ∃ chosen, chosen.Sublist places ∧
      List.Forall₂ (fun place graft => attempt place = .ok (some graft)) chosen grafts := by
  induction places generalizing grafts with
  | nil =>
    obtain rfl := List.sublist_nil.1 h
    exact ⟨[], .slnil, .nil⟩
  | cons first rest ih =>
    rw [List.filterMap_cons] at h
    split at h
    · obtain ⟨chosen, hchosen, hgrafts⟩ := ih h
      exact ⟨chosen, hchosen.cons first, hgrafts⟩
    · next graft hgraft =>
      cases h with
      | cons _ h =>
        obtain ⟨chosen, hchosen, hgrafts⟩ := ih h
        exact ⟨chosen, hchosen.cons first, hgrafts⟩
      | cons_cons _ h =>
        obtain ⟨chosen, hchosen, hgrafts⟩ := ih h
        exact ⟨first :: chosen, hchosen.cons_cons first,
          .cons (brought_eq_some_iff.1 hgraft) hgrafts⟩

/-- The order of the attempts decides which grafts are found and not how many, and only where the
budget does not cover all of them. -/
theorem take_brought_of_perm (horder : order.Perm places) (hplaces : places.Nodup)
    (hgrafts : (order.filterMap (brought attempt)).take budget = grafts) :
    grafts.length = min budget (places.countP fun place => (brought attempt place).isSome) ∧
      (∃ chosen, chosen.Nodup ∧ chosen ⊆ places ∧
        List.Forall₂ (fun place graft => attempt place = .ok (some graft)) chosen grafts) ∧
      ((places.countP fun place => (brought attempt place).isSome) ≤ budget →
        grafts.Perm (places.filterMap (brought attempt))) := by
  -- Another order brings the same grafts in another order.
  have hperm : (order.filterMap (brought attempt)).Perm (places.filterMap (brought attempt)) :=
    horder.filterMap _
  have hlength : (order.filterMap (brought attempt)).length =
      places.countP fun place => (brought attempt place).isSome := by
    rw [hperm.length_eq, List.length_filterMap_eq_countP]
  refine ⟨?_, ?_, fun hbudget => ?_⟩
  · rw [← hgrafts, List.length_take, hlength]
  · obtain ⟨chosen, hchosen, hforall⟩ :=
      exists_places_of_sublist (hgrafts ▸ List.take_sublist budget _)
    exact ⟨chosen, hchosen.nodup (horder.nodup_iff.2 hplaces),
      fun place h => horder.mem_iff.1 (hchosen.subset h), hforall⟩
  · rw [← hgrafts, List.take_of_length_le (hlength.le.trans hbudget)]
    exact hperm

end Attempts

/-! ## Escape grafts -/

namespace Analyzer

variable {σ : Type} [RandomSource σ] {a : Analyzer} {d : Diagram} {examples : List Example}
  {evaluations : List (Option Evaluation)} {failing : List ℕ} {s s' : σ} {grafts : List Mutation}
  {f : AnalysisFault}

/-- The attempts at the examples of an analysis. -/
def attempt (a : Analyzer) (d : Diagram) (examples : List Example)
    (evaluations : List (Option Evaluation)) (place : ℕ) : Except AnalysisFault (Option Mutation) :=
  a.escapeGraft d examples evaluations place

/-- How many of the places have an example that admits a graft. -/
def admitting (a : Analyzer) (d : Diagram) (examples : List Example)
    (evaluations : List (Option Evaluation)) (places : List ℕ) : ℕ :=
  places.countP fun place => (brought (a.attempt d examples evaluations) place).isSome

theorem escapeCandidates_eq_ok_iff :
    a.escapeCandidates d examples evaluations failing s = .ok (grafts, s') ↔
      graftsFor (a.attempt d examples evaluations) a.escapeBudget (shuffle failing s).1 =
          .ok grafts ∧
        (shuffle failing s).2 = s' := by
  refine Except.bind_eq_ok_iff.trans ?_
  simp only [Except.pure_eq_ok_iff, Prod.mk.injEq]
  constructor
  · rintro ⟨_, h, rfl, rfl⟩
    exact ⟨h, rfl⟩
  · rintro ⟨h, rfl⟩
    exact ⟨grafts, h, rfl, rfl⟩

theorem escapeCandidates_eq_error_iff :
    a.escapeCandidates d examples evaluations failing s = .error f ↔
      graftsFor (a.attempt d examples evaluations) a.escapeBudget (shuffle failing s).1 =
        .error f := by
  refine Except.bind_eq_error_iff.trans (or_iff_left ?_)
  rintro ⟨_, -, h⟩
  cases h

/-- Escape grafts are found if and only if all attempts that are due come to an end. -/
theorem exists_escapeCandidates_iff :
    (∃ result, a.escapeCandidates d examples evaluations failing s = .ok result) ↔
      ∀ place, Due (a.attempt d examples evaluations) a.escapeBudget (shuffle failing s).1 place →
        ∃ result, a.attempt d examples evaluations place = .ok result := by
  constructor
  · rintro ⟨⟨grafts, s'⟩, h⟩
    exact (graftsFor_eq_ok_iff.1 (escapeCandidates_eq_ok_iff.1 h).1).1
  · intro h
    exact ⟨⟨_, _⟩, escapeCandidates_eq_ok_iff.2 ⟨graftsFor_eq_ok_iff.2 ⟨h, rfl⟩, rfl⟩⟩

/-- **Examples that admit no graft do not use up the budget.** Whatever the state of the source, the
grafts found are as many as the budget allows and the examples admit, from different failing
examples, and all there are if the budget covers them. They are found if and only if all attempts
that are due come to an end; otherwise the fault is that of an attempt. On a valid diagram and
examples with registered predicates, an attempt comes to an end if and only if the facts that it
puts in order have a written form. -/
theorem escapeCandidates_exact (hfailing : failing.Nodup) (s : σ) :
    (∀ grafts s', a.escapeCandidates d examples evaluations failing s = .ok (grafts, s') →
      grafts.length = min a.escapeBudget (a.admitting d examples evaluations failing) ∧
        (∃ places, places.Nodup ∧ places ⊆ failing ∧ List.Forall₂
          (fun place graft => a.attempt d examples evaluations place = .ok (some graft))
          places grafts) ∧
        (a.admitting d examples evaluations failing ≤ a.escapeBudget →
          grafts.Perm (failing.filterMap (brought (a.attempt d examples evaluations))))) ∧
    ((∃ result, a.escapeCandidates d examples evaluations failing s = .ok result) ↔
      ∀ place, Due (a.attempt d examples evaluations) a.escapeBudget (shuffle failing s).1 place →
        ∃ result, a.attempt d examples evaluations place = .ok result) ∧
    (∀ f, a.escapeCandidates d examples evaluations failing s = .error f →
      ∃ place ∈ failing, a.attempt d examples evaluations place = .error f) ∧
    (d.fault? a.registry = none →
      (∀ x ∈ examples, x.Known fun f => ∀ r, a.registry = some r → r.has f.predicate) →
      a.evaluations d examples = .ok evaluations →
      (∀ place ∈ failing, place < examples.length) →
      ((∃ result, a.escapeCandidates d examples evaluations failing s = .ok result) ↔
        ∀ place, Due (a.attempt d examples evaluations) a.escapeBudget (shuffle failing s).1 place →
          ∀ f ∈ a.attemptFacts d examples place, f.Textual)) := by
  have hperm : (shuffle failing s).1.Perm failing := perm_shuffle failing s
  refine ⟨fun grafts s' h => ?_, exists_escapeCandidates_iff, fun f h => ?_,
    fun hd hregistered hevaluations hrange => ?_⟩
  · obtain ⟨-, hgrafts⟩ := graftsFor_eq_ok_iff.1 (escapeCandidates_eq_ok_iff.1 h).1
    exact take_brought_of_perm hperm hfailing hgrafts
  · obtain ⟨place, hdue, hplace⟩ :=
      exists_of_graftsFor_eq_error (escapeCandidates_eq_error_iff.1 h)
    exact ⟨place, hperm.mem_iff.1 hdue.mem, hplace⟩
  · rw [exists_escapeCandidates_iff]
    refine forall_congr' fun place => imp_congr_right fun hdue => ?_
    obtain ⟨mended, hmended⟩ : ∃ mended, examples[place]? = some mended :=
      ⟨_, List.getElem?_eq_getElem (hrange place (hperm.mem_iff.1 hdue.mem))⟩
    exact (ends_escapeGraft hd hregistered hevaluations hmended).2

end Analyzer

namespace CopyRule

/-- An example that wants another number for zero. No diagram gets it right beside the example of
zero. -/
def opposed (n : Int) : Example := { exampleOf 0 with outputs := (exampleOf n).outputs }

def opposedExamples : List Example := [exampleOf 0, opposed 1, opposed 2, exampleOf 5]

/-- An analyzer with a budget for one graft. -/
def sparing : Analyzer := { analyzer with escapeBudget := 1 }

/-- The two examples that admit no graft leave the budget to the third one. -/
theorem escapeCandidates_opposed : ∃ evaluations grafts s',
    sparing.evaluations seed opposedExamples = .ok evaluations ∧
    sparing.failing seed opposedExamples = .ok [1, 2, 3] ∧
    sparing.escapeCandidates seed opposedExamples evaluations [1, 2, 3] (Congruential.ofSeed 0) =
      .ok (grafts, s') ∧
    grafts.length = 1 ∧
    grafts.Perm
      ([1, 2, 3].filterMap (brought (sparing.attempt seed opposedExamples evaluations))) := by
  have hall : (sparing.evaluations seed opposedExamples).toOption.any fun evaluations =>
      (sparing.failing seed opposedExamples).toOption == some [1, 2, 3] &&
      sparing.admitting seed opposedExamples evaluations [1, 2, 3] == 1 &&
      (sparing.escapeCandidates seed opposedExamples evaluations [1, 2, 3]
        (Congruential.ofSeed 0)).toOption.isSome := by
    decide +kernel
  obtain ⟨evaluations, hevaluations, hall⟩ := Except.exists_of_any_toOption hall
  simp only [Bool.and_eq_true, beq_iff_eq, Option.isSome_iff_exists] at hall
  obtain ⟨⟨hfailing, hadmitting⟩, ⟨grafts, s'⟩, hgrafts⟩ := hall
  have hgrafts := Except.toOption_eq_some_iff.1 hgrafts
  have hnodup : [1, 2, 3].Nodup := by decide
  obtain ⟨hlength, -, hperm⟩ :=
    (Analyzer.escapeCandidates_exact hnodup (Congruential.ofSeed 0)).1 grafts s' hgrafts
  rw [hadmitting] at hlength hperm
  exact ⟨evaluations, grafts, s', hevaluations, Except.toOption_eq_some_iff.1 hfailing, hgrafts,
    hlength, hperm (by decide)⟩

/-- The example of the absent value keeps the graft for another one from being found. -/
theorem not_forall_escapeCandidates : ¬ ∀ (a : Analyzer) (d : Diagram) (registry : Registry)
    (examples : List Example) (evaluations : List (Option Evaluation)) (failing : List ℕ)
    (s : Congruential), d.validate a.registry = .ok d → a.registry = some registry →
    (∀ x ∈ examples, ∀ f ∈ x.inputs ++ x.outputs, registry.has f.predicate) →
    a.evaluations d examples = .ok evaluations → a.failing d examples = .ok failing →
    ∃ grafts s', a.escapeCandidates d examples evaluations failing s = .ok (grafts, s') ∧
      grafts.length = min a.escapeBudget (a.admitting d examples evaluations failing) := by
  intro h
  have hall : (analyzer.evaluations seed [absentExample, exampleOf 1]).toOption.any
      fun evaluations =>
        (analyzer.failing seed [absentExample, exampleOf 1]).toOption == some [0, 1] &&
        (analyzer.escapeCandidates seed [absentExample, exampleOf 1] evaluations [0, 1]
          (Congruential.ofSeed 0)).toOption.isNone := by
    decide +kernel
  obtain ⟨evaluations, hevaluations, hall⟩ := Except.exists_of_any_toOption hall
  simp only [Bool.and_eq_true, beq_iff_eq] at hall
  obtain ⟨hfailing, hnone⟩ := hall
  obtain ⟨grafts, s', hgrafts, -⟩ := h analyzer seed _ [absentExample, exampleOf 1] evaluations
    [0, 1] (Congruential.ofSeed 0) rfl rfl (by decide) hevaluations
    (Except.toOption_eq_some_iff.1 hfailing)
  rw [hgrafts] at hnone
  cases hnone

end CopyRule

end RuleDiagram
